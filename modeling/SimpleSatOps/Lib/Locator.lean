import SimpleSatOps.Lib.Massey
import Mathlib.Algebra.Polynomial.Derivative

/-!
# Error locators and evaluators

A finite family of locators `x j` with weights `c j` has the power sums `∑ c j * x j ^ i`. The locator
`∏ (1 - x j X)` generates them with a register whose length is the number of locators; the numerator is the
evaluator, from which each weight is read back at the root `(x j)⁻¹`.

* `locator_mul_powerSums` : the key equation;
* `generates_locator` : the locator is a register for the power sums;
* `isCoprime_locator` : it is coprime to the evaluator when the locators are distinct and the weights non-zero;
* `weight_eq` : the weight of a locator from the evaluator and the derivative of the locator polynomial.
-/

namespace SimpleSatOps.Locator
open Polynomial Massey

variable {F ι : Type*} [Field F]

/-- The polynomial whose roots are the inverses of the locators. -/
noncomputable def locator (s : Finset ι) (x : ι → F) : F[X] := ∏ j ∈ s, (1 - C (x j) * X)

/-- The first `n` power sums as a polynomial. -/
noncomputable def powerSums (s : Finset ι) (x c : ι → F) (n : ℕ) : F[X] :=
  ofSeq (fun i => ∑ j ∈ s, c j * x j ^ i) n

theorem powerSums_eq_sum (s : Finset ι) (x c : ι → F) (n : ℕ) :
    powerSums s x c n = ∑ j ∈ s, C (c j) * ∑ i ∈ Finset.range n, C (x j ^ i) * X ^ i := by
  simp only [powerSums, ofSeq, Finset.mul_sum, map_sum, map_mul, Finset.sum_mul, mul_assoc]
  exact Finset.sum_comm

/-! ## Degrees and coefficients -/

theorem natDegree_factor {a : F} (ha : a ≠ 0) : (1 - C a * X).natDegree = 1 := by
  rw [natDegree_sub_eq_right_of_natDegree_lt] <;> simp [natDegree_C_mul_X a ha]

theorem factor_ne_zero (a : F) : (1 - C a * X) ≠ 0 := fun h => by
  simpa using congrArg (coeff · 0) h

theorem natDegree_locator {s : Finset ι} {x : ι → F} (hx : ∀ j ∈ s, x j ≠ 0) :
    (locator s x).natDegree = s.card := by
  rw [locator, natDegree_prod _ _ fun _ _ => factor_ne_zero _,
    Finset.sum_congr rfl fun j hj => natDegree_factor (hx j hj), Finset.sum_const, smul_eq_mul, mul_one]

theorem natDegree_locator_le (s : Finset ι) (x : ι → F) : (locator s x).natDegree ≤ s.card := by
  refine (natDegree_prod_le _ _).trans ((Finset.sum_le_card_nsmul _ _ 1 fun j _ => ?_).trans (by simp))
  exact (natDegree_sub_le _ _).trans (max_le (by simp) ((natDegree_C_mul_le _ _).trans natDegree_X_le))

theorem coeff_zero_locator (s : Finset ι) (x : ι → F) : (locator s x).coeff 0 = 1 := by
  rw [coeff_zero_eq_eval_zero, locator, eval_prod]
  exact Finset.prod_eq_one fun j _ => by simp

theorem eval_locator_eq_zero_iff (s : Finset ι) (x : ι → F) (y : F) :
    (locator s x).eval y = 0 ↔ ∃ j ∈ s, x j * y = 1 := by
  rw [locator, eval_prod, Finset.prod_eq_zero_iff]
  refine exists_congr fun j => and_congr_right fun _ => ?_
  rw [eval_sub, eval_one, eval_mul, eval_C, eval_X, sub_eq_zero, eq_comm]

/-! ## The key equation -/

variable [DecidableEq ι]

noncomputable def evaluator (s : Finset ι) (x c : ι → F) : F[X] :=
  ∑ j ∈ s, C (c j) * locator (s.erase j) x

theorem mul_geom (a : F) (n : ℕ) :
    (1 - C a * X) * ∑ i ∈ Finset.range n, C (a ^ i) * X ^ i = 1 - C (a ^ n) * X ^ n := by
  have h := mul_neg_geom_sum (C a * X) n
  simpa only [mul_pow, ← C_pow] using h

theorem locator_erase_mul {s : Finset ι} {j : ι} (hj : j ∈ s) (x : ι → F) :
    locator (s.erase j) x * (1 - C (x j) * X) = locator s x :=
  Finset.prod_erase_mul s (fun j => 1 - C (x j) * X) hj

/-- **The key equation**: locator times power sums is the evaluator up to a multiple of `X ^ n`. -/
theorem locator_mul_powerSums (s : Finset ι) (x c : ι → F) (n : ℕ) :
    locator s x * powerSums s x c n =
      evaluator s x c - X ^ n * ∑ j ∈ s, C (c j * x j ^ n) * locator (s.erase j) x := by
  rw [powerSums_eq_sum, evaluator, Finset.mul_sum, Finset.mul_sum, ← Finset.sum_sub_distrib]
  refine Finset.sum_congr rfl fun j hj => ?_
  calc locator s x * (C (c j) * ∑ i ∈ Finset.range n, C (x j ^ i) * X ^ i)
      = C (c j) * locator (s.erase j) x *
          ((1 - C (x j) * X) * ∑ i ∈ Finset.range n, C (x j ^ i) * X ^ i) := by
        rw [← locator_erase_mul hj]; ring
    _ = C (c j) * locator (s.erase j) x * (1 - C (x j ^ n) * X ^ n) := by rw [mul_geom]
    _ = _ := by rw [C_mul]; ring

theorem coeff_evaluator {s : Finset ι} (x c : ι → F) {i : ℕ} (hi : s.card ≤ i) :
    (evaluator s x c).coeff i = 0 := by
  rw [evaluator, finsetSum_coeff]
  refine Finset.sum_eq_zero fun j hj => ?_
  have hcard := Finset.card_erase_lt_of_mem hj
  rw [coeff_C_mul, coeff_eq_zero_of_natDegree_lt ((natDegree_locator_le _ _).trans_lt (by omega)), mul_zero]

/-- Below `n` the product of the locator and the power sums is the evaluator. -/
theorem coeff_locator_mul_powerSums (s : Finset ι) (x c : ι → F) {n i : ℕ} (hi : i < n) :
    (locator s x * powerSums s x c n).coeff i = (evaluator s x c).coeff i := by
  rw [locator_mul_powerSums, coeff_sub, coeff_X_pow_mul', if_neg (by omega), sub_zero]

theorem generates_locator (s : Finset ι) (x c : ι → F) (n : ℕ) :
    Generates (powerSums s x c n) n (locator s x) s.card where
  coeff_zero := coeff_zero_locator s x
  natDegree_le := natDegree_locator_le s x
  coeff_mul i h1 h2 := by rw [coeff_locator_mul_powerSums s x c h2, coeff_evaluator x c h1]

theorem lowPart_locator_mul {s : Finset ι} (x c : ι → F) {n : ℕ} (hn : s.card ≤ n) :
    lowPart (locator s x * powerSums s x c n) n = evaluator s x c := by
  ext i
  rw [coeff_lowPart]
  split_ifs with hi
  · exact coeff_locator_mul_powerSums s x c hi
  · rw [coeff_evaluator x c (by omega)]

/-! ## Values at the roots -/

/-- The other factors of the locator do not vanish at the inverse of a locator distinct from theirs. -/
theorem eval_erase_ne_zero {s : Finset ι} {x : ι → F} (hinj : Set.InjOn x s) {j : ι} (hj : j ∈ s)
    (hxj : x j ≠ 0) : (locator (s.erase j) x).eval (x j)⁻¹ ≠ 0 := by
  intro h
  obtain ⟨l, hl, hxl⟩ := (eval_locator_eq_zero_iff _ _ _).mp h
  rw [Finset.mem_erase] at hl
  rw [mul_inv_eq_one₀ hxj] at hxl
  exact hl.1 (hinj hl.2 hj hxl)

theorem eval_erase_eq_zero {s : Finset ι} {x : ι → F} {j l : ι} (hj : j ∈ s) (hl : j ≠ l) (hxj : x j ≠ 0) :
    (locator (s.erase l) x).eval (x j)⁻¹ = 0 :=
  (eval_locator_eq_zero_iff _ _ _).mpr ⟨j, Finset.mem_erase.mpr ⟨hl, hj⟩, mul_inv_cancel₀ hxj⟩

theorem eval_evaluator {s : Finset ι} {x : ι → F} (c : ι → F) {j : ι} (hj : j ∈ s) (hxj : x j ≠ 0) :
    (evaluator s x c).eval (x j)⁻¹ = c j * (locator (s.erase j) x).eval (x j)⁻¹ := by
  rw [evaluator, eval_finsetSum, Finset.sum_eq_single j]
  · rw [eval_mul, eval_C]
  · intro l _ hlj
    rw [eval_mul, eval_erase_eq_zero hj hlj.symm hxj, mul_zero]
  · exact fun h => absurd hj h

theorem eval_derivative_locator {s : Finset ι} {x : ι → F} {j : ι} (hj : j ∈ s) (hxj : x j ≠ 0) :
    (derivative (locator s x)).eval (x j)⁻¹ = -x j * (locator (s.erase j) x).eval (x j)⁻¹ := by
  have hder : derivative (1 - C (x j) * X) = -C (x j) := by simp
  have hroot : (1 - C (x j) * X).eval (x j)⁻¹ = 0 := by simp [hxj]
  rw [← locator_erase_mul hj, derivative_mul, hder, eval_add, eval_mul, eval_mul, hroot, eval_neg, eval_C]
  rw [mul_zero, zero_add, mul_comm]

theorem isCoprime_locator {s : Finset ι} {x c : ι → F} (hinj : Set.InjOn x s) (hx : ∀ j ∈ s, x j ≠ 0)
    (hc : ∀ j ∈ s, c j ≠ 0) : IsCoprime (locator s x) (evaluator s x c) := by
  rw [locator]
  refine IsCoprime.prod_left fun j hj => ?_
  have hroot : (evaluator s x c).eval (x j)⁻¹ ≠ 0 := by
    rw [eval_evaluator c hj (hx j hj)]
    exact mul_ne_zero (hc j hj) (eval_erase_ne_zero hinj hj (hx j hj))
  have hfac : (1 - C (x j) * X) = C (-x j) * (X - C (x j)⁻¹) := by
    rw [mul_sub, ← C_mul, neg_mul, mul_inv_cancel₀ (hx j hj), C_neg, C_neg, C_1]
    ring
  rw [hfac]
  refine (isCoprime_mul_unit_left_left (isUnit_C.mpr (neg_ne_zero.mpr (hx j hj)).isUnit) _ _).mpr ?_
  exact (irreducible_X_sub_C _).coprime_iff_not_dvd.mpr fun h => hroot (dvd_iff_isRoot.mp h)

/-- **Forney's formula**: the weight of a locator from the evaluator and the derivative at its inverse. -/
theorem weight_eq {s : Finset ι} {x : ι → F} (c : ι → F) (hinj : Set.InjOn x s) {j : ι} (hj : j ∈ s)
    (hxj : x j ≠ 0) :
    c j = -x j * (evaluator s x c).eval (x j)⁻¹ / (derivative (locator s x)).eval (x j)⁻¹ := by
  rw [eval_evaluator c hj hxj, eval_derivative_locator hj hxj]
  have h := eval_erase_ne_zero hinj hj hxj
  rw [eq_div_iff (mul_ne_zero (neg_ne_zero.mpr hxj) h)]
  ring

/-- The recursion run on the power sums of at most `n / 2` distinct locators returns their locator. -/
theorem run_powerSums {s : Finset ι} {x c : ι → F} {n : ℕ} (hinj : Set.InjOn x s) (hx : ∀ j ∈ s, x j ≠ 0)
    (hc : ∀ j ∈ s, c j ≠ 0) (hn : 2 * s.card ≤ n) :
    (State.run (powerSums s x c n) n).Λ = locator s x := by
  refine (run_eq_of_coprime (generates_locator s x c n) (natDegree_locator hx) ?_ hn).1
  rw [lowPart_locator_mul x c (by omega)]
  exact isCoprime_locator hinj hx hc

end SimpleSatOps.Locator
