import SimpleSatOps.Proto.Rs.Chien

/-!
# Forney's magnitudes

The magnitude loop reads the evaluator `S Λ mod x ^ 32` and the odd part of `Λ` at a root `α ^ root`. In
characteristic two the odd part is the derivative.

* `mk_forneyNum1`, `mk_forneyDen` : the loop values as polynomial values;
* `forney_eq` : the block after the loop, when no denominator vanishes;
* `deriv_ne_zero` : none does when the locator has as many distinct roots as its degree.
-/

namespace SimpleSatOps.Rs
open Polynomial GF256

section Values
variable {syn lambdaIdx : List ℕ} {S P : GF256[X]}

/-- A product of two indices, guarded as the loop guards it. -/
theorem mk_guarded_mul_idx (i j : ℕ) :
    (⟨if i ≠ a0 ∧ j ≠ a0 then alphaTo (modnn (i + j)) else 0⟩ : GF256) = ofIdx i * ofIdx j := by
  split_ifs with h
  · rw [mk_alphaTo_modnn, pow_add, ofIdx, if_neg h.1, ofIdx, if_neg h.2]
  · rcases not_and_or.mp h with h | h
    · rw [not_not.mp h, ofIdx_a0, zero_mul, mk_zero]
    · rw [not_not.mp h, ofIdx_a0, mul_zero, mk_zero]

theorem mk_omegaCoeff (h : Locates lambdaIdx P) (hS : Holds syn S) {i : ℕ} (hi : i < nroots) :
    (⟨omegaCoeff syn lambdaIdx i⟩ : GF256) = (P * S).coeff i := by
  rw [omegaCoeff, mk_xorSum, List.map_reverse, List.sum_reverse, ← List.sum_toFinset _ List.nodup_range,
    List.toFinset_range, h.deg, coeff_mul, Finset.Nat.sum_antidiagonal_eq_sum_range_succ_mk]
  have hterm : ∀ j ≤ i, (⟨if syn.getD (i - j) a0 ≠ a0 ∧ lambdaIdx.getD j a0 ≠ a0 then
      alphaTo (modnn (syn.getD (i - j) a0 + lambdaIdx.getD j a0)) else 0⟩ : GF256) =
        P.coeff j * S.coeff (i - j) := fun j hj => by
    rw [mk_guarded_mul_idx, h.coeff, ← hS (i - j) (by omega), mul_comm]
  rw [Finset.sum_congr rfl fun j hj => hterm j (by rw [Finset.mem_range] at hj; omega)]
  refine Finset.sum_subset (fun j hj => ?_) fun j _ hj => ?_
  · rw [Finset.mem_range] at hj ⊢
    omega
  · rename_i hi'
    rw [Finset.mem_range] at hj hi'
    rw [coeff_eq_zero_of_natDegree_lt (by omega), zero_mul]

/-- The evaluator of the locator `P`. -/
noncomputable def evaluatorOf (S P : GF256[X]) : GF256[X] := Massey.lowPart (P * S) nroots

theorem mk_forneyNum1 (h : Locates lambdaIdx P) (hS : Holds syn S) (root : ℕ) :
    (⟨forneyNum1 (omega syn lambdaIdx) (degOmega syn lambdaIdx) root⟩ : GF256) =
      (evaluatorOf S P).eval (alpha ^ root) := by
  have hlt : ∀ i ∈ Finset.range (degOmega syn lambdaIdx + 1), i < nroots := fun i hi =>
    (Finset.mem_range_succ_iff.mp hi).trans_lt (Nat.lt_succ_of_le (lastIdx_le _ nroots))
  have hterm : ∀ i < nroots, (⟨if (omega syn lambdaIdx).getD i a0 ≠ a0 then
      alphaTo (modnn ((omega syn lambdaIdx).getD i a0 + i * root)) else 0⟩ : GF256) =
        (P * S).coeff i * (alpha ^ root) ^ i := fun i hi => by
    rw [mk_alphaTo_guarded, omega, getD_tab, if_pos (by omega), if_pos hi, ofIdx_indexOf, mk_omegaCoeff h hS hi,
      ← pow_mul, mul_comm root]
  rw [forneyNum1, mk_xorSum, List.map_reverse, List.sum_reverse, ← List.sum_toFinset _ List.nodup_range,
    List.toFinset_range, evaluatorOf, Massey.lowPart, Massey.eval_ofSeq,
    Finset.sum_congr rfl fun i hi => hterm i (hlt i hi)]
  refine Finset.sum_subset (fun i hi => Finset.mem_range.mpr (hlt i hi)) fun i hi hout => ?_
  · rw [Finset.mem_range] at hi hout
    have hz := lastIdx_spec (fun i => omegaCoeff syn lambdaIdx i ≠ 0) nroots i
      (by rw [← degOmega]; omega) hi
    rw [decide_eq_false_iff_not, not_not] at hz
    rw [← mk_omegaCoeff h hS hi, hz, mk_zero, zero_mul]

theorem mk_forneyNum2 (root : ℕ) : (⟨forneyNum2 root⟩ : GF256) = (alpha ^ root) ^ (fcr - 1) := by
  rw [forneyNum2, mk_alphaTo_modnn, pow_add, alpha_pow_nn, mul_one, pow_mul]

/-- In characteristic two the derivative keeps the odd coefficients, moved to the even places. -/
theorem coeff_derivative_char_two (P : GF256[X]) (i : ℕ) :
    (derivative P).coeff i = if i % 2 = 0 then P.coeff (i + 1) else 0 := by
  rw [coeff_derivative]
  have hcast : ((i : GF256) + 1) = ((i + 1 : ℕ) : GF256) := by push_cast; rfl
  rw [hcast]
  split_ifs with h
  · rw [(CharTwo.natCast_eq_ite (R := GF256) (i + 1)), if_neg (by rw [Nat.even_iff]; omega), mul_one]
  · rw [(CharTwo.natCast_eq_ite (R := GF256) (i + 1)), if_pos (by rw [Nat.even_iff]; omega), mul_zero]

theorem mk_forneyDen (h : Locates lambdaIdx P) (root : ℕ) :
    (⟨forneyDen lambdaIdx root⟩ : GF256) = (derivative P).eval (alpha ^ root) := by
  have hP := h.natDegree_le
  have hdeg : (derivative P).natDegree < nroots :=
    (natDegree_derivative_le P).trans_lt (by simp only [nroots] at *; omega)
  simp only [forneyDen]
  rw [mk_xorSum, List.map_map, List.map_reverse, List.sum_reverse, ← List.sum_toFinset _ List.nodup_range,
    List.toFinset_range, h.deg, eval_eq_sum_range' hdeg]
  have hinj : Set.InjOn (2 * ·) (Finset.range (min P.natDegree (nroots - 1) / 2 + 1) : Set ℕ) :=
    fun a _ b _ hab => by simpa using hab
  have hterm : ∀ k, ((fun i => (⟨if lambdaIdx.getD (i + 1) a0 ≠ a0 then
      alphaTo (modnn (lambdaIdx.getD (i + 1) a0 + i * root)) else 0⟩ : GF256)) ∘ (2 * ·)) k =
        (derivative P).coeff (2 * k) * (alpha ^ root) ^ (2 * k) := fun k => by
    rw [Function.comp_apply, mk_alphaTo_guarded, h.coeff, coeff_derivative_char_two, if_pos (by omega),
      ← pow_mul, mul_comm root]
  rw [Finset.sum_congr rfl fun k _ => hterm k,
    ← Finset.sum_image (f := fun i => (derivative P).coeff i * (alpha ^ root) ^ i) hinj]
  refine Finset.sum_subset (fun i hi => ?_) fun i hi hout => ?_
  · obtain ⟨k, hk, rfl⟩ := Finset.mem_image.mp hi
    rw [Finset.mem_range] at hk ⊢
    simp only [nroots] at *
    omega
  · rw [coeff_derivative_char_two]
    split_ifs with heven
    · rw [coeff_eq_zero_of_natDegree_lt, zero_mul]
      by_contra hle
      rw [Finset.mem_range] at hi
      refine hout (Finset.mem_image.mpr ⟨i / 2, Finset.mem_range.mpr ?_, ?_⟩)
      · simp only [nroots] at *
        omega
      · omega
    · rw [zero_mul]

/-- The correction at a root: the evaluator over the derivative, times the power that undoes `fcr`. -/
noncomputable def magnitude (S P : GF256[X]) (root : ℕ) : GF256 :=
  (evaluatorOf S P).eval (alpha ^ root) * (alpha ^ root) ^ (fcr - 1) / (derivative P).eval (alpha ^ root)

theorem mk_quotient {num1 num2 den : UInt8} (h1 : num1 ≠ 0) (h2 : num2 ≠ 0) (hd : den ≠ 0) :
    (⟨alphaTo (modnn (indexOf num1 + indexOf num2 + nn - indexOf den))⟩ : GF256) = ⟨num1⟩ * ⟨num2⟩ / ⟨den⟩ := by
  have hlt := indexOf_lt hd
  rw [mk_alphaTo_modnn, eq_div_iff ((mk_eq_zero_iff den).not.mpr hd), ← ofIdx_indexOf num1, ← ofIdx_indexOf num2,
    ← ofIdx_indexOf den, ofIdx_of_lt (indexOf_lt h1), ofIdx_of_lt (indexOf_lt h2), ofIdx_of_lt hlt, ← pow_add,
    Nat.sub_add_cancel (by omega), pow_add, alpha_pow_nn, mul_one, pow_add]

theorem getD_xorAt (block : Bytes nn) {loc : ℕ} (hloc : loc < nn) (v : UInt8) (p : ℕ) :
    (⟨(xorAt block loc v).1.getD p 0⟩ : GF256) = ⟨block.1.getD p 0⟩ + if loc = p then ⟨v⟩ else 0 := by
  rw [xorAt, List.getD_eq_getElem?_getD, List.getElem?_modify, List.getD_eq_getElem?_getD]
  split_ifs with hp
  · subst hp
    rw [List.getElem?_eq_getElem (block.2.symm ▸ hloc)]
    rfl
  · rw [add_zero, id_map']

/-- What the loop adds to position `p`. -/
noncomputable def correction (S P : GF256[X]) (found : List (ℕ × ℕ)) (p : ℕ) : GF256 :=
  (found.map fun q => if q.2 = p then magnitude S P q.1 else 0).sum

/-- **The magnitude loop**: with no vanishing denominator every position gets its correction. -/
theorem forney_eq (h : Locates lambdaIdx P) (hS : Holds syn S) (found : List (ℕ × ℕ)) :
    ∀ block : Bytes nn, (∀ q ∈ found, q.2 < nn ∧ (derivative P).eval (alpha ^ q.1) ≠ 0) →
      ∃ block' : Bytes nn, forney syn lambdaIdx found block = (true, block') ∧
        ∀ p, (⟨block'.1.getD p 0⟩ : GF256) = ⟨block.1.getD p 0⟩ + correction S P found p := by
  induction found with
  | nil => exact fun block _ => ⟨block, rfl, fun p => by simp [correction]⟩
  | cons q found ih =>
    intro block hq
    obtain ⟨root, loc⟩ := q
    obtain ⟨hloc, hderiv⟩ := hq (root, loc) List.mem_cons_self
    have hrest := fun q hq' => hq q (List.mem_cons_of_mem _ hq')
    have hden : forneyDen lambdaIdx root ≠ 0 := by
      rwa [← mk_forneyDen h, ne_eq, mk_eq_zero_iff] at hderiv
    have hcons : ∀ p, correction S P ((root, loc) :: found) p =
        (if loc = p then magnitude S P root else 0) + correction S P found p := fun p => by
      rw [correction, List.map_cons, List.sum_cons, correction]
    simp only [forney]
    rw [if_neg hden]
    split_ifs with hnum
    · obtain ⟨block', heq, hget⟩ := ih (xorAt block loc _) hrest
      refine ⟨block', heq, fun p => ?_⟩
      have hnum2 : forneyNum2 root ≠ 0 := by
        rw [ne_eq, ← mk_eq_zero_iff, mk_forneyNum2]
        exact pow_ne_zero _ (pow_ne_zero _ alpha_ne_zero)
      rw [hget, getD_xorAt block hloc, mk_quotient hnum hnum2 hden, mk_forneyNum1 h hS, mk_forneyNum2,
        mk_forneyDen h, hcons, add_assoc, magnitude]
    · obtain ⟨block', heq, hget⟩ := ih block hrest
      refine ⟨block', heq, fun p => ?_⟩
      have hzero : magnitude S P root = 0 := by
        rw [magnitude, ← mk_forneyNum1 h hS, not_not.mp hnum, mk_zero, zero_mul, zero_div]
      rw [hget, hcons, hzero, ite_self, zero_add]

end Values

/-- The locator has as many distinct roots as its degree. -/
def Splits (P : GF256[X]) : Prop := P.roots.toFinset.card = P.natDegree

/-- The denominators of a locator with distinct roots do not vanish. -/
theorem Splits.deriv_ne_zero {P : GF256[X]} (h : Splits P) (hP : P ≠ 0) {x : GF256} (hx : P.eval x = 0) :
    (derivative P).eval x ≠ 0 := by
  intro hd
  have hnodup : P.roots.Nodup := by
    refine Multiset.toFinset_card_eq_card_iff_nodup.mp (le_antisymm (Multiset.toFinset_card_le _) ?_)
    rw [h]
    exact card_roots' P
  have hone := Multiset.nodup_iff_count_le_one.mp hnodup x
  rw [count_roots] at hone
  exact absurd ((one_lt_rootMultiplicity_iff_isRoot hP).mpr ⟨hx, hd⟩) (Nat.not_lt.mpr hone)

end SimpleSatOps.Rs
