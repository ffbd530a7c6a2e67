import Mathlib.RingTheory.SimpleRing.Principal
import SimpleSatOps.Proto.Rs.Berlekamp

/-!
# The Chien search

The registers hold the terms of the locator at the powers of `α`; every step multiplies register `j` by `α ^ j`.

* `mk_chienValue` : the accumulator is the locator at `α ^ ii`;
* `chienSearch_eq` : the search returns the exponents of all roots in order, with their block positions;
* `length_rootIdx` : there are as many as distinct roots.
-/

namespace SimpleSatOps.Rs
open Polynomial GF256

/-- The array in index form holds the coefficients of `P`. -/
structure Locates (lambdaIdx : List ℕ) (P : GF256[X]) : Prop where
  coeff : ∀ i, ofIdx (lambdaIdx.getD i a0) = P.coeff i
  deg : degLambda lambdaIdx = P.natDegree
  natDegree_le : P.natDegree ≤ nroots
  coeff_zero : P.coeff 0 = 1

theorem locates_berlekampMassey {syn : List ℕ} {S : GF256[X]} (hS : Holds syn S) :
    Locates ((berlekampMassey syn).map indexOf) (connection S) :=
  ⟨ofIdx_lambdaIdx hS, degLambda_eq hS, natDegree_connection_le S, coeff_zero_connection S⟩

theorem Locates.ne_zero {lambdaIdx : List ℕ} {P : GF256[X]} (h : Locates lambdaIdx P) : P ≠ 0 := fun h0 => by
  simpa [h0] using h.coeff_zero

/-- The registers after `t` steps. -/
def HoldsAt (P : GF256[X]) (reg : List ℕ) (t : ℕ) : Prop :=
  ∀ j, 1 ≤ j → j ≤ P.natDegree → ofIdx (reg.getD j a0) = P.coeff j * (alpha ^ t) ^ j

theorem getD_regStep {d : ℕ} (hd : d ≤ nroots) (reg : List ℕ) {j : ℕ} (h1 : 1 ≤ j) (h2 : j ≤ d) :
    (regStep d reg).getD j a0 = if reg.getD j a0 ≠ a0 then modnn (reg.getD j a0 + j) else a0 := by
  rw [regStep, getD_tab, if_pos (by omega)]
  by_cases h : reg.getD j a0 = a0
  · rw [if_neg fun h' => h'.2.2 h, if_neg (not_not.mpr h), h]
  · rw [if_pos ⟨h1, h2, h⟩, if_pos h]

theorem ofIdx_regStep {d : ℕ} (hd : d ≤ nroots) (reg : List ℕ) {j : ℕ} (h1 : 1 ≤ j) (h2 : j ≤ d) :
    ofIdx ((regStep d reg).getD j a0) = ofIdx (reg.getD j a0) * alpha ^ j := by
  rw [getD_regStep hd reg h1 h2]
  split_ifs with h
  · rw [ofIdx_of_lt (modnn_lt _), alpha_pow_modnn, pow_add, ofIdx, if_neg h]
  · rw [not_not.mp h, ofIdx_a0, zero_mul]

theorem HoldsAt.regStep {P : GF256[X]} {reg : List ℕ} {t : ℕ} (h : HoldsAt P reg t)
    (hP : P.natDegree ≤ nroots) : HoldsAt P (regStep P.natDegree reg) (t + 1) := fun j h1 h2 => by
  rw [ofIdx_regStep hP reg h1 h2, h j h1 h2, pow_succ alpha t, mul_pow, mul_assoc]

theorem holdsAt_zero {lambdaIdx : List ℕ} {P : GF256[X]} (h : Locates lambdaIdx P) : HoldsAt P lambdaIdx 0 :=
  fun j _ _ => by rw [h.coeff, pow_zero, one_pow, mul_one]

/-- After a register step the accumulator is the locator at the current power of `α`. -/
theorem mk_chienValue {P : GF256[X]} {reg : List ℕ} {t : ℕ} (h : HoldsAt P reg t) (hP : P.natDegree ≤ nroots)
    (h0 : P.coeff 0 = 1) :
    (⟨chienValue P.natDegree (Rs.regStep P.natDegree reg)⟩ : GF256) = P.eval (alpha ^ (t + 1)) := by
  have hterm : ∀ j, 1 ≤ j → j ≤ P.natDegree →
      (⟨if (Rs.regStep P.natDegree reg).getD j a0 ≠ a0 then alphaTo ((Rs.regStep P.natDegree reg).getD j a0)
        else 0⟩ : GF256) = P.coeff j * (alpha ^ (t + 1)) ^ j := by
    intro j h1 h2
    rw [← h.regStep hP j h1 h2, getD_regStep hP reg h1 h2]
    by_cases hr : reg.getD j a0 = a0
    · rw [if_neg (not_not.mpr hr), if_neg (not_not.mpr rfl), ofIdx_a0, mk_zero]
    · rw [if_pos hr, if_pos (modnn_lt _).ne, ofIdx_of_lt (modnn_lt _), ← mk_alphaTo_modnn,
        modnn_of_lt (modnn_lt _)]
  rw [chienValue, mk_xor, mk_xorSum, List.map_map, List.map_reverse, List.sum_reverse,
    ← List.sum_toFinset _ List.nodup_range, List.toFinset_range, eval_eq_sum_range, Finset.sum_range_succ', h0,
    pow_zero, mul_one, add_comm]
  congr 1
  refine Finset.sum_congr rfl fun j hj => ?_
  exact hterm (j + 1) (by omega) (Finset.mem_range.mp hj)

/-! ## The roots found -/

/-- The exponents in `1..255` at which `P` vanishes. -/
noncomputable def rootsFrom (P : GF256[X]) (ii fuel : ℕ) : List ℕ :=
  (List.range' ii fuel).filter fun i => P.eval (alpha ^ i) = 0

noncomputable abbrev rootIdx (P : GF256[X]) : List ℕ := rootsFrom P 1 nn

/-- The counter `k` of the search at exponent `ii`: the block position of the root `α ^ ii`. -/
def rootLoc (ii : ℕ) : ℕ := (iprim * ii + (nn - 1)) % nn

theorem modnn_rootLoc (ii : ℕ) : modnn (rootLoc ii + iprim) = rootLoc (ii + 1) := by
  simp only [modnn, rootLoc, iprim, nn]
  omega

theorem rootLoc_lt (ii : ℕ) : rootLoc ii < nn := Nat.mod_lt _ (by decide)

/-- The position found belongs to the inverse of the root. -/
theorem posLoc_rootLoc (ii : ℕ) : posLoc (rootLoc ii) * alpha ^ ii = 1 := by
  rw [posLoc, ← pow_add, alpha_pow_eq_one_iff]
  simp only [rootLoc, iprim, prim, nn]
  omega

theorem rootsFrom_succ (P : GF256[X]) (ii fuel : ℕ) :
    rootsFrom P ii (fuel + 1) =
      if P.eval (alpha ^ ii) = 0 then ii :: rootsFrom P (ii + 1) fuel else rootsFrom P (ii + 1) fuel := by
  rw [rootsFrom, List.range'_succ, List.filter_cons]
  simp only [decide_eq_true_eq]
  rfl

/-- The loop appends the roots ahead of it, as long as there are no more than the degree allows. -/
theorem chien_eq {P : GF256[X]} (hP : P.natDegree ≤ nroots) (h0 : P.coeff 0 = 1) (fuel : ℕ) :
    ∀ (t : ℕ) (reg : List ℕ) (found : List (ℕ × ℕ)), HoldsAt P reg t →
      found.length + (rootsFrom P (t + 1) fuel).length ≤ P.natDegree →
      chien P.natDegree fuel (t + 1) (rootLoc (t + 1)) reg found =
        found ++ (rootsFrom P (t + 1) fuel).map fun i => (i, rootLoc i) := by
  induction fuel with
  | zero => intro t reg found _ _; simp [chien, rootsFrom]
  | succ fuel ih =>
    intro t reg found hreg hlen
    have hval := mk_chienValue hreg hP h0
    rw [rootsFrom_succ] at hlen ⊢
    rw [chien, modnn_rootLoc]
    dsimp only
    by_cases hroot : P.eval (alpha ^ (t + 1)) = 0
    · rw [hroot, mk_eq_zero_iff] at hval
      rw [if_neg (not_not.mpr hval), if_pos hroot]
      rw [if_pos hroot, List.length_cons] at hlen
      split_ifs with hfull
      · rw [List.length_append, List.length_singleton] at hfull
        have hnil : rootsFrom P (t + 1 + 1) fuel = [] := List.eq_nil_of_length_eq_zero (by omega)
        simp [hnil]
      · rw [ih (t + 1) _ _ (hreg.regStep hP) (by rw [List.length_append, List.length_singleton]; omega)]
        simp
    · rw [if_pos fun h => hroot (by rw [← hval, h, mk_zero]), if_neg hroot]
      rw [if_neg hroot] at hlen
      exact ih (t + 1) _ _ (hreg.regStep hP) hlen

theorem mem_rootIdx {P : GF256[X]} {i : ℕ} : i ∈ rootIdx P ↔ (1 ≤ i ∧ i ≤ nn) ∧ P.eval (alpha ^ i) = 0 := by
  rw [rootIdx, rootsFrom, List.mem_filter, List.mem_range'_1, decide_eq_true_eq]
  refine and_congr_left fun _ => and_congr_right fun _ => ?_
  omega

theorem nodup_rootIdx (P : GF256[X]) : (rootIdx P).Nodup := List.Nodup.filter _ List.nodup_range'

theorem alpha_pow_injOn : Set.InjOn (fun i => alpha ^ i) {i | 1 ≤ i ∧ i ≤ nn} := by
  rintro i ⟨hi1, hi2⟩ j ⟨hj1, hj2⟩ h
  have h' := (alpha_pow_eq_iff i j).mp h
  simp only [nn] at *
  omega

/-- The search meets every root: none is zero, and the non-zero elements are the powers of `α`. -/
theorem image_rootIdx {P : GF256[X]} (h0 : P.coeff 0 = 1) :
    (rootIdx P).toFinset.image (fun i => alpha ^ i) = P.roots.toFinset := by
  have hne : P ≠ 0 := fun h => by simp [h] at h0
  ext x
  rw [Finset.mem_image, Multiset.mem_toFinset, mem_roots hne]
  constructor
  · rintro ⟨i, hi, rfl⟩
    exact (mem_rootIdx.mp (List.mem_toFinset.mp hi)).2
  · intro hx
    have hx0 : x ≠ 0 := by
      rintro rfl
      rw [IsRoot.def, ← coeff_zero_eq_eval_zero, h0] at hx
      exact one_ne_zero hx
    obtain ⟨i, h1, h2, rfl⟩ := exists_alpha_pow hx0
    exact ⟨i, List.mem_toFinset.mpr (mem_rootIdx.mpr ⟨⟨h1, h2⟩, hx⟩), rfl⟩

theorem length_rootIdx {P : GF256[X]} (h0 : P.coeff 0 = 1) :
    (rootIdx P).length = P.roots.toFinset.card := by
  rw [← image_rootIdx h0, Finset.card_image_of_injOn, List.toFinset_card_of_nodup (nodup_rootIdx P)]
  exact alpha_pow_injOn.mono fun i hi => (mem_rootIdx.mp (List.mem_toFinset.mp hi)).1

/-- **The Chien search finds all roots of the locator.** -/
theorem chienSearch_eq {lambdaIdx : List ℕ} {P : GF256[X]} (h : Locates lambdaIdx P) :
    chienSearch lambdaIdx = (rootIdx P).map fun i => (i, rootLoc i) := by
  have hlen : (rootIdx P).length ≤ P.natDegree := by
    rw [length_rootIdx h.coeff_zero]
    exact (Multiset.toFinset_card_le _).trans (card_roots' P)
  rw [chienSearch, h.deg]
  exact chien_eq h.natDegree_le h.coeff_zero nn 0 lambdaIdx [] (holdsAt_zero h) (by simpa using hlen)

end SimpleSatOps.Rs
