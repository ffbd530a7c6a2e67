import SimpleSatOps.Proto.Rs.Code

/-!
# Berlekamp-Massey in index form

`bmStep` carries the connection polynomial as bytes and the auxiliary polynomial as indices, both cut at degree 32.

* `Simulates` : the arrays hold the coefficients of a `Massey.State`;
* `Simulates.step` : one round of the loop is one step of the recursion;
* `ofIdx_lambdaIdx` : after the loop the array in index form is the connection polynomial;
* `degLambda_eq` : the degree scan returns its degree.
-/

namespace SimpleSatOps.Rs
open Polynomial GF256

/-- The syndromes in index form as the coefficients of `S`. -/
def Holds (syn : List ℕ) (S : GF256[X]) : Prop := ∀ i < nroots, S.coeff i = ofIdx (syn.getD i a0)

/-- The arrays of the loop hold the polynomials of the recursion. -/
structure Simulates (s : BmState) (m : Massey.State GF256) : Prop where
  r : s.r = m.n
  el : s.el = m.L
  lambda : ∀ i ≤ nroots, (⟨s.lambda.getD i 0⟩ : GF256) = m.Λ.coeff i
  b : ∀ i < nroots, ofIdx (s.b.getD i a0) = m.B.coeff i

theorem getD_map_indexOf (l : List UInt8) (i : ℕ) : (l.map indexOf).getD i a0 = indexOf (l.getD i 0) := by
  simp only [List.getD_eq_getElem?_getD, List.getElem?_map]
  cases l[i]? with
  | none => rfl
  | some x => rfl

theorem holds_synPoly (block : List UInt8) : Holds ((rsSyndromes block).map indexOf) (synPoly block) := by
  intro i hi
  rw [synPoly, Massey.coeff_ofSeq, if_pos hi, getD_map_indexOf, ofIdx_indexOf]

theorem simulates_init : Simulates BmState.init (Massey.State.init : Massey.State GF256) where
  r := rfl
  el := rfl
  lambda i hi := by
    simp only [BmState.init, Massey.State.init, getD_tab, if_pos (Nat.lt_succ_of_le hi), coeff_one]
    split_ifs <;> rfl
  b i hi := by
    simp only [BmState.init, Massey.State.init, getD_tab, if_pos (Nat.lt_succ_of_lt hi), coeff_one, ofIdx_indexOf]
    split_ifs <;> rfl

/-- A product of a byte and an index, guarded as the loops guard it. -/
theorem mk_guarded_mul (x : UInt8) (i : ℕ) :
    (⟨if x ≠ 0 ∧ i ≠ a0 then alphaTo (modnn (indexOf x + i)) else 0⟩ : GF256) = ⟨x⟩ * ofIdx i := by
  rw [← ofIdx_indexOf x]
  split_ifs with h
  · rw [mk_alphaTo_modnn, pow_add, ofIdx, if_neg (mt (indexOf_eq_a0_iff x).mp h.1), ofIdx, if_neg h.2]
  · rcases not_and_or.mp h with h | h
    · rw [not_not.mp h, indexOf_zero, ofIdx_a0, zero_mul, mk_zero]
    · rw [not_not.mp h, ofIdx_a0, mul_zero, mk_zero]

section Step
variable {syn : List ℕ} {S : GF256[X]} {s : BmState} {m : Massey.State GF256}

theorem Simulates.mk_discrepancy (h : Simulates s m) (hS : Holds syn S) (hn : m.n < nroots) :
    (⟨discrepancy syn s.lambda (s.r + 1)⟩ : GF256) = m.discrepancy S := by
  rw [discrepancy, mk_xorSum, ← List.sum_toFinset _ List.nodup_range, List.toFinset_range,
    Massey.State.discrepancy, coeff_mul, Finset.Nat.sum_antidiagonal_eq_sum_range_succ_mk, h.r]
  refine Finset.sum_congr rfl fun i hi => ?_
  have hi' : i < m.n + 1 := Finset.mem_range.mp hi
  rw [mk_guarded_mul, h.lambda i (by omega), hS (m.n - i) (by omega),
    show m.n + 1 - i - 1 = m.n - i by omega]

theorem Simulates.shiftB (h : Simulates s m) {i : ℕ} (hi : i < nroots) :
    ofIdx ((shiftB s.b).getD i a0) = (X * m.B).coeff i := by
  rw [Rs.shiftB, getD_tab, if_pos (Nat.lt_succ_of_lt hi)]
  cases i with
  | zero => rw [if_pos rfl, ofIdx_a0, coeff_X_mul_zero]
  | succ i => rw [if_neg (Nat.succ_ne_zero i), coeff_X_mul, Nat.add_sub_cancel, h.b i (by omega)]

theorem Simulates.correctLambda (h : Simulates s m) {d : GF256} {disc : ℕ} (hd : alpha ^ disc = d) {i : ℕ}
    (hi : i ≤ nroots) :
    (⟨(correctLambda s.lambda s.b disc).getD i 0⟩ : GF256) = (m.Λ - C d * (X * m.B)).coeff i := by
  rw [Rs.correctLambda, getD_tab, if_pos (Nat.lt_succ_of_le hi), coeff_sub, coeff_C_mul]
  cases i with
  | zero => rw [if_pos rfl, coeff_X_mul_zero, mul_zero, sub_zero, h.lambda 0 hi]
  | succ i =>
    rw [if_neg (Nat.succ_ne_zero i), coeff_X_mul, ← h.lambda _ hi, ← h.b i (by omega), ← hd,
      CharTwo.sub_eq_add, Nat.add_sub_cancel]
    split_ifs with hb
    · rw [mk_xor, mk_alphaTo_modnn, pow_add, ofIdx, if_neg hb]
    · rw [not_not.mp hb, ofIdx_a0, mul_zero, add_zero]

theorem Simulates.scaleLambda (h : Simulates s m) {d : GF256} {disc : ℕ} (hd : alpha ^ disc = d)
    (hlt : disc < nn) {i : ℕ} (hi : i < nroots) :
    ofIdx ((scaleLambda s.lambda s.b disc).getD i a0) = (C d⁻¹ * m.Λ).coeff i := by
  have hinv : alpha ^ (nn - disc) = d⁻¹ := by
    rw [← hd]
    refine eq_inv_of_mul_eq_one_left ?_
    rw [← pow_add, Nat.sub_add_cancel hlt.le, alpha_pow_nn]
  rw [Rs.scaleLambda, getD_tab, if_pos (Nat.lt_succ_of_lt hi), if_neg hi.ne, coeff_C_mul, ← h.lambda i hi.le]
  split_ifs with hz
  · rw [ofIdx_a0, hz, mk_zero, mul_zero]
  · rw [ofIdx_of_lt (modnn_lt _), alpha_pow_modnn, Nat.add_sub_assoc hlt.le, pow_add, hinv,
      ← ofIdx_of_lt (indexOf_lt hz), ofIdx_indexOf, mul_comm]

/-- **One round of the loop is one step of the recursion.** -/
theorem Simulates.step (h : Simulates s m) (hS : Holds syn S) (hn : m.n < nroots) :
    Simulates (bmStep syn s) (m.step S) := by
  have hdisc := h.mk_discrepancy hS hn
  obtain ⟨r, el, lambda, b⟩ := s
  obtain ⟨n, L, Λ, B⟩ := m
  obtain rfl : r = n := h.r
  obtain rfl : el = L := h.el
  change (⟨discrepancy syn lambda (r + 1)⟩ : GF256) = _ at hdisc
  by_cases hz : discrepancy syn lambda (r + 1) = 0
  · rw [bmStep, Massey.State.step, if_pos ((indexOf_eq_a0_iff _).mpr hz), if_pos (by rw [← hdisc, hz, mk_zero])]
    exact ⟨rfl, rfl, h.lambda, fun i hi => h.shiftB hi⟩
  have hm : Massey.State.discrepancy S ⟨r, el, Λ, B⟩ ≠ 0 := by rwa [← hdisc, ne_eq, mk_eq_zero_iff]
  have hlt := indexOf_lt hz
  have hd : alpha ^ indexOf (discrepancy syn lambda (r + 1)) = _ :=
    (ofIdx_of_lt hlt).symm.trans ((ofIdx_indexOf _).trans hdisc)
  rw [bmStep, Massey.State.step, if_neg (mt (indexOf_eq_a0_iff _).mp hz), if_neg hm]
  dsimp only
  rw [Nat.add_sub_cancel]
  split_ifs with hL
  · exact ⟨rfl, rfl, fun i hi => h.correctLambda hd hi, fun i hi => h.scaleLambda hd hlt hi⟩
  · exact ⟨rfl, rfl, fun i hi => h.correctLambda hd hi, fun i hi => h.shiftB hi⟩

end Step

theorem simulates_run {syn : List ℕ} {S : GF256[X]} (hS : Holds syn S) {n : ℕ} (hn : n ≤ nroots) :
    Simulates ((bmStep syn)^[n] BmState.init) (Massey.State.run S n) := by
  induction n with
  | zero => exact simulates_init
  | succ n ih =>
    rw [Function.iterate_succ_apply', Massey.State.run_succ]
    exact (ih (by omega)).step hS (by rw [Massey.run_n]; omega)

/-! ## The locator array -/

/-- The connection polynomial of the 32 syndromes. -/
noncomputable def connection (S : GF256[X]) : GF256[X] := (Massey.State.run S nroots).Λ

theorem natDegree_connection_le (S : GF256[X]) : (connection S).natDegree ≤ nroots := by
  have h := Massey.run_invariant S nroots
  have hL := h.length_le
  rw [Massey.run_n] at hL
  exact h.generates.natDegree_le.trans hL

theorem coeff_zero_connection (S : GF256[X]) : (connection S).coeff 0 = 1 :=
  (Massey.run_invariant S nroots).generates.coeff_zero

theorem length_bmStep_lambda (syn : List ℕ) {s : BmState} (h : s.lambda.length = nroots + 1) :
    (bmStep syn s).lambda.length = nroots + 1 := by
  simp only [bmStep]
  split_ifs
  · exact h
  · exact length_tab _ _
  · exact length_tab _ _

theorem length_berlekampMassey (syn : List ℕ) : (berlekampMassey syn).length = nroots + 1 := by
  have hrun : ∀ n, ((bmStep syn)^[n] BmState.init).lambda.length = nroots + 1 := by
    intro n
    induction n with
    | zero => exact length_tab _ _
    | succ n ih =>
      rw [Function.iterate_succ_apply']
      exact length_bmStep_lambda syn ih
  exact hrun nroots

theorem mk_berlekampMassey {syn : List ℕ} {S : GF256[X]} (hS : Holds syn S) (i : ℕ) :
    (⟨(berlekampMassey syn).getD i 0⟩ : GF256) = (connection S).coeff i := by
  by_cases hi : i ≤ nroots
  · exact (simulates_run hS le_rfl).lambda i hi
  · have hdeg := natDegree_connection_le S
    rw [coeff_eq_zero_of_natDegree_lt (by omega), List.getD_eq_getElem?_getD,
      List.getElem?_eq_none (by rw [length_berlekampMassey]; omega)]
    rfl

theorem ofIdx_lambdaIdx {syn : List ℕ} {S : GF256[X]} (hS : Holds syn S) (i : ℕ) :
    ofIdx (((berlekampMassey syn).map indexOf).getD i a0) = (connection S).coeff i := by
  rw [getD_map_indexOf, ofIdx_indexOf, mk_berlekampMassey hS]

/-! ## The degree scans -/

theorem lastIdx_succ (n : ℕ) (p : ℕ → Bool) : lastIdx (n + 1) p = if p n then n else lastIdx n p := by
  rw [lastIdx, List.range_succ, List.foldl_append]
  rfl

/-- Nothing past the index found satisfies the test. -/
theorem lastIdx_spec (p : ℕ → Bool) (n : ℕ) : ∀ i, lastIdx n p < i → i < n → p i = false := by
  induction n with
  | zero => exact fun i _ h => absurd h (Nat.not_lt_zero i)
  | succ n ih =>
    intro i h1 h2
    rw [lastIdx_succ] at h1
    split_ifs at h1 with hp
    · omega
    · rcases Nat.lt_succ_iff_lt_or_eq.mp h2 with h | rfl
      · exact ih i h1 h
      · simpa using hp

theorem lastIdx_le (p : ℕ → Bool) (n : ℕ) : lastIdx n p ≤ n - 1 := by
  induction n with
  | zero => exact le_rfl
  | succ n ih =>
    rw [lastIdx_succ]
    split_ifs <;> omega

theorem lastIdx_eq {p : ℕ → Bool} {n d : ℕ} (hd : d < n) (hp : p d = true)
    (h : ∀ i, d < i → i < n → p i = false) : lastIdx n p = d := by
  induction n with
  | zero => omega
  | succ n ih =>
    rw [lastIdx_succ]
    rcases Nat.lt_succ_iff_lt_or_eq.mp hd with hlt | rfl
    · rw [h n hlt (Nat.lt_succ_self n)]
      exact ih hlt fun i h1 h2 => h i h1 (by omega)
    · rw [if_pos hp]

/-- The degree scan returns the degree of the connection polynomial. -/
theorem degLambda_eq {syn : List ℕ} {S : GF256[X]} (hS : Holds syn S) :
    degLambda ((berlekampMassey syn).map indexOf) = (connection S).natDegree := by
  have hne : connection S ≠ 0 := fun h => by
    simpa [h] using coeff_zero_connection S
  have htest : ∀ i, decide (((berlekampMassey syn).map indexOf).getD i a0 ≠ a0) =
      decide ((connection S).coeff i ≠ 0) := fun i => decide_eq_decide.mpr (by
    rw [← ofIdx_lambdaIdx hS, ne_eq, ne_eq, ofIdx_eq_zero_iff])
  refine lastIdx_eq (Nat.lt_succ_of_le (natDegree_connection_le S)) ?_ fun i h1 _ => ?_
  · rw [htest, decide_eq_true_eq]
    exact leadingCoeff_ne_zero.mpr hne
  · rw [htest, decide_eq_false_iff_not, not_not]
    exact coeff_eq_zero_of_natDegree_lt h1

end SimpleSatOps.Rs
