import Mathlib.Algebra.Polynomial.FieldDivision
import Mathlib.Tactic

/-!
# Shortest linear recurrences: the Berlekamp-Massey recursion over a field

`S : F[X]` is a sequence of coefficients. `Generates S n Γ ν` : `Γ` is the connection polynomial of a
shift register of length `ν` that produces the first `n` terms.

* `Generates.length_add_le` : two registers of which one fails at term `n` have total length above `n`;
* `State.step`, `State.run` : the recursion, with the auxiliary polynomial kept shifted and normalised;
* `Invariant`, `run_invariant` : after `n` steps the register generates `n` terms with the least length;
* `run_eq_of_coprime` : a register of length at most half the number of terms, coprime to its numerator, is
  the one the recursion returns.
-/

namespace SimpleSatOps.Massey
open Polynomial

variable {F : Type*} [Field F]

/-- `Γ` generates the first `n` coefficients of `S` with a register of length `ν`. -/
structure Generates (S : F[X]) (n : ℕ) (Γ : F[X]) (ν : ℕ) : Prop where
  coeff_zero : Γ.coeff 0 = 1
  natDegree_le : Γ.natDegree ≤ ν
  coeff_mul : ∀ i, ν ≤ i → i < n → (Γ * S).coeff i = 0

theorem Generates.mono {S Γ : F[X]} {n m ν : ℕ} (h : Generates S n Γ ν) (hm : m ≤ n) : Generates S m Γ ν :=
  ⟨h.coeff_zero, h.natDegree_le, fun i h1 h2 => h.coeff_mul i h1 (by omega)⟩

/-- A factor of low degree sees only a window of the other factor. -/
theorem coeff_mul_of_window {Γ P : F[X]} {n ν : ℕ} (hdeg : Γ.natDegree ≤ ν)
    (hP : ∀ i, n - ν ≤ i → i < n → P.coeff i = 0) : (Γ * P).coeff n = Γ.coeff 0 * P.coeff n := by
  rw [coeff_mul, Finset.sum_eq_single (0, n)]
  · rintro ⟨i, j⟩ hij hne
    rw [Finset.HasAntidiagonal.mem_antidiagonal] at hij
    have hi : i ≠ 0 := by
      rintro rfl
      exact hne (by simp_all)
    by_cases hiν : i ≤ ν
    · rw [hP j (by omega) (by omega), mul_zero]
    · rw [coeff_eq_zero_of_natDegree_lt (by omega), zero_mul]
  · intro h
    exact absurd (Finset.HasAntidiagonal.mem_antidiagonal.mpr (Nat.zero_add n)) h

/-- **Massey's bound**: when one register fails at term `n` and another does not, their lengths exceed `n`. -/
theorem Generates.length_add_le {S Λ Γ : F[X]} {n L ν : ℕ} (hΛ : Generates S n Λ L)
    (hd : (Λ * S).coeff n ≠ 0) (hΓ : Generates S (n + 1) Γ ν) : n + 1 ≤ L + ν := by
  by_contra hlt
  have h1 : (Γ * (Λ * S)).coeff n = (Λ * S).coeff n := by
    rw [coeff_mul_of_window hΓ.natDegree_le (fun i h1 h2 => hΛ.coeff_mul i (by omega) h2),
      hΓ.coeff_zero, one_mul]
  have h2 : (Λ * (Γ * S)).coeff n = (Γ * S).coeff n := by
    rw [coeff_mul_of_window hΛ.natDegree_le (fun i h1 h2 => hΓ.coeff_mul i (by omega) (by omega)),
      hΛ.coeff_zero, one_mul]
  rw [mul_left_comm, h2, hΓ.coeff_mul n (by omega) (by omega)] at h1
  exact hd h1.symm

/-! ## The recursion -/

/-- `n` terms read, register length `L`, connection polynomial `Λ`, auxiliary polynomial `B`. -/
structure State (F : Type*) [Field F] where
  n : ℕ
  L : ℕ
  Λ : F[X]
  B : F[X]

namespace State

noncomputable def init : State F := ⟨0, 0, 1, 1⟩

/-- The coefficient by which the current register misses the next term. -/
noncomputable def discrepancy (S : F[X]) (s : State F) : F := (s.Λ * S).coeff s.n

open Classical in
/-- One term: keep the register, correct it, or correct it and lengthen it. -/
noncomputable def step (S : F[X]) (s : State F) : State F :=
  if s.discrepancy S = 0 then ⟨s.n + 1, s.L, s.Λ, X * s.B⟩
  else if 2 * s.L ≤ s.n then
    ⟨s.n + 1, s.n + 1 - s.L, s.Λ - C (s.discrepancy S) * (X * s.B), C (s.discrepancy S)⁻¹ * s.Λ⟩
  else ⟨s.n + 1, s.L, s.Λ - C (s.discrepancy S) * (X * s.B), X * s.B⟩

noncomputable def run (S : F[X]) (n : ℕ) : State F := (step S)^[n] init

theorem run_succ (S : F[X]) (n : ℕ) : run S (n + 1) = step S (run S n) :=
  Function.iterate_succ_apply' _ _ _

@[simp] theorem step_n (S : F[X]) (s : State F) : (s.step S).n = s.n + 1 := by
  unfold step
  split_ifs <;> rfl

end State

/-- The auxiliary polynomial of a register of length `L` after `n` terms: the last register that failed, shifted so
that its failure sits at the last term read, and normalised to one. -/
structure Auxiliary (S : F[X]) (n L : ℕ) (B : F[X]) : Prop where
  natDegree_le : B.natDegree ≤ n - L
  coeff_mul : 0 < L → ∀ i, n - L ≤ i → i + 1 < n → (B * S).coeff i = 0
  last : 0 < L → (B * S).coeff (n - 1) = 1

/-- The register generates what was read and no shorter one does. -/
structure Invariant (S : F[X]) (s : State F) : Prop where
  generates : Generates S s.n s.Λ s.L
  length_le : s.L ≤ s.n
  minimal : ∀ Γ ν, Generates S s.n Γ ν → s.L ≤ ν
  aux : Auxiliary S s.n s.L s.B

theorem invariant_init (S : F[X]) : Invariant S (State.init : State F) where
  generates := ⟨by simp [State.init], by simp [State.init], fun i _ h => absurd h (Nat.not_lt_zero i)⟩
  length_le := le_rfl
  minimal _ _ _ := Nat.zero_le _
  aux := ⟨by simp [State.init], fun h => absurd h (lt_irrefl 0), fun h => absurd h (lt_irrefl 0)⟩

theorem coeff_X_mul_mul (B S : F[X]) (i : ℕ) : (X * B * S).coeff (i + 1) = (B * S).coeff i := by
  rw [mul_assoc, coeff_X_mul]

theorem natDegree_X_mul_le {B : F[X]} {m : ℕ} (h : B.natDegree ≤ m) : (X * B).natDegree ≤ m + 1 :=
  natDegree_mul_le.trans (by rw [natDegree_X]; omega)

theorem coeff_corrected (Λ B S : F[X]) (d : F) (i : ℕ) :
    ((Λ - C d * (X * B)) * S).coeff (i + 1) = (Λ * S).coeff (i + 1) - d * (B * S).coeff i := by
  rw [sub_mul, coeff_sub, mul_assoc (C d), coeff_C_mul, coeff_X_mul_mul]

theorem coeff_zero_corrected (Λ B : F[X]) (d : F) : (Λ - C d * (X * B)).coeff 0 = Λ.coeff 0 := by
  rw [coeff_sub, coeff_C_mul, coeff_X_mul_zero, mul_zero, sub_zero]

theorem natDegree_corrected_le {Λ B : F[X]} {d : F} {m : ℕ} (hΛ : Λ.natDegree ≤ m)
    (hB : (X * B).natDegree ≤ m) : (Λ - C d * (X * B)).natDegree ≤ m :=
  (natDegree_sub_le _ _).trans (max_le hΛ ((natDegree_C_mul_le _ _).trans hB))

/-! ## Each step keeps the invariant -/

/-- Reading a term without lengthening the register shifts the auxiliary polynomial. -/
theorem Auxiliary.shift {S B : F[X]} {n L : ℕ} (h : Auxiliary S n L B) (hle : L ≤ n) :
    Auxiliary S (n + 1) L (X * B) where
  natDegree_le := (natDegree_X_mul_le h.natDegree_le).trans (by omega)
  coeff_mul hL i h1 h2 := by
    obtain ⟨i, rfl⟩ : ∃ j, i = j + 1 := ⟨i - 1, by omega⟩
    rw [coeff_X_mul_mul]
    exact h.coeff_mul hL i (by omega) (by omega)
  last hL := by
    rw [Nat.add_sub_cancel, show n = n - 1 + 1 by omega, coeff_X_mul_mul]
    exact h.last hL

section Step
variable {S : F[X]} {s : State F}

theorem Invariant.keep (h : Invariant S s) (hd : s.discrepancy S = 0) :
    Invariant S ⟨s.n + 1, s.L, s.Λ, X * s.B⟩ where
  generates := by
    refine ⟨h.generates.coeff_zero, h.generates.natDegree_le, fun i h1 h2 => ?_⟩
    rcases Nat.lt_succ_iff_lt_or_eq.mp h2 with hi | rfl
    · exact h.generates.coeff_mul i h1 hi
    · exact hd
  length_le := h.length_le.trans (Nat.le_succ _)
  minimal Γ ν hΓ := h.minimal Γ ν (hΓ.mono (Nat.le_succ _))
  aux := h.aux.shift h.length_le

/-- Correcting the register by the auxiliary polynomial makes it generate one more term. -/
theorem Invariant.corrected_generates (h : Invariant S s) {m : ℕ} (h1 : s.L ≤ m) (h2 : s.n + 1 ≤ s.L + m) :
    Generates S (s.n + 1) (s.Λ - C (s.discrepancy S) * (X * s.B)) m := by
  have hle := h.length_le
  refine ⟨(coeff_zero_corrected _ _ _).trans h.generates.coeff_zero, ?_, fun i hi hin => ?_⟩
  · exact natDegree_corrected_le (h.generates.natDegree_le.trans h1)
      ((natDegree_X_mul_le h.aux.natDegree_le).trans (by omega))
  · rcases Nat.eq_zero_or_pos s.L with hL | hL
    · omega
    obtain ⟨i, rfl⟩ : ∃ j, i = j + 1 := ⟨i - 1, by omega⟩
    rw [coeff_corrected]
    rcases Nat.lt_succ_iff_lt_or_eq.mp hin with hlt | heq
    · rw [h.generates.coeff_mul _ (by omega) hlt, h.aux.coeff_mul hL i (by omega) hlt, mul_zero, sub_zero]
    · have hlast := h.aux.last hL
      rw [show s.n - 1 = i by omega] at hlast
      rw [hlast, mul_one, heq]
      exact sub_self _

theorem Invariant.correct (h : Invariant S s) (hL : s.n < 2 * s.L) :
    Invariant S ⟨s.n + 1, s.L, s.Λ - C (s.discrepancy S) * (X * s.B), X * s.B⟩ where
  generates := h.corrected_generates (m := s.L) le_rfl (by omega)
  length_le := h.length_le.trans (Nat.le_succ _)
  minimal Γ ν hΓ := h.minimal Γ ν (hΓ.mono (Nat.le_succ _))
  aux := h.aux.shift h.length_le

theorem Invariant.lengthen (h : Invariant S s) (hd : s.discrepancy S ≠ 0) (hL : 2 * s.L ≤ s.n) :
    Invariant S ⟨s.n + 1, s.n + 1 - s.L, s.Λ - C (s.discrepancy S) * (X * s.B),
      C (s.discrepancy S)⁻¹ * s.Λ⟩ where
  generates := h.corrected_generates (m := s.n + 1 - s.L) (by omega) (by omega)
  length_le := Nat.sub_le _ _
  minimal Γ ν hΓ := by
    have hsum := h.generates.length_add_le hd hΓ
    change s.n + 1 - s.L ≤ ν
    omega
  aux := by
    refine ⟨(natDegree_C_mul_le _ _).trans (h.generates.natDegree_le.trans ?_), fun _ i h1 h2 => ?_, fun _ => ?_⟩
    · change s.L ≤ s.n + 1 - (s.n + 1 - s.L)
      omega
    · change s.n + 1 - (s.n + 1 - s.L) ≤ i at h1
      change i + 1 < s.n + 1 at h2
      rw [mul_assoc, coeff_C_mul, h.generates.coeff_mul i (by omega) (by omega), mul_zero]
    · change (C (s.discrepancy S)⁻¹ * s.Λ * S).coeff (s.n + 1 - 1) = 1
      rw [Nat.add_sub_cancel, mul_assoc, coeff_C_mul]
      exact inv_mul_cancel₀ hd

theorem Invariant.step (h : Invariant S s) : Invariant S (s.step S) := by
  unfold State.step
  split_ifs with hd hL
  · exact h.keep hd
  · exact h.lengthen hd hL
  · exact h.correct (by omega)

end Step

@[simp] theorem run_n (S : F[X]) (n : ℕ) : (State.run S n).n = n := by
  induction n with
  | zero => rfl
  | succ n ih => rw [State.run_succ, State.step_n, ih]

theorem run_invariant (S : F[X]) (n : ℕ) : Invariant S (State.run S n) := by
  induction n with
  | zero => exact invariant_init S
  | succ n ih =>
    rw [State.run_succ]
    exact ih.step

/-! ## Uniqueness -/

/-- The polynomial of the terms of a sequence below `n`. -/
noncomputable def ofSeq (a : ℕ → F) (n : ℕ) : F[X] := ∑ i ∈ Finset.range n, C (a i) * X ^ i

theorem coeff_ofSeq (a : ℕ → F) (n i : ℕ) : (ofSeq a n).coeff i = if i < n then a i else 0 := by
  rw [ofSeq, finsetSum_coeff]
  simp only [coeff_C_mul, coeff_X_pow, mul_ite, mul_one, mul_zero]
  simp

theorem eval_ofSeq (a : ℕ → F) (n : ℕ) (x : F) : (ofSeq a n).eval x = ∑ i ∈ Finset.range n, a i * x ^ i := by
  simp [ofSeq, eval_finsetSum]

/-- The terms of `P` below `n`. -/
noncomputable def lowPart (P : F[X]) (n : ℕ) : F[X] := ofSeq P.coeff n

theorem coeff_lowPart (P : F[X]) (n i : ℕ) : (lowPart P n).coeff i = if i < n then P.coeff i else 0 :=
  coeff_ofSeq _ _ _

theorem X_pow_dvd_sub_lowPart (P : F[X]) (n : ℕ) : X ^ n ∣ P - lowPart P n := by
  rw [X_pow_dvd_iff]
  intro i hi
  rw [coeff_sub, coeff_lowPart, if_pos hi, sub_self]

theorem Generates.natDegree_lowPart_lt {S Γ : F[X]} {n ν i : ℕ} (h : Generates S n Γ ν) (hi : ν ≤ i) :
    (lowPart (Γ * S) n).coeff i = 0 := by
  rw [coeff_lowPart]
  split_ifs with hn
  · exact h.coeff_mul i hi hn
  · rfl

/-- A product of a polynomial of degree at most `a` and one with no coefficient from `b` on. -/
theorem coeff_mul_eq_zero {P Q : F[X]} {a b i : ℕ} (hP : P.natDegree ≤ a) (hQ : ∀ j, b ≤ j → Q.coeff j = 0)
    (hi : a + b ≤ i) : (P * Q).coeff i = 0 := by
  rw [coeff_mul]
  refine Finset.sum_eq_zero fun x hx => ?_
  rw [Finset.HasAntidiagonal.mem_antidiagonal] at hx
  by_cases h1 : b ≤ x.2
  · rw [hQ _ h1, mul_zero]
  · rw [coeff_eq_zero_of_natDegree_lt (by omega), zero_mul]

/-- The numerators of two registers that both fit are in the ratio of their connection polynomials. -/
theorem Generates.cross_mul {S Λ Γ : F[X]} {n L ν : ℕ} (hΛ : Generates S n Λ L) (hΓ : Generates S n Γ ν)
    (hn : L + ν ≤ n) : Γ * lowPart (Λ * S) n = Λ * lowPart (Γ * S) n := by
  rw [← sub_eq_zero]
  have hdvd : X ^ n ∣ Γ * lowPart (Λ * S) n - Λ * lowPart (Γ * S) n := by
    have h1 := (X_pow_dvd_sub_lowPart (Γ * S) n).mul_left Λ
    have h2 := (X_pow_dvd_sub_lowPart (Λ * S) n).mul_left Γ
    have heq : Γ * lowPart (Λ * S) n - Λ * lowPart (Γ * S) n =
        Λ * (Γ * S - lowPart (Γ * S) n) - Γ * (Λ * S - lowPart (Λ * S) n) := by ring
    rw [heq]
    exact dvd_sub h1 h2
  ext i
  rw [Polynomial.coeff_zero]
  by_cases hi : i < n
  · exact X_pow_dvd_iff.mp hdvd i hi
  · rw [coeff_sub, coeff_mul_eq_zero hΓ.natDegree_le (fun j hj => hΛ.natDegree_lowPart_lt hj) (by omega),
      coeff_mul_eq_zero hΛ.natDegree_le (fun j hj => hΓ.natDegree_lowPart_lt hj) (by omega), sub_zero]

/-- **The recursion finds the reduced register**: a connection polynomial of degree `ν`, coprime to its
numerator, that generates at least `2 ν` terms is the one returned, with length `ν`. -/
theorem run_eq_of_coprime {S Γ : F[X]} {n ν : ℕ} (hΓ : Generates S n Γ ν) (hdeg : Γ.natDegree = ν)
    (hcop : IsCoprime Γ (lowPart (Γ * S) n)) (hn : 2 * ν ≤ n) :
    (State.run S n).Λ = Γ ∧ (State.run S n).L = ν := by
  have hinv := run_invariant S n
  have hgen : Generates S n (State.run S n).Λ (State.run S n).L := by
    simpa using hinv.generates
  have hmin : (State.run S n).L ≤ ν := hinv.minimal Γ ν (by simpa using hΓ)
  have hdvd : Γ ∣ (State.run S n).Λ :=
    hcop.dvd_of_dvd_mul_right ⟨_, (hgen.cross_mul hΓ (by omega)).symm⟩
  obtain ⟨q, hq⟩ := hdvd
  have hq0 : q ≠ 0 := by
    rintro rfl
    have := hgen.coeff_zero
    simp [hq] at this
  have hΓ0 : Γ ≠ 0 := by
    rintro rfl
    simpa using hΓ.coeff_zero
  have hqdeg : q.natDegree = 0 := by
    have h1 := hgen.natDegree_le
    rw [hq, natDegree_mul hΓ0 hq0] at h1
    omega
  have hq1 : q = 1 := by
    rw [eq_C_of_natDegree_eq_zero hqdeg] at hq ⊢
    have h1 := hgen.coeff_zero
    rw [hq, mul_coeff_zero, hΓ.coeff_zero, one_mul, coeff_C_zero] at h1
    rw [h1, C_1]
  rw [hq1, mul_one] at hq
  refine ⟨hq, le_antisymm hmin ?_⟩
  have h1 := hgen.natDegree_le
  rwa [hq, hdeg] at h1

end SimpleSatOps.Massey
