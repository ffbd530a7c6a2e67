import Mathlib.Analysis.SpecialFunctions.Complex.Circle
import Mathlib.Data.Nat.Bitwise
import Mathlib.Logic.Equiv.Basic
import SimpleSatOps.Lib.Fft

/-!
# The spectrum of a frame (`waterfall_core.c`, `iq_burst.c`)

The two files hold the same transform. Numbers are exact: elements of a ring, and the cosine and sine of a step are
parameters.

* `fftBitReverse`, `wfFftForward` : the transform in place;
* `fftBitReverse_eq` : the counter runs through the reversed numbers;
* `wfFftForward_eq` : the transform is the discrete Fourier transform.
-/

namespace SimpleSatOps.Fft

variable {F : Type*}

/-! ## The transform -/

/-- The arrays `re` and `im`. -/
structure Signal (F : Type*) where
  re : ℕ → F
  im : ℕ → F

/-- `for (; j & bit; bit >>= 1) j ^= bit; j ^= bit;` -/
def countUp (bit j : ℕ) : ℕ := if j &&& bit = 0 then j ^^^ bit else countUp (bit / 2) (j ^^^ bit)
termination_by bit
decreasing_by
  rename_i h
  exact Nat.div_lt_self (Nat.pos_of_ne_zero fun hbit => h (by rw [hbit, Nat.and_zero])) (by decide)

def Signal.swap (z : Signal F) (i j : ℕ) : Signal F := ⟨z.re ∘ Equiv.swap i j, z.im ∘ Equiv.swap i j⟩

/-- One round of the loop of `fft_bit_reverse`, on `j` and the arrays. -/
def bitReverseRound (n : ℕ) (s : ℕ × Signal F) (i : ℕ) : ℕ × Signal F :=
  let j := countUp (n / 2) s.1
  (j, if i < j then s.2.swap i j else s.2)

/-- `fft_bit_reverse`. -/
def fftBitReverse (n : ℕ) (z : Signal F) : Signal F :=
  ((List.range' 1 (n - 1)).foldl (bitReverseRound n) (0, z)).2

section
variable [CommRing F]

/-- The body of the innermost loop, at `a` and `b`. -/
def Signal.butterfly (wr wi : F) (a b : ℕ) (z : Signal F) : Signal F :=
  let tr := wr * z.re b - wi * z.im b
  let ti := wr * z.im b + wi * z.re b
  ⟨Function.update (Function.update z.re b (z.re a - tr)) a (z.re a + tr),
    Function.update (Function.update z.im b (z.im a - ti)) a (z.im a + ti)⟩

/-- The loop over `k`, with `wr` and `wi`. -/
def Signal.block (half : ℕ) (wrStep wiStep : F) (i : ℕ) (z : Signal F) : Signal F × F × F :=
  (List.range half).foldl (fun s k =>
    (s.1.butterfly s.2.1 s.2.2 (i + k) (i + k + half), s.2.1 * wrStep - s.2.2 * wiStep,
      s.2.1 * wiStep + s.2.2 * wrStep)) (z, 1, 0)

/-- The loop over `i`. -/
def Signal.stage (n len : ℕ) (wrStep wiStep : F) (z : Signal F) : Signal F :=
  (List.range ((n + len - 1) / len)).foldl (fun z b => (z.block (len / 2) wrStep wiStep (b * len)).1) z

/-- The loop over `len`; the step of a length has a cosine and a sine. -/
def Signal.stages (cosStep sinStep : ℕ → F) (n len : ℕ) (z : Signal F) : Signal F :=
  if 0 < len ∧ len ≤ n then
    Signal.stages cosStep sinStep n (2 * len) (z.stage n len (cosStep len) (sinStep len))
  else z
termination_by n + 1 - len

/-- `wf_fft_forward`, and `fft_forward` of `iq_burst.c`. -/
def wfFftForward (cosStep sinStep : ℕ → F) (n : ℕ) (z : Signal F) : Signal F :=
  (fftBitReverse n z).stages cosStep sinStep n 2

end

/-! ## The order of the input -/

theorem xor_two_pow {m j : ℕ} (h : j < 2 ^ m) : j ^^^ 2 ^ m = 2 ^ m + j := by
  have hor := Nat.two_pow_add_eq_or_of_lt h 1
  rw [Nat.mul_one] at hor
  rw [hor]
  refine Nat.eq_of_testBit_eq fun i => ?_
  rw [Nat.testBit_xor, Nat.testBit_or, Nat.testBit_two_pow]
  by_cases hi : m = i
  · subst hi
    rw [Nat.testBit_lt_two_pow h, decide_eq_true rfl]
    rfl
  · rw [decide_eq_false hi, Bool.xor_false, Bool.false_or]

/-- The counter goes to the next number, bit by bit from the highest one. -/
theorem countUp_reverse {m i : ℕ} (h : i + 1 < 2 ^ (m + 1)) :
    countUp (2 ^ m) (reverse (m + 1) i) = reverse (m + 1) (i + 1) := by
  induction m generalizing i with
  | zero =>
      obtain rfl : i = 0 := by omega
      rw [countUp]
      rfl
  | succ m ih =>
      rw [pow_succ] at h
      obtain ⟨j, rfl | rfl⟩ := Nat.even_or_odd' i
      · have hlt := reverse_lt (m + 1) j
        have hand : reverse (m + 1) j &&& 2 ^ (m + 1) = 0 := by
          rw [Nat.and_two_pow, Nat.testBit_lt_two_pow hlt]
          exact Nat.zero_mul _
        rw [reverse_even, reverse_odd, countUp, if_pos hand, xor_two_pow hlt]
      · have hlt := reverse_lt (m + 1) j
        have hxor : (2 ^ (m + 1) + reverse (m + 1) j) ^^^ 2 ^ (m + 1) = reverse (m + 1) j := by
          rw [← xor_two_pow hlt, Nat.xor_assoc, Nat.xor_self, Nat.xor_zero]
        have hand : ¬ (2 ^ (m + 1) + reverse (m + 1) j) &&& 2 ^ (m + 1) = 0 := by
          rw [Nat.and_two_pow, Nat.testBit_two_pow_add_eq, Nat.testBit_lt_two_pow hlt]
          simp
        have hhalf : 2 ^ (m + 1) / 2 = 2 ^ m := by
          rw [pow_succ]
          omega
        have hnext : 2 * j + 1 + 1 = 2 * (j + 1) := by ring
        rw [reverse_odd, countUp, if_neg hand, hxor, hhalf, ih (by omega), hnext, reverse_even]

/-- What the places hold when the numbers up to `i` have been swapped. -/
def swapped (m i p : ℕ) : ℕ := if p < 2 ^ m ∧ (p ≤ i ∨ reverse m p ≤ i) then reverse m p else p

theorem swapped_zero (m : ℕ) : swapped m 0 = id := by
  funext p
  unfold swapped
  split_ifs with h
  · obtain ⟨hp, hzero⟩ := h
    have hnull : p = 0 := by
      rcases hzero with h0 | h0
      · exact Nat.le_zero.mp h0
      · rw [← reverse_reverse hp, Nat.le_zero.mp h0, reverse_zero]
    rw [hnull, reverse_zero]
    rfl
  · rfl

/-- One more number is swapped with its reversed one, unless that has been done. -/
theorem swapped_succ {m i : ℕ} (hi : i + 1 < 2 ^ m) :
    swapped m (i + 1) =
      if i + 1 < reverse m (i + 1) then swapped m i ∘ Equiv.swap (i + 1) (reverse m (i + 1)) else swapped m i := by
  have hback := reverse_reverse hi
  have hj := reverse_lt m (i + 1)
  generalize hr : reverse m (i + 1) = j at *
  -- The only numbers that come in are `i + 1` and `j`.
  have hother : ∀ p, p ≠ i + 1 → p ≠ j → swapped m (i + 1) p = swapped m i p := by
    intro p hp hp'
    have hne : p < 2 ^ m → reverse m p ≠ i + 1 := by
      intro hlt heq
      rw [← reverse_reverse hlt, heq] at hp'
      exact hp' hr
    unfold swapped
    refine if_congr ?_ rfl rfl
    constructor
    · rintro ⟨hlt, hle⟩
      have hrev := hne hlt
      exact ⟨hlt, by omega⟩
    · rintro ⟨hlt, hle⟩
      exact ⟨hlt, by omega⟩
  have hnew : swapped m (i + 1) (i + 1) = j := by
    rw [swapped, if_pos ⟨hi, .inl le_rfl⟩, hr]
  have hnew' : swapped m (i + 1) j = i + 1 := by
    rw [swapped, hback, if_pos ⟨hj, .inr le_rfl⟩]
  split_ifs with hlt
  · have hold : swapped m i (i + 1) = i + 1 := by
      rw [swapped, hr, if_neg (by omega)]
    have hold' : swapped m i j = j := by
      rw [swapped, hback, if_neg (by omega)]
    funext p
    rw [Function.comp_apply]
    by_cases hp : p = i + 1
    · rw [hp, Equiv.swap_apply_left, hnew, hold']
    · by_cases hp' : p = j
      · rw [hp', Equiv.swap_apply_right, hnew', hold]
      · rw [Equiv.swap_apply_of_ne_of_ne hp hp', hother p hp hp']
  · have hold : swapped m i (i + 1) = j := by
      rcases Nat.lt_or_ge j (i + 1) with h | h
      · rw [swapped, hr, if_pos ⟨hi, .inr (Nat.lt_succ_iff.mp h)⟩]
      · have heq : j = i + 1 := by omega
        rw [swapped, hr, heq, ite_self]
    have hold' : swapped m i j = i + 1 := by
      rcases Nat.lt_or_ge j (i + 1) with h | h
      · rw [swapped, hback, if_pos ⟨hj, .inl (Nat.lt_succ_iff.mp h)⟩]
      · have heq : j = i + 1 := by omega
        rw [swapped, hback, heq, ite_self]
    funext p
    by_cases hp : p = i + 1
    · rw [hp, hnew, hold]
    · by_cases hp' : p = j
      · rw [hp', hnew', hold']
      · exact hother p hp hp'

/-- The permutation puts every input at the reversed place. -/
theorem fftBitReverse_eq (m : ℕ) (z : Signal F) :
    fftBitReverse (2 ^ m) z =
      ⟨fun p => z.re (if p < 2 ^ m then reverse m p else p), fun p => z.im (if p < 2 ^ m then reverse m p else p)⟩ := by
  have hrun : ∀ i, i + 1 ≤ 2 ^ m → (List.range' 1 i).foldl (bitReverseRound (2 ^ m)) (0, z) =
      (reverse m i, ⟨z.re ∘ swapped m i, z.im ∘ swapped m i⟩) := by
    intro i
    induction i with
    | zero =>
        intro _
        rw [reverse_zero, swapped_zero]
        rfl
    | succ i ih =>
        intro hle
        obtain ⟨m, rfl⟩ : ∃ k, m = k + 1 := by
          refine Nat.exists_eq_add_one_of_ne_zero ?_
          rintro rfl
          rw [pow_zero] at hle
          omega
        have hhalf : 2 ^ (m + 1) / 2 = 2 ^ m := by
          rw [pow_succ]
          omega
        have hnext : 1 + 1 * i = i + 1 := by omega
        rw [List.range'_concat, List.foldl_append, ih (by omega), List.foldl_cons, List.foldl_nil, bitReverseRound]
        dsimp only
        rw [hhalf, countUp_reverse (by omega), hnext, swapped_succ (by omega)]
        split_ifs
        · rfl
        · rfl
  have hpos : 0 < 2 ^ m := Nat.two_pow_pos m
  rw [fftBitReverse, hrun (2 ^ m - 1) (by omega)]
  have hall : ∀ p, swapped m (2 ^ m - 1) p = if p < 2 ^ m then reverse m p else p := by
    intro p
    refine if_congr ⟨fun h => h.1, fun h => ⟨h, .inl (by omega)⟩⟩ rfl rfl
  have hfun : swapped m (2 ^ m - 1) = fun p => if p < 2 ^ m then reverse m p else p := funext hall
  rw [hfun]
  rfl

/-! ## Complex numbers -/

/-- The complex numbers of two real arrays. -/
def Signal.toComplex (z : Signal ℝ) (p : ℕ) : ℂ := ⟨z.re p, z.im p⟩

theorem toComplex_butterfly (wr wi : ℝ) (a b : ℕ) (z : Signal ℝ) :
    (z.butterfly wr wi a b).toComplex = butterfly ⟨wr, wi⟩ a b z.toComplex := by
  funext p
  rw [butterfly_apply]
  unfold Signal.butterfly Signal.toComplex
  dsimp only
  rw [Function.update_apply, Function.update_apply, Function.update_apply, Function.update_apply]
  split_ifs
  · exact Complex.ext (by simp) (by simp)
  · exact Complex.ext (by simp) (by simp)
  · rfl

theorem toComplex_block (half : ℕ) (wr wi : ℝ) (i : ℕ) (z : Signal ℝ) :
    (z.block half wr wi i).1.toComplex = (block half ⟨wr, wi⟩ i z.toComplex).1 := by
  have hrun : ∀ n, ((List.range n).foldl (fun s k => (butterfly s.2 (i + k) (i + k + half) s.1, s.2 * ⟨wr, wi⟩))
      (z.toComplex, (1 : ℂ))) =
      (((List.range n).foldl (fun s k =>
        (s.1.butterfly s.2.1 s.2.2 (i + k) (i + k + half), s.2.1 * wr - s.2.2 * wi, s.2.1 * wi + s.2.2 * wr))
          (z, (1 : ℝ), (0 : ℝ))).1.toComplex,
        ⟨((List.range n).foldl (fun s k =>
          (s.1.butterfly s.2.1 s.2.2 (i + k) (i + k + half), s.2.1 * wr - s.2.2 * wi, s.2.1 * wi + s.2.2 * wr))
            (z, (1 : ℝ), (0 : ℝ))).2.1,
          ((List.range n).foldl (fun s k =>
            (s.1.butterfly s.2.1 s.2.2 (i + k) (i + k + half), s.2.1 * wr - s.2.2 * wi, s.2.1 * wi + s.2.2 * wr))
              (z, (1 : ℝ), (0 : ℝ))).2.2⟩) := by
    intro n
    induction n with
    | zero => rfl
    | succ n ih =>
        rw [List.range_succ, List.foldl_append, List.foldl_append, ih]
        simp only [List.foldl_cons, List.foldl_nil, toComplex_butterfly]
        refine Prod.ext rfl ?_
        exact Complex.ext (by simp) (by simp)
  have hblock := hrun half
  rw [block, hblock]
  rfl

theorem toComplex_stage (blocks half : ℕ) (hhalf : 0 < half) (wr wi : ℝ) (z : Signal ℝ) :
    (z.stage (blocks * (2 * half)) (2 * half) wr wi).toComplex = stage blocks half ⟨wr, wi⟩ z.toComplex := by
  have hcount : (blocks * (2 * half) + 2 * half - 1) / (2 * half) = blocks := by
    have hsplit : blocks * (2 * half) + 2 * half - 1 = 2 * half - 1 + blocks * (2 * half) := by omega
    rw [hsplit, Nat.add_mul_div_right _ _ (by omega), Nat.div_eq_of_lt (by omega), Nat.zero_add]
  have hdiv : 2 * half / 2 = half := by omega
  rw [Signal.stage, hcount, hdiv, stage]
  refine (List.foldl_hom Signal.toComplex fun z b => ?_).symm
  exact (toComplex_block half wr wi (b * (2 * half)) z).symm

/-- The step of a length, a root of unity. -/
noncomputable def root (len : ℕ) : ℂ := Complex.exp (-((2 : ℕ) * Real.pi / len) * Complex.I)

theorem root_def (len : ℕ) : root len = Complex.exp (-(2 * Real.pi / len) * Complex.I) := by
  rw [root, Nat.cast_ofNat]

theorem root_eq (len : ℕ) :
    root len = ⟨Real.cos (-2 * Real.pi / len), Real.sin (-2 * Real.pi / len)⟩ := by
  have hangle : (-(2 * Real.pi / len) * Complex.I : ℂ) = ((-2 * Real.pi / len : ℝ) : ℂ) * Complex.I := by
    push_cast
    ring
  rw [root_def, hangle]
  generalize -2 * Real.pi / (len : ℝ) = angle
  rw [Complex.exp_mul_I, ← Complex.ofReal_cos, ← Complex.ofReal_sin]
  exact Complex.ext (by simp [Complex.cos_ofReal_re]) (by simp [Complex.sin_ofReal_re])

theorem root_sq {len : ℕ} (h : 0 < len) : root (2 * len) ^ 2 = root len := by
  have hne : (len : ℂ) ≠ 0 := Nat.cast_ne_zero.mpr h.ne'
  rw [root_def, ← Complex.exp_nat_mul, root_def]
  congr 1
  push_cast
  field_simp

theorem root_half {half : ℕ} (h : 0 < half) : root (2 * half) ^ half = -1 := by
  have hne : (half : ℂ) ≠ 0 := Nat.cast_ne_zero.mpr h.ne'
  rw [root_def, ← Complex.exp_nat_mul]
  have hangle : (half : ℂ) * (-(2 * Real.pi / ((2 * half : ℕ) : ℂ)) * Complex.I) = -(Real.pi * Complex.I) := by
    push_cast
    field_simp
  rw [hangle, Complex.exp_neg, Complex.exp_pi_mul_I]
  norm_num

/-- The stages from blocks of `2 ^ s` inputs on; no place behind the frame is written. -/
theorem staged_stages (x : ℕ → ℂ) (r s : ℕ) {z : Signal ℝ} (h : Staged x (root (2 ^ s)) r s z.toComplex) :
    Staged x (root (2 ^ (r + s))) 0 (r + s)
      (z.stages (fun len => Real.cos (-2 * Real.pi / len)) (fun len => Real.sin (-2 * Real.pi / len)) (2 ^ (r + s))
        (2 ^ (s + 1))).toComplex ∧
    ∀ p, 2 ^ (r + s) ≤ p →
      (z.stages (fun len => Real.cos (-2 * Real.pi / len)) (fun len => Real.sin (-2 * Real.pi / len)) (2 ^ (r + s))
        (2 ^ (s + 1))).toComplex p = z.toComplex p := by
  induction r generalizing s z with
  | zero =>
      have hstop : ¬ (0 < 2 ^ (s + 1) ∧ 2 ^ (s + 1) ≤ 2 ^ (0 + s)) := by
        rw [Nat.zero_add, pow_succ]
        have hpos := Nat.two_pow_pos s
        omega
      rw [Signal.stages, if_neg hstop, Nat.zero_add]
      exact ⟨h, fun p _ => rfl⟩
  | succ r ih =>
      have hle : 2 ^ (s + 1) ≤ 2 ^ (r + 1 + s) := Nat.pow_le_pow_right (by decide) (by omega)
      have hlen : 2 ^ (s + 1) = 2 * 2 ^ s := by rw [pow_succ, Nat.mul_comm]
      have hn : 2 ^ (r + 1 + s) = 2 ^ r * (2 * 2 ^ s) := by ring
      have hexp : r + 1 + s = r + (s + 1) := by omega
      have hroot : Staged x (root (2 ^ (s + 1)) ^ 2) (r + 1) s z.toComplex := by
        rw [hlen, root_sq (Nat.two_pow_pos s)]
        exact h
      have hstage := hroot.stage (by rw [hlen, root_half (Nat.two_pow_pos s)])
      have hdouble : 2 * 2 ^ (s + 1) = 2 ^ (s + 1 + 1) := by ring
      have hsame := toComplex_stage (2 ^ r) (2 ^ s) (Nat.two_pow_pos s) (Real.cos (-2 * Real.pi / (2 ^ (s + 1) : ℕ)))
        (Real.sin (-2 * Real.pi / (2 ^ (s + 1) : ℕ))) z
      rw [← root_eq, ← hn, ← hlen] at hsame
      have hkeep := (stage_spec (2 ^ r) (2 ^ s) (root (2 ^ (s + 1))) z.toComplex).2
      rw [← hsame] at hstage hkeep
      rw [← hn] at hkeep
      rw [Signal.stages, if_pos ⟨Nat.two_pow_pos _, hle⟩, hdouble]
      rw [hexp] at hstage hkeep ⊢
      obtain ⟨hstaged, houtside⟩ := ih (s + 1) hstage
      exact ⟨hstaged, fun p hp => (houtside p hp).trans (hkeep p hp)⟩

/-- The stages behind the reordering, and what is behind the frame. -/
theorem staged_forward (m : ℕ) (z : Signal ℝ) :
    Staged z.toComplex (root (2 ^ m)) 0 m (wfFftForward (fun len => Real.cos (-2 * Real.pi / len))
      (fun len => Real.sin (-2 * Real.pi / len)) (2 ^ m) z).toComplex ∧
    ∀ p, 2 ^ m ≤ p → (wfFftForward (fun len => Real.cos (-2 * Real.pi / len))
      (fun len => Real.sin (-2 * Real.pi / len)) (2 ^ m) z).toComplex p = (fftBitReverse (2 ^ m) z).toComplex p := by
  have hinput : Staged z.toComplex (root (2 ^ 0)) m 0 (fftBitReverse (2 ^ m) z).toComplex := by
    refine .input _ _ m fun b hb => ?_
    rw [fftBitReverse_eq]
    unfold Signal.toComplex
    dsimp only
    rw [if_pos hb]
  have hall := staged_stages z.toComplex m 0 hinput
  rw [Nat.add_zero, Nat.zero_add, pow_one] at hall
  exact hall

theorem root_pow (m t k : ℕ) :
    root (2 ^ m) ^ (t * k) = Complex.exp (-(2 * Real.pi * t * k / 2 ^ m) * Complex.I) := by
  rw [root_def, ← Complex.exp_nat_mul]
  congr 1
  push_cast
  ring

/-- **The transform** of a frame is its discrete Fourier transform, and nothing behind the frame changes. -/
theorem wfFftForward_eq (m : ℕ) (z : Signal ℝ) :
    (∀ k < 2 ^ m, (wfFftForward (fun len => Real.cos (-2 * Real.pi / len)) (fun len => Real.sin (-2 * Real.pi / len))
      (2 ^ m) z).toComplex k =
        ∑ t ∈ Finset.range (2 ^ m), z.toComplex t * Complex.exp (-(2 * Real.pi * t * k / 2 ^ m) * Complex.I)) ∧
      ∀ k, 2 ^ m ≤ k → (wfFftForward (fun len => Real.cos (-2 * Real.pi / len))
        (fun len => Real.sin (-2 * Real.pi / len)) (2 ^ m) z).toComplex k = z.toComplex k := by
  obtain ⟨hstaged, houtside⟩ := staged_forward m z
  constructor
  · intro k hk
    rw [hstaged.output hk]
    exact Finset.sum_congr rfl fun t _ => by rw [root_pow]
  · intro k hk
    rw [houtside k hk, fftBitReverse_eq]
    unfold Signal.toComplex
    dsimp only
    rw [if_neg (Nat.not_lt.mpr hk)]

end SimpleSatOps.Fft
