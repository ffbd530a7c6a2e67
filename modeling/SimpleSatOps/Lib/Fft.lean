import Mathlib.Algebra.BigOperators.Intervals
import Mathlib.Tactic

/-!
# The fast Fourier transform in place

Arrays are functions of the index; `x` is the input and `w` a root of unity in any commutative ring.

* `reverse`, `reverse_reverse` : numbers with their bits the other way round;
* `butterfly`, `block`, `stage` : the passes over the array;
* `Staged` : what the array holds when the blocks are of size `2 ^ s`;
* `Staged.input`, `Staged.stage`, `Staged.output` : from the reversed input to the transform.
-/

namespace SimpleSatOps.Fft

/-! ## Reversed bits -/

/-- The low `m` bits of a number, the other way round. -/
def reverse : ℕ → ℕ → ℕ
  | 0, _ => 0
  | m + 1, i => i % 2 * 2 ^ m + reverse m (i / 2)

example : reverse 3 6 = 3 := rfl

theorem reverse_lt (m i : ℕ) : reverse m i < 2 ^ m := by
  induction m generalizing i with
  | zero => exact Nat.one_pos
  | succ m ih =>
      have hrest := ih (i / 2)
      have hbit : i % 2 * 2 ^ m ≤ 1 * 2 ^ m := Nat.mul_le_mul_right _ (by omega)
      rw [reverse, pow_succ]
      omega

theorem reverse_zero (m : ℕ) : reverse m 0 = 0 := by
  induction m with
  | zero => rfl
  | succ m ih => rw [reverse, Nat.zero_mod, Nat.zero_mul, Nat.zero_div, ih]

theorem reverse_even (m i : ℕ) : reverse (m + 1) (2 * i) = reverse m i := by
  have hdiv : 2 * i / 2 = i := by omega
  rw [reverse, Nat.mul_mod_right, hdiv, Nat.zero_mul, Nat.zero_add]

theorem reverse_odd (m i : ℕ) : reverse (m + 1) (2 * i + 1) = 2 ^ m + reverse m i := by
  have hmod : (2 * i + 1) % 2 = 1 := by omega
  have hdiv : (2 * i + 1) / 2 = i := by omega
  rw [reverse, hmod, hdiv, Nat.one_mul]

/-- The highest bit becomes the lowest. -/
theorem reverse_high (m c : ℕ) {j : ℕ} (hc : c < 2) (hj : j < 2 ^ m) :
    reverse (m + 1) (c * 2 ^ m + j) = c + 2 * reverse m j := by
  induction m generalizing j with
  | zero =>
      obtain rfl : j = 0 := by omega
      simp only [reverse, pow_zero, Nat.mul_one, Nat.add_zero, Nat.mul_zero]
      omega
  | succ m ih =>
      rw [pow_succ] at hj
      have hpow : c * 2 ^ (m + 1) = 2 * (c * 2 ^ m) := by ring
      have hmod : (c * 2 ^ (m + 1) + j) % 2 = j % 2 := by omega
      have hdiv : (c * 2 ^ (m + 1) + j) / 2 = c * 2 ^ m + j / 2 := by omega
      rw [reverse, hmod, hdiv, ih (by omega), reverse, pow_succ]
      ring

/-- Reversing twice gives the number back. -/
theorem reverse_reverse {m i : ℕ} (h : i < 2 ^ m) : reverse m (reverse m i) = i := by
  induction m generalizing i with
  | zero =>
      rw [pow_zero] at h
      obtain rfl : i = 0 := by omega
      rfl
  | succ m ih =>
      rw [pow_succ] at h
      rw [reverse.eq_2 i m, reverse_high m (i % 2) (by omega) (reverse_lt m _), ih (by omega)]
      omega

/-! ## Passes over the array -/

section
variable {R : Type*} [CommRing R]

/-- Two places and their sum and difference, the second one turned by `w`. -/
def butterfly (w : R) (a b : ℕ) (y : ℕ → R) : ℕ → R :=
  Function.update (Function.update y b (y a - w * y b)) a (y a + w * y b)

theorem butterfly_apply (w : R) (a b : ℕ) (y : ℕ → R) (p : ℕ) :
    butterfly w a b y p = if p = a then y a + w * y b else if p = b then y a - w * y b else y p := by
  rw [butterfly, Function.update_apply, Function.update_apply]

/-- The butterflies of a block at `i`, with powers of `w` by repeated multiplication. -/
def block (half : ℕ) (w : R) (i : ℕ) (y : ℕ → R) : (ℕ → R) × R :=
  (List.range half).foldl (fun s k => (butterfly s.2 (i + k) (i + k + half) s.1, s.2 * w)) (y, 1)

/-- All `blocks` blocks of two halves. -/
def stage (blocks half : ℕ) (w : R) (y : ℕ → R) : ℕ → R :=
  (List.range blocks).foldl (fun y b => (block half w (b * (2 * half)) y).1) y

/-- The block as one step: the first half of it, the second, and all other places. -/
theorem block_spec (half : ℕ) (w : R) (i : ℕ) (y : ℕ → R) {n : ℕ} (hn : n ≤ half) :
    (((List.range n).foldl (fun s k => (butterfly s.2 (i + k) (i + k + half) s.1, s.2 * w)) (y, 1)).2 = w ^ n) ∧
      ∀ p, ((List.range n).foldl (fun s k => (butterfly s.2 (i + k) (i + k + half) s.1, s.2 * w)) (y, 1)).1 p =
        if i ≤ p ∧ p < i + n then y p + w ^ (p - i) * y (p + half)
        else if i + half ≤ p ∧ p < i + half + n then y (p - half) - w ^ (p - half - i) * y p
        else y p := by
  induction n with
  | zero =>
      refine ⟨(pow_zero w).symm, fun p => ?_⟩
      rw [if_neg (by omega), if_neg (by omega)]
      rfl
  | succ n ih =>
      obtain ⟨hpow, hread⟩ := ih (Nat.le_of_succ_le hn)
      rw [List.range_succ, List.foldl_append, List.foldl_cons, List.foldl_nil]
      refine ⟨by rw [hpow, pow_succ], fun p => ?_⟩
      -- The two places of this butterfly still hold what they did before the block.
      have hfirst := hread (i + n)
      have hsecond := hread (i + n + half)
      rw [if_neg (by omega), if_neg (by omega)] at hfirst
      rw [if_neg (by omega), if_neg (by omega)] at hsecond
      rw [hpow]
      dsimp only
      rw [butterfly_apply, hfirst, hsecond, hread p]
      by_cases hp : p = i + n
      · subst hp
        rw [if_pos rfl, if_pos (by omega), Nat.add_sub_cancel_left]
      · rw [if_neg hp]
        by_cases hp' : p = i + n + half
        · subst hp'
          have hback : i + n + half - half = i + n := Nat.add_sub_cancel _ _
          rw [if_pos rfl, if_neg (by omega), if_pos (by omega), hback, Nat.add_sub_cancel_left]
        · rw [if_neg hp']
          by_cases hlow : i ≤ p ∧ p < i + n
          · rw [if_pos hlow, if_pos (by omega)]
          · rw [if_neg hlow, if_neg (c := i ≤ p ∧ p < i + (n + 1)) (by omega)]
            by_cases hhigh : i + half ≤ p ∧ p < i + half + n
            · rw [if_pos hhigh, if_pos (by omega)]
            · rw [if_neg hhigh, if_neg (by omega)]

/-- The places of the blocks, and all places behind them. -/
theorem stage_spec (blocks half : ℕ) (w : R) (y : ℕ → R) :
    (∀ b < blocks, ∀ k < half,
      stage blocks half w y (b * (2 * half) + k) =
        y (b * (2 * half) + k) + w ^ k * y (b * (2 * half) + k + half) ∧
      stage blocks half w y (b * (2 * half) + k + half) =
        y (b * (2 * half) + k) - w ^ k * y (b * (2 * half) + k + half)) ∧
      ∀ p, blocks * (2 * half) ≤ p → stage blocks half w y p = y p := by
  induction blocks with
  | zero => exact ⟨fun b hb => absurd hb (Nat.not_lt_zero b), fun p _ => rfl⟩
  | succ n ih =>
      obtain ⟨hin, hout⟩ := ih
      have hstep : stage (n + 1) half w y = (block half w (n * (2 * half)) (stage n half w y)).1 := by
        rw [stage, List.range_succ, List.foldl_append, List.foldl_cons, List.foldl_nil]
        rfl
      have hblock := (block_spec half w (n * (2 * half)) (stage n half w y) le_rfl).2
      rw [hstep, block]
      constructor
      · intro b hb k hk
        rw [hblock, hblock]
        rcases Nat.lt_succ_iff_lt_or_eq.mp hb with hlt | rfl
        · have hbefore : (b + 1) * (2 * half) ≤ n * (2 * half) := Nat.mul_le_mul_right _ hlt
          rw [Nat.succ_mul] at hbefore
          rw [if_neg (by omega), if_neg (by omega), if_neg (by omega), if_neg (by omega)]
          exact hin b hlt k hk
        · have hback : b * (2 * half) + k + half - half = b * (2 * half) + k := Nat.add_sub_cancel _ _
          rw [if_pos (by omega), if_neg (by omega), if_pos (by omega), hback, Nat.add_sub_cancel_left,
            hout _ (by omega), hout _ (by omega)]
          exact ⟨rfl, rfl⟩
      · intro p hp
        rw [Nat.succ_mul] at hp
        rw [hblock, if_neg (by omega), if_neg (by omega)]
        exact hout p (by omega)

/-! ## From the reversed input to the transform -/

open Finset

/-- `2 ^ r` transforms of `2 ^ s` inputs each, which are `2 ^ r` apart. -/
def Staged (x : ℕ → R) (w : R) (r s : ℕ) (y : ℕ → R) : Prop :=
  ∀ b < 2 ^ r, ∀ k < 2 ^ s, y (b * 2 ^ s + k) = ∑ t ∈ range (2 ^ s), x (reverse r b + 2 ^ r * t) * w ^ (t * k)

theorem sum_range_two_mul (f : ℕ → R) (n : ℕ) :
    ∑ t ∈ range (2 * n), f t = ∑ t ∈ range n, f (2 * t) + ∑ t ∈ range n, f (2 * t + 1) := by
  induction n with
  | zero => exact (add_zero _).symm
  | succ n ih =>
      rw [Nat.mul_succ, sum_range_succ, sum_range_succ, ih, sum_range_succ _ n, sum_range_succ _ n]
      ring

/-- The input in the order of the reversed numbers. -/
theorem Staged.input (x : ℕ → R) (w : R) (m : ℕ) {y : ℕ → R} (h : ∀ b < 2 ^ m, y b = x (reverse m b)) :
    Staged x w m 0 y := by
  intro b hb k hk
  rw [pow_zero] at hk
  obtain rfl : k = 0 := by omega
  rw [pow_zero, Nat.mul_one, Nat.add_zero, h b hb, sum_range_one, Nat.mul_zero, Nat.add_zero, Nat.zero_mul, pow_zero,
    mul_one]

/-- Blocks are joined two by two. -/
theorem Staged.stage {x : ℕ → R} {w : R} {r s : ℕ} {y : ℕ → R} (h : Staged x (w ^ 2) (r + 1) s y)
    (hw : w ^ 2 ^ s = -1) : Staged x w r (s + 1) (stage (2 ^ r) (2 ^ s) w y) := by
  intro b hb k hk
  have hspec := (stage_spec (2 ^ r) (2 ^ s) w y).1 b hb
  have hblock : b * 2 ^ (s + 1) = b * (2 * 2 ^ s) := by rw [pow_succ, Nat.mul_comm (2 ^ s)]
  -- The two halves of the block are transforms of the inputs at even and at odd places.
  have heven : ∀ j < 2 ^ s, y (b * (2 * 2 ^ s) + j) =
      ∑ t ∈ range (2 ^ s), x (reverse r b + 2 ^ r * (2 * t)) * w ^ (2 * t * j) := by
    intro j hj
    have hb' : 2 * b < 2 ^ (r + 1) := by
      rw [pow_succ]
      omega
    have hplace : b * (2 * 2 ^ s) + j = 2 * b * 2 ^ s + j := by ring
    rw [hplace, h (2 * b) hb' j hj, reverse_even]
    refine sum_congr rfl fun t _ => ?_
    rw [← pow_mul, pow_succ]
    congr 2 <;> ring
  have hodd : ∀ j < 2 ^ s, w ^ j * y (b * (2 * 2 ^ s) + j + 2 ^ s) =
      ∑ t ∈ range (2 ^ s), x (reverse r b + 2 ^ r * (2 * t + 1)) * w ^ ((2 * t + 1) * j) := by
    intro j hj
    have hb' : 2 * b + 1 < 2 ^ (r + 1) := by
      rw [pow_succ]
      omega
    have hplace : b * (2 * 2 ^ s) + j + 2 ^ s = (2 * b + 1) * 2 ^ s + j := by ring
    rw [hplace, h (2 * b + 1) hb' j hj, reverse_odd, mul_sum]
    refine sum_congr rfl fun t _ => ?_
    have hindex : 2 ^ r + reverse r b + 2 ^ (r + 1) * t = reverse r b + 2 ^ r * (2 * t + 1) := by ring
    have hpower : w ^ ((2 * t + 1) * j) = w ^ j * (w ^ 2) ^ (t * j) := by
      rw [← pow_mul, ← pow_add]
      congr 1
      ring
    rw [hindex, hpower]
    ring
  have hhalf : ∀ t j, w ^ (t * (j + 2 ^ s)) = w ^ (t * j) * (-1) ^ t := by
    intro t j
    rw [Nat.mul_add, pow_add, Nat.mul_comm t (2 ^ s), pow_mul w (2 ^ s) t, hw]
  rw [hblock, pow_succ, Nat.mul_comm (2 ^ s) 2, sum_range_two_mul]
  rw [pow_succ] at hk
  rcases Nat.lt_or_ge k (2 ^ s) with hlow | hhigh
  · rw [(hspec k hlow).1, heven k hlow, hodd k hlow]
  · obtain ⟨j, rfl⟩ := Nat.exists_eq_add_of_le' hhigh
    have hj : j < 2 ^ s := by omega
    rw [← Nat.add_assoc, (hspec j hj).2, heven j hj, hodd j hj, sub_eq_add_neg, ← sum_neg_distrib]
    congr 1
    · refine sum_congr rfl fun t _ => ?_
      rw [hhalf, (even_two_mul t).neg_one_pow, mul_one]
    · refine sum_congr rfl fun t _ => ?_
      rw [hhalf, pow_succ, (even_two_mul t).neg_one_pow]
      ring

/-- One block of all inputs. -/
theorem Staged.output {x : ℕ → R} {w : R} {s : ℕ} {y : ℕ → R} (h : Staged x w 0 s y) {k : ℕ} (hk : k < 2 ^ s) :
    y k = ∑ t ∈ range (2 ^ s), x t * w ^ (t * k) := by
  have hblock := h 0 Nat.one_pos k hk
  rw [Nat.zero_mul, Nat.zero_add] at hblock
  rw [hblock]
  refine sum_congr rfl fun t _ => ?_
  rw [reverse, pow_zero, Nat.one_mul, Nat.zero_add]

end

end SimpleSatOps.Fft
