import Mathlib.Analysis.SpecialFunctions.Log.Base
import Mathlib.Analysis.SpecialFunctions.Trigonometric.Basic

/-!
# The mathematics of the C library

* `Libm`, `Libm.real` : the functions that programs call, and what they are in exact numbers;
* `lrint` : to the nearest integer, a half to the even one;
* `clampInt16` : cut to 16 bits; `lrint_clampInt16` : the integer fits.
-/

namespace SimpleSatOps

/-- Functions of `math.h`, and `M_PI`. -/
structure Libm (F : Type*) where
  pi : F
  exp : F → F
  cos : F → F
  sin : F → F
  log10 : F → F

noncomputable def Libm.real : Libm ℝ := ⟨Real.pi, Real.exp, Real.cos, Real.sin, Real.logb (10 : ℕ)⟩

section
variable {F : Type*} [Field F] [LinearOrder F]

/-- `lrint`. -/
def lrint [FloorRing F] (x : F) : ℤ :=
  if x - ⌊x⌋ < ⌊x⌋ + 1 - x then ⌊x⌋
  else if ⌊x⌋ + 1 - x < x - ⌊x⌋ then ⌊x⌋ + 1
  else if ⌊x⌋ % 2 = 0 then ⌊x⌋ else ⌊x⌋ + 1

def clampInt16 (y : F) : F :=
  let y := if 32767 < y then 32767 else y
  if y < -32768 then -32768 else y

theorem le_lrint [FloorRing F] {x : F} {n : ℤ} (h : (n : F) ≤ x) : n ≤ lrint x := by
  have hle : n ≤ ⌊x⌋ := Int.le_floor.mpr h
  unfold lrint
  split_ifs <;> omega

variable [IsStrictOrderedRing F]

theorem lrint_intCast [FloorRing F] (n : ℤ) : lrint (n : F) = n := by
  have hhalf : (n : F) - (n : F) < n + 1 - n := by
    rw [sub_self, add_sub_cancel_left]
    exact one_pos
  rw [lrint, Int.floor_intCast, if_pos hhalf]

theorem lrint_le [FloorRing F] {x : F} {n : ℤ} (h : x ≤ n) : lrint x ≤ n := by
  have hfloor : (⌊x⌋ : F) ≤ x := Int.floor_le x
  have hle : ⌊x⌋ ≤ n := by exact_mod_cast hfloor.trans h
  unfold lrint
  rcases hle.lt_or_eq with hlt | heq
  · split_ifs <;> omega
  · -- The floor is the bound, and `x` with it.
    have hzero : x - (⌊x⌋ : F) < ⌊x⌋ + 1 - x := by
      rw [heq]
      linarith
    rw [if_pos hzero]
    exact hle

theorem lrint_clampInt16 [FloorRing F] (y : F) : -32768 ≤ lrint (clampInt16 y) ∧ lrint (clampInt16 y) ≤ 32767 := by
  have hbounds : ((-32768 : ℤ) : F) ≤ clampInt16 y ∧ clampInt16 y ≤ ((32767 : ℤ) : F) := by
    unfold clampInt16
    push_cast
    split_ifs <;> constructor <;> linarith
  exact ⟨le_lrint hbounds.1, lrint_le hbounds.2⟩

/-- A sample of 16 bits stays. -/
theorem clampInt16_intCast {n : ℤ} (hlo : -32768 ≤ n) (hhi : n ≤ 32767) : clampInt16 (n : F) = n := by
  have hlo' : (-32768 : F) ≤ n := by exact_mod_cast hlo
  have hhi' : (n : F) ≤ 32767 := by exact_mod_cast hhi
  unfold clampInt16
  rw [if_neg hhi'.not_gt]
  dsimp only
  rw [if_neg hlo'.not_gt]

end

end SimpleSatOps
