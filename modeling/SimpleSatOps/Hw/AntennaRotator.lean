import Mathlib.Algebra.Order.Floor.Semiring
import Mathlib.Data.Rat.Floor
import Mathlib.Order.Interval.Set.UnorderedInterval
import Mathlib.Tactic

/-!
# The angles of the rotator (`antenna_rotator.c`)

* `wrapToPm180` : the loops that bring an angle to (-180, 180];
* `wrapToPm180_mem`, `wrapToPm180_eq` : they end, and give the co-terminal in that range;
* `homeUnwrappedTarget` : where the antenna goes to;
* `homeLeg2Ready` : whether the second leg of a move home is due.

Angles are exact.
-/

namespace SimpleSatOps.AntennaRotator

def MINIMUM_AZIMUTH : ℚ := -179

def MAXIMUM_AZIMUTH : ℚ := 539

def MINIMUM_ELEVATION : ℚ := -5

def MAXIMUM_ELEVATION : ℚ := 180

/-! ## Wrapping -/

/-- `while (d > 180.0) d -= 360.0`, at most `n` times. -/
def wrapDown : (n : ℕ) → ℚ → ℚ
  | 0, d => d
  | n + 1, d => if 180 < d then wrapDown n (d - 360) else d

/-- `while (d <= -180.0) d += 360.0`, at most `n` times. -/
def wrapUp : (n : ℕ) → ℚ → ℚ
  | 0, d => d
  | n + 1, d => if d ≤ -180 then wrapUp n (d + 360) else d

/-- `antenna_rotator_wrap_to_pm180` -/
def wrapToPm180 (d : ℚ) : ℚ :=
  let d := wrapDown ⌈(d - 180) / 360⌉₊ d
  wrapUp (⌊(-180 - d) / 360⌋₊ + 1) d

theorem wrapDown_spec : ∀ {n : ℕ} {d : ℚ}, d ≤ 180 + 360 * n →
    wrapDown n d ≤ 180 ∧ ∃ k : ℤ, d = wrapDown n d + 360 * k := by
  intro n
  induction n with
  | zero =>
      intro d h
      rw [Nat.cast_zero, mul_zero, add_zero] at h
      exact ⟨h, 0, by rw [wrapDown]; simp⟩
  | succ n ih =>
      intro d h
      rw [wrapDown]
      split_ifs with hd
      · have hstep : d - 360 ≤ 180 + 360 * n := by
          push_cast at h
          linarith
        obtain ⟨hle, k, hk⟩ := ih hstep
        refine ⟨hle, k + 1, ?_⟩
        push_cast
        linarith
      · exact ⟨not_lt.mp hd, 0, by simp⟩

theorem wrapUp_spec : ∀ {n : ℕ} {d : ℚ}, d ≤ 180 → -180 < d + 360 * n →
    (-180 < wrapUp n d ∧ wrapUp n d ≤ 180) ∧ ∃ k : ℤ, d = wrapUp n d + 360 * k := by
  intro n
  induction n with
  | zero =>
      intro d hle h
      rw [Nat.cast_zero, mul_zero, add_zero] at h
      exact ⟨⟨h, hle⟩, 0, by rw [wrapUp]; simp⟩
  | succ n ih =>
      intro d hle h
      rw [wrapUp]
      split_ifs with hd
      · have hstep : -180 < d + 360 + 360 * n := by
          push_cast at h
          linarith
        obtain ⟨hmem, k, hk⟩ := ih (by linarith) hstep
        refine ⟨hmem, k - 1, ?_⟩
        push_cast
        linarith
      · exact ⟨⟨not_le.mp hd, hle⟩, 0, by simp⟩

theorem wrapToPm180_spec (d : ℚ) :
    (-180 < wrapToPm180 d ∧ wrapToPm180 d ≤ 180) ∧ ∃ k : ℤ, d = wrapToPm180 d + 360 * k := by
  have hceil : (d - 180) / 360 ≤ ⌈(d - 180) / 360⌉₊ := Nat.le_ceil _
  obtain ⟨hle, k, hk⟩ := wrapDown_spec (n := ⌈(d - 180) / 360⌉₊) (d := d) (by linarith)
  generalize hdown : wrapDown ⌈(d - 180) / 360⌉₊ d = d' at hle hk
  have hfloor : (-180 - d') / 360 < ⌊(-180 - d') / 360⌋₊ + 1 := Nat.lt_floor_add_one _
  obtain ⟨hmem, k', hk'⟩ := wrapUp_spec (n := ⌊(-180 - d') / 360⌋₊ + 1) hle (by push_cast; linarith)
  have hwrap : wrapToPm180 d = wrapUp (⌊(-180 - d') / 360⌋₊ + 1) d' := by
    unfold wrapToPm180
    rw [hdown]
  rw [hwrap]
  refine ⟨hmem, k + k', ?_⟩
  push_cast
  linarith

/-- The loops give the co-terminal in (-180, 180]. -/
theorem wrapToPm180_eq {d x : ℚ} (k : ℤ) (hd : d = x + 360 * k) (hlo : -180 < x) (hhi : x ≤ 180) :
    wrapToPm180 d = x := by
  obtain ⟨⟨hlo', hhi'⟩, k', hk'⟩ := wrapToPm180_spec d
  have hdiff : (360 : ℚ) * (k' - k) < 360 ∧ (-360 : ℚ) < 360 * (k' - k) := by
    constructor <;> linarith
  have hupper : k' - k < 1 := by
    have h : ((k' - k : ℤ) : ℚ) < 1 := by
      push_cast
      linarith [hdiff.1]
    exact_mod_cast h
  have hlower : -1 < k' - k := by
    have h : (-1 : ℚ) < ((k' - k : ℤ) : ℚ) := by
      push_cast
      linarith [hdiff.2]
    exact_mod_cast h
  obtain rfl : k' = k := by omega
  linarith

/-! ## Home -/

/-- A better one of two co-terminals in `antenna_rotator_home_unwrapped_target`: nearer to 0, then to `prev`. -/
def closer (prev best c : ℚ) : Prop := |c| < |best| ∨ |c| = |best| ∧ |c - prev| < |best - prev|

instance decidableCloser (prev best c : ℚ) : Decidable (closer prev best c) := inferInstanceAs (Decidable (_ ∨ _ ∧ _))

/-- A round of the loop of `antenna_rotator_home_unwrapped_target`, with the best co-terminal so far. -/
def homeRound (prev homeWrapped : ℚ) (best : Option ℚ) (k : ℤ) : Option ℚ :=
  let c := homeWrapped + 360 * k
  if c < MINIMUM_AZIMUTH ∨ MAXIMUM_AZIMUTH < c then best
  else
    match best with
    | none => some c
    | some b => if closer prev b c then some c else some b

/-- `antenna_rotator_home_unwrapped_target` -/
def homeUnwrappedTarget (prev homeWrapped : ℚ) : ℚ :=
  (([-2, -1, 0, 1, 2] : List ℤ).foldl (homeRound prev homeWrapped) none).getD homeWrapped

/-- `antenna_rotator_home_leg2_ready` -/
def homeLeg2Ready (currentAz midAz finalAz echoTolDeg : ℚ) : Bool :=
  let fromMid := |wrapToPm180 (currentAz - midAz)|
  let unwind := finalAz - midAz
  let remaining := wrapToPm180 (finalAz - currentAz)
  let inZone := remaining = 0 ∨ (0 < remaining ↔ 0 < unwind)
  decide (echoTolDeg < fromMid ∧ inZone)

theorem homeRound_out {prev home : ℚ} {k : ℤ}
    (h : home + 360 * k < MINIMUM_AZIMUTH ∨ MAXIMUM_AZIMUTH < home + 360 * k) (best : Option ℚ) :
    homeRound prev home best k = best := if_pos h

/-- A wrapped azimuth is its own target: its other co-terminals in the range are farther from 0. -/
theorem homeUnwrappedTarget_eq {home : ℚ} (hlo : -179 ≤ home) (hhi : home ≤ 179) (prev : ℚ) :
    homeUnwrappedTarget prev home = home := by
  have hlow : ∀ k : ℤ, k ≤ -1 → homeRound prev home none k = none := by
    intro k hk
    have hk' : (k : ℚ) ≤ -1 := by exact_mod_cast hk
    exact homeRound_out (Or.inl (by unfold MINIMUM_AZIMUTH; linarith)) none
  have hown : homeRound prev home none 0 = some home := by
    unfold homeRound MINIMUM_AZIMUTH MAXIMUM_AZIMUTH
    rw [Int.cast_zero, mul_zero, add_zero, if_neg]
    rw [not_or]
    constructor <;> linarith
  have hnext : homeRound prev home (some home) 1 = some home := by
    have habs : |home| < |home + 360 * (1 : ℤ)| := by
      have hpos : (0 : ℚ) < home + 360 * (1 : ℤ) := by push_cast; linarith
      rw [abs_of_pos hpos, abs_lt]
      push_cast
      constructor <;> linarith
    have hfar : ¬ closer prev home (home + 360 * (1 : ℤ)) := by
      rintro (h | ⟨h, -⟩)
      · exact absurd h habs.not_gt
      · exact absurd h habs.ne'
    simp only [homeRound, if_neg hfar, ite_self]
  have hhigh : homeRound prev home (some home) 2 = some home :=
    homeRound_out (Or.inr (by unfold MAXIMUM_AZIMUTH; push_cast; linarith)) _
  unfold homeUnwrappedTarget
  rw [List.foldl_cons, hlow _ (by decide), List.foldl_cons, hlow _ le_rfl, List.foldl_cons, hown, List.foldl_cons,
    hnext, List.foldl_cons, hhigh]
  rfl

end SimpleSatOps.AntennaRotator
