import Mathlib.Algebra.Order.ToIntervalMod

/-!
# Unwrapping

* `unwrap` : a reading that is known up to multiples of a period, carried on from the last value;
* `unwrap_eq_iff` : the value is the only one of its kind in the window;
* `follow` : a sequence of readings unwrapped one after the other;
* `follow_eq` : it is any path that has these readings and whose steps stay in the window.
-/

namespace SimpleSatOps.Unwrap

variable {α : Type*} [AddCommGroup α] [LinearOrder α] [IsOrderedAddMonoid α] [Archimedean α] {p : α} (hp : 0 < p)
  (a : α)

/-- The value that a reading stands for, with the step from `prev` in the window `(a, a + p]`. -/
noncomputable def unwrap (prev reading : α) : α := prev + toIocMod hp a (reading - prev)

/-- Readings unwrapped one after the other. -/
noncomputable def follow (start : α) (reading : ℕ → α) : ℕ → α
  | 0 => unwrap hp a start (reading 0)
  | i + 1 => unwrap hp a (follow start reading i) (reading (i + 1))

variable {hp a} {prev start value : α} {reading path : ℕ → α}

theorem unwrap_eq_iff {r : α} :
    unwrap hp a prev r = value ↔ value - prev ∈ Set.Ioc a (a + p) ∧ ∃ k : ℤ, value = r + k • p := by
  unfold unwrap
  rw [add_comm, ← eq_sub_iff_add_eq, toIocMod_eq_iff]
  refine and_congr_right fun _ => ⟨fun ⟨k, hk⟩ => ⟨-k, ?_⟩, fun ⟨k, hk⟩ => ⟨-k, ?_⟩⟩
  · rw [neg_smul, ← sub_eq_add_neg, eq_sub_iff_add_eq]
    have hsum : value - prev + k • p + prev = r := by rw [← hk, sub_add_cancel]
    rw [← hsum]
    abel
  · rw [hk, neg_smul]
    abel

theorem unwrap_step (prev r : α) : unwrap hp a prev r - prev ∈ Set.Ioc a (a + p) := (unwrap_eq_iff.mp rfl).1

theorem unwrap_coterminal (prev r : α) : ∃ k : ℤ, unwrap hp a prev r = r + k • p := (unwrap_eq_iff.mp rfl).2

theorem follow_coterminal (start : α) (reading : ℕ → α) (i : ℕ) :
    ∃ k : ℤ, follow hp a start reading i = reading i + k • p := by
  cases i with
  | zero => exact unwrap_coterminal _ _
  | succ i => exact unwrap_coterminal _ _

theorem follow_step (start : α) (reading : ℕ → α) (i : ℕ) :
    follow hp a start reading (i + 1) - follow hp a start reading i ∈ Set.Ioc a (a + p) := unwrap_step _ _

/-- A path that has these readings and whose steps stay in the window is followed. -/
theorem follow_eq {n : ℕ} (hco : ∀ i ≤ n, ∃ k : ℤ, path i = reading i + k • p)
    (hstart : path 0 - start ∈ Set.Ioc a (a + p)) (hstep : ∀ i < n, path (i + 1) - path i ∈ Set.Ioc a (a + p)) :
    ∀ i ≤ n, follow hp a start reading i = path i := by
  intro i
  induction i with
  | zero => exact fun hi => unwrap_eq_iff.mpr ⟨hstart, hco 0 hi⟩
  | succ i ih =>
      intro hi
      have hprev := ih (Nat.le_of_succ_le hi)
      show unwrap hp a (follow hp a start reading i) (reading (i + 1)) = path (i + 1)
      rw [hprev]
      exact unwrap_eq_iff.mpr ⟨hstep i hi, hco (i + 1) hi⟩

end SimpleSatOps.Unwrap
