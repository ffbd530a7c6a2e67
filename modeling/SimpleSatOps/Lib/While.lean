import Mathlib.Logic.Function.Iterate
import Mathlib.Tactic

/-!
# While loops

* `loop` : a loop with fuel;
* `Exits` : the loop leaves with a state after a number of rounds;
* `loop_of_exits`, `exits_of_loop` : the loop with fuel, and its rounds;
* `Exits.unique` : there is one state it leaves with;
* `exits_iff` : it leaves exactly when its condition fails after some round.
-/

namespace SimpleSatOps.While

variable {σ : Type*}

/-- `while (cond) body`; `none` where the fuel runs out. -/
def loop (cond : σ → Bool) (body : σ → σ) : (fuel : ℕ) → σ → Option σ
  | 0, _ => none
  | fuel + 1, s => if cond s then loop cond body fuel (body s) else some s

/-- The condition holds for `k` rounds and then fails. -/
def Exits (cond : σ → Bool) (body : σ → σ) (s : σ) (k : ℕ) : Prop :=
  (∀ i < k, cond (body^[i] s) = true) ∧ cond (body^[k] s) = false

variable {cond : σ → Bool} {body : σ → σ}

theorem loop_of_exits {k : ℕ} : ∀ {fuel : ℕ} {s : σ}, Exits cond body s k → k < fuel →
    loop cond body fuel s = some (body^[k] s) := by
  induction k with
  | zero =>
      intro fuel s h hlt
      obtain ⟨fuel, rfl⟩ := Nat.exists_eq_add_one_of_ne_zero hlt.ne'
      have hcond : cond s = false := h.2
      rw [loop, hcond]
      rfl
  | succ k ih =>
      intro fuel s h hlt
      obtain ⟨fuel, rfl⟩ := Nat.exists_eq_add_one_of_ne_zero (Nat.zero_lt_of_lt hlt).ne'
      have hcond : cond s = true := h.1 0 (Nat.succ_pos k)
      have hrest : Exits cond body (body s) k := ⟨fun i hi => h.1 (i + 1) (Nat.succ_lt_succ hi), h.2⟩
      rw [loop, if_pos hcond, ih hrest (Nat.lt_of_succ_lt_succ hlt)]
      rfl

theorem exits_of_loop {fuel : ℕ} : ∀ {s s' : σ}, loop cond body fuel s = some s' →
    ∃ k, Exits cond body s k ∧ s' = body^[k] s := by
  induction fuel with
  | zero => exact fun h => nomatch h
  | succ fuel ih =>
      intro s s' h
      rw [loop] at h
      split at h
      · next hcond =>
          obtain ⟨k, ⟨hall, hlast⟩, rfl⟩ := ih h
          refine ⟨k + 1, ⟨fun i hi => ?_, hlast⟩, rfl⟩
          cases i with
          | zero => exact hcond
          | succ i => exact hall i (Nat.lt_of_succ_lt_succ hi)
      · next hcond =>
          rw [Bool.not_eq_true] at hcond
          exact ⟨0, ⟨fun i hi => absurd hi (Nat.not_lt_zero i), hcond⟩, (Option.some.inj h).symm⟩

theorem Exits.unique {s : σ} {k l : ℕ} (hk : Exits cond body s k) (hl : Exits cond body s l) : k = l := by
  rcases lt_trichotomy k l with hlt | rfl | hlt
  · exact absurd (hl.1 k hlt) (by rw [hk.2]; exact Bool.false_ne_true)
  · rfl
  · exact absurd (hk.1 l hlt) (by rw [hl.2]; exact Bool.false_ne_true)

/-- The loop leaves when its condition fails at some time. -/
theorem exits_iff {s : σ} : (∃ k, Exits cond body s k) ↔ ∃ k, cond (body^[k] s) = false := by
  classical
  constructor
  · rintro ⟨k, h⟩
    exact ⟨k, h.2⟩
  · intro h
    refine ⟨Nat.find h, fun i hi => ?_, Nat.find_spec h⟩
    rw [← Bool.not_eq_false]
    exact Nat.find_min h hi

/-- More fuel does not change what a loop gives. -/
theorem loop_mono {fuel fuel' : ℕ} (hle : fuel ≤ fuel') {s s' : σ} (h : loop cond body fuel s = some s') :
    loop cond body fuel' s = some s' := by
  induction fuel generalizing fuel' s with
  | zero => exact nomatch h
  | succ fuel ih =>
      obtain ⟨fuel', rfl⟩ := Nat.exists_eq_add_one_of_ne_zero (Nat.zero_lt_of_lt hle).ne'
      rw [loop] at h ⊢
      split
      · next hcond =>
          rw [if_pos hcond] at h
          exact ih (Nat.le_of_succ_le_succ hle) h
      · next hcond =>
          rw [if_neg hcond] at h
          exact h

/-- A loop gives the same whatever fuel it ends with. -/
theorem loop_unique {fuel fuel' : ℕ} {s s₁ s₂ : σ} (h₁ : loop cond body fuel s = some s₁)
    (h₂ : loop cond body fuel' s = some s₂) : s₁ = s₂ := by
  obtain ⟨k, hk, rfl⟩ := exits_of_loop h₁
  obtain ⟨l, hl, rfl⟩ := exits_of_loop h₂
  rw [hk.unique hl]

end SimpleSatOps.While
