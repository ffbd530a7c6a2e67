import Mathlib.Algebra.Order.Field.Rat
import Mathlib.Tactic

/-!
# Chains with bounded steps

* `clamp` : the nearest value of an interval;
* `Feasible` : the first values of a sequence lie between bounds, and neighbours within reach of each other;
* `Fits` : a value that may stand at a place;
* `Feasible.extend`, `Feasible.replace` : a value that fits takes a place at the end of a chain, or inside it.
-/

namespace SimpleSatOps.Chain

variable {α : Type*} [LinearOrder α]

/-- The value of an interval nearest to `v`; the lower end where the interval is empty and `v` is below it. -/
def clamp (v lo hi : α) : α := if v < lo then lo else if hi < v then hi else v

theorem clamp_mem {v lo hi : α} (h : lo ≤ hi) : clamp v lo hi ∈ Set.Icc lo hi := by
  unfold clamp
  split_ifs with hlo hhi
  · exact ⟨le_rfl, h⟩
  · exact ⟨h, le_rfl⟩
  · exact ⟨not_lt.mp hlo, not_lt.mp hhi⟩

theorem clamp_eq_self {v lo hi : α} (h : v ∈ Set.Icc lo hi) : clamp v lo hi = v := by
  rw [clamp, if_neg h.1.not_gt, if_neg h.2.not_gt]

variable [Field α]

/-- Clamping brings a value nearer to every value of the interval. -/
theorem abs_clamp_sub_le [IsStrictOrderedRing α] {v lo hi x : α} (hx : x ∈ Set.Icc lo hi) :
    |clamp v lo hi - x| ≤ |v - x| := by
  obtain ⟨hlo, hhi⟩ := hx
  unfold clamp
  split_ifs with hbelow habove
  · rw [abs_of_nonpos (by linarith), abs_of_nonpos (by linarith)]
    linarith
  · rw [abs_of_nonneg (by linarith), abs_of_nonneg (by linarith)]
    linarith
  · exact le_rfl

/-! ## Chains -/

variable (reach : ℕ → α) (lo hi : α)

/-- The first `n` values lie between the bounds, and each within reach of the one before. -/
structure Feasible (n : ℕ) (w : ℕ → α) : Prop where
  mem : ∀ k < n, w k ∈ Set.Icc lo hi
  near : ∀ k, k + 1 < n → |w (k + 1) - w k| ≤ reach k

/-- A value for the place `k + 1` of `n`: within reach of the one before, and of the one behind where the value there
is within reach of both. -/
structure Fits (n : ℕ) (w : ℕ → α) (k : ℕ) (v : α) : Prop where
  mem : v ∈ Set.Icc lo hi
  before : |v - w k| ≤ reach k
  behind : k + 2 < n → w (k + 1) ∈ Set.Icc lo hi → |w (k + 1) - w k| ≤ reach k →
    |w (k + 2) - w (k + 1)| ≤ reach (k + 1) → |w (k + 2) - v| ≤ reach (k + 1)

variable {reach lo hi} {n : ℕ} {w : ℕ → α}

theorem Feasible.one (h : w 0 ∈ Set.Icc lo hi) : Feasible reach lo hi 1 w where
  mem k hk := by rwa [Nat.lt_one_iff.mp hk]
  near k hk := absurd hk (by omega)

/-- A chain is made longer. -/
theorem Feasible.extend {k : ℕ} {v : α} (h : Feasible reach lo hi (k + 1) w) (hv : Fits reach lo hi n w k v) :
    Feasible reach lo hi (k + 2) (Function.update w (k + 1) v) where
  mem i hi := by
    rcases Nat.lt_or_eq_of_le (Nat.le_of_lt_succ hi) with hlt | rfl
    · rw [Function.update_of_ne hlt.ne]
      exact h.mem i hlt
    · rw [Function.update_self]
      exact hv.mem
  near i hi := by
    rcases Nat.lt_or_eq_of_le (Nat.le_of_lt_succ hi) with hlt | heq
    · rw [Function.update_of_ne hlt.ne, Function.update_of_ne (by omega)]
      exact h.near i hlt
    · obtain rfl : i = k := by omega
      rw [Function.update_self, Function.update_of_ne (by omega)]
      exact hv.before

/-- A value of a chain is replaced. -/
theorem Feasible.replace {k : ℕ} {v : α} (h : Feasible reach lo hi n w) (hk : k + 1 < n)
    (hv : Fits reach lo hi n w k v) : Feasible reach lo hi n (Function.update w (k + 1) v) where
  mem i hi := by
    by_cases hik : i = k + 1
    · rw [hik, Function.update_self]
      exact hv.mem
    · rw [Function.update_of_ne hik]
      exact h.mem i hi
  near i hi := by
    by_cases hik : i = k
    · rw [hik, Function.update_self, Function.update_of_ne (by omega)]
      exact hv.before
    · rw [Function.update_of_ne (show i + 1 ≠ k + 1 by omega)]
      by_cases hik' : i = k + 1
      · rw [hik', Function.update_self]
        rw [hik'] at hi
        exact hv.behind hi (h.mem _ hk) (h.near k hk) (h.near (k + 1) hi)
      · rw [Function.update_of_ne hik']
        exact h.near i hi

end SimpleSatOps.Chain
