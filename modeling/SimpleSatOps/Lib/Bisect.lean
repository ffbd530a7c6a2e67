import Mathlib.Order.Monotone.Basic
import Mathlib.Tactic

/-!
# Bisection

* `bisect` : the loop that halves an interval of places;
* `bisect_spec` : it ends where the predicate stops holding;
* `bisect_eq` : for a predicate that holds up to some place, it is the last one.
-/

namespace SimpleSatOps.Bisect

variable (p : ℕ → Prop) [DecidablePred p]

/-- `while (hi - lo > 1)`, with `lo` moved up where the predicate holds at the middle. -/
def bisect (lo hi : ℕ) : ℕ :=
  if 1 < hi - lo then
    if p ((lo + hi) / 2) then bisect ((lo + hi) / 2) hi else bisect lo ((lo + hi) / 2)
  else lo
termination_by hi - lo

variable {p} {lo hi : ℕ}

theorem bisect_spec (hlt : lo < hi) (hlo : p lo) (hhi : ¬p hi) :
    (lo ≤ bisect p lo hi ∧ bisect p lo hi < hi) ∧ p (bisect p lo hi) ∧ ¬p (bisect p lo hi + 1) := by
  induction lo, hi using bisect.induct p with
  | case1 lo hi hgap hmid ih =>
      rw [bisect, if_pos hgap, if_pos hmid]
      obtain ⟨⟨hle, hend⟩, hspec⟩ := ih (by omega) hmid hhi
      exact ⟨⟨by omega, hend⟩, hspec⟩
  | case2 lo hi hgap hmid ih =>
      rw [bisect, if_pos hgap, if_neg hmid]
      obtain ⟨⟨hle, hend⟩, hspec⟩ := ih (by omega) hlo hmid
      exact ⟨⟨hle, by omega⟩, hspec⟩
  | case3 lo hi hgap =>
      rw [bisect, if_neg hgap]
      obtain rfl : hi = lo + 1 := by omega
      exact ⟨⟨le_rfl, hlt⟩, hlo, hhi⟩

/-- Where the predicate holds up to a place and no farther, the loop finds this place. -/
theorem bisect_eq (hanti : ∀ i j, i ≤ j → p j → p i) (hlt : lo < hi) (hlo : p lo) (hhi : ¬p hi) {k : ℕ} (hk : p k)
    (hnext : ¬p (k + 1)) : bisect p lo hi = k := by
  obtain ⟨-, hp, hnp⟩ := bisect_spec hlt hlo hhi
  refine Nat.le_antisymm (Nat.le_of_not_lt fun hgt => ?_) (Nat.le_of_not_lt fun hgt => ?_)
  · exact hnext (hanti _ _ hgt hp)
  · exact hnp (hanti _ _ hgt hk)

end SimpleSatOps.Bisect
