import Mathlib.Tactic

/-!
# Circular queues

* `Fifo` : an array of `cap` slots with the next slot to write, the next slot to read and the number in use;
* `Fifo.put`, `Fifo.drop`, `Fifo.drained` : write one, forget the oldest, forget all;
* `Fifo.putLatest` : write one, and forget the oldest for it when all slots are in use;
* `Fifo.toList` : what is in use, the oldest first.
-/

namespace SimpleSatOps

structure Fifo (α : Type*) (cap : ℕ) where
  slots : ℕ → α
  head : ℕ
  tail : ℕ
  count : ℕ
  tail_lt : tail < cap
  head_eq : head = (tail + count) % cap
  count_le : count ≤ cap

/-- `n` slots from `tail` on. -/
def slotsFrom {α : Type*} (slots : ℕ → α) (cap : ℕ) : ℕ → ℕ → List α
  | 0, _ => []
  | n + 1, tail => slots tail :: slotsFrom slots cap n ((tail + 1) % cap)

namespace Fifo
variable {α : Type*} {cap : ℕ}

def empty (slots : ℕ → α) (hcap : 0 < cap) : Fifo α cap :=
  ⟨slots, 0, 0, 0, hcap, (Nat.zero_mod cap).symm, Nat.zero_le cap⟩

def toList (q : Fifo α cap) : List α := slotsFrom q.slots cap q.count q.tail

def put (q : Fifo α cap) (v : α) (h : q.count < cap) : Fifo α cap where
  slots := Function.update q.slots q.head v
  head := (q.head + 1) % cap
  tail := q.tail
  count := q.count + 1
  tail_lt := q.tail_lt
  head_eq := by rw [q.head_eq, Nat.mod_add_mod, Nat.add_assoc]
  count_le := h

def drop (q : Fifo α cap) (h : 0 < q.count) : Fifo α cap where
  slots := q.slots
  head := q.head
  tail := (q.tail + 1) % cap
  count := q.count - 1
  tail_lt := Nat.mod_lt _ (Nat.zero_lt_of_lt q.tail_lt)
  head_eq := by rw [q.head_eq, Nat.mod_add_mod, Nat.add_assoc, Nat.add_sub_cancel' h]
  count_le := (Nat.sub_le _ _).trans q.count_le

def drained (q : Fifo α cap) : Fifo α cap where
  slots := q.slots
  head := q.head
  tail := (q.tail + q.count) % cap
  count := 0
  tail_lt := Nat.mod_lt _ (Nat.zero_lt_of_lt q.tail_lt)
  head_eq := by rw [Nat.add_zero, Nat.mod_mod, q.head_eq]
  count_le := Nat.zero_le cap

def putLatest (q : Fifo α cap) (v : α) : Fifo α cap :=
  if h : q.count = cap then
    have hpos : 0 < q.count := (Nat.zero_lt_of_lt q.tail_lt).trans_eq h.symm
    (q.drop hpos).put v ((Nat.sub_lt hpos Nat.one_pos).trans_le q.count_le)
  else q.put v (lt_of_le_of_ne q.count_le h)

@[simp] theorem toList_empty (slots : ℕ → α) (hcap : 0 < cap) : (empty slots hcap).toList = [] := rfl

@[simp] theorem toList_drained (q : Fifo α cap) : q.drained.toList = [] := rfl

theorem length_slotsFrom (slots : ℕ → α) (n tail : ℕ) : (slotsFrom slots cap n tail).length = n := by
  induction n generalizing tail with
  | zero => rfl
  | succ n ih => exact congrArg Nat.succ (ih _)

theorem length_toList (q : Fifo α cap) : q.toList.length = q.count := length_slotsFrom _ _ _

theorem toList_eq_nil {q : Fifo α cap} (h : q.count = 0) : q.toList = [] :=
  List.eq_nil_of_length_eq_zero (q.length_toList.trans h)

theorem slotsFrom_succ (slots : ℕ → α) (n : ℕ) {tail : ℕ} (htail : tail < cap) :
    slotsFrom slots cap (n + 1) tail = slotsFrom slots cap n tail ++ [slots ((tail + n) % cap)] := by
  induction n generalizing tail with
  | zero =>
      show [slots tail] = [slots ((tail + 0) % cap)]
      rw [Nat.add_zero, Nat.mod_eq_of_lt htail]
  | succ n ih =>
      have hnext := ih (Nat.mod_lt (tail + 1) (Nat.zero_lt_of_lt htail))
      show slots tail :: slotsFrom slots cap (n + 1) ((tail + 1) % cap) = _
      rw [hnext, Nat.mod_add_mod, Nat.add_right_comm, Nat.add_assoc]
      rfl

/-- A slot that is not in use does not matter. -/
theorem slotsFrom_update (slots : ℕ → α) (v : α) {n tail : ℕ} (htail : tail < cap) {j : ℕ}
    (hj : ∀ i < n, (tail + i) % cap ≠ j) :
    slotsFrom (Function.update slots j v) cap n tail = slotsFrom slots cap n tail := by
  induction n generalizing tail with
  | zero => rfl
  | succ n ih =>
      have hfirst : tail ≠ j := by
        have hne := hj 0 (Nat.succ_pos n)
        rwa [Nat.add_zero, Nat.mod_eq_of_lt htail] at hne
      have hrest := ih (Nat.mod_lt (tail + 1) (Nat.zero_lt_of_lt htail)) fun i hi => by
        rw [Nat.mod_add_mod, Nat.add_assoc, Nat.add_comm 1 i]
        exact hj (i + 1) (Nat.succ_lt_succ hi)
      show Function.update slots j v tail :: slotsFrom (Function.update slots j v) cap n ((tail + 1) % cap) = _
      rw [hrest, Function.update_of_ne hfirst]
      rfl

theorem toList_put (q : Fifo α cap) (v : α) (h : q.count < cap) : (q.put v h).toList = q.toList ++ [v] := by
  have hne : ∀ i < q.count, (q.tail + i) % cap ≠ q.head := by
    intro i hi heq
    rw [q.head_eq] at heq
    -- Two offsets less than `cap` apart do not share a slot.
    have hdvd := (Nat.modEq_iff_dvd' (Nat.add_le_add_left hi.le q.tail)).mp heq
    have hle := Nat.le_of_dvd (by omega) hdvd
    omega
  show slotsFrom (Function.update q.slots q.head v) cap (q.count + 1) q.tail = _
  rw [slotsFrom_succ _ _ q.tail_lt, slotsFrom_update _ _ q.tail_lt hne, ← q.head_eq, Function.update_self]
  rfl

theorem toList_drop (q : Fifo α cap) (h : 0 < q.count) : ∃ x, q.toList = x :: (q.drop h).toList := by
  obtain ⟨n, hn⟩ := Nat.exists_eq_succ_of_ne_zero h.ne'
  refine ⟨q.slots q.tail, ?_⟩
  show slotsFrom q.slots cap q.count q.tail = _ :: slotsFrom q.slots cap (q.count - 1) ((q.tail + 1) % cap)
  rw [hn]
  rfl

/-- The value is the last, and the oldest is gone if all slots were in use. -/
theorem toList_putLatest (q : Fifo α cap) (v : α) :
    (q.count ≠ cap ∧ (q.putLatest v).toList = q.toList ++ [v]) ∨
      (q.count = cap ∧ ∃ x xs, q.toList = x :: xs ∧ (q.putLatest v).toList = xs ++ [v]) := by
  unfold putLatest
  split
  · next h =>
      obtain ⟨x, hx⟩ := q.toList_drop ((Nat.zero_lt_of_lt q.tail_lt).trans_eq h.symm)
      exact .inr ⟨h, x, _, hx, toList_put ..⟩
  · next h => exact .inl ⟨h, toList_put ..⟩

end Fifo

end SimpleSatOps
