import Mathlib.Tactic

/-!
# A ring of recent values

An array of `cap` slots, the next slot to write and the number of slots in use.

* `Ring.push`, `Ring.has` : write the next slot, search the slots in use;
* `Ring.Holds` : the ring after a sequence of pushes;
* `Ring.Holds.push`, `Ring.Holds.has_iff` : the ring remembers the last `cap` values pushed;
* `Ring.Holds.pushAll`, `Ring.Holds.back` : several pushes, and the last `n` values read from the slots before `idx`.
-/

namespace SimpleSatOps

structure Ring (α : Type*) where
  slots : List α
  idx : ℕ
  count : ℕ

namespace Ring
variable {α : Type*} {cap : ℕ}

def push (cap : ℕ) (r : Ring α) (v : α) : Ring α where
  slots := r.slots.set r.idx v
  idx := (r.idx + 1) % cap
  count := if r.count < cap then r.count + 1 else r.count

def has [DecidableEq α] (cap : ℕ) (r : Ring α) (v : α) : Bool := (r.slots.take (min r.count cap)).contains v

/-- The last `cap` values of `xs`. -/
def recent (cap : ℕ) (xs : List α) : List α := xs.drop (xs.length - cap)

theorem length_recent (k : ℕ) (xs : List α) : (recent k xs).length = min k xs.length := by
  unfold recent
  rw [List.length_drop]
  omega

theorem recent_append {k : ℕ} {xs ys : List α} (h : ys.length ≤ k) :
    recent k (xs ++ ys) = recent (k - ys.length) xs ++ ys := by
  unfold recent
  rw [List.length_append, List.drop_append_of_le_length (by omega)]
  congr 2
  omega

theorem recent_append_of_le {k : ℕ} {xs ys : List α} (h : k ≤ ys.length) : recent k (xs ++ ys) = recent k ys := by
  unfold recent
  rw [List.length_append, List.drop_append, List.drop_of_length_le (by omega), List.nil_append]
  congr 1
  omega

theorem recent_of_le {k : ℕ} {xs : List α} (h : xs.length ≤ k) : recent k xs = xs := by
  unfold recent
  rw [Nat.sub_eq_zero_of_le h, List.drop_zero]

theorem recent_recent {j k : ℕ} (h : j ≤ k) (xs : List α) : recent j (recent k xs) = recent j xs := by
  unfold recent
  rw [List.drop_drop, List.length_drop]
  congr 1
  omega

/-- `r` is the ring of `cap` slots after the pushes `xs`. -/
structure Holds (cap : ℕ) (r : Ring α) (xs : List α) : Prop where
  length_slots : r.slots.length = cap
  idx_eq : r.idx = xs.length % cap
  count_eq : r.count = min xs.length cap
  slot : ∀ i, i < xs.length → xs.length ≤ i + cap → r.slots[i % cap]? = xs[i]?

theorem Holds.empty (slots : List α) : Holds slots.length ⟨slots, 0, 0⟩ [] where
  length_slots := rfl
  idx_eq := (Nat.zero_mod _).symm
  count_eq := (Nat.zero_min _).symm
  slot i h := absurd h (Nat.not_lt_zero i)

theorem mem_recent_iff {xs : List α} {v : α} :
    v ∈ recent cap xs ↔ ∃ i, i < xs.length ∧ xs.length ≤ i + cap ∧ xs[i]? = some v := by
  unfold recent
  rw [List.mem_iff_getElem?]
  simp only [List.getElem?_drop]
  constructor
  · rintro ⟨i, hi⟩
    obtain ⟨hlt, -⟩ := List.getElem?_eq_some_iff.mp hi
    exact ⟨_, hlt, by omega, hi⟩
  · rintro ⟨i, hlt, hle, hi⟩
    refine ⟨i - (xs.length - cap), ?_⟩
    rwa [Nat.add_sub_of_le (by omega)]

/-- Two indices less than `cap` apart do not share a slot. -/
theorem mod_ne_of_lt {i n : ℕ} (hi : i < n) (hn : n < i + cap) : i % cap ≠ n % cap := by
  intro h
  have hdvd := (Nat.modEq_iff_dvd' hi.le).mp h
  have hle := Nat.le_of_dvd (by omega) hdvd
  omega

/-- The last index below `n` that uses slot `j`. -/
theorem exists_last_mod {j n : ℕ} (hn : j < n) (hj : j < cap) : ∃ i, i < n ∧ n ≤ i + cap ∧ i % cap = j := by
  have hle := Nat.mul_div_le (n - 1 - j) cap
  have hlt := Nat.lt_mul_div_succ (n - 1 - j) (Nat.zero_lt_of_lt hj)
  rw [Nat.mul_add] at hlt
  refine ⟨j + cap * ((n - 1 - j) / cap), by omega, by omega, ?_⟩
  rw [Nat.add_mul_mod_self_left, Nat.mod_eq_of_lt hj]

theorem Holds.push {r : Ring α} {xs : List α} (h : Holds cap r xs) (hcap : 0 < cap) (v : α) :
    Holds cap (r.push cap v) (xs ++ [v]) where
  length_slots := List.length_set.trans h.length_slots
  idx_eq := by
    change (r.idx + 1) % cap = _
    rw [h.idx_eq, List.length_append, List.length_singleton, Nat.mod_add_mod]
  count_eq := by
    have hcount := h.count_eq
    change (if r.count < cap then r.count + 1 else r.count) = _
    rw [List.length_append, List.length_singleton]
    split_ifs <;> omega
  slot i hi hle := by
    rw [List.length_append, List.length_singleton] at hi hle
    change (r.slots.set r.idx v)[i % cap]? = _
    rw [h.idx_eq]
    rcases Nat.lt_succ_iff_lt_or_eq.mp hi with hlt | rfl
    · rw [List.getElem?_set_ne (mod_ne_of_lt hlt (by omega)).symm, List.getElem?_append_left hlt]
      exact h.slot i hlt (by omega)
    · rw [List.getElem?_set_self (by rw [h.length_slots]; exact Nat.mod_lt _ hcap)]
      simp

/-- Every slot in use holds one of the last `cap` values. -/
theorem Holds.has_iff [DecidableEq α] {r : Ring α} {xs : List α} (h : Holds cap r xs) (v : α) :
    r.has cap v ↔ v ∈ recent cap xs := by
  have hcount := h.count_eq
  unfold has
  rw [mem_recent_iff, List.contains_iff_mem, List.mem_take_iff_getElem]
  constructor
  · rintro ⟨j, hj, rfl⟩
    rw [h.length_slots] at hj
    obtain ⟨i, hlt, hle, hmod⟩ := exists_last_mod (show j < xs.length by omega) (show j < cap by omega)
    refine ⟨i, hlt, hle, ?_⟩
    rw [← h.slot i hlt hle, hmod]
    exact List.getElem?_eq_getElem _
  · rintro ⟨i, hlt, hle, hi⟩
    have hslot := h.slot i hlt hle
    rw [hi] at hslot
    obtain ⟨hlen, hv⟩ := List.getElem?_eq_some_iff.mp hslot
    refine ⟨i % cap, ?_, hv⟩
    have hmod := Nat.mod_le i cap
    have hcap : i % cap < cap := h.length_slots ▸ hlen
    omega

theorem Holds.pushAll (hcap : 0 < cap) : ∀ (vs : List α) {r : Ring α} {xs : List α}, Holds cap r xs →
    Holds cap (vs.foldl (Ring.push cap) r) (xs ++ vs)
  | [], r, xs, h => by simpa using h
  | v :: vs, r, xs, h => by
      rw [List.append_cons]
      exact pushAll hcap vs (h.push hcap v)

/-- The last `n` values, oldest first, start `n` slots before the next one to write. -/
theorem Holds.back {r : Ring α} {xs : List α} (h : Holds cap r xs) {n i : ℕ} (hn : n ≤ min xs.length cap) (hi : i < n) :
    r.slots[((r.idx + cap - n) % cap + i) % cap]? = xs[xs.length - n + i]? := by
  have hidx : ((r.idx + cap - n) % cap + i) % cap = (xs.length - n + i) % cap := by
    have hdiv := Nat.div_add_mod xs.length cap
    rw [h.idx_eq, Nat.mod_add_mod]
    have hsum : xs.length - n + i + cap = xs.length % cap + cap - n + i + cap * (xs.length / cap) := by omega
    rw [← Nat.add_mod_right (xs.length - n + i) cap, hsum, Nat.add_mul_mod_self_left]
  rw [hidx]
  exact h.slot _ (by omega) (by omega)

end Ring

end SimpleSatOps
