import Mathlib.Data.Finset.Card
import Mathlib.Tactic

/-!
# Hamming distance of lists

`diffs xs ys` : the positions at which two lists of one length disagree; `hamming` : how many there are.

* `diffs_append_left`, `hamming_append_left` : a common prefix moves the positions up and leaves the distance;
* `hamming_cons` : the distance entry by entry;
* `eq_of_diffs_eq_empty` : lists without a difference are equal;
* `Burst`, `split_of_diffs` : lists that disagree inside a few successive places;
* `split_of_pair` : bits that disagree in two places.
-/

namespace SimpleSatOps

variable {α : Type*} [DecidableEq α]

/-- The positions of `xs` at which `ys` has another entry. -/
def diffs (xs ys : List α) : Finset ℕ := (Finset.range xs.length).filter fun i => xs[i]? ≠ ys[i]?

def hamming (xs ys : List α) : ℕ := (diffs xs ys).card

theorem mem_diffs {xs ys : List α} {i : ℕ} : i ∈ diffs xs ys ↔ i < xs.length ∧ xs[i]? ≠ ys[i]? := by
  simp [diffs]

/-- Membership in terms of the entries, for lists of one length. -/
theorem mem_diffs_iff_getD {xs ys : List α} (h : xs.length = ys.length) (d : α) {i : ℕ} :
    i ∈ diffs xs ys ↔ xs.getD i d ≠ ys.getD i d := by
  rw [mem_diffs]
  by_cases hi : i < xs.length
  · simp [List.getD_eq_getElem?_getD, hi, h ▸ hi]
  · simp [List.getD_eq_getElem?_getD, hi, h ▸ hi]

theorem lt_of_mem_diffs {xs ys : List α} {i : ℕ} (h : i ∈ diffs xs ys) : i < xs.length := (mem_diffs.mp h).1

@[simp] theorem diffs_self (xs : List α) : diffs xs xs = ∅ := by simp [diffs]

@[simp] theorem hamming_self (xs : List α) : hamming xs xs = 0 := by simp [hamming]

theorem eq_of_diffs_eq_empty {xs ys : List α} (h : xs.length = ys.length) (hd : diffs xs ys = ∅) : xs = ys := by
  refine List.ext_getElem? fun i => ?_
  by_cases hi : i < xs.length
  · by_contra hne
    exact Finset.notMem_empty i (hd ▸ mem_diffs.mpr ⟨hi, hne⟩)
  · rw [List.getElem?_eq_none (by omega), List.getElem?_eq_none (by omega)]

theorem eq_of_hamming_eq_zero {xs ys : List α} (h : xs.length = ys.length) (hd : hamming xs ys = 0) : xs = ys :=
  eq_of_diffs_eq_empty h (Finset.card_eq_zero.mp hd)

/-- A common prefix moves the positions up by its length. -/
theorem diffs_append_left (ps xs ys : List α) :
    diffs (ps ++ xs) (ps ++ ys) = (diffs xs ys).map (addRightEmbedding ps.length) := by
  ext i
  rw [Finset.mem_map, mem_diffs, List.length_append]
  constructor
  · rintro ⟨hi, hne⟩
    by_cases hp : i < ps.length
    · rw [List.getElem?_append_left hp, List.getElem?_append_left hp] at hne
      exact absurd rfl hne
    · rw [List.getElem?_append_right (by omega), List.getElem?_append_right (by omega)] at hne
      refine ⟨i - ps.length, mem_diffs.mpr ⟨by omega, hne⟩, ?_⟩
      rw [addRightEmbedding_apply]
      omega
  · rintro ⟨j, hj, rfl⟩
    rw [mem_diffs] at hj
    rw [addRightEmbedding_apply, List.getElem?_append_right (by omega), List.getElem?_append_right (by omega),
      Nat.add_sub_cancel]
    exact ⟨by omega, hj.2⟩

theorem hamming_append_left (ps xs ys : List α) : hamming (ps ++ xs) (ps ++ ys) = hamming xs ys := by
  rw [hamming, diffs_append_left, Finset.card_map, hamming]

theorem hamming_cons (x y : α) (xs ys : List α) :
    hamming (x :: xs) (y :: ys) = hamming xs ys + if x = y then 0 else 1 := by
  have hsplit : diffs (x :: xs) (y :: ys) =
      (if x = y then ∅ else {0}) ∪ (diffs xs ys).map (addRightEmbedding 1) := by
    ext i
    rw [Finset.mem_union, Finset.mem_map, mem_diffs]
    cases i with
    | zero =>
      split_ifs with h <;> simp [h]
    | succ i =>
      have hz : i + 1 ∉ (if x = y then (∅ : Finset ℕ) else {0}) := by split_ifs <;> simp
      simp [hz, mem_diffs]
  have hdisj : Disjoint (if x = y then (∅ : Finset ℕ) else {0}) ((diffs xs ys).map (addRightEmbedding 1)) := by
    split_ifs <;> simp
  rw [hamming, hsplit, Finset.card_union_of_disjoint hdisj, Finset.card_map, hamming, Nat.add_comm]
  congr 1
  split_ifs <;> rfl

/-! ## Changes in one place -/

theorem diffs_cons_of_ne {x y : α} (h : x ≠ y) (xs : List α) : diffs (x :: xs) (y :: xs) = {0} := by
  ext i
  rw [mem_diffs, Finset.mem_singleton]
  cases i with
  | zero => exact iff_of_true ⟨Nat.succ_pos _, by simpa using h⟩ rfl
  | succ i =>
    rw [List.getElem?_cons_succ, List.getElem?_cons_succ]
    exact iff_of_false (fun hne => hne.2 rfl) (Nat.succ_ne_zero i)

theorem getElem?_eq_of_not_mem_diffs {xs ys : List α} (h : xs.length = ys.length) {i : ℕ} (hi : i ∉ diffs xs ys) :
    xs[i]? = ys[i]? := by
  by_cases hlt : i < xs.length
  · by_contra hne
    exact hi (mem_diffs.2 ⟨hlt, hne⟩)
  · rw [List.getElem?_eq_none (by omega), List.getElem?_eq_none (by omega)]

theorem take_eq_of_diffs {xs ys : List α} (h : xs.length = ys.length) {k : ℕ} (hk : ∀ i ∈ diffs xs ys, k ≤ i) :
    xs.take k = ys.take k := by
  refine List.ext_getElem? fun i => ?_
  rw [List.getElem?_take, List.getElem?_take]
  split_ifs with hi
  · exact getElem?_eq_of_not_mem_diffs h fun hmem => absurd (hk i hmem) (by omega)
  · rfl

theorem drop_eq_of_diffs {xs ys : List α} (h : xs.length = ys.length) {k : ℕ} (hk : ∀ i ∈ diffs xs ys, i < k) :
    xs.drop k = ys.drop k := by
  refine List.ext_getElem? fun i => ?_
  rw [List.getElem?_drop, List.getElem?_drop]
  exact getElem?_eq_of_not_mem_diffs h fun hmem => absurd (hk _ hmem) (by omega)

/-- The lists have one length and disagree inside `m` successive places only. -/
def Burst (m : ℕ) (xs ys : List α) : Prop :=
  xs.length = ys.length ∧ ∃ k, ∀ i ∈ diffs xs ys, k ≤ i ∧ i < k + m

/-- What a burst leaves on both sides. -/
theorem split_of_diffs {xs ys : List α} (h : xs.length = ys.length) {k m : ℕ}
    (hk : ∀ i ∈ diffs xs ys, k ≤ i ∧ i < k + m) :
    xs = xs.take k ++ (xs.drop k).take m ++ xs.drop (k + m) ∧
      ys = xs.take k ++ (ys.drop k).take m ++ xs.drop (k + m) := by
  have hsplit : ∀ l : List α, l = l.take k ++ (l.drop k).take m ++ l.drop (k + m) := fun l => by
    rw [List.append_assoc, ← List.drop_drop, List.take_append_drop, List.take_append_drop]
  refine ⟨hsplit xs, ?_⟩
  rw [take_eq_of_diffs h fun i hi => (hk i hi).1, drop_eq_of_diffs h fun i hi => (hk i hi).2]
  exact hsplit ys

theorem Burst.exists_split {m : ℕ} {xs ys : List α} (h : Burst m xs ys) : ∃ pre u v post,
    xs = pre ++ u ++ post ∧ ys = pre ++ v ++ post ∧ u.length = v.length ∧ u.length ≤ m := by
  obtain ⟨hlen, k, hk⟩ := h
  obtain ⟨hxs, hys⟩ := split_of_diffs hlen hk
  exact ⟨_, _, _, _, hxs, hys, by simp [hlen], by simp⟩

omit [DecidableEq α] in
theorem split_two (xs : List α) {i j : ℕ} (hij : i < j) (hj : j < xs.length) :
    xs = xs.take i ++ (xs[i] :: (xs.drop (i + 1)).take (j - (i + 1)) ++ [xs[j]]) ++ xs.drop (j + 1) := by
  have hinner : xs.drop (i + 1) = (xs.drop (i + 1)).take (j - (i + 1)) ++ xs.drop j := by
    conv_lhs => rw [← List.take_append_drop (j - (i + 1)) (xs.drop (i + 1))]
    rw [List.drop_drop, show i + 1 + (j - (i + 1)) = j by omega]
  conv_lhs => rw [← List.take_append_drop i xs, List.drop_eq_getElem_cons (by omega), hinner,
    List.drop_eq_getElem_cons hj]
  simp

/-- Two bits that disagree, and everything around them. -/
theorem split_of_pair {xs ys : List Bool} (h : xs.length = ys.length) {i j : ℕ} (hij : i < j)
    (hd : diffs xs ys = {i, j}) : ∃ pre c mid d post, xs = pre ++ (c :: mid ++ [d]) ++ post ∧
      ys = pre ++ ((!c) :: mid ++ [!d]) ++ post ∧ mid.length + 1 = j - i := by
  have hmem : ∀ n, n ∈ diffs xs ys ↔ n = i ∨ n = j := fun n => by rw [hd, Finset.mem_insert, Finset.mem_singleton]
  have hi := mem_diffs.1 ((hmem i).2 (Or.inl rfl))
  have hj := mem_diffs.1 ((hmem j).2 (Or.inr rfl))
  have hflip : ∀ {n : ℕ} (hn : n < xs.length), xs[n]? ≠ ys[n]? → ys[n] = !xs[n] := by
    intro n hn hne
    rw [List.getElem?_eq_getElem hn, List.getElem?_eq_getElem (h ▸ hn)] at hne
    exact Bool.eq_not_of_ne fun he => hne (congrArg some he.symm)
  have hmid : (ys.drop (i + 1)).take (j - (i + 1)) = (xs.drop (i + 1)).take (j - (i + 1)) := by
    refine List.ext_getElem? fun n => ?_
    rw [List.getElem?_take, List.getElem?_take]
    split_ifs with hn
    · rw [List.getElem?_drop, List.getElem?_drop]
      refine (getElem?_eq_of_not_mem_diffs h fun hbad => ?_).symm
      have := (hmem _).1 hbad
      omega
    · rfl
  refine ⟨_, _, _, _, _, split_two xs hij hj.1, ?_, ?_⟩
  · have hsplit := split_two ys hij (h ▸ hj.1)
    rw [hflip hi.1 hi.2, hflip hj.1 hj.2, hmid,
      ← take_eq_of_diffs h fun n hn => by rcases (hmem n).1 hn with rfl | rfl <;> omega,
      ← drop_eq_of_diffs h fun n hn => by rcases (hmem n).1 hn with rfl | rfl <;> omega] at hsplit
    exact hsplit
  · rw [List.length_take, List.length_drop]
    have := hj.1
    omega

omit [DecidableEq α] in
/-- Entries of one width, one after the other. -/
theorem getElem?_flatMap {β : Type*} {f : α → List β} {n : ℕ} (hf : ∀ a, (f a).length = n) (xs : List α) {t : ℕ}
    (ht : t < n) : ∀ i : ℕ, (xs.flatMap f)[n * i + t]? = xs[i]?.bind fun a => (f a)[t]? := by
  induction xs with
  | nil => exact fun _ => rfl
  | cons x xs ih =>
    intro i
    rw [List.flatMap_cons]
    cases i with
    | zero => rw [List.getElem?_append_left (by rw [hf]; omega), Nat.mul_zero, Nat.zero_add]; rfl
    | succ i =>
      rw [List.getElem?_append_right (by rw [hf, Nat.mul_succ]; omega), hf, List.getElem?_cons_succ, ← ih]
      congr 1
      rw [Nat.mul_succ]
      omega

end SimpleSatOps
