import Mathlib.Tactic

/-!
# Searches that give up

A search tries candidates one after the other, returns the good ones and gives up after `budget` failures in a row.

* `walk` : what it returns;
* `Patient` : no `budget` candidates in a row fail;
* `mem_walk_iff` : a good candidate is returned when the search is patient with those before it.
-/

namespace SimpleSatOps.Retry
variable {α : Type*} (ok : α → Bool) (budget : ℕ)

/-- The good candidates returned, when the next `left` attempts may fail. -/
def walk : ℕ → List α → List α
  | 0, _ => []
  | _ + 1, [] => []
  | left + 1, x :: xs => if ok x then x :: walk budget xs else walk left xs

/-- The search has not given up after the candidates. -/
def survives : ℕ → List α → Bool
  | 0, _ => false
  | _ + 1, [] => true
  | left + 1, x :: xs => if ok x then survives budget xs else survives left xs

/-- Among any `budget` candidates in a row there is a good one. -/
def Patient (xs : List α) : Prop :=
  ∀ j, j + budget ≤ xs.length → ∃ y ∈ (xs.drop j).take budget, ok y = true

variable {ok budget}

@[simp] theorem walk_zero (xs : List α) : walk ok budget 0 xs = [] := by
  unfold walk
  rfl

@[simp] theorem walk_nil (left : ℕ) : walk ok budget left [] = [] := by cases left <;> rfl

theorem walk_succ_cons (left : ℕ) (x : α) (xs : List α) :
    walk ok budget (left + 1) (x :: xs) = if ok x then x :: walk ok budget budget xs else walk ok budget left xs := rfl

theorem walk_sublist (xs : List α) : ∀ left : ℕ, (walk ok budget left xs).Sublist xs := by
  induction xs with
  | nil =>
    intro left
    rw [walk_nil]
  | cons x xs ih =>
    intro left
    cases left with
    | zero => exact List.nil_sublist _
    | succ left =>
      rw [walk_succ_cons]
      split_ifs
      · exact (ih budget).cons_cons x
      · exact (ih left).cons x

theorem mem_walk_iff_survives {x : α} (xs : List α) : ∀ left : ℕ,
    x ∈ walk ok budget left xs ↔
      ∃ before after, xs = before ++ x :: after ∧ ok x = true ∧ survives ok budget left before = true := by
  induction xs with
  | nil => intro left; simp
  | cons y ys ih =>
    intro left
    cases left with
    | zero =>
      rw [walk_zero]
      simp only [List.not_mem_nil, false_iff]
      rintro ⟨before, after, -, -, h⟩
      unfold survives at h
      exact absurd h (by decide)
    | succ left =>
      rw [walk_succ_cons]
      constructor
      · intro h
        by_cases hy : ok y = true
        · rw [if_pos hy] at h
          rcases List.mem_cons.mp h with rfl | h
          · exact ⟨[], ys, rfl, hy, rfl⟩
          · obtain ⟨before, after, rfl, hx, hs⟩ := (ih budget).mp h
            refine ⟨y :: before, after, rfl, hx, ?_⟩
            unfold survives
            rwa [if_pos hy]
        · rw [if_neg hy] at h
          obtain ⟨before, after, rfl, hx, hs⟩ := (ih left).mp h
          refine ⟨y :: before, after, rfl, hx, ?_⟩
          unfold survives
          rwa [if_neg hy]
      · rintro ⟨before, after, heq, hx, hs⟩
        cases before with
        | nil =>
          obtain ⟨rfl, rfl⟩ := List.cons.inj heq
          rw [if_pos hx]
          exact List.mem_cons_self
        | cons z before =>
          obtain ⟨rfl, rfl⟩ := List.cons.inj heq
          unfold survives at hs
          by_cases hy : ok y = true
          · rw [if_pos hy] at hs ⊢
            exact List.mem_cons_of_mem _ ((ih budget).mpr ⟨before, after, rfl, hx, hs⟩)
          · rw [if_neg hy] at hs ⊢
            exact (ih left).mpr ⟨before, after, rfl, hx, hs⟩

theorem patient_cons {x : α} {xs : List α} : Patient ok budget (x :: xs) ↔
    (budget ≤ xs.length + 1 → ∃ y ∈ (x :: xs).take budget, ok y = true) ∧ Patient ok budget xs := by
  constructor
  · intro h
    refine ⟨fun hle => h 0 (by rw [List.length_cons]; omega), fun j hj => ?_⟩
    exact h (j + 1) (by rw [List.length_cons]; omega)
  · rintro ⟨h0, h⟩ j hj
    rw [List.length_cons] at hj
    cases j with
    | zero => exact h0 (by omega)
    | succ j => exact h j (by omega)

theorem survives_iff (xs : List α) : ∀ left ≤ budget,
    survives ok budget left xs = true ↔
      (left ≤ xs.length → ∃ y ∈ xs.take left, ok y = true) ∧ Patient ok budget xs := by
  induction xs with
  | nil =>
    intro left hle
    cases left with
    | zero => simp [survives]
    | succ left =>
      unfold survives
      refine iff_of_true rfl ⟨fun h => absurd h (by simp), fun j hj => ?_⟩
      rw [List.length_nil] at hj
      omega
  | cons x xs ih =>
    intro left hle
    cases left with
    | zero => simp [survives]
    | succ left =>
      unfold survives
      rw [patient_cons]
      by_cases hx : ok x = true
      · rw [if_pos hx, ih budget le_rfl]
        constructor
        · rintro ⟨-, h⟩
          refine ⟨fun _ => ⟨x, List.mem_cons_self, hx⟩, fun _ => ⟨x, ?_, hx⟩, h⟩
          rw [List.take_cons (by omega)]
          exact List.mem_cons_self
        · rintro ⟨-, -, h⟩
          refine ⟨fun hlen => ?_, h⟩
          exact h 0 (by omega)
      · rw [if_neg hx, ih left (by omega)]
        have hcons : ∀ {k : ℕ}, (∃ y ∈ (x :: xs).take (k + 1), ok y = true) ↔ ∃ y ∈ xs.take k, ok y = true := by
          intro k
          rw [List.take_succ_cons]
          simp [hx]
        rw [hcons, List.length_cons, Nat.add_le_add_iff_right]
        refine and_congr_right fun hfirst => ⟨fun h => ⟨fun hlen => ?_, h⟩, fun h => h.2⟩
        obtain ⟨y, hy, hoky⟩ := hfirst (by omega)
        refine ⟨y, ?_, hoky⟩
        rw [List.take_cons (by omega)]
        exact List.mem_cons_of_mem _ (List.take_subset_take_left _ (by omega) hy)

/-- **What a search returns.** -/
theorem mem_walk_iff {x : α} {xs : List α} : x ∈ walk ok budget budget xs ↔
    ∃ before after, xs = before ++ x :: after ∧ ok x = true ∧ Patient ok budget before := by
  rw [mem_walk_iff_survives]
  refine exists_congr fun before => exists_congr fun after => and_congr_right fun _ => and_congr_right fun _ => ?_
  rw [survives_iff before budget le_rfl]
  refine ⟨fun h => h.2, fun h => ⟨fun hlen => ?_, h⟩⟩
  exact h 0 (by omega)

theorem Patient.of_append {xs ys : List α} (h : Patient ok budget (xs ++ ys)) : Patient ok budget xs := by
  intro j hj
  obtain ⟨y, hy, hok⟩ := h j (by rw [List.length_append]; omega)
  refine ⟨y, ?_, hok⟩
  rwa [List.drop_append_of_le_length (by omega),
    List.take_append_of_le_length (by rw [List.length_drop]; omega)] at hy

/-- The same with the candidates before the first occurrence. -/
theorem mem_walk_iff_takeWhile [DecidableEq α] {x : α} {xs : List α} (hx : ok x = true) :
    x ∈ walk ok budget budget xs ↔ x ∈ xs ∧ Patient ok budget (xs.takeWhile (· ≠ x)) := by
  rw [mem_walk_iff]
  constructor
  · rintro ⟨before, after, rfl, -, hpatient⟩
    refine ⟨List.mem_append_right _ List.mem_cons_self, ?_⟩
    have hprefix : (before ++ x :: after).takeWhile (· ≠ x) <+: before := by
      rw [List.takeWhile_append, List.takeWhile_cons_of_neg (by simp), List.append_nil]
      split_ifs
      · exact List.prefix_refl _
      · exact List.takeWhile_prefix _
    obtain ⟨rest, hrest⟩ := hprefix
    exact Patient.of_append (hrest ▸ hpatient)
  · rintro ⟨hmem, hpatient⟩
    obtain ⟨before, after, rfl, hnot⟩ := List.eq_append_cons_of_mem hmem
    have hall : ∀ y ∈ before, decide (y ≠ x) = true := by
      intro y hy
      exact decide_eq_true fun heq => hnot (heq ▸ hy)
    rw [List.takeWhile_append_of_pos hall, List.takeWhile_cons_of_neg (by simp), List.append_nil] at hpatient
    exact ⟨before, after, rfl, hx, hpatient⟩

end SimpleSatOps.Retry
