import Mathlib.Data.List.DropRight
import Mathlib.Data.List.TakeDrop
import Mathlib.Data.List.TakeWhile
import Mathlib.Data.Nat.Notation
import Mathlib.Tactic

/-!
# Reading a text by lines through a buffer

* `getLine`, `readLines` : a reader that takes at most `n` symbols at a time and stops after a line terminator;
* `splitLines` : the lines of a text, each with its terminator;
* `readLines_eq_flatMap` : the reader works line by line;
* `flatMap_eq_flatMap_iff` : when two readings of the lines are the same;
* `readLines_of_line` : a line comes in pieces of `n` symbols;
* `trimEnd_append_eq_iff`, `trimEnd_trimEnd` : what trimming at the end takes away.
-/

namespace SimpleSatOps.Lines

variable {α : Type*} (sep : α → Bool)

/-- At most `n` symbols, no further than the first terminator, and the rest of the text. -/
def getLine : ℕ → List α → List α × List α
  | 0, s => ([], s)
  | _ + 1, [] => ([], [])
  | n + 1, x :: s => if sep x then ([x], s) else ((x :: (getLine n s).1), (getLine n s).2)

/-- `getLine` until the text is used up, at most `fuel` times. -/
def readUpTo (n : ℕ) : ℕ → List α → List (List α)
  | 0, _ => []
  | _ + 1, [] => []
  | fuel + 1, x :: s => (getLine sep n (x :: s)).1 :: readUpTo n fuel (getLine sep n (x :: s)).2

/-- Every reading takes a symbol, so the length of the text is fuel enough. -/
def readLines (n : ℕ) (s : List α) : List (List α) := readUpTo sep n s.length s

/-- The lines of a text, terminators included. -/
def splitLines : List α → List (List α)
  | [] => []
  | x :: s => if sep x then [x] :: splitLines s
      else match splitLines s with
        | [] => [[x]]
        | l :: ls => (x :: l) :: ls

/-- No terminator, except as the last symbol. -/
def IsLine (l : List α) : Prop := ∀ x ∈ l.dropLast, sep x = false

/-! ## One line -/

section Line

variable {sep} {w l s : List α} {e : α}

theorem isLine_of_free (hw : ∀ x ∈ w, sep x = false) : IsLine sep w :=
  fun x hx => hw x (List.mem_of_mem_dropLast hx)

theorem isLine_append_terminator (hw : ∀ x ∈ w, sep x = false) : IsLine sep (w ++ [e]) := by
  unfold IsLine
  rw [List.dropLast_concat]
  exact hw

theorem IsLine.drop (h : IsLine sep l) (n : ℕ) : IsLine sep (l.drop n) := by
  intro x hx
  rw [List.dropLast_drop_eq_drop_dropLast] at hx
  exact h x (List.mem_of_mem_drop hx)

theorem getLine_append_terminator (hw : ∀ x ∈ w, sep x = false) (he : sep e = true) (n : ℕ) (s : List α) :
    getLine sep n (w ++ e :: s) = ((w ++ [e]).take n, (w ++ [e]).drop n ++ s) := by
  induction w generalizing n with
  | nil => cases n <;> simp [getLine, he]
  | cons x w ih =>
      cases n with
      | zero => simp [getLine]
      | succ n =>
          have hx : sep x = false := hw x List.mem_cons_self
          simp [getLine, hx, ih fun y hy => hw y (List.mem_cons_of_mem x hy)]

theorem getLine_of_line (hl : IsLine sep l) (n : ℕ) : getLine sep n l = (l.take n, l.drop n) := by
  induction l generalizing n with
  | nil => cases n <;> rfl
  | cons x l ih =>
      cases n with
      | zero => rfl
      | succ n =>
          rcases eq_or_ne l [] with rfl | hne
          · cases hx : sep x <;> cases n <;> simp [getLine, hx]
          · unfold IsLine at hl
            rw [List.dropLast_cons_of_ne_nil hne] at hl
            have hx : sep x = false := hl x List.mem_cons_self
            simp [getLine, hx, ih fun y hy => hl y (List.mem_cons_of_mem x hy)]

end Line

/-! ## The reader -/

section Reader

variable {sep} {w l s : List α} {e : α} {n : ℕ}

theorem length_getLine (sep : α → Bool) (n : ℕ) (x : α) (s : List α) :
    (getLine sep (n + 1) (x :: s)).2.length ≤ s.length := by
  have hle : ∀ (m : ℕ) (t : List α), (getLine sep m t).2.length ≤ t.length := by
    intro m
    induction m with
    | zero => exact fun t => le_rfl
    | succ m ih =>
        intro t
        cases t with
        | nil => exact le_rfl
        | cons y t =>
            unfold getLine
            split_ifs
            · exact Nat.le_succ _
            · exact (ih t).trans (Nat.le_succ _)
  unfold getLine
  split_ifs
  · exact le_rfl
  · exact hle n s

/-- More fuel than symbols changes nothing. -/
theorem readUpTo_of_le (hn : 0 < n) {fuel : ℕ} (hs : s.length ≤ fuel) : readUpTo sep n fuel s = readLines sep n s := by
  obtain ⟨m, rfl⟩ : ∃ m, n = m + 1 := ⟨n - 1, by omega⟩
  unfold readLines
  induction fuel using Nat.strong_induction_on generalizing s with
  | _ fuel ih =>
      cases s with
      | nil => cases fuel <;> rfl
      | cons x s =>
          obtain ⟨k, rfl⟩ : ∃ k, fuel = k + 1 := ⟨fuel - 1, by simp only [List.length_cons] at hs; omega⟩
          have hk : s.length ≤ k := Nat.le_of_succ_le_succ hs
          have hlen := length_getLine sep m x s
          simp only [readUpTo, List.length_cons, List.cons.injEq, true_and]
          rcases Nat.lt_or_ge s.length k with hlt | hge
          · rw [ih k (Nat.lt_succ_self k) (hlen.trans hk), ih s.length (by omega) hlen]
          · rw [le_antisymm hk hge]

@[simp] theorem readLines_nil (n : ℕ) : readLines sep n [] = [] := rfl

theorem readLines_of_ne_nil (hn : 0 < n) (hs : s ≠ []) :
    readLines sep n s = (getLine sep n s).1 :: readLines sep n (getLine sep n s).2 := by
  obtain ⟨x, t, rfl⟩ := List.exists_cons_of_ne_nil hs
  obtain ⟨m, rfl⟩ : ∃ m, n = m + 1 := ⟨n - 1, by omega⟩
  rw [← readUpTo_of_le hn (length_getLine sep m x t)]
  rfl

/-- A line comes in pieces of `n` symbols, the last one shorter. -/
theorem readLines_of_line (hn : 0 < n) (hl : IsLine sep l) (hne : l ≠ []) :
    readLines sep n l = l.take n :: readLines sep n (l.drop n) := by
  rw [readLines_of_ne_nil hn hne, getLine_of_line hl]

theorem readLines_short (hn : 0 < n) (hl : IsLine sep l) (hne : l ≠ []) (hle : l.length ≤ n) :
    readLines sep n l = [l] := by
  rw [readLines_of_line hn hl hne, List.take_of_length_le hle, List.drop_eq_nil_of_le hle, readLines_nil]

theorem getLine_append (sep : α → Bool) (n : ℕ) (s : List α) : (getLine sep n s).1 ++ (getLine sep n s).2 = s := by
  induction n generalizing s with
  | zero => rfl
  | succ n ih =>
      cases s with
      | nil => rfl
      | cons x s =>
          unfold getLine
          split_ifs
          · rfl
          · rw [List.cons_append, ih]

/-- Nothing is lost and nothing comes twice. -/
theorem flatten_readLines (sep : α → Bool) (hn : 0 < n) (s : List α) : (readLines sep n s).flatten = s := by
  induction hk : s.length using Nat.strong_induction_on generalizing s with
  | _ k ih =>
      cases s with
      | nil => rfl
      | cons x s =>
          obtain ⟨m, rfl⟩ : ∃ m, n = m + 1 := ⟨n - 1, by omega⟩
          have hlt : (getLine sep (m + 1) (x :: s)).2.length < k :=
            (Nat.lt_succ_of_le (length_getLine sep m x s)).trans_eq hk
          rw [readLines_of_ne_nil hn (List.cons_ne_nil x s), List.flatten_cons, ih _ hlt _ rfl, getLine_append]

/-- The reader starts afresh behind a terminator. -/
theorem readLines_append (hn : 0 < n) (hw : ∀ x ∈ w, sep x = false) (he : sep e = true) (s : List α) :
    readLines sep n (w ++ e :: s) = readLines sep n (w ++ [e]) ++ readLines sep n s := by
  induction hk : w.length using Nat.strong_induction_on generalizing w with
  | _ k ih =>
      rw [readLines_of_ne_nil hn (by simp), getLine_append_terminator hw he,
        readLines_of_line hn (isLine_append_terminator hw) (by simp), List.cons_append]
      refine congrArg (List.cons _) ?_
      rcases Nat.lt_or_ge n (w.length + 1) with hlt | hge
      · have hdrop : (w ++ [e]).drop n = w.drop n ++ [e] := List.drop_append_of_le_length (by omega)
        rw [hdrop, List.append_assoc, List.singleton_append]
        exact ih (w.drop n).length (by rw [List.length_drop]; omega) (fun x hx => hw x (List.mem_of_mem_drop hx)) rfl
      · rw [List.drop_eq_nil_of_le (by simpa using hge)]
        rfl

end Reader

/-! ## The lines of a text -/

section Split

variable {sep} {w l s : List α} {e : α}

theorem splitLines_append (hw : ∀ x ∈ w, sep x = false) (he : sep e = true) (s : List α) :
    splitLines sep (w ++ e :: s) = (w ++ [e]) :: splitLines sep s := by
  induction w with
  | nil => simp [splitLines, he]
  | cons x w ih =>
      have hx : sep x = false := hw x List.mem_cons_self
      have hw' : ∀ y ∈ w, sep y = false := fun y hy => hw y (List.mem_cons_of_mem x hy)
      simp [splitLines, hx, ih hw']

theorem splitLines_free (hw : ∀ x ∈ w, sep x = false) (hne : w ≠ []) : splitLines sep w = [w] := by
  induction w with
  | nil => exact absurd rfl hne
  | cons x w ih =>
      have hx : sep x = false := hw x List.mem_cons_self
      rcases eq_or_ne w [] with rfl | h
      · simp [splitLines, hx]
      · simp [splitLines, hx, ih (fun y hy => hw y (List.mem_cons_of_mem x hy)) h]

/-- Induction over the lines of a text. -/
theorem line_induction (sep : α → Bool) {P : List α → Prop} (nil : P [])
    (last : ∀ w, (∀ x ∈ w, sep x = false) → w ≠ [] → P w)
    (line : ∀ w e s, (∀ x ∈ w, sep x = false) → sep e = true → P s → P (w ++ e :: s)) (s : List α) : P s := by
  induction hk : s.length using Nat.strong_induction_on generalizing s with
  | _ k ih =>
      have hw : ∀ x ∈ s.takeWhile (fun x => !sep x), sep x = false := fun x hx => by
        simpa using List.mem_takeWhile_imp hx
      cases hd : s.dropWhile (fun x => !sep x) with
      | nil =>
          have hs : s = s.takeWhile fun x => !sep x := by
            have happ := List.takeWhile_append_dropWhile (p := fun x => !sep x) (l := s)
            rw [hd, List.append_nil] at happ
            exact happ.symm
          rcases eq_or_ne s [] with rfl | hne
          · exact nil
          · rw [hs] at hne ⊢
            exact last _ hw hne
      | cons e t =>
          have he : sep e = true := by
            have hhead := List.head_dropWhile_not (fun x => !sep x) (l := s) (by rw [hd]; exact List.cons_ne_nil e t)
            simpa [hd] using hhead
          have hs : s = s.takeWhile (fun x => !sep x) ++ e :: t := by rw [← hd, List.takeWhile_append_dropWhile]
          have ht : t.length < k := by
            rw [← hk, hs, List.length_append, List.length_cons]
            omega
          rw [hs]
          exact line _ e t hw he (ih t.length ht t rfl)

theorem mem_splitLines (hl : l ∈ splitLines sep s) : IsLine sep l ∧ l ≠ [] := by
  induction s using line_induction sep with
  | nil => exact absurd hl List.not_mem_nil
  | last w hw hne =>
      rw [splitLines_free hw hne, List.mem_singleton] at hl
      exact hl ▸ ⟨isLine_of_free hw, hne⟩
  | line w e s hw he ih =>
      rw [splitLines_append hw he, List.mem_cons] at hl
      rcases hl with rfl | hl
      · exact ⟨isLine_append_terminator hw, by simp⟩
      · exact ih hl

theorem flatten_splitLines (sep : α → Bool) (s : List α) : (splitLines sep s).flatten = s := by
  induction s using line_induction sep with
  | nil => rfl
  | last w hw hne => rw [splitLines_free hw hne, List.flatten_singleton]
  | line w e s hw he ih => rw [splitLines_append hw he, List.flatten_cons, ih, List.append_assoc, List.singleton_append]

/-- The reader works line by line. -/
theorem readLines_eq_flatMap {n : ℕ} (hn : 0 < n) (s : List α) :
    readLines sep n s = (splitLines sep s).flatMap (readLines sep n) := by
  induction s using line_induction sep with
  | nil => rfl
  | last w hw hne => rw [splitLines_free hw hne, List.flatMap_singleton]
  | line w e s hw he ih => rw [readLines_append hn hw he, splitLines_append hw he, List.flatMap_cons, ih]

/-- Two readings of the lines, of which one never finds less than the other, are the same only line by line. -/
theorem flatMap_eq_flatMap_iff {β : Type*} {f g : List α → List β} {ls : List (List α)}
    (h : ∀ l ∈ ls, (g l).length ≤ (f l).length) : ls.flatMap f = ls.flatMap g ↔ ∀ l ∈ ls, f l = g l := by
  induction ls with
  | nil => simp
  | cons l ls ih =>
      have hl := h l List.mem_cons_self
      have hls : ∀ m ∈ ls, (g m).length ≤ (f m).length := fun m hm => h m (List.mem_cons_of_mem l hm)
      have hle : (ls.flatMap g).length ≤ (ls.flatMap f).length := by
        rw [List.length_flatMap, List.length_flatMap]
        exact List.sum_le_sum hls
      rw [List.flatMap_cons, List.flatMap_cons, List.forall_mem_cons, ← ih hls]
      refine ⟨fun heq => ?_, fun heq => by rw [heq.1, heq.2]⟩
      have hlen := congrArg List.length heq
      rw [List.length_append, List.length_append] at hlen
      exact List.append_inj heq (by omega)

end Split

/-! ## Trimming at the end -/

section Trim

variable {p q : α → Bool} {l x y : List α}

theorem trimEnd_append (p : α → Bool) (x y : List α) :
    (x ++ y).rdropWhile p = if y.rdropWhile p = [] then x.rdropWhile p else x ++ y.rdropWhile p := by
  induction y using List.reverseRecOn with
  | nil => simp
  | append_singleton y b ih =>
      rw [← List.append_assoc]
      cases hb : p b with
      | false =>
          rw [List.rdropWhile_concat_neg _ _ _ (by simp [hb]), List.rdropWhile_concat_neg _ _ _ (by simp [hb]),
            if_neg (by simp), List.append_assoc]
      | true => rw [List.rdropWhile_concat_pos _ _ _ hb, List.rdropWhile_concat_pos _ _ _ hb, ih]

theorem trimEnd_append_eq_iff : (x ++ y).rdropWhile p = x.rdropWhile p ↔ ∀ b ∈ y, p b = true := by
  rw [trimEnd_append]
  split_ifs with h
  · exact iff_of_true rfl (List.rdropWhile_eq_nil_iff.mp h)
  · refine iff_of_false (fun heq => ?_) fun hall => h (List.rdropWhile_eq_nil_iff.mpr hall)
    have hle := (List.rdropWhile_prefix p x).length_le
    rw [← heq, List.length_append] at hle
    exact h (List.eq_nil_of_length_eq_zero (by omega))

theorem trimEnd_eq_trimEnd_take_iff (l : List α) (n : ℕ) :
    l.rdropWhile p = (l.take n).rdropWhile p ↔ ∀ b ∈ l.drop n, p b = true := by
  conv_lhs => lhs; rw [← List.take_append_drop n l]
  exact trimEnd_append_eq_iff

theorem trimEnd_trimEnd (h : ∀ b, p b = true → q b = true) (l : List α) :
    (l.rdropWhile p).rdropWhile q = l.rdropWhile q := by
  induction l using List.reverseRecOn with
  | nil => rfl
  | append_singleton l b ih =>
      cases hb : p b with
      | false => rw [List.rdropWhile_concat_neg _ _ _ (by simp [hb])]
      | true => rw [List.rdropWhile_concat_pos _ _ _ hb, List.rdropWhile_concat_pos _ _ _ (h b hb), ih]

/-- Trimming less comes to the same when what is left ends well. -/
theorem trimEnd_eq_trimEnd_iff (h : ∀ b, p b = true → q b = true) (l : List α) :
    l.rdropWhile p = l.rdropWhile q ↔ ∀ b ∈ (l.rdropWhile p).getLast?, q b = false := by
  rw [← trimEnd_trimEnd h l, eq_comm, List.rdropWhile_eq_self_iff]
  rcases eq_or_ne (l.rdropWhile p) [] with hnil | hne
  · simp [hnil]
  · rw [List.getLast?_eq_some_getLast hne]
    simp [hne]

theorem trimEnd_cons {b : α} (hb : p b = false) (l : List α) : (b :: l).rdropWhile p = b :: l.rdropWhile p := by
  have hone : [b].rdropWhile p = [b] := by
    rw [List.rdropWhile_singleton, hb]
    rfl
  rw [← List.singleton_append, trimEnd_append, hone]
  split_ifs with h
  · rw [h]
  · rfl

theorem trimEnd_cons_ne_nil {b : α} (hb : p b = false) (l : List α) : (b :: l).rdropWhile p ≠ [] := by
  rw [trimEnd_cons hb]
  exact List.cons_ne_nil _ _

end Trim

end SimpleSatOps.Lines
