import Mathlib.Data.List.TakeWhile
import Mathlib.Data.Nat.Notation
import Mathlib.Tactic

/-!
# Lines of a stream that comes in chunks

* `lines`, `rest` : the complete lines of a stream, and what follows its last terminator;
* `lines_append`, `rest_append` : the lines of a stream from those of its front;
* `length_lines` : how many there are;
* `mem_intercalate`, `count_intercalate` : a line made of fields;
* `fitting`, `Overlong` : the lines up to the first that does not fit a buffer, and whether there is one;
* `Reads` : what a reader with a buffer of `cap` symbols holds after a stream;
* `Reads.append` : one chunk more;
* `Reads.fitting_eq`, `Reads.overlong_iff` : what the reader gives, and whether it gives up, by the stream alone;
* `wrapped` : what is left of a line in a buffer that is emptied whenever it is full.
-/

namespace SimpleSatOps.Framing

variable {α : Type*} [DecidableEq α] (nl : α)

/-- The complete lines of a stream, without their terminators. -/
def lines (s : List α) : List (List α) := (s.splitOn nl).dropLast

/-- What follows the last terminator. -/
def rest (s : List α) : List α := (s.splitOn nl).getLastD []

/-- The complete lines before the first one that is longer than a buffer of `cap` symbols with its terminator. -/
def fitting (cap : ℕ) (s : List α) : List (List α) := (lines nl s).takeWhile fun l => l.length < cap

/-- Some line, complete or not, leaves no room for its terminator. -/
def Overlong (cap : ℕ) (s : List α) : Prop := ∃ l ∈ s.splitOn nl, cap ≤ l.length

/-! ## Streams -/

section Streams
variable {nl} {s t u v w : List α}

theorem lines_of_free (h : nl ∉ s) : lines nl s = [] := by
  unfold lines
  rw [List.splitOn_eq_singleton h]
  rfl

theorem rest_of_free (h : nl ∉ s) : rest nl s = s := by
  unfold rest
  rw [List.splitOn_eq_singleton h]
  rfl

theorem lines_append_cons (u v : List α) : lines nl (u ++ nl :: v) = u.splitOn nl ++ lines nl v := by
  unfold lines
  rw [List.splitOn_append_cons_self, List.dropLast_append_of_ne_nil (List.splitOn_ne_nil _ _)]

theorem rest_append_cons (u v : List α) : rest nl (u ++ nl :: v) = rest nl v := by
  unfold rest
  rw [List.splitOn_append_cons_self]
  simp only [List.getLastD_eq_getLast?, List.getLast?_append_of_ne_nil _ (List.splitOn_ne_nil _ _)]

theorem lines_line_cons (h : nl ∉ w) (v : List α) : lines nl (w ++ nl :: v) = w :: lines nl v := by
  rw [lines_append_cons, List.splitOn_eq_singleton h]
  rfl

omit [DecidableEq α] in
/-- A stream up to its last terminator. -/
theorem exists_last (h : nl ∈ s) : ∃ u v, s = u ++ nl :: v ∧ nl ∉ v := by
  obtain ⟨as, bs, heq, hfree⟩ := List.eq_append_cons_of_mem (List.mem_reverse.mpr h)
  refine ⟨bs.reverse, as.reverse, ?_, mt List.mem_reverse.mp hfree⟩
  rw [← List.reverse_reverse s, heq]
  simp

theorem splitOn_eq_lines_append (s : List α) : s.splitOn nl = lines nl s ++ [rest nl s] := by
  unfold lines rest
  have hne := List.splitOn_ne_nil nl s
  rw [List.getLastD_eq_getLast?, List.getLast?_eq_getLast_of_ne_nil hne]
  exact (List.dropLast_append_getLast hne).symm

theorem free_rest (s : List α) : nl ∉ rest nl s := by
  by_cases h : nl ∈ s
  · obtain ⟨u, v, rfl, hv⟩ := exists_last h
    rwa [rest_append_cons, rest_of_free hv]
  · rwa [rest_of_free h]

theorem lines_append (s t : List α) : lines nl (s ++ t) = lines nl s ++ lines nl (rest nl s ++ t) := by
  by_cases h : nl ∈ s
  · obtain ⟨u, v, rfl, hv⟩ := exists_last h
    rw [List.append_assoc, List.cons_append, lines_append_cons, lines_append_cons, rest_append_cons, rest_of_free hv,
      lines_of_free hv, List.append_nil]
  · rw [lines_of_free h, rest_of_free h, List.nil_append]

theorem rest_append (s t : List α) : rest nl (s ++ t) = rest nl (rest nl s ++ t) := by
  by_cases h : nl ∈ s
  · obtain ⟨u, v, rfl, hv⟩ := exists_last h
    rw [List.append_assoc, List.cons_append, rest_append_cons, rest_append_cons, rest_of_free hv]
  · rw [rest_of_free h]

/-- No line is complete, and none will be before a terminator comes. -/
theorem lines_append_of_free (h : nl ∉ rest nl s ++ t) : lines nl (s ++ t) = lines nl s := by
  rw [lines_append, lines_of_free h, List.append_nil]

theorem lines_append_terminator (h : nl ∉ w) (v : List α) : lines nl ((w ++ [nl]) ++ v) = w :: lines nl v := by
  rw [List.append_assoc, List.singleton_append, lines_line_cons h]

/-- The complete lines of a front part of a stream come first. -/
theorem lines_prefix (h : s <+: t) : lines nl s <+: lines nl t := by
  obtain ⟨u, rfl⟩ := h
  rw [lines_append]
  exact List.prefix_append _ _

theorem lines_flatMap {ls : List (List α)} (h : ∀ l ∈ ls, nl ∉ l) : lines nl (ls.flatMap (· ++ [nl])) = ls := by
  induction ls with
  | nil => exact lines_of_free List.not_mem_nil
  | cons l ls ih =>
      rw [List.flatMap_cons, lines_append_terminator (h l List.mem_cons_self),
        ih fun l hl => h l (List.mem_cons_of_mem _ hl)]

theorem rest_append_terminator (w v : List α) : rest nl ((w ++ [nl]) ++ v) = rest nl v := by
  rw [List.append_assoc, List.singleton_append, rest_append_cons]

/-- A stream has as many lines as terminators. -/
theorem length_lines (s : List α) : (lines nl s).length = s.count nl := by
  induction hn : s.length using Nat.strong_induction_on generalizing s with
  | _ n ih =>
      by_cases hs : nl ∈ s
      · obtain ⟨w, v, rfl, hw⟩ := List.eq_append_cons_of_mem hs
        rw [List.length_append, List.length_cons] at hn
        rw [lines_line_cons hw, List.length_cons, ih v.length (by omega) v rfl, List.count_append,
          List.count_eq_zero_of_not_mem hw, List.count_cons_self, Nat.zero_add]
      · rw [lines_of_free hs, List.count_eq_zero_of_not_mem hs, List.length_nil]

/-- The pieces between the terminators hold none. -/
theorem free_of_mem_splitOn {l : List α} (hl : l ∈ s.splitOn nl) : nl ∉ l := by
  induction hn : s.length using Nat.strong_induction_on generalizing s with
  | _ n ih =>
      by_cases hs : nl ∈ s
      · obtain ⟨w, v, rfl, hw⟩ := List.eq_append_cons_of_mem hs
        rw [List.length_append, List.length_cons] at hn
        rw [List.splitOn_append_cons_self, List.splitOn_eq_singleton hw, List.mem_append, List.mem_singleton] at hl
        rcases hl with rfl | hl
        · exact hw
        · exact ih v.length (by omega) hl rfl
      · rw [List.splitOn_eq_singleton hs, List.mem_singleton] at hl
        rwa [hl]

omit [DecidableEq α] in
/-- What stands in a line of fields. -/
theorem mem_intercalate {x y : α} : ∀ {ls : List (List α)}, y ∈ [x].intercalate ls → y = x ∨ ∃ l ∈ ls, y ∈ l
  | [], h => absurd h List.not_mem_nil
  | [l], h => by
    rw [List.intercalate_singleton] at h
    exact Or.inr ⟨l, List.mem_singleton_self l, h⟩
  | l :: l' :: ls, h => by
    rw [List.intercalate_cons_cons, List.mem_append, List.mem_append, List.mem_singleton] at h
    rcases h with (h | rfl) | h
    · exact Or.inr ⟨l, List.mem_cons_self, h⟩
    · exact Or.inl rfl
    · exact (mem_intercalate h).imp_right fun ⟨m, hm, hy⟩ => ⟨m, List.mem_cons_of_mem l hm, hy⟩

/-- Between fields without the separator there is one less of it. -/
theorem count_intercalate {x : α} : ∀ {ls : List (List α)}, ls ≠ [] → (∀ l ∈ ls, x ∉ l) →
    ([x].intercalate ls).count x + 1 = ls.length
  | [], h, _ => absurd rfl h
  | [l], _, h => by
    rw [List.intercalate_singleton, List.count_eq_zero_of_not_mem (h l (List.mem_singleton_self l))]
    rfl
  | l :: l' :: ls, _, h => by
    have ih := count_intercalate (List.cons_ne_nil l' ls) fun m hm => h m (List.mem_cons_of_mem l hm)
    rw [List.intercalate_cons_cons, List.count_append, List.count_append, List.count_singleton_self,
      List.count_eq_zero_of_not_mem (h l List.mem_cons_self), List.length_cons, ← ih]
    omega

theorem length_lt_of_mem_lines {l : List α} (h : l ∈ lines nl s) : l.length < s.length := by
  induction hn : s.length using Nat.strong_induction_on generalizing s with
  | _ n ih =>
      by_cases hs : nl ∈ s
      · obtain ⟨w, v, rfl, hw⟩ := List.eq_append_cons_of_mem hs
        rw [lines_line_cons hw, List.mem_cons] at h
        rw [List.length_append, List.length_cons] at hn
        rcases h with rfl | h
        · omega
        · have hlt := ih v.length (by omega) h rfl
          omega
      · rw [lines_of_free hs] at h
        exact absurd h List.not_mem_nil

theorem length_rest_le (nl : α) (s : List α) : (rest nl s).length ≤ s.length := by
  by_cases h : nl ∈ s
  · obtain ⟨u, v, rfl, hv⟩ := exists_last h
    rw [rest_append_cons, rest_of_free hv, List.length_append, List.length_cons]
    omega
  · rw [rest_of_free h]

/-- A line that will be longer than `w` when it is complete. -/
theorem length_le_of_head_lines {l : List α} {ls : List (List α)} (hw : nl ∉ w) (h : lines nl (w ++ t) = l :: ls) :
    w.length ≤ l.length := by
  by_cases ht : nl ∈ t
  · obtain ⟨a, b, rfl, ha⟩ := List.eq_append_cons_of_mem ht
    have hfree : nl ∉ w ++ a := fun hm => (List.mem_append.mp hm).elim hw ha
    rw [← List.append_assoc, lines_line_cons hfree] at h
    rw [← (List.cons.inj h).1, List.length_append]
    exact Nat.le_add_right _ _
  · rw [lines_of_free fun hm => (List.mem_append.mp hm).elim hw ht] at h
    exact absurd h.symm (List.cons_ne_nil _ _)

theorem not_overlong_of_length_lt {cap : ℕ} (h : s.length < cap) : ¬Overlong nl cap s := by
  rintro ⟨l, hl, hle⟩
  rw [splitOn_eq_lines_append, List.mem_append, List.mem_singleton] at hl
  rcases hl with hl | rfl
  · have hlt := length_lt_of_mem_lines hl
    omega
  · have hrest := length_rest_le nl s
    omega

/-- A line that is not complete gets no shorter. -/
theorem exists_mem_splitOn_append (hw : nl ∉ w) (t : List α) : ∃ l ∈ (w ++ t).splitOn nl, w.length ≤ l.length := by
  by_cases ht : nl ∈ t
  · obtain ⟨a, b, rfl, ha⟩ := List.eq_append_cons_of_mem ht
    have hfree : nl ∉ w ++ a := fun hm => (List.mem_append.mp hm).elim hw ha
    refine ⟨w ++ a, ?_, by rw [List.length_append]; exact Nat.le_add_right _ _⟩
    rw [← List.append_assoc, List.splitOn_append_cons_self, List.splitOn_eq_singleton hfree]
    exact List.mem_append_left _ (List.mem_singleton_self _)
  · have hfree : nl ∉ w ++ t := fun hm => (List.mem_append.mp hm).elim hw ht
    refine ⟨w ++ t, ?_, by rw [List.length_append]; exact Nat.le_add_right _ _⟩
    rw [List.splitOn_eq_singleton hfree]
    exact List.mem_singleton_self _

theorem Overlong.append {cap : ℕ} (h : Overlong nl cap s) (t : List α) : Overlong nl cap (s ++ t) := by
  obtain ⟨l, hl, hle⟩ := h
  unfold Overlong
  rw [splitOn_eq_lines_append] at hl ⊢
  rw [lines_append, rest_append, List.append_assoc, ← splitOn_eq_lines_append]
  rcases List.mem_append.mp hl with hl | hl
  · exact ⟨l, List.mem_append_left _ hl, hle⟩
  · obtain rfl := List.mem_singleton.mp hl
    obtain ⟨l', hl', hle'⟩ := exists_mem_splitOn_append (free_rest s) t
    exact ⟨l', List.mem_append_right _ hl', hle.trans hle'⟩

end Streams

/-- Lines that all fit. -/
theorem fitting_prefix {ls : List (List α)} (cap : ℕ) (hfree : ∀ l ∈ ls, nl ∉ l) (h : s <+: ls.flatMap (· ++ [nl])) :
    fitting nl cap s <+: ls := by
  have hlines : lines nl s <+: lines nl (ls.flatMap (· ++ [nl])) := lines_prefix h
  rw [lines_flatMap hfree] at hlines
  exact (List.takeWhile_prefix _).trans hlines

theorem fitting_flatMap {ls : List (List α)} {cap : ℕ} (hfree : ∀ l ∈ ls, nl ∉ l) (hfit : ∀ l ∈ ls, l.length < cap) :
    fitting nl cap (ls.flatMap (· ++ [nl])) = ls := by
  unfold fitting
  rw [lines_flatMap hfree]
  exact List.takeWhile_eq_self_iff.mpr fun l hl => decide_eq_true (hfit l hl)

/-! ## A reader -/

/-- After the stream `c` the reader has given the lines `ls` and holds `buf`. -/
structure Reads (cap : ℕ) (c : List α) (ls : List (List α)) (buf : List α) : Prop where
  lines_eq : lines nl c = ls
  rest_eq : rest nl c = buf
  fits : ∀ l ∈ ls, l.length < cap
  le_cap : buf.length ≤ cap

namespace Reads
variable {nl} {cap : ℕ} {c chunk buf s t : List α} {ls : List (List α)}

theorem nil (cap : ℕ) : Reads nl cap [] [] [] where
  lines_eq := lines_of_free List.not_mem_nil
  rest_eq := rest_of_free List.not_mem_nil
  fits _ h := absurd h List.not_mem_nil
  le_cap := Nat.zero_le cap

theorem free (h : Reads nl cap c ls buf) : nl ∉ buf := h.rest_eq ▸ free_rest c

/-- A chunk that fits the buffer. -/
theorem append (h : Reads nl cap c ls buf) (hroom : buf.length + chunk.length ≤ cap) :
    Reads nl cap (c ++ chunk) (ls ++ lines nl (buf ++ chunk)) (rest nl (buf ++ chunk)) where
  lines_eq := by rw [lines_append, h.lines_eq, h.rest_eq]
  rest_eq := by rw [rest_append, h.rest_eq]
  fits l hl := by
    rcases List.mem_append.mp hl with hl | hl
    · exact h.fits l hl
    · have hlt := length_lt_of_mem_lines hl
      rw [List.length_append] at hlt
      exact hlt.trans_le hroom
  le_cap := by
    have hle := length_rest_le nl (buf ++ chunk)
    rw [List.length_append] at hle
    exact hle.trans hroom

theorem takeWhile_eq (h : Reads nl cap c ls buf) : ls.takeWhile (fun l => decide (l.length < cap)) = ls :=
  List.takeWhile_eq_self_iff.mpr fun l hl => decide_eq_true (h.fits l hl)

/-- Everything was read. -/
theorem fitting_eq (h : Reads nl cap c ls buf) : fitting nl cap c = ls := by
  unfold fitting
  rw [h.lines_eq]
  exact h.takeWhile_eq

theorem overlong_iff (h : Reads nl cap c ls buf) : Overlong nl cap c ↔ cap ≤ buf.length := by
  unfold Overlong
  rw [splitOn_eq_lines_append, h.lines_eq, h.rest_eq]
  constructor
  · rintro ⟨l, hl, hle⟩
    rcases List.mem_append.mp hl with hl | hl
    · exact absurd hle (Nat.not_le.mpr (h.fits l hl))
    · rwa [List.mem_singleton.mp hl] at hle
  · exact fun hle => ⟨buf, List.mem_append_right _ (List.mem_singleton_self buf), hle⟩

/-- The buffer is full: the rest of the stream does not matter. -/
theorem fitting_append (h : Reads nl cap c ls buf) (hfull : cap ≤ buf.length) (t : List α) :
    fitting nl cap (c ++ t) = ls := by
  unfold fitting
  rw [lines_append, h.lines_eq, h.rest_eq, List.takeWhile_append_of_pos fun l hl => decide_eq_true (h.fits l hl)]
  cases hl : lines nl (buf ++ t) with
  | nil => rw [List.takeWhile_nil, List.append_nil]
  | cons l ls' =>
      have hle := hfull.trans (length_le_of_head_lines h.free hl)
      rw [List.takeWhile_cons_of_neg (by simpa using hle), List.append_nil]

theorem overlong_append (h : Reads nl cap c ls buf) (hfull : cap ≤ buf.length) (t : List α) :
    Overlong nl cap (c ++ t) :=
  (h.overlong_iff.mpr hfull).append t

end Reads

/-! ## A reader that starts over -/

section Wrapped

/-- What a buffer holds of a line if it is emptied, with the symbol at hand, whenever it is full: the symbols behind the
last multiple of `cap`. -/
def wrapped (cap : ℕ) (l : List α) : List α := l.drop (l.length / cap * cap)

variable {cap : ℕ}

omit [DecidableEq α] in
theorem length_wrapped (cap : ℕ) (l : List α) : (wrapped cap l).length = l.length % cap := by
  have hdiv := Nat.div_add_mod' l.length cap
  rw [wrapped, List.length_drop]
  omega

omit [DecidableEq α] in
theorem wrapped_of_lt {l : List α} (h : l.length < cap) : wrapped cap l = l := by
  rw [wrapped, Nat.div_eq_of_lt h, Nat.zero_mul, List.drop_zero]

omit [DecidableEq α] in
/-- One symbol more, with room for it and a terminator or without. -/
theorem wrapped_append_singleton (hcap : 0 < cap) (l : List α) (x : α) :
    wrapped cap (l ++ [x]) = if (wrapped cap l).length + 1 < cap then wrapped cap l ++ [x] else [] := by
  have hdiv := Nat.div_add_mod' l.length cap
  have hmod := Nat.mod_lt l.length hcap
  rw [length_wrapped]
  split_ifs with h
  · have hsame : (l.length + 1) / cap = l.length / cap := by
      refine Nat.div_eq_of_lt_le (by omega) ?_
      rw [Nat.succ_mul]
      omega
    rw [wrapped, List.length_append, List.length_singleton, hsame, List.drop_append_of_le_length (by omega)]
    rfl
  · have hnext : (l.length + 1) / cap * cap = l.length + 1 := by
      have hfull : l.length + 1 = (l.length / cap + 1) * cap := by
        rw [Nat.succ_mul]
        omega
      rw [hfull, Nat.mul_div_cancel _ hcap]
    rw [wrapped, List.length_append, List.length_singleton, hnext]
    exact List.drop_eq_nil_of_le (by simp)

end Wrapped

end SimpleSatOps.Framing
