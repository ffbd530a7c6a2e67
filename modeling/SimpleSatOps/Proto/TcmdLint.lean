import SimpleSatOps.Proto.AgendaLine

/-!
# The agenda linter's reader

* `lintLine` : the string `tcmd_lint_file` hands to `tcmd_lint_command` for one line it reads, if any;
* `linted` : the strings of a whole file;
* `lintLine_eq_none_iff`, `lintLine_eq` : which lines are skipped, and what is linted of the others.
-/

namespace SimpleSatOps.TcmdLint
open Lines AgendaLine

/-- `sizeof line`, `sizeof cmd`. -/
def lineSize : ℕ := 4096

/-- Blank lines and whole-line comments: the first byte that is no blank is `\n`, `\r`, `#`, or the end. -/
def skipped (line : List UInt8) : Bool :=
  match line.dropWhile isBlank with
  | [] => true
  | c :: _ => c == newline || c == 0x0d || c == hash

/-- The body of the loop of `tcmd_lint_file`, up to the call of `tcmd_lint_command`. -/
def lintLine (line : List UInt8) : Option (List UInt8) :=
  if skipped line then none
  else
    let cmdLen := (agendaFindInlineComment line).2
    let len := if cmdLen < lineSize then cmdLen else lineSize - 1
    let cmd := line.take len
    let s := (cmd.dropWhile isSpace).rdropWhile isSpace
    if s = [] then none else some s

/-- The strings `tcmd_lint_file` hands to `tcmd_lint_command`. -/
def linted (content : List UInt8) : List (List UInt8) := (fgets lineSize content).filterMap lintLine

/-! ## One line -/

theorem not_skipped_append {b : List UInt8} (hb : ∀ c ∈ b, isBlank c = true) {c : UInt8} (hc : isSpace c = false)
    (hh : c ≠ hash) (u : List UInt8) : skipped (b ++ c :: u) = false := by
  unfold isSpace at hc
  simp only [Bool.or_eq_false_iff, beq_eq_false_iff_ne, ne_eq] at hc
  unfold skipped
  rw [List.dropWhile_append_of_pos hb, List.dropWhile_cons_of_neg (by simp [isBlank, hc])]
  simp [hc, hh]

/-- The first byte of a line that is not skipped. -/
theorem exists_of_not_skipped {line : List UInt8} (h : skipped line = false) :
    ∃ c u, line = line.takeWhile isBlank ++ c :: u ∧ isSpace c = false ∧ c ≠ hash := by
  cases hd : line.dropWhile isBlank with
  | nil => simp [skipped, hd] at h
  | cons c u =>
      have hc : isBlank c = false := by
        have hhead := List.head_dropWhile_not isBlank (l := line) (by rw [hd]; exact List.cons_ne_nil c u)
        simpa [hd] using hhead
      simp only [skipped, hd, Bool.or_eq_false_iff, beq_eq_false_iff_ne, ne_eq] at h
      refine ⟨c, u, ?_, ?_, h.2⟩
      · rw [← hd, List.takeWhile_append_dropWhile]
      · unfold isBlank at hc
        unfold isSpace
        simp [hc, h.1.1, h.1.2]

/-- A line that is not skipped is linted from its first byte on, up to the comment. -/
theorem lintLine_eq {b s : List UInt8} (hb : ∀ d ∈ b, isBlank d = true) {c : UInt8} (hs : s.head? = some c)
    (hc : isSpace c = false) (hh : c ≠ hash) (hlen : (b ++ s).length < lineSize) :
    lintLine (b ++ s) = some ((s.take (commentScan true s)).rdropWhile isSpace) := by
  obtain ⟨u, rfl⟩ := List.head?_eq_some_iff.mp hs
  have hblank := isBlank_of_isSpace_eq_false hc
  have hfront : ∀ d ∈ b, isSpace d = true := fun d hd => isSpace_of_isBlank (hb d hd)
  obtain ⟨m, hm⟩ := Nat.exists_eq_add_of_lt (agendaFindInlineComment_pos hblank hh u)
  have hle := agendaFindInlineComment_le (b ++ c :: u)
  have hcmd : ((b ++ c :: u).take (agendaFindInlineComment (b ++ c :: u)).2).dropWhile isSpace =
      (c :: u).take (agendaFindInlineComment (c :: u)).2 := by
    rw [agendaFindInlineComment_append hb hblank hh, List.take_length_add_append, List.dropWhile_append_of_pos hfront,
      hm, Nat.zero_add, List.take_succ_cons, List.dropWhile_cons_of_neg (by simp [hc])]
  have hne : ((c :: u).take (commentScan true (c :: u))).rdropWhile isSpace ≠ [] := by
    rw [commentScan_cons hh, List.take_succ_cons]
    exact trimEnd_cons_ne_nil hc _
  unfold lintLine
  rw [not_skipped_append hb hc hh, if_neg Bool.false_ne_true]
  dsimp only
  rw [if_pos (hle.trans_lt hlen), hcmd, trimEnd_command, if_neg hne]

theorem lintLine_eq_none {line : List UInt8} (h : skipped line = true) : lintLine line = none := if_pos h

end SimpleSatOps.TcmdLint
