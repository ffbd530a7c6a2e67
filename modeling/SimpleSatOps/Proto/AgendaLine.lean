import SimpleSatOps.Lib.CText
import SimpleSatOps.Lib.Lines

/-!
# Agenda lines

* `isBlank`, `isSpace` : the two notions of white space of the agenda readers;
* `fgets` : the pieces `fgets` hands out, with the C string each one holds;
* `agendaFindInlineComment` : where the command ends and the comment starts;
* `agendaParseDirectiveMs` : the number of an `@tssent=` or `@tsexec=` tag;
* `commentScan_take`, `commentScan_append` : the scan on a part of a line.
-/

namespace SimpleSatOps.AgendaLine
open Lines

def newline : UInt8 := 0x0a
def hash : UInt8 := 0x23

/-- `c == ' ' || c == '\t'`. -/
def isBlank (c : UInt8) : Bool := c == 0x20 || c == 0x09

/-- `c == ' ' || c == '\t' || c == '\r' || c == '\n'`. -/
def isSpace (c : UInt8) : Bool := c == 0x20 || c == 0x09 || c == 0x0d || c == newline

/-- The string in a buffer: what stands before the terminating NUL. -/
def cString (buf : List UInt8) : List UInt8 := buf.takeWhile (· != 0)

/-- The strings `while (fgets(line, size, fp))` reads from a file. -/
def fgets (size : ℕ) (content : List UInt8) : List (List UInt8) :=
  (readLines (· == newline) (size - 1) content).map cString

/-- The lines of a file, with their newlines. -/
def fileLines (content : List UInt8) : List (List UInt8) := splitLines (· == newline) content

/-- The loop of `agenda_find_inline_comment`: where it stops, at a `#` behind white space or at the end.
`start` says that the byte before is white space or that there is none. -/
def commentScan (start : Bool) : List UInt8 → ℕ
  | [] => 0
  | c :: s => if c == hash && start then 0 else commentScan (isBlank c) s + 1

/-- The offset of the `#` (NULL when there is none), and the length of the command before it. -/
def agendaFindInlineComment (s : List UInt8) : Option ℕ × ℕ :=
  let i := commentScan true s
  if i < s.length then (some i, ((s.take i).rdropWhile isBlank).length) else (none, s.length)

/-- The digits behind a directive, with their sign: what `agenda_parse_directive_ms` copies to `numbuf`. -/
def directiveNumber (s : List UInt8) : Option (List UInt8) :=
  let sign := s.take 1 |>.filter fun c => c == byte '+' || c == byte '-'
  let digits := (s.drop sign.length).takeWhile isDigit
  if digits = [] ∨ 32 ≤ sign.length + digits.length then none else some (sign ++ digits)

/-- `agenda_parse_directive_ms`, up to the conversion of the digits: the first place the key stands with a number. -/
def agendaParseDirectiveMs (key : List UInt8) : List UInt8 → Option (List UInt8)
  | [] => none
  | c :: s =>
    match if key.isPrefixOf (c :: s) then directiveNumber ((c :: s).drop key.length) else none with
    | some number => some number
    | none => agendaParseDirectiveMs key s

/-! ## White space -/

theorem isSpace_of_isBlank {c : UInt8} (h : isBlank c = true) : isSpace c = true := by
  unfold isBlank at h
  unfold isSpace
  rw [h]
  rfl

theorem isBlank_of_isSpace_eq_false {c : UInt8} (h : isSpace c = false) : isBlank c = false := by
  cases hb : isBlank c with
  | false => rfl
  | true => exact (isSpace_of_isBlank hb).symm.trans h

theorem ne_hash_of_isBlank {c : UInt8} (h : isBlank c = true) : (c == hash) = false := by
  unfold isBlank at h
  simp only [Bool.or_eq_true, beq_iff_eq] at h
  rcases h with rfl | rfl <;> rfl

/-! ## Reading -/

theorem cString_of_not_mem {s : List UInt8} (h : (0 : UInt8) ∉ s) : cString s = s := by
  unfold cString
  rw [List.takeWhile_eq_self_iff]
  intro c hc
  simpa using fun h0 : c = 0 => h (h0 ▸ hc)

/-- Without NUL bytes a buffer holds what was read into it. -/
theorem fgets_of_not_mem {size : ℕ} (hsize : 1 < size) {content : List UInt8} (h : (0 : UInt8) ∉ content) :
    fgets size content = readLines (· == newline) (size - 1) content := by
  have hpiece : ∀ p ∈ readLines (· == newline) (size - 1) content, cString p = p := fun p hp =>
    cString_of_not_mem fun h0 => h <| by
      rw [← flatten_readLines (· == newline) (Nat.sub_pos_of_lt hsize) content]
      exact List.mem_flatten.mpr ⟨p, hp, h0⟩
  unfold fgets
  rw [List.map_congr_left hpiece, List.map_id']

/-- A file is read line by line. -/
theorem fgets_eq_flatMap {size : ℕ} (hsize : 1 < size) (content : List UInt8) :
    fgets size content = (fileLines content).flatMap (fgets size) := by
  unfold fgets fileLines
  rw [readLines_eq_flatMap (by omega), List.map_flatMap]

/-- The reading of a file, command by command, is that of its lines. -/
theorem filterMap_fgets {β : Type*} {size : ℕ} (hsize : 1 < size) (f : List UInt8 → Option β)
    (content : List UInt8) :
    (fgets size content).filterMap f = (fileLines content).flatMap fun line => (fgets size line).filterMap f := by
  rw [fgets_eq_flatMap hsize, List.filterMap_flatMap]

theorem not_mem_of_mem_fileLines {content line : List UInt8} {c : UInt8} (hc : c ∉ content)
    (hline : line ∈ fileLines content) : c ∉ line := fun h => hc <| by
  rw [← flatten_splitLines (· == newline) content]
  exact List.mem_flatten.mpr ⟨line, hline, h⟩

/-! ## The scan -/

theorem commentScan_le (start : Bool) (s : List UInt8) : commentScan start s ≤ s.length := by
  induction s generalizing start with
  | nil => exact le_rfl
  | cons c s ih =>
      unfold commentScan
      split_ifs
      · exact Nat.zero_le _
      · exact Nat.succ_le_succ (ih _)

theorem commentScan_take (start : Bool) (s : List UInt8) (n : ℕ) :
    commentScan start (s.take n) = min (commentScan start s) n := by
  induction s generalizing start n with
  | nil => simp [commentScan]
  | cons c s ih =>
      cases n with
      | zero => simp [commentScan]
      | succ n =>
          simp only [List.take_succ_cons, commentScan]
          split_ifs
          · simp
          · rw [ih, Nat.succ_min_succ]

/-- White space in front moves the comment along. -/
theorem commentScan_append {b : List UInt8} (hb : ∀ c ∈ b, isBlank c = true) (u : List UInt8) :
    commentScan true (b ++ u) = b.length + commentScan true u := by
  induction b with
  | nil => simp
  | cons c b ih =>
      have hc : isBlank c = true := hb c List.mem_cons_self
      have hscan : commentScan true (c :: (b ++ u)) = commentScan true (b ++ u) + 1 := by
        simp [commentScan, ne_hash_of_isBlank hc, hc]
      rw [List.cons_append, hscan, ih fun d hd => hb d (List.mem_cons_of_mem c hd), List.length_cons]
      omega

/-- The scan stops at a `#`. -/
theorem getElem?_commentScan {start : Bool} {s : List UInt8} (h : commentScan start s < s.length) :
    s[commentScan start s]? = some hash := by
  induction s generalizing start with
  | nil => exact absurd h (Nat.lt_irrefl 0)
  | cons c s ih =>
      unfold commentScan at h ⊢
      split_ifs at h ⊢ with hc
      · simp only [Bool.and_eq_true, beq_iff_eq] at hc
        simp [hc.1]
      · rw [List.getElem?_cons_succ]
        exact ih (Nat.lt_of_succ_lt_succ h)

theorem commentScan_cons {c : UInt8} (hh : c ≠ hash) (u : List UInt8) :
    commentScan true (c :: u) = commentScan (isBlank c) u + 1 := by
  simp [commentScan, hh]

/-! ## The command of a line -/

/-- The command: all that stands before the comment, without the white space in between. -/
theorem take_agendaFindInlineComment (s : List UInt8) :
    s.take (agendaFindInlineComment s).2 =
      if commentScan true s < s.length then (s.take (commentScan true s)).rdropWhile isBlank else s := by
  unfold agendaFindInlineComment
  dsimp only
  split_ifs
  · have htrim := List.rdropWhile_prefix isBlank (s.take (commentScan true s))
    exact (List.prefix_iff_eq_take.mp (htrim.trans (List.take_prefix _ s))).symm
  · exact List.take_length

section Command

variable {b : List UInt8} {c : UInt8}

theorem agendaFindInlineComment_append (hb : ∀ d ∈ b, isBlank d = true) (hc : isBlank c = false) (hh : c ≠ hash)
    (u : List UInt8) :
    (agendaFindInlineComment (b ++ c :: u)).2 = b.length + (agendaFindInlineComment (c :: u)).2 := by
  have hkeep : ((c :: u).take (commentScan true (c :: u))).rdropWhile isBlank ≠ [] := by
    rw [commentScan_cons hh, List.take_succ_cons]
    exact trimEnd_cons_ne_nil hc _
  unfold agendaFindInlineComment
  dsimp only
  rw [commentScan_append hb, List.length_append, List.take_length_add_append]
  simp only [Nat.add_lt_add_iff_left]
  split_ifs
  · rw [trimEnd_append, if_neg hkeep, List.length_append]
  · rfl

theorem agendaFindInlineComment_pos (hc : isBlank c = false) (hh : c ≠ hash) (u : List UInt8) :
    0 < (agendaFindInlineComment (c :: u)).2 := by
  unfold agendaFindInlineComment
  dsimp only
  split_ifs
  · rw [commentScan_cons hh, List.take_succ_cons]
    exact List.length_pos_of_ne_nil (trimEnd_cons_ne_nil hc _)
  · exact Nat.succ_pos _

theorem agendaFindInlineComment_le (s : List UInt8) : (agendaFindInlineComment s).2 ≤ s.length := by
  unfold agendaFindInlineComment
  dsimp only
  split_ifs
  · exact (List.rdropWhile_prefix _ _).length_le.trans (List.length_take_le' _ _)
  · exact le_rfl

/-- Trimmed, the command is what stands before the comment, trimmed. -/
theorem trimEnd_command (s : List UInt8) :
    (s.take (agendaFindInlineComment s).2).rdropWhile isSpace =
      (s.take (commentScan true s)).rdropWhile isSpace := by
  rw [take_agendaFindInlineComment]
  split_ifs with h
  · exact trimEnd_trimEnd (fun d => isSpace_of_isBlank) _
  · rw [List.take_of_length_le (Nat.le_of_not_lt h)]

end Command

end SimpleSatOps.AgendaLine
