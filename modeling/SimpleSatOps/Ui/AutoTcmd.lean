import SimpleSatOps.Proto.AgendaLine

/-!
# The auto-tcmd file loader

* `loadLine` : the command `auto_tcmd_load_file` stores for one line it reads, if any;
* `loaded` : the commands of a whole file;
* `loadLine_eq_none_iff`, `loadLine_eq` : which lines are dropped, and what is stored of the others.
-/

namespace SimpleSatOps.AutoTcmd
open Lines AgendaLine

/-- `sizeof line`. -/
def lineSize : ℕ := 512

def strTrimInplace (s : List UInt8) : List UInt8 := (s.dropWhile isSpace).rdropWhile isSpace

def stripInlineComment (s : List UInt8) : List UInt8 := s.take (agendaFindInlineComment s).2

/-- The body of the loop of `auto_tcmd_load_file`, up to the call of `strdup`. -/
def loadLine (line : List UInt8) : Option (List UInt8) :=
  let t := strTrimInplace line
  if t = [] ∨ t.head? = some hash then none
  else
    let t := stripInlineComment t
    if t = [] then none else some t

/-- The commands `auto_tcmd_load_file` stores. -/
def loaded (content : List UInt8) : List (List UInt8) := (fgets lineSize content).filterMap loadLine

/-! ## One line -/

/-- Nothing to send: the first byte that is no white space is `#`, or there is none. -/
def silent (line : List UInt8) : Bool :=
  match line.dropWhile isSpace with
  | [] => true
  | c :: _ => c == hash

/-- The `#` of a comment is no white space, so trimming does not reach it. -/
theorem commentScan_lt_trimEnd {s : List UInt8} (h : commentScan true s < s.length) :
    commentScan true s < (s.rdropWhile isSpace).length := by
  have hpre := List.prefix_iff_eq_take.mp (List.rdropWhile_prefix isSpace s)
  have htail := (trimEnd_eq_trimEnd_take_iff (p := isSpace) s (s.rdropWhile isSpace).length).mp
    (by rw [← hpre, List.rdropWhile_idempotent])
  by_contra hle
  have hmem : hash ∈ s.drop (s.rdropWhile isSpace).length := by
    rw [List.mem_iff_getElem?]
    refine ⟨commentScan true s - (s.rdropWhile isSpace).length, ?_⟩
    rw [List.getElem?_drop, Nat.add_sub_of_le (by omega)]
    exact getElem?_commentScan h
  exact absurd (htail hash hmem) (by decide)

/-- The command of a trimmed string. -/
theorem stripInlineComment_trimEnd (s : List UInt8) :
    stripInlineComment (s.rdropWhile isSpace) =
      if commentScan true s < s.length then (s.take (commentScan true s)).rdropWhile isBlank
      else s.rdropWhile isSpace := by
  have hpre := List.prefix_iff_eq_take.mp (List.rdropWhile_prefix isSpace s)
  have hlen := (List.rdropWhile_prefix isSpace s).length_le
  have hscan : commentScan true (s.rdropWhile isSpace) =
      min (commentScan true s) (s.rdropWhile isSpace).length := by
    conv_lhs => rw [hpre]
    exact commentScan_take true s _
  unfold stripInlineComment
  rw [take_agendaFindInlineComment, hscan]
  by_cases h : commentScan true s < s.length
  · have hlt := commentScan_lt_trimEnd h
    rw [min_eq_left hlt.le, if_pos hlt, if_pos h]
    conv_lhs => rw [hpre]
    rw [List.take_take, min_eq_left hlt.le]
  · rw [if_neg h, min_eq_right (by omega), if_neg (Nat.lt_irrefl _)]

/-- A line is stored from its first byte on: up to the comment, or without the white space at its end. -/
theorem loadLine_eq {b s : List UInt8} (hb : ∀ d ∈ b, isSpace d = true) {c : UInt8} (hs : s.head? = some c)
    (hc : isSpace c = false) (hh : c ≠ hash) :
    loadLine (b ++ s) = some (if commentScan true s < s.length
      then (s.take (commentScan true s)).rdropWhile isBlank else s.rdropWhile isSpace) := by
  obtain ⟨u, rfl⟩ := List.head?_eq_some_iff.mp hs
  have htrim : strTrimInplace (b ++ c :: u) = (c :: u).rdropWhile isSpace := by
    unfold strTrimInplace
    rw [List.dropWhile_append_of_pos hb, List.dropWhile_cons_of_neg (by simp [hc])]
  have hfirst : ¬((c :: u).rdropWhile isSpace = [] ∨ ((c :: u).rdropWhile isSpace).head? = some hash) := by
    rw [trimEnd_cons hc]
    simpa using hh
  have hcmd : stripInlineComment ((c :: u).rdropWhile isSpace) ≠ [] := by
    rw [stripInlineComment_trimEnd]
    split_ifs
    · rw [commentScan_cons hh, List.take_succ_cons]
      exact trimEnd_cons_ne_nil (isBlank_of_isSpace_eq_false hc) _
    · exact trimEnd_cons_ne_nil hc u
  unfold loadLine
  dsimp only
  rw [htrim, if_neg hfirst, if_neg hcmd, stripInlineComment_trimEnd]

theorem loadLine_eq_none_iff (line : List UInt8) : loadLine line = none ↔ silent line = true := by
  unfold silent
  cases hd : line.dropWhile isSpace with
  | nil => simp [loadLine, strTrimInplace, hd]
  | cons c u =>
      have hc : isSpace c = false := by
        have hhead := List.head_dropWhile_not isSpace (l := line) (by rw [hd]; exact List.cons_ne_nil c u)
        simpa [hd] using hhead
      by_cases hh : c = hash
      · have htrim : strTrimInplace line = c :: u.rdropWhile isSpace := by
          unfold strTrimInplace
          rw [hd, trimEnd_cons hc]
        simp [loadLine, htrim, hh]
      · have hline : line = line.takeWhile isSpace ++ c :: u := by rw [← hd, List.takeWhile_append_dropWhile]
        rw [hline, loadLine_eq (fun d hd => List.mem_takeWhile_imp hd) (List.head?_cons) hc hh]
        simpa using hh

end SimpleSatOps.AutoTcmd
