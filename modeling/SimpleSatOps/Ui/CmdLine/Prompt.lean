import Mathlib.Data.List.GetD
import SimpleSatOps.Ui.CmdLine

/-!
# The command line as a text

* `Prompt` : the list model, the text in front of the cursor and behind it;
* `Rep` : the buffer holds the text;
* `cmdInsertStr_spec`, `cmdHistoryPrev_spec`, `cmdTabComplete_spec`, … : each operation does what the list model says.
-/

namespace SimpleSatOps.CmdLine

open FieldBuffer (Split Shows memmove putAt skipBack char)

/-! ## The list model -/

structure Prompt where
  active : Bool
  line : Split
  status : List UInt8
  dirty : Bool
  lastEditNs : ℤ
  history : List (List UInt8)
  histPos : ℕ
  histSaved : List UInt8

namespace Prompt

/-- The whole line. -/
def text (p : Prompt) : List UInt8 := p.line.before ++ p.line.behind

def enter (p : Prompt) : Prompt :=
  { p with active := true, line := ⟨[], []⟩, histPos := p.history.length, dirty := true, lastEditNs := 0 }

/-- The edits of a text field. -/
def edit (now : ℤ) (p : Prompt) (k : FieldBuffer.Key) : Prompt :=
  match k.edit cmdBufSize p.line with
  | (x, some true) => { p with line := x, dirty := true, lastEditNs := now }
  | (x, _) => { p with line := x }

/-- As much of a text as there is room for. -/
def insert (now : ℤ) (p : Prompt) (s : List UInt8) : Prompt :=
  { p with
    line := ⟨p.line.before ++ s.take (cmdBufSize - 1 - p.text.length), p.line.behind⟩
    dirty := true
    lastEditNs := now }

/-- A line of the history, with the cursor behind it. -/
def load (now : ℤ) (p : Prompt) (s : List UInt8) : Prompt :=
  { p with line := ⟨s, []⟩, dirty := true, lastEditNs := now }

def up (now : ℤ) (p : Prompt) : Prompt :=
  if p.history = [] then p
  else
    let p := if p.histPos = p.history.length then { p with histSaved := p.text } else p
    let p := { p with histPos := p.histPos - 1 }
    p.load now (p.history.getD p.histPos [])

def down (now : ℤ) (p : Prompt) : Prompt :=
  if p.history.length ≤ p.histPos then p
  else
    let p := { p with histPos := p.histPos + 1 }
    p.load now (if p.histPos = p.history.length then p.histSaved else p.history.getD p.histPos [])

/-- The line goes into the history unless it is empty or there already. -/
def remember (p : Prompt) (line : List UInt8) : Prompt :=
  if line = [] then p
  else if p.history.getLast? = some line then { p with histPos := p.history.length }
  else
    let history := (if p.history.length < cmdHistorySize then p.history else p.history.tail) ++ [line]
    { p with history := history, histPos := history.length }

/-- The word at the cursor. -/
def token (p : Prompt) : List UInt8 := p.line.before.rtakeWhile inWord

/-- What completion puts behind the word `base`, one of `names`; `close` comes behind the only one. -/
def completion (names : List (List UInt8)) (close : List UInt8 → List UInt8) (base : List UInt8) :
    Option (List UInt8) :=
  let m := names.foldl (matchRound base) ⟨0, [], []⟩
  if m.n = 1 then some (m.only.drop base.length ++ close m.only)
  else if 1 < m.n ∧ base.length < m.lcp.length then some (m.lcp.drop base.length)
  else none

/-- The completion of the word at the cursor: a command if it is the first one, else a path. -/
def completed (env : Env) (p : Prompt) : Option (List UInt8) :=
  if p.token = p.line.before then completion gCmdNames (fun _ => [byte ' ']) p.token
  else (scanDir env (dirLit p.token)).bind fun dir => (env.readdir dir).bind fun names =>
    let base := p.token.drop (dirLit p.token).length
    completion ((names.map cstr).filter (shown base))
      (fun only => if env.isDir (fullPath dir only) then [byte '/'] else []) base

def complete (env : Env) (now : ℤ) (p : Prompt) : Prompt := (p.completed env).elim p (p.insert now)

def apply (now : ℤ) (p : Prompt) : Action → Prompt
  | .none => p
  | .left => p.edit now .left
  | .right => p.edit now .right
  | .home => p.edit now .home
  | .toEnd => p.edit now .toEnd
  | .backspace => p.edit now .backspace
  | .del => p.edit now .delete
  | .histPrev => p.up now
  | .histNext => p.down now

end Prompt

/-! ## The buffer holds the text -/

/-- The line of the history, as a text of a buffer. -/
def Fits (s : List UInt8) : Prop := 0 ∉ s ∧ s.length < cmdBufSize

/-- The command line shows the prompt. -/
structure Rep (c : Cmdline) (p : Prompt) : Prop where
  shows : Shows cmdBufSize ⟨c.buf, c.cursor⟩ p.line
  len : c.len = p.text.length
  active : c.active = p.active
  status : c.status = p.status
  dirty : c.dirty = p.dirty
  lastEditNs : c.lastEditNs = p.lastEditNs
  history : c.history = p.history
  histPos : c.histPos = p.histPos
  histSaved : c.histSaved = p.histSaved
  fits : ∀ s ∈ p.history, Fits s
  saved : Fits p.histSaved
  pos_le : p.histPos ≤ p.history.length

section
variable {c : Cmdline} {p : Prompt}

theorem Rep.cstr_buf (h : Rep c p) : cstr c.buf = p.text := by
  obtain ⟨rest, hbuf⟩ := h.shows.buf
  have hbuf' : c.buf = p.line.before ++ p.line.behind ++ 0 :: rest := hbuf
  rw [hbuf', cstr_append_nul h.shows.clean]
  rfl

theorem Rep.text_fits (h : Rep c p) : Fits p.text :=
  ⟨h.shows.clean, by rw [Prompt.text, List.length_append]; exact h.shows.length_lt⟩

theorem snprintf_of_fits {s : List UInt8} (h : Fits s) : snprintf cmdBufSize s = s :=
  List.take_of_length_le (Nat.le_sub_one_of_lt h.2)

/-- The buffer after a text has been written to its front. -/
theorem shows_cmdBufText {buf s : List UInt8} (hlen : buf.length = cmdBufSize) (hs : Fits s) :
    Shows cmdBufSize ⟨cmdBufText buf s, (cstr (cmdBufText buf s)).length⟩ ⟨s, []⟩ ∧ cstr (cmdBufText buf s) = s := by
  have hroom : 0 + (s ++ [0]).length ≤ buf.length := by
    have hlt := hs.2
    rw [List.length_append, List.length_singleton]
    omega
  have hpatch : cmdBufText buf s = s ++ 0 :: buf.drop (0 + (s ++ [0]).length) := by
    rw [cmdBufText, snprintf_of_fits hs, patch, List.take_zero, List.nil_append, List.append_assoc,
      List.singleton_append]
  have hcstr : cstr (cmdBufText buf s) = s := by rw [hpatch, cstr_append_nul hs.1]
  refine ⟨⟨?_, ⟨buf.drop (0 + (s ++ [0]).length), ?_⟩, ?_, ?_⟩, hcstr⟩
  · have hsame := length_patch hroom
    unfold cmdBufText
    rw [snprintf_of_fits hs]
    exact hsame.trans hlen
  · rw [List.append_nil]
    exact hpatch
  · rw [hcstr]
  · rw [List.append_nil]
    exact hs.1

/-- Another line in the prompt. -/
theorem Rep.edited (h : Rep c p) {buf : List UInt8} {len cursor : ℤ} {x : Split}
    (hshows : Shows cmdBufSize ⟨buf, cursor⟩ x) (hlen : len = (x.before ++ x.behind).length) :
    Rep { c with buf := buf, len := len, cursor := cursor } { p with line := x } :=
  ⟨hshows, hlen, h.active, h.status, h.dirty, h.lastEditNs, h.history, h.histPos, h.histSaved, h.fits, h.saved,
    h.pos_le⟩

/-- An edit is marked for the preview. -/
theorem Rep.marked (h : Rep c p) (dirty : Bool) (now : ℤ) :
    Rep { c with dirty := dirty, lastEditNs := now } { p with dirty := dirty, lastEditNs := now } :=
  ⟨h.shows, h.len, h.active, h.status, rfl, rfl, h.history, h.histPos, h.histSaved, h.fits, h.saved, h.pos_le⟩

/-- A byte goes in at the cursor. -/
theorem Rep.insert_byte (h : Rep c p) (hroom : p.text.length + 1 < cmdBufSize) {b : UInt8} (hb : b ≠ 0) :
    ∃ moved buf, memmove c.buf (c.cursor + 1) c.cursor (c.len - c.cursor + 1) = .ok moved ∧
      putAt moved c.cursor b = .ok buf ∧
      Rep { c with buf := buf, len := c.len + 1, cursor := c.cursor + 1 }
        { p with line := ⟨p.line.before ++ [b], p.line.behind⟩ } := by
  obtain ⟨rest, hbuf⟩ := h.shows.buf
  have hbuf' : c.buf = p.line.before ++ p.line.behind ++ 0 :: rest := hbuf
  have hlength : c.buf.length = cmdBufSize := h.shows.length
  have hcursor : c.cursor = p.line.before.length := h.shows.cursor
  have hclean := h.shows.clean
  have htext : p.text.length = p.line.before.length + p.line.behind.length := List.length_append
  have hsize : cmdBufSize = 128 := rfl
  have hrest : rest ≠ [] := by
    rintro rfl
    rw [hbuf', List.length_append, List.length_append, List.length_singleton] at hlength
    omega
  obtain ⟨rest', moved, hmove, hput, hsame⟩ :=
    FieldBuffer.memmove_up (p := p.line.before) (q := p.line.behind) (by omega) hrest b
  have hn : c.len - c.cursor + 1 = p.line.behind.length + 1 := by
    rw [h.len, hcursor, htext]
    omega
  rw [hn, hbuf', hcursor]
  refine ⟨moved, _, hmove, hput, ?_⟩
  rw [← hcursor]
  refine h.edited ⟨?_, ⟨rest', rfl⟩, ?_, ?_⟩ ?_
  · rw [← hlength, hbuf', ← hsame]
  · rw [hcursor, List.length_append, List.length_singleton, Nat.cast_add, Nat.cast_one]
  · simp only [List.mem_append, List.mem_singleton, not_or] at hclean ⊢
    exact ⟨⟨hclean.1, hb.symm⟩, hclean.2⟩
  · rw [h.len, htext]
    simp only [List.length_append, List.length_singleton]
    omega

/-- **A text goes in at the cursor**, as much of it as there is room for. -/
theorem cmdInsertStr_spec (now : ℤ) (s : List UInt8) (hs : 0 ∉ s) : ∀ {c : Cmdline} {p : Prompt}, Rep c p →
    Runs (cmdInsertStr now c s) (Rep · (p.insert now s)) := by
  induction s with
  | nil =>
      intro c p h
      refine .pure ?_
      have hline : p.insert now [] = { p with dirty := true, lastEditNs := now } := by
        rw [Prompt.insert, List.take_nil, List.append_nil]
      rw [hline]
      exact h.marked true now
  | cons b s ih =>
      rw [List.mem_cons, not_or] at hs
      intro c p h
      have hfits := h.text_fits.2
      have hsize : cmdBufSize = 128 := rfl
      have hlen := h.len
      rw [cmdInsertStr]
      by_cases hfull : p.text.length + 1 < cmdBufSize
      · obtain ⟨moved, buf, hmove, hput, hrep⟩ := h.insert_byte hfull (Ne.symm hs.1)
        obtain ⟨c', hrun, hrep'⟩ := ih hs.2 hrep
        rw [if_neg (by omega), hmove, ok_bind, hput, ok_bind]
        refine ⟨c', hrun, ?_⟩
        obtain ⟨room, hroom⟩ : ∃ room, cmdBufSize - 1 - p.text.length = room + 1 :=
          Nat.exists_eq_add_one_of_ne_zero (by omega)
        have hnext : (p.insert now (b :: s)) =
            Prompt.insert now { p with line := ⟨p.line.before ++ [b], p.line.behind⟩ } s := by
          have hless : cmdBufSize - 1 - (p.line.before ++ [b] ++ p.line.behind).length = room := by
            have htext : p.text.length = p.line.before.length + p.line.behind.length := List.length_append
            simp only [List.length_append, List.length_singleton]
            omega
          unfold Prompt.insert
          rw [hroom, List.take_succ_cons]
          unfold Prompt.text
          rw [hless]
          simp only [List.append_assoc, List.singleton_append]
        rw [hnext]
        exact hrep'
      · have hnone : cmdBufSize - 1 - p.text.length = 0 := by omega
        rw [if_pos (by omega)]
        refine .pure ?_
        have hline : p.insert now (b :: s) = { p with dirty := true, lastEditNs := now } := by
          rw [Prompt.insert, hnone, List.take_zero, List.append_nil]
        rw [hline]
        exact h.marked true now

/-- The cursor elsewhere on the same text. -/
theorem Rep.moved (h : Rep c p) {cursor : ℤ} {x : Split} (hs : Shows cmdBufSize ⟨c.buf, cursor⟩ x) :
    Rep { c with cursor := cursor } { p with line := x } := by
  have htext : x.before ++ x.behind = p.text := by
    obtain ⟨rest, hbuf⟩ := hs.buf
    have hbuf' : c.buf = x.before ++ x.behind ++ 0 :: rest := hbuf
    rw [← h.cstr_buf, hbuf', cstr_append_nul hs.clean]
  exact h.edited hs (by rw [h.len, htext])

theorem left_spec (now : ℤ) (h : Rep c p) : Runs (cmdApplyAction now c .left) (Rep · (p.apply now .left)) := by
  obtain ⟨q, hq, hs, -⟩ := FieldBuffer.left_does h.shows
  obtain rfl : _ = q := Except.ok.inj hq
  refine .pure ?_
  dsimp only at hs
  split_ifs at hs ⊢ with hpos
  · exact h.moved hs
  · exact h.moved hs

theorem Rep.strlen_eq (h : Rep c p) : (p.line.before.length : ℤ) + p.line.behind.length = c.len := by
  rw [h.len, Prompt.text, List.length_append, Nat.cast_add]

theorem right_spec (now : ℤ) (h : Rep c p) : Runs (cmdApplyAction now c .right) (Rep · (p.apply now .right)) := by
  have hcap : cmdBufSize < 2 ^ 31 := by decide
  have hn := h.shows.strlen_eq
  obtain ⟨q, hq, hs, -⟩ := FieldBuffer.right_does h.shows hcap
  unfold FieldBuffer.Key.run FieldBuffer.uiTfRight at hq
  dsimp only at hn hq
  rw [hn, ok_bind, h.shows.cInt_eq hcap, h.strlen_eq] at hq
  obtain rfl : _ = q := Except.ok.inj hq
  refine .pure ?_
  dsimp only at hs
  split_ifs at hs ⊢ with hlt
  · exact h.moved hs
  · exact h.moved hs

theorem home_spec (now : ℤ) (h : Rep c p) : Runs (cmdApplyAction now c .home) (Rep · (p.apply now .home)) :=
  .pure (h.moved (h.shows.moved rfl rfl))

theorem toEnd_spec (now : ℤ) (h : Rep c p) : Runs (cmdApplyAction now c .toEnd) (Rep · (p.apply now .toEnd)) := by
  refine .pure (h.moved (h.shows.moved ?_ (List.append_nil _)))
  rw [h.len]
  rfl

theorem backspace_spec (now : ℤ) (h : Rep c p) :
    Runs (cmdApplyAction now c .backspace) (Rep · (p.apply now .backspace)) := by
  have hcap : cmdBufSize < 2 ^ 31 := by decide
  have hn := h.shows.strlen_eq
  have hcursor : c.cursor = p.line.before.length := h.shows.cursor
  have hlen := h.strlen_eq
  obtain ⟨q, hq, hs, hreport⟩ := FieldBuffer.backspace_does h.shows hcap
  unfold FieldBuffer.Key.run FieldBuffer.uiTfBackspace at hq
  dsimp only at hn hq
  rw [hn, ok_bind, h.shows.cInt_eq hcap, hlen] at hq
  unfold cmdApplyAction Prompt.apply Prompt.edit FieldBuffer.Key.edit
  unfold FieldBuffer.Key.edit at hs
  by_cases hbefore : p.line.before = []
  · rw [hbefore, List.length_nil, Nat.cast_zero] at hcursor
    dsimp only at hs ⊢
    rw [if_neg (by omega), if_pos hbefore]
    exact .pure h
  · have hpos := List.length_pos_iff.mpr hbefore
    dsimp only at hs ⊢
    rw [if_neg (by omega)] at hq
    rw [if_neg hbefore] at hs
    rw [if_pos (by omega), if_neg hbefore]
    cases hmove : memmove c.buf (c.cursor - 1) c.cursor (c.len - c.cursor + 1) with
    | error e =>
        rw [hmove] at hq
        exact nomatch hq
    | ok buf =>
        rw [hmove, ok_bind] at hq
        obtain rfl : _ = q := Except.ok.inj hq
        rw [ok_bind]
        refine .pure (Rep.marked (h.edited hs ?_) true now)
        change c.len - 1 = ((p.line.before.dropLast ++ p.line.behind).length : ℕ)
        rw [List.length_append, List.length_dropLast]
        omega

theorem del_spec (now : ℤ) (h : Rep c p) : Runs (cmdApplyAction now c .del) (Rep · (p.apply now .del)) := by
  have hcap : cmdBufSize < 2 ^ 31 := by decide
  have hn := h.shows.strlen_eq
  have hcursor : c.cursor = p.line.before.length := h.shows.cursor
  have hlen := h.strlen_eq
  obtain ⟨q, hq, hs, hreport⟩ := FieldBuffer.delete_does h.shows hcap
  unfold FieldBuffer.Key.run FieldBuffer.uiTfDelete at hq
  dsimp only at hn hq
  rw [hn, ok_bind, h.shows.cInt_eq hcap, hlen] at hq
  unfold cmdApplyAction Prompt.apply Prompt.edit FieldBuffer.Key.edit
  unfold FieldBuffer.Key.edit at hs
  by_cases hbehind : p.line.behind = []
  · rw [hbehind, List.length_nil, Nat.cast_zero] at hlen
    dsimp only at hs ⊢
    rw [if_neg (by omega), if_pos hbehind]
    exact .pure h
  · have hpos := List.length_pos_iff.mpr hbehind
    dsimp only at hs ⊢
    rw [if_neg (by omega)] at hq
    rw [if_neg hbehind] at hs
    rw [if_pos (by omega), if_neg hbehind]
    cases hmove : memmove c.buf c.cursor (c.cursor + 1) (c.len - c.cursor) with
    | error e =>
        rw [hmove] at hq
        exact nomatch hq
    | ok buf =>
        rw [hmove, ok_bind] at hq
        obtain rfl : _ = q := Except.ok.inj hq
        rw [ok_bind]
        refine .pure (Rep.marked (h.edited hs ?_) true now)
        change c.len - 1 = ((p.line.before ++ p.line.behind.tail).length : ℕ)
        rw [List.length_append, List.length_tail]
        omega

/-! ## The history -/

/-- A text replaces the line. -/
theorem cmdBufSet_spec (now : ℤ) (h : Rep c p) {s : List UInt8} (hs : Fits s) :
    Rep (cmdBufSet now c s) (p.load now s) := by
  obtain ⟨hshows, hcstr⟩ := shows_cmdBufText h.shows.length hs
  refine (h.edited hshows ?_).marked true now
  rw [hcstr, List.append_nil]

theorem Rep.fits_getD (h : Rep c p) (i : ℕ) : Fits (p.history.getD i []) := by
  rcases Nat.lt_or_ge i p.history.length with hlt | hge
  · rw [List.getD_eq_getElem _ _ hlt]
    exact h.fits _ (List.getElem_mem hlt)
  · rw [List.getD_eq_default _ _ hge]
    exact ⟨List.not_mem_nil, by decide⟩

/-- The position in the history, and the line put aside. -/
theorem Rep.walked (h : Rep c p) (pos : ℕ) (saved : List UInt8) (hpos : pos ≤ p.history.length) (hsaved : Fits saved) :
    Rep { c with history := p.history, histPos := pos, histSaved := saved }
      { p with histPos := pos, histSaved := saved } :=
  ⟨h.shows, h.len, h.active, h.status, h.dirty, h.lastEditNs, rfl, rfl, rfl, h.fits, hsaved, hpos⟩

theorem cmdHistoryPrev_spec (now : ℤ) (h : Rep c p) : Rep (cmdHistoryPrev now c) (p.up now) := by
  have hpos := h.pos_le
  have hload := h.fits_getD (p.histPos - 1)
  unfold cmdHistoryPrev Prompt.up
  by_cases hnone : p.history = []
  · rw [if_pos (by rw [h.history, hnone]; rfl), if_pos hnone]
    exact h
  · rw [if_neg (by rw [h.history]; exact mt List.length_eq_zero_iff.mp hnone), if_neg hnone]
    have hback : ∀ c' : Cmdline, (if 0 < c'.histPos then { c' with histPos := c'.histPos - 1 } else c') =
        { c' with histPos := c'.histPos - 1 } := by
      intro c'
      split_ifs with hzero
      · rfl
      · rw [Nat.sub_eq_zero_of_le (by omega), ← Nat.eq_zero_of_not_pos hzero]
    dsimp only
    rw [hback]
    by_cases hlast : p.histPos = p.history.length
    · rw [if_pos (by rw [h.history, h.histPos, hlast]), if_pos hlast, h.cstr_buf, snprintf_of_fits h.text_fits]
      dsimp only
      rw [h.history, h.histPos]
      exact cmdBufSet_spec now (h.walked (p.histPos - 1) p.text (by omega) h.text_fits) hload
    · rw [if_neg (by rw [h.history, h.histPos]; exact hlast), if_neg hlast, h.history, h.histPos, h.histSaved]
      exact cmdBufSet_spec now (h.walked (p.histPos - 1) p.histSaved (by omega) h.saved) hload

theorem cmdHistoryNext_spec (now : ℤ) (h : Rep c p) : Rep (cmdHistoryNext now c) (p.down now) := by
  unfold cmdHistoryNext Prompt.down
  rw [h.history, h.histPos]
  by_cases hend : p.history.length ≤ p.histPos
  · rw [if_pos hend, if_pos hend, ite_self]
    exact h
  · rw [if_neg (by omega), if_neg hend, if_neg hend, h.histSaved]
    dsimp only
    refine cmdBufSet_spec now (h.walked (p.histPos + 1) p.histSaved (by omega) h.saved) ?_
    split_ifs
    · exact h.saved
    · exact h.fits_getD _

theorem cmdHistoryPush_spec (h : Rep c p) {line : List UInt8} (hline : Fits line) :
    Rep (cmdHistoryPush c line) (p.remember line) := by
  unfold cmdHistoryPush Prompt.remember
  rw [h.history, snprintf_of_fits hline]
  by_cases hnone : line = []
  · rw [if_pos hnone, if_pos hnone]
    exact h
  · rw [if_neg hnone, if_neg hnone]
    by_cases hsame : p.history.getLast? = some line
    · rw [if_pos hsame, if_pos hsame]
      exact ⟨h.shows, h.len, h.active, h.status, h.dirty, h.lastEditNs, rfl, rfl, h.histSaved, h.fits, h.saved, le_rfl⟩
    · rw [if_neg hsame, if_neg hsame]
      refine ⟨h.shows, h.len, h.active, h.status, h.dirty, h.lastEditNs, ?_, ?_, h.histSaved, ?_, h.saved, le_rfl⟩
      · dsimp only
        split_ifs <;> rfl
      · dsimp only
        split_ifs <;> rfl
      · intro s hs
        rcases List.mem_append.mp hs with hold | hnew
        · split_ifs at hold
          · exact h.fits s hold
          · exact h.fits s (List.mem_of_mem_tail hold)
        · rwa [List.mem_singleton.mp hnew]

/-! ## Completion -/

theorem Prompt.insert_insert (now : ℤ) (p : Prompt) (s t : List UInt8) :
    (p.insert now s).insert now t = p.insert now (s ++ t) := by
  unfold Prompt.insert Prompt.text
  dsimp only
  have hroom : cmdBufSize - 1 - (p.line.before ++ s.take (cmdBufSize - 1 - (p.line.before ++ p.line.behind).length) ++
      p.line.behind).length = cmdBufSize - 1 - (p.line.before ++ p.line.behind).length - s.length := by
    simp only [List.length_append, List.length_take]
    omega
  rw [hroom, List.take_append, List.append_assoc]

theorem commonPrefix_nil_left (b : List UInt8) : commonPrefix [] b = [] := by cases b <;> rfl

theorem commonPrefix_nil_right (a : List UInt8) : commonPrefix a [] = [] := by cases a <;> rfl

/-- A text is in front of both exactly if it is in front of what they have in common. -/
theorem prefix_commonPrefix_iff (w a b : List UInt8) : w <+: commonPrefix a b ↔ w <+: a ∧ w <+: b := by
  induction a generalizing w b with
  | nil =>
      rw [commonPrefix_nil_left, List.prefix_nil]
      exact ⟨fun h => ⟨h, h ▸ List.nil_prefix⟩, fun h => h.1⟩
  | cons x xs ih =>
      cases b with
      | nil =>
          rw [commonPrefix_nil_right, List.prefix_nil]
          exact ⟨fun h => ⟨h ▸ List.nil_prefix, h⟩, fun h => h.2⟩
      | cons y ys =>
          rw [commonPrefix]
          cases w with
          | nil => exact iff_of_true List.nil_prefix ⟨List.nil_prefix, List.nil_prefix⟩
          | cons z w =>
              split_ifs with hxy
              · rw [List.cons_prefix_cons, List.cons_prefix_cons, List.cons_prefix_cons, ih, hxy]
                exact ⟨fun h => ⟨⟨h.1, h.2.1⟩, h.1, h.2.2⟩, fun h => ⟨h.1.1, h.1.2, h.2.2⟩⟩
              · rw [List.cons_prefix_cons, List.cons_prefix_cons]
                refine iff_of_false (fun h => absurd (List.prefix_nil.mp h) (List.cons_ne_nil _ _)) ?_
                exact fun h => hxy (h.1.1.symm.trans h.2.1)

/-- What the loop over the names finds: how many match, the first of them, and what they have in common. -/
structure Found (base : List UInt8) (names : List (List UInt8)) (m : Matches) : Prop where
  n : m.n = (names.filter base.isPrefixOf).length
  only : m.only = (names.filter base.isPrefixOf).headD []
  lcp : ∀ w, m.n ≠ 0 → (w <+: m.lcp ↔ ∀ name ∈ names.filter base.isPrefixOf, w <+: name)

theorem found_foldl (base : List UInt8) (names : List (List UInt8)) :
    Found base names (names.foldl (matchRound base) ⟨0, [], []⟩) := by
  induction names using List.reverseRecOn with
  | nil => exact ⟨rfl, rfl, fun w h => absurd rfl h⟩
  | append_singleton names name ih =>
      rw [List.foldl_append, List.foldl_cons, List.foldl_nil, matchRound]
      cases hmatch : base.isPrefixOf name with
      | false =>
          have hfilter : (names ++ [name]).filter base.isPrefixOf = names.filter base.isPrefixOf := by
            rw [List.filter_append, List.filter_singleton, hmatch]
            exact List.append_nil _
          refine ⟨?_, ?_, ?_⟩ <;> rw [hfilter]
          · exact ih.n
          · exact ih.only
          · exact ih.lcp
      | true =>
          have hfilter : (names ++ [name]).filter base.isPrefixOf = names.filter base.isPrefixOf ++ [name] := by
            rw [List.filter_append, List.filter_singleton, hmatch]
            rfl
          have hn := ih.n
          rw [if_pos rfl]
          by_cases hfirst : (names.foldl (matchRound base) ⟨0, [], []⟩).n = 0
          · have hnil : names.filter base.isPrefixOf = [] := by
              rw [hfirst] at hn
              exact List.length_eq_zero_iff.mp hn.symm
            rw [if_pos hfirst]
            refine ⟨?_, ?_, fun w _ => ?_⟩ <;> rw [hfilter, hnil]
            · rfl
            · rfl
            · simp
          · have hne : names.filter base.isPrefixOf ≠ [] := by
              intro hnil
              rw [hnil] at hn
              exact hfirst hn
            obtain ⟨first, rest, hcons⟩ := List.exists_cons_of_ne_nil hne
            rw [if_neg hfirst]
            refine ⟨?_, ?_, fun w _ => ?_⟩ <;> rw [hfilter]
            · rw [List.length_append, List.length_singleton, hn]
            · have honly := ih.only
              rw [hcons] at honly ⊢
              exact honly
            · rw [prefix_commonPrefix_iff, ih.lcp w hfirst, List.forall_mem_append, List.forall_mem_singleton]
              exact and_comm

/-- What completion puts in ends no text. -/
theorem completion_clean {names : List (List UInt8)} {close : List UInt8 → List UInt8} {base w : List UInt8}
    (hnames : ∀ name ∈ names, 0 ∉ name) (hclose : ∀ name, 0 ∉ close name)
    (h : Prompt.completion names close base = some w) : 0 ∉ w := by
  have hfound := found_foldl base names
  unfold Prompt.completion at h
  dsimp only at h
  have hmem : ∀ name ∈ names.filter base.isPrefixOf, 0 ∉ name :=
    fun name hname => hnames name (List.mem_of_mem_filter hname)
  split at h
  next hone =>
    obtain rfl := Option.some.inj h
    have honly := hfound.only
    rw [List.mem_append, not_or]
    refine ⟨fun hz => ?_, hclose _⟩
    have hz' := List.mem_of_mem_drop hz
    rw [honly] at hz'
    have hlen := hfound.n
    rw [hone] at hlen
    obtain ⟨first, hfirst⟩ := List.length_eq_one_iff.mp hlen.symm
    rw [hfirst] at hz' hmem
    exact hmem first (List.mem_singleton_self _) hz'
  next hmany =>
    split at h
    next htwo =>
      obtain rfl := Option.some.inj h
      intro hz
      have hz' := List.mem_of_mem_drop hz
      have hlen := hfound.n
      have hall := (hfound.lcp _ (by omega)).mp List.prefix_rfl
      obtain ⟨first, rest, hcons⟩ := List.exists_cons_of_length_pos (l := names.filter base.isPrefixOf) (by omega)
      rw [hcons] at hall hmem
      exact hmem first List.mem_cons_self ((hall first List.mem_cons_self).subset hz')
    next => exact nomatch h

theorem completeName_spec (now : ℤ) (h : Rep c p) (token : List UInt8) :
    Runs (completeName now c token)
      (Rep · ((Prompt.completion gCmdNames (fun _ => [byte ' ']) token).elim p (p.insert now))) := by
  have hnames : ∀ name ∈ gCmdNames, 0 ∉ name := by decide
  have hclean : ∀ w, Prompt.completion gCmdNames (fun _ => [byte ' ']) token = some w → 0 ∉ w :=
    fun w => completion_clean hnames fun _ => by decide
  unfold completeName
  unfold Prompt.completion at hclean ⊢
  dsimp only at hclean ⊢
  split_ifs at hclean ⊢ with hone hmany
  · have hw := hclean _ rfl
    rw [List.mem_append, not_or] at hw
    refine (cmdInsertStr_spec now _ hw.1 h).bind fun c' hc' => ?_
    rw [Option.elim_some, ← Prompt.insert_insert]
    exact cmdInsertStr_spec now _ hw.2 hc'
  · exact cmdInsertStr_spec now _ (hclean _ rfl) h
  · exact .pure h

theorem completePath_spec (env : Env) (now : ℤ) (h : Rep c p) (token : List UInt8) :
    Runs (completePath env now c token)
      (Rep · (((scanDir env (dirLit token)).bind fun dir => (env.readdir dir).bind fun names =>
        Prompt.completion ((names.map cstr).filter (shown (token.drop (dirLit token).length)))
          (fun only => if env.isDir (fullPath dir only) then [byte '/'] else [])
          (token.drop (dirLit token).length)).elim p (p.insert now))) := by
  unfold completePath
  cases hdir : scanDir env (dirLit token) with
  | none => exact .pure h
  | some dir =>
      cases hread : env.readdir dir with
      | none =>
          rw [Option.bind_some, Option.bind_some, hread]
          exact .pure h
      | some names =>
          rw [Option.bind_some, Option.bind_some, hread, Option.map_some, Option.bind_some]
          dsimp only
          generalize hshown : (names.map cstr).filter (shown (token.drop (dirLit token).length)) = shownNames
          have hnames : ∀ name ∈ shownNames, 0 ∉ name := by
            intro name hname
            rw [← hshown] at hname
            obtain ⟨raw, -, rfl⟩ := List.mem_map.mp (List.mem_of_mem_filter hname)
            exact nul_not_mem_cstr raw
          have hclose : ∀ only, 0 ∉ (if env.isDir (fullPath dir only) then [byte '/'] else []) := by
            intro only
            split_ifs <;> decide
          have hclean : ∀ w, Prompt.completion shownNames
              (fun only => if env.isDir (fullPath dir only) then [byte '/'] else [])
              (token.drop (dirLit token).length) = some w → 0 ∉ w := fun w => completion_clean hnames hclose
          unfold Prompt.completion at hclean ⊢
          dsimp only at hclean ⊢
          by_cases hone : (shownNames.foldl (matchRound (token.drop (dirLit token).length)) ⟨0, [], []⟩).n = 1
          · rw [if_pos hone] at hclean ⊢
            have hw := hclean _ rfl
            rw [List.mem_append, not_or] at hw
            rw [if_neg (by omega), if_pos hone]
            refine (cmdInsertStr_spec now _ hw.1 h).bind fun c' hc' => ?_
            rw [Option.elim_some]
            split_ifs at hw ⊢ with hisDir
            · rw [← Prompt.insert_insert]
              exact cmdInsertStr_spec now _ hw.2 hc'
            · rw [List.append_nil]
              exact .pure hc'
          · rw [if_neg hone] at hclean ⊢
            rw [if_neg hone]
            by_cases hmany : 1 < (shownNames.foldl (matchRound (token.drop (dirLit token).length)) ⟨0, [], []⟩).n ∧
                (token.drop (dirLit token).length).length <
                  (shownNames.foldl (matchRound (token.drop (dirLit token).length)) ⟨0, [], []⟩).lcp.length
            · rw [if_pos hmany] at hclean ⊢
              rw [if_neg (by omega), if_pos hmany.2]
              exact cmdInsertStr_spec now _ (hclean _ rfl) h
            · rw [if_neg hmany]
              split_ifs with hzero hlcp
              · exact .pure h
              · exact absurd ⟨by omega, hlcp⟩ hmany
              · exact .pure h

/-- **Completion** puts in what the list model says. -/
theorem cmdTabComplete_spec (env : Env) (now : ℤ) (h : Rep c p) (hactive : p.active = true) :
    Runs (cmdTabComplete env now c) (Rep · (p.complete env now)) := by
  obtain ⟨rest, hbuf⟩ := h.shows.buf
  have hbuf' : c.buf = p.line.before ++ p.line.behind ++ 0 :: rest := hbuf
  have hcursor : c.cursor.toNat = p.line.before.length := by
    have hc : c.cursor = p.line.before.length := h.shows.cursor
    rw [hc, Int.toNat_natCast]
  have hword : p.line.before.rdropWhile inWord ++ p.token = p.line.before := List.rdropWhile_append_rtakeWhile
  have hlength := congrArg List.length hword
  rw [List.length_append] at hlength
  have hfits := h.text_fits.2
  have htext : p.text.length = p.line.before.length + p.line.behind.length := List.length_append
  have hskip := FieldBuffer.skipBack_append inWord p.line.before (p.line.behind ++ 0 :: rest)
  have hread : rdRange c.buf (p.line.before.rdropWhile inWord).length
      (p.line.before.length - (p.line.before.rdropWhile inWord).length) = .ok p.token := by
    have hsub : p.line.before.length - (p.line.before.rdropWhile inWord).length = p.token.length := by omega
    have hsplit : c.buf = p.line.before.rdropWhile inWord ++ p.token ++ (p.line.behind ++ 0 :: rest) := by
      rw [hword, hbuf', List.append_assoc]
    rw [hsub, hsplit, rdRange_of_le (by rw [List.length_append, List.length_append]; omega), slice_append_left]
  rw [← List.append_assoc, ← hbuf'] at hskip
  unfold cmdTabComplete
  rw [if_pos (h.active.trans hactive), hcursor, hskip, ok_bind, hread, ok_bind, if_neg (by omega)]
  unfold Prompt.complete Prompt.completed
  by_cases hfirst : p.token = p.line.before
  · have hstart : (p.line.before.rdropWhile inWord).length = 0 := by
      rw [hfirst] at hlength
      omega
    rw [if_pos hstart, if_pos hfirst]
    exact completeName_spec now h p.token
  · have hstart : (p.line.before.rdropWhile inWord).length ≠ 0 := by
      intro hzero
      rw [List.length_eq_zero_iff.mp hzero, List.nil_append] at hword
      exact hfirst hword
    rw [if_neg hstart, if_neg hfirst]
    exact completePath_spec env now h p.token

end

end SimpleSatOps.CmdLine
