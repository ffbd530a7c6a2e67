import SimpleSatOps.Lib.Fold
import SimpleSatOps.Lib.Ring
import SimpleSatOps.Ui.CmdLine.Prompt

/-!
# Sessions of the command line

* `Input`, `Session.step` : what happens to the command line;
* `Desk`, `Desk.step`, `Session.run_desk` : the same for the list model, and the refinement;
* `Kept`, `kept_run` : the history is the last lines executed;
* `Mirrored`, `mirrored_run` : a viewer shows the prompt once the typing rests;
* `cmdline_run` : the sessions;
* `history_walk` : a walk through the history ends where it began;
* `tab_run` : what completion puts in.
-/

namespace SimpleSatOps.CmdLine

/-! ## Sessions -/

/-- What happens to the command line; other parts of the program set its status. -/
inductive Input
  | colon
  | key (env : Env) (dispatch : List UInt8 → List UInt8) (now : ℤ) (key : Key)
  | pump (now : ℤ)
  | setStatus (status : List UInt8)

/-- The key that opens the prompt goes to an open one as a character. -/
def Session.step (s : Session) : Input → Run Session
  | .colon => .ok (if s.cmd.active then s else { s with cmd := cmdEnter s.cmd })
  | .key env dispatch now key => cmdHandleKey env dispatch now s key
  | .pump now => .ok (cmdPump now s)
  | .setStatus status => .ok { s with cmd := { s.cmd with status := snprintf 160 status } }

def Session.start : Session :=
  ⟨⟨false, List.replicate cmdBufSize 0, 0, 0, [], false, 0, [], 0, []⟩, []⟩

/-- The prompt as a text, and the events. -/
structure Desk where
  prompt : Prompt
  events : List Event

namespace Desk

def start : Desk := ⟨⟨false, ⟨[], []⟩, [], false, 0, [], 0, []⟩, []⟩

def cancel (d : Desk) : Desk where
  prompt := { d.prompt with active := false, status := [], line := ⟨[], []⟩, dirty := false }
  events := d.events ++ [.cmdExecuted [] []]

def execute (dispatch : List UInt8 → List UInt8) (d : Desk) : Desk where
  prompt := { d.prompt.remember d.prompt.text with
    active := false
    status := snprintf 160 (dispatch d.prompt.text)
    dirty := false }
  events := d.events ++ [.cmdExecuted d.prompt.text (snprintf 160 (dispatch d.prompt.text))]

/-- A key goes to an open prompt. -/
def key (env : Env) (dispatch : List UInt8 → List UInt8) (now : ℤ) (d : Desk) : Key → Desk
  | .err => d
  | .esc queue =>
    match cmdDrainCsi queue with
    | .none => d.cancel
    | a => { d with prompt := d.prompt.apply now a }
  | .enter => d.execute dispatch
  | .tab => { d with prompt := d.prompt.complete env now }
  | .action a => { d with prompt := d.prompt.apply now a }
  | .other key =>
    if 32 ≤ key ∧ key < 127 ∧ d.prompt.text.length < cmdBufSize - 1 then
      { d with prompt := d.prompt.insert now [FieldBuffer.char key] }
    else d

def pump (now : ℤ) (d : Desk) : Desk :=
  if d.prompt.active && d.prompt.dirty && gCmdDebounceNs ≤ now - d.prompt.lastEditNs then
    ⟨{ d.prompt with dirty := false }, d.events ++ [.cmdPreview d.prompt.text]⟩
  else d

def step (d : Desk) : Input → Desk
  | .colon => if d.prompt.active then d else { d with prompt := d.prompt.enter }
  | .key env dispatch now key => if d.prompt.active then d.key env dispatch now key else d
  | .pump now => d.pump now
  | .setStatus status => { d with prompt := { d.prompt with status := snprintf 160 status } }

end Desk

/-! ## The refinement -/

/-- The session shows the desk. -/
structure Shown (s : Session) (d : Desk) : Prop where
  rep : Rep s.cmd d.prompt
  events : s.events = d.events

section
variable {c : Cmdline} {p : Prompt} {s : Session} {d : Desk}

/-- The front byte of the buffer is a NUL. -/
theorem Rep.emptied (h : Rep c p) : FieldBuffer.Shows cmdBufSize ⟨c.buf.set 0 0, 0⟩ ⟨[], []⟩ := by
  have hlen : c.buf.length = cmdBufSize := h.shows.length
  obtain ⟨b, rest, hbuf⟩ : ∃ b rest, c.buf = b :: rest := by
    cases hc : c.buf with
    | nil =>
        rw [hc] at hlen
        exact nomatch hlen
    | cons b rest => exact ⟨b, rest, rfl⟩
  refine ⟨?_, ⟨rest, ?_⟩, rfl, List.not_mem_nil⟩
  · rw [List.length_set, hlen]
  · rw [hbuf]
    rfl

theorem cmdEnter_spec (h : Rep c p) : Rep (cmdEnter c) p.enter := by
  have hedited : Rep { c with buf := c.buf.set 0 0, len := 0, cursor := 0 } { p with line := ⟨[], []⟩ } :=
    h.edited h.emptied rfl
  unfold cmdEnter
  rw [h.history]
  exact ⟨hedited.shows, rfl, rfl, h.status, rfl, rfl, rfl, rfl, h.histSaved, h.fits, h.saved, le_rfl⟩

theorem cmdCancel_spec (h : Shown s d) : Shown (cmdCancel s) d.cancel := by
  have hr := h.rep
  refine ⟨⟨hr.emptied, rfl, rfl, rfl, rfl, hr.lastEditNs, hr.history, hr.histPos, hr.histSaved, hr.fits, hr.saved,
    hr.pos_le⟩, ?_⟩
  unfold cmdCancel cmdBroadcastExecuted Desk.cancel
  dsimp only
  rw [h.events]
  rfl

theorem snprintf_snprintf (n : ℕ) (s : List UInt8) : snprintf n (snprintf n s) = snprintf n s := by
  unfold snprintf
  rw [List.take_take, Nat.min_self]

/-- A line is no longer than the texts on the wire. -/
theorem wire_of_fits {s : List UInt8} (h : Fits s) : snprintf 160 s = s := by
  have hlt : s.length < 128 := h.2
  exact List.take_of_length_le (by omega)

theorem cmdHistoryPush_buf (c : Cmdline) (line : List UInt8) : (cmdHistoryPush c line).buf = c.buf := by
  unfold cmdHistoryPush
  dsimp only
  split_ifs <;> rfl

theorem remember_active (p : Prompt) (line : List UInt8) :
    Prompt.remember { p with active := false } line = { p.remember line with active := false } := by
  unfold Prompt.remember
  dsimp only
  split_ifs <;> rfl

theorem cmdExecute_spec (dispatch : List UInt8 → List UInt8) (h : Shown s d) :
    Shown (cmdExecute dispatch s) (d.execute dispatch) := by
  have hfits := h.rep.text_fits
  have hclosed : Rep { s.cmd with active := false } { d.prompt with active := false } :=
    ⟨h.rep.shows, h.rep.len, rfl, h.rep.status, h.rep.dirty, h.rep.lastEditNs, h.rep.history, h.rep.histPos,
      h.rep.histSaved, h.rep.fits, h.rep.saved, h.rep.pos_le⟩
  have hpushed := cmdHistoryPush_spec hclosed hfits
  rw [remember_active] at hpushed
  have hbuf : cstr (cmdHistoryPush { s.cmd with active := false } d.prompt.text).buf = d.prompt.text := by
    rw [cmdHistoryPush_buf]
    exact h.rep.cstr_buf
  unfold cmdExecute cmdBroadcastExecuted Desk.execute
  dsimp only
  rw [h.rep.cstr_buf, snprintf_of_fits hfits, hbuf, snprintf_snprintf, wire_of_fits hfits, h.events]
  exact ⟨⟨hpushed.shows, hpushed.len, hpushed.active, rfl, rfl, hpushed.lastEditNs, hpushed.history, hpushed.histPos,
    hpushed.histSaved, hpushed.fits, hpushed.saved, hpushed.pos_le⟩, rfl⟩

theorem cmdPump_spec (now : ℤ) (h : Shown s d) : Shown (cmdPump now s) (d.pump now) := by
  unfold cmdPump Desk.pump
  rw [h.rep.active, h.rep.dirty, h.rep.lastEditNs]
  split_ifs
  · unfold cmdBroadcastPreview
    dsimp only
    rw [h.rep.cstr_buf, wire_of_fits h.rep.text_fits, h.events]
    exact ⟨⟨h.rep.shows, h.rep.len, h.rep.active, h.rep.status, rfl, h.rep.lastEditNs, h.rep.history, h.rep.histPos,
      h.rep.histSaved, h.rep.fits, h.rep.saved, h.rep.pos_le⟩, rfl⟩
  · exact h

/-- **An action** does to the buffer what it does to the text. -/
theorem cmdApplyAction_spec (now : ℤ) (a : Action) (h : Rep c p) :
    Runs (cmdApplyAction now c a) (Rep · (p.apply now a)) := by
  cases a with
  | none => exact .pure h
  | left => exact left_spec now h
  | right => exact right_spec now h
  | home => exact home_spec now h
  | toEnd => exact toEnd_spec now h
  | backspace => exact backspace_spec now h
  | del => exact del_spec now h
  | histPrev => exact .pure (cmdHistoryPrev_spec now h)
  | histNext => exact .pure (cmdHistoryNext_spec now h)

/-- A key that only edits the line. -/
theorem Shown.line (h : Shown s d) {x : Run Cmdline} {p' : Prompt} (hx : Runs x (Rep · p')) :
    Runs ((fun c => { s with cmd := c }) <$> x) (Shown · { d with prompt := p' }) :=
  hx.map fun _ hc => ⟨hc, h.events⟩

theorem char_ne_zero {key : ℤ} (hpos : 0 < key) (hlt : key < 2 ^ 8) : FieldBuffer.char key ≠ 0 := by
  intro hzero
  have hnat := congrArg UInt8.toNat hzero
  rw [FieldBuffer.char, Int.emod_eq_of_lt hpos.le hlt, UInt8.toNat_ofNat'] at hnat
  have hzero' : key.toNat % 2 ^ 8 = 0 := hnat
  omega

theorem cmdHandleKey_spec (env : Env) (dispatch : List UInt8 → List UInt8) (now : ℤ) (k : Key) (h : Shown s d) :
    Runs (cmdHandleKey env dispatch now s k) (Shown · (d.step (.key env dispatch now k))) := by
  unfold cmdHandleKey Desk.step
  rw [h.rep.active]
  by_cases hactive : d.prompt.active = true
  · rw [if_pos hactive]
    dsimp only
    rw [if_pos hactive]
    cases k with
    | err => exact .pure h
    | esc queue =>
        unfold Desk.key
        dsimp only
        cases hdrain : cmdDrainCsi queue with
        | none => exact .pure (cmdCancel_spec h)
        | _ => exact h.line (cmdApplyAction_spec now _ h.rep)
    | enter => exact .pure (cmdExecute_spec dispatch h)
    | tab => exact h.line (cmdTabComplete_spec env now h.rep hactive)
    | action a => exact h.line (cmdApplyAction_spec now a h.rep)
    | other key =>
        unfold Desk.key
        dsimp only
        have hsize : (cmdBufSize : ℤ) = 128 := rfl
        have hsize' : cmdBufSize = 128 := rfl
        have hlen := h.rep.len
        by_cases hroom : 32 ≤ key ∧ key < 127 ∧ d.prompt.text.length < cmdBufSize - 1
        · have hchar : 0 ∉ [FieldBuffer.char key] := by
            rw [List.mem_singleton]
            exact (char_ne_zero (by omega) (by omega)).symm
          rw [if_pos ⟨hroom.1, hroom.2.1, by omega⟩, if_pos hroom]
          exact h.line (cmdInsertStr_spec now _ hchar h.rep)
        · rw [if_neg (by omega), if_neg hroom]
          exact .pure h
  · rw [if_neg hactive]
    dsimp only
    rw [if_neg hactive]
    exact .pure h

theorem step_spec (i : Input) (h : Shown s d) : Runs (s.step i) (Shown · (d.step i)) := by
  cases i with
  | colon =>
      refine .pure ?_
      unfold Desk.step
      rw [h.rep.active]
      dsimp only
      split_ifs
      · exact h
      · exact ⟨cmdEnter_spec h.rep, h.events⟩
  | key env dispatch now k => exact cmdHandleKey_spec env dispatch now k h
  | pump now => exact .pure (cmdPump_spec now h)
  | setStatus status =>
      exact .pure ⟨⟨h.rep.shows, h.rep.len, h.rep.active, rfl, h.rep.dirty, h.rep.lastEditNs, h.rep.history,
        h.rep.histPos, h.rep.histSaved, h.rep.fits, h.rep.saved, h.rep.pos_le⟩, h.events⟩

end

theorem shown_start : Shown .start .start := by
  refine ⟨⟨⟨List.length_replicate, ⟨List.replicate 127 0, rfl⟩, rfl, List.not_mem_nil⟩, rfl, rfl, rfl, rfl, rfl, rfl,
    rfl, rfl, fun s hs => absurd hs List.not_mem_nil, ⟨List.not_mem_nil, by decide⟩, le_rfl⟩, rfl⟩

/-- The desk after a session. -/
def Desk.run (inputs : List Input) : Desk := inputs.foldl Desk.step .start

/-- **The refinement.** No input leaves the buffer, and the buffer holds what the list model says. -/
theorem run_shown (inputs : List Input) : Runs (inputs.foldlM Session.step .start) (Shown · (Desk.run inputs)) := by
  induction inputs using List.reverseRecOn with
  | nil => exact .pure shown_start
  | append_singleton inputs i ih =>
      rw [List.foldlM_append, Desk.run, List.foldl_append]
      refine ih.bind fun s hs => ?_
      rw [List.foldlM_cons]
      exact (step_spec i hs).bind fun s' hs' => .pure hs'

/-! ## Edits of the line -/

/-- An edit leaves everything but the line; another line is marked for the preview. -/
structure Edits (p p' : Prompt) : Prop where
  active : p'.active = p.active
  status : p'.status = p.status
  history : p'.history = p.history
  line : p'.dirty = true ∨ p'.dirty = p.dirty ∧ p'.text = p.text

section
variable (now : ℤ) (p : Prompt)

theorem edits_move {k : FieldBuffer.Key} {x : FieldBuffer.Split} (hk : k.edit cmdBufSize p.line = (x, none))
    (htext : x.before ++ x.behind = p.text) : Edits p (p.edit now k) := by
  unfold Prompt.edit
  rw [hk]
  exact ⟨rfl, rfl, rfl, .inr ⟨rfl, htext⟩⟩

theorem edits_edit {k : FieldBuffer.Key} {x : FieldBuffer.Split} (changed : Bool)
    (hk : k.edit cmdBufSize p.line = (x, some changed)) (htext : changed = false → x = p.line) :
    Edits p (p.edit now k) := by
  unfold Prompt.edit
  rw [hk]
  cases changed with
  | true => exact ⟨rfl, rfl, rfl, .inl rfl⟩
  | false => exact ⟨rfl, rfl, rfl, .inr ⟨rfl, by rw [htext rfl]⟩⟩

theorem edits_up : Edits p (p.up now) := by
  unfold Prompt.up
  dsimp only
  split_ifs
  · exact ⟨rfl, rfl, rfl, .inr ⟨rfl, rfl⟩⟩
  · exact ⟨rfl, rfl, rfl, .inl rfl⟩
  · exact ⟨rfl, rfl, rfl, .inl rfl⟩

theorem edits_down : Edits p (p.down now) := by
  unfold Prompt.down
  split_ifs
  · exact ⟨rfl, rfl, rfl, .inr ⟨rfl, rfl⟩⟩
  · exact ⟨rfl, rfl, rfl, .inl rfl⟩

theorem edits_apply (a : Action) : Edits p (p.apply now a) := by
  obtain ⟨active, ⟨before, behind⟩, status, dirty, lastEditNs, history, histPos, histSaved⟩ := p
  cases a with
  | none => exact ⟨rfl, rfl, rfl, .inr ⟨rfl, rfl⟩⟩
  | left =>
      refine edits_move now _ (k := .left) (x := ⟨before.dropLast, before.getLast?.toList ++ behind⟩) rfl ?_
      rcases List.eq_nil_or_concat' before with rfl | ⟨s, b, rfl⟩
      · rfl
      · rw [List.dropLast_concat, List.getLast?_concat, Prompt.text, Option.toList_some, List.append_assoc]
  | right =>
      refine edits_move now _ (k := .right) (x := ⟨before ++ behind.head?.toList, behind.tail⟩) rfl ?_
      cases behind with
      | nil => exact List.append_nil _
      | cons b r =>
          rw [List.head?_cons, Option.toList_some, List.tail_cons, List.append_assoc]
          rfl
  | home => exact edits_move now _ (k := .home) (x := ⟨[], before ++ behind⟩) rfl rfl
  | toEnd => exact edits_move now _ (k := .toEnd) (x := ⟨before ++ behind, []⟩) rfl (List.append_nil _)
  | backspace =>
      by_cases hs : before = []
      · refine edits_edit now _ (x := ⟨before, behind⟩) false ?_ fun _ => rfl
        rw [FieldBuffer.Key.edit, if_pos hs]
      · refine edits_edit now _ (x := ⟨before.dropLast, behind⟩) true ?_ fun h => absurd h (by decide)
        rw [FieldBuffer.Key.edit, if_neg hs]
  | del =>
      by_cases hr : behind = []
      · refine edits_edit now _ (x := ⟨before, behind⟩) false ?_ fun _ => rfl
        rw [FieldBuffer.Key.edit, if_pos hr]
      · refine edits_edit now _ (x := ⟨before, behind.tail⟩) true ?_ fun h => absurd h (by decide)
        rw [FieldBuffer.Key.edit, if_neg hr]
  | histPrev => exact edits_up now _
  | histNext => exact edits_down now _

theorem edits_insert (s : List UInt8) : Edits p (p.insert now s) := ⟨rfl, rfl, rfl, .inl rfl⟩

theorem edits_complete (env : Env) : Edits p (p.complete env now) := by
  unfold Prompt.complete
  cases p.completed env with
  | none => exact ⟨rfl, rfl, rfl, .inr ⟨rfl, rfl⟩⟩
  | some w => exact edits_insert now p w

end

/-- What an input does: nothing, an edit, or the prompt is opened, shown, cancelled or executed. -/
inductive Effect (i : Input) (d : Desk) : Desk → Prop
  | nothing : Effect i d d
  | edit (p' : Prompt) (hactive : d.prompt.active = true) (h : Edits d.prompt p') : Effect i d { d with prompt := p' }
  | opened (hactive : d.prompt.active = false) : Effect i d { d with prompt := d.prompt.enter }
  | shown (hactive : d.prompt.active = true) :
      Effect i d ⟨{ d.prompt with dirty := false }, d.events ++ [.cmdPreview d.prompt.text]⟩
  | cancelled (hactive : d.prompt.active = true) : Effect i d d.cancel
  | executed (hactive : d.prompt.active = true) (dispatch : List UInt8 → List UInt8) : Effect i d (d.execute dispatch)
  | status (status : List UInt8) (h : i = .setStatus status) :
      Effect i d { d with prompt := { d.prompt with status := snprintf 160 status } }

theorem effect_key (i : Input) (env : Env) (dispatch : List UInt8 → List UInt8) (now : ℤ) (k : Key) {d : Desk}
    (hactive : d.prompt.active = true) : Effect i d (d.key env dispatch now k) := by
  cases k with
  | err => exact .nothing
  | esc queue =>
      unfold Desk.key
      dsimp only
      cases cmdDrainCsi queue with
      | none => exact .cancelled hactive
      | _ => exact .edit _ hactive (edits_apply now d.prompt _)
  | enter => exact .executed hactive dispatch
  | tab => exact .edit _ hactive (edits_complete now d.prompt env)
  | action a => exact .edit _ hactive (edits_apply now d.prompt a)
  | other key =>
      unfold Desk.key
      dsimp only
      split_ifs
      · exact .edit _ hactive (edits_insert now d.prompt _)
      · exact .nothing

theorem effect_step (d : Desk) (i : Input) : Effect i d (d.step i) := by
  cases i with
  | colon =>
      unfold Desk.step
      dsimp only
      split_ifs with hactive
      · exact .nothing
      · exact .opened (Bool.not_eq_true _ ▸ hactive)
  | key env dispatch now k =>
      unfold Desk.step
      dsimp only
      split_ifs with hactive
      · exact effect_key _ env dispatch now k hactive
      · exact .nothing
  | pump now =>
      unfold Desk.step Desk.pump
      dsimp only
      split_ifs with hdue
      · simp only [Bool.and_eq_true] at hdue
        exact .shown hdue.1.1
      · exact .nothing
  | setStatus status => exact .status status rfl

/-! ## The history -/

/-- The line that an event reports as executed; a cancelled prompt reports an empty one. -/
def Event.executed? : Event → Option (List UInt8)
  | .cmdPreview _ => none
  | .cmdExecuted cmdText _ => some cmdText

/-- Lines without the empty ones and without repetitions. -/
def collapse (lines : List (List UInt8)) : List (List UInt8) :=
  lines.foldl (fun acc line => if line = [] ∨ acc.getLast? = some line then acc else acc ++ [line]) []

/-- The history is the last lines executed. -/
def Kept (d : Desk) : Prop :=
  d.prompt.history = Ring.recent cmdHistorySize (collapse (d.events.filterMap Event.executed?))

theorem getLast?_recent {α : Type*} {k : ℕ} (hk : 0 < k) (xs : List α) : (Ring.recent k xs).getLast? = xs.getLast? := by
  rcases List.eq_nil_or_concat' xs with rfl | ⟨ys, x, rfl⟩
  · rw [Ring.recent_of_le (Nat.zero_le k)]
  · rw [Ring.recent_append (by rw [List.length_singleton]; omega), List.getLast?_concat, List.getLast?_concat]

/-- The oldest value makes room for a new one. -/
theorem recent_shift {α : Type*} {k : ℕ} (hk : 0 < k) (xs : List α) (x : α) :
    (if (Ring.recent k xs).length < k then Ring.recent k xs else (Ring.recent k xs).tail) ++ [x] =
      Ring.recent k (xs ++ [x]) := by
  rw [Ring.recent_append (by rw [List.length_singleton]; omega), Ring.length_recent, List.length_singleton]
  congr 1
  split_ifs with hlt
  · rw [Ring.recent_of_le (by omega), Ring.recent_of_le (by omega)]
  · unfold Ring.recent
    rw [List.tail_drop]
    congr 1
    omega

theorem collapse_append (lines : List (List UInt8)) (line : List UInt8) :
    collapse (lines ++ [line]) =
      if line = [] ∨ (collapse lines).getLast? = some line then collapse lines else collapse lines ++ [line] := by
  unfold collapse
  rw [List.foldl_append]
  rfl

theorem remember_history (p : Prompt) (lines : List (List UInt8)) (line : List UInt8)
    (h : p.history = Ring.recent cmdHistorySize (collapse lines)) :
    (p.remember line).history = Ring.recent cmdHistorySize (collapse (lines ++ [line])) := by
  have hpos : 0 < cmdHistorySize := by decide
  have hlast : p.history.getLast? = (collapse lines).getLast? := by rw [h, getLast?_recent hpos]
  unfold Prompt.remember
  rw [collapse_append, hlast]
  dsimp only
  by_cases hnil : line = []
  · rw [if_pos hnil, if_pos (.inl hnil), h]
  · rw [if_neg hnil]
    by_cases hsame : (collapse lines).getLast? = some line
    · rw [if_pos hsame, if_pos (.inr hsame), h]
    · rw [if_neg hsame, if_neg (not_or.mpr ⟨hnil, hsame⟩), ← recent_shift hpos, ← h]

theorem Kept.effect {i : Input} {d d' : Desk} (h : Kept d) (he : Effect i d d') : Kept d' := by
  unfold Kept at h ⊢
  cases he with
  | nothing => exact h
  | edit p' _ hedits => exact hedits.history.trans h
  | opened => exact h
  | shown =>
      rw [List.filterMap_append]
      exact h.trans (by rw [List.filterMap_cons_none rfl, List.filterMap_nil, List.append_nil])
  | cancelled =>
      unfold Desk.cancel
      rw [List.filterMap_append]
      exact remember_history d.prompt _ [] h
  | executed _ dispatch =>
      unfold Desk.execute
      rw [List.filterMap_append]
      exact remember_history d.prompt _ _ h
  | status => exact h

theorem kept_run (inputs : List Input) : Kept (Desk.run inputs) :=
  foldl_stays (P := Kept) (fun d i h => h.effect (effect_step d i)) inputs rfl

/-! ## The viewer -/

/-- The row of a viewer that has got the events that were short enough to be sent. -/
def viewerRow (fits : Event → Bool) (events : List Event) : Viewer :=
  (events.filter fits).foldl viewerOnEvent ⟨false, [], []⟩

theorem viewerRow_concat (fits : Event → Bool) (events : List Event) {e : Event} (h : fits e = true) :
    viewerRow fits (events ++ [e]) = viewerOnEvent (viewerRow fits events) e := by
  unfold viewerRow
  rw [List.filter_append, List.filter_singleton, h]
  exact List.foldl_concat _ _ _ _

/-- The viewer shows the prompt once the typing rests, and its row is closed with the prompt. -/
structure Mirrored (d : Desk) (v : Viewer) : Prop where
  shown : d.prompt.active = true → d.prompt.dirty = false → v.cmdActive = true ∧ v.cmdBuf = d.prompt.text
  closed : d.prompt.active = false → d.prompt.dirty = false ∧ v.cmdActive = false ∧ v.cmdBuf = []

theorem Mirrored.effect {fits : Event → Bool} {i : Input} {d d' : Desk} (hlen : d.prompt.text.length ≤ 159)
    (h : Mirrored d (viewerRow fits d.events)) (he : Effect i d d') (hall : ∀ e ∈ d'.events, fits e = true) :
    Mirrored d' (viewerRow fits d'.events) := by
  cases he with
  | nothing => exact h
  | edit p' hactive hedits =>
      refine ⟨fun _ hdirty => ?_, fun hclosed => ?_⟩
      · rcases hedits.line with hmarked | ⟨hsame, htext⟩
        · exact nomatch hmarked.symm.trans hdirty
        · change _ ∧ _ = p'.text
          rw [htext]
          exact h.shown hactive (hsame.symm.trans hdirty)
      · exact nomatch hactive.symm.trans (hedits.active.symm.trans hclosed)
  | opened => exact ⟨fun _ hdirty => (nomatch hdirty), fun hclosed => (nomatch hclosed)⟩
  | shown hactive =>
      rw [viewerRow_concat fits _ (hall _ (by simp))]
      refine ⟨fun _ _ => ⟨rfl, List.take_of_length_le hlen⟩, fun hclosed => nomatch hactive.symm.trans hclosed⟩
  | cancelled =>
      unfold Desk.cancel at hall ⊢
      rw [viewerRow_concat fits _ (hall _ (by simp))]
      exact ⟨fun hactive => (nomatch hactive), fun _ => ⟨rfl, rfl, rfl⟩⟩
  | executed _ dispatch =>
      unfold Desk.execute at hall ⊢
      rw [viewerRow_concat fits _ (hall _ (by simp))]
      exact ⟨fun hactive => (nomatch hactive), fun _ => ⟨rfl, rfl, rfl⟩⟩
  | status => exact ⟨h.shown, h.closed⟩

/-- The row of the viewer shows the status that the prompt was closed with. -/
theorem status_effect {fits : Event → Bool} {i : Input} {d d' : Desk} (hi : ∀ status, i ≠ .setStatus status)
    (h : (viewerRow fits d.events).cmdStatus = d.prompt.status) (he : Effect i d d')
    (hall : ∀ e ∈ d'.events, fits e = true) :
    (viewerRow fits d'.events).cmdStatus = d'.prompt.status := by
  cases he with
  | nothing => exact h
  | edit p' _ hedits => exact h.trans hedits.status.symm
  | opened => exact h
  | shown =>
      rw [viewerRow_concat fits _ (hall _ (by simp))]
      exact h
  | cancelled =>
      unfold Desk.cancel at hall ⊢
      rw [viewerRow_concat fits _ (hall _ (by simp))]
      rfl
  | executed _ dispatch =>
      unfold Desk.execute at hall ⊢
      rw [viewerRow_concat fits _ (hall _ (by simp))]
      exact snprintf_snprintf 160 _
  | status status heq => exact absurd heq (hi status)

/-! ## The sessions -/

theorem effect_events {i : Input} {d d' : Desk} (he : Effect i d d') : ∀ e ∈ d.events, e ∈ d'.events := by
  intro e h
  cases he with
  | shown => exact List.mem_append_left _ h
  | cancelled => exact List.mem_append_left _ h
  | executed => exact List.mem_append_left _ h
  | _ => exact h

theorem mirrored_run {fits : Event → Bool} (inputs : List Input)
    (hall : ∀ e ∈ (Desk.run inputs).events, fits e = true) :
    Mirrored (Desk.run inputs) (viewerRow fits (Desk.run inputs).events) ∧
      ((∀ status, Input.setStatus status ∉ inputs) →
        (viewerRow fits (Desk.run inputs).events).cmdStatus = (Desk.run inputs).prompt.status) := by
  induction inputs using List.reverseRecOn with
  | nil => exact ⟨⟨fun h => (nomatch h), fun _ => ⟨rfl, rfl, rfl⟩⟩, fun _ => rfl⟩
  | append_singleton inputs i ih =>
      have hrun : Desk.run (inputs ++ [i]) = (Desk.run inputs).step i := by
        rw [Desk.run, List.foldl_append]
        rfl
      have he := effect_step (Desk.run inputs) i
      rw [hrun] at hall ⊢
      obtain ⟨hmirrored, hstatus⟩ := ih fun e h => hall e (effect_events he e h)
      obtain ⟨s, -, hshown⟩ := run_shown inputs
      have hlen := hshown.rep.text_fits.2
      have hsize : cmdBufSize = 128 := rfl
      refine ⟨hmirrored.effect (by omega) he hall, fun hno => ?_⟩
      have hi : ∀ status, i ≠ .setStatus status := by
        rintro status rfl
        exact hno status (by simp)
      exact status_effect hi (hstatus fun status hmem => hno status (List.mem_append_left _ hmem)) he hall

/-- The keys Up at the times `ups`. -/
def Prompt.ups (p : Prompt) (ups : List ℤ) : Prompt := ups.foldl (fun p now => p.up now) p

def Prompt.downs (p : Prompt) (downs : List ℤ) : Prompt := downs.foldl (fun p now => p.down now) p

/-- On the walk: the line of the place, and the line that was put aside. -/
structure Walking (p p' : Prompt) (pos : ℕ) : Prop where
  history : p'.history = p.history
  place : p'.histPos = pos
  saved : p'.histSaved = p.text
  line : p'.line = ⟨if pos = p.history.length then p.text else p.history.getD pos [], []⟩

theorem walking_ups {p : Prompt} (hpos : p.histPos = p.history.length) (hne : p.history ≠ []) {ups : List ℤ}
    (hups : ups ≠ []) : Walking p (p.ups ups) (p.history.length - ups.length) := by
  have hlen := List.length_pos_iff.mpr hne
  induction ups using List.reverseRecOn with
  | nil => exact absurd rfl hups
  | append_singleton ups now ih =>
      have hlast : p.ups (ups ++ [now]) = (p.ups ups).up now := List.foldl_concat _ _ _ _
      rw [hlast, List.length_append, List.length_singleton]
      by_cases hfirst : ups = []
      · subst hfirst
        have hup : (p.ups []).up now =
            { p with histSaved := p.text, histPos := p.history.length - 1 }.load now
              (p.history.getD (p.history.length - 1) []) := by
          change p.up now = _
          unfold Prompt.up
          dsimp only
          rw [if_neg hne, if_pos hpos, hpos]
        rw [hup]
        exact ⟨rfl, rfl, rfl, by rw [if_neg (by rw [List.length_nil]; omega)]; rfl⟩
      · obtain ⟨hhistory, hplace, hsaved, -⟩ := ih hfirst
        have hupslen := List.length_pos_iff.mpr hfirst
        have hup : (p.ups ups).up now = { p.ups ups with histPos := p.history.length - (ups.length + 1) }.load now
            (p.history.getD (p.history.length - (ups.length + 1)) []) := by
          unfold Prompt.up
          dsimp only
          rw [hhistory, hplace, if_neg hne, if_neg (by omega), hplace, Nat.sub_sub, hhistory]
        rw [hup]
        exact ⟨hhistory, rfl, hsaved, by rw [if_neg (by omega)]; rfl⟩

theorem walking_downs {p p' : Prompt} {pos : ℕ} (h : Walking p p' pos) (hpos : pos ≤ p.history.length)
    (downs : List ℤ) :
    Walking p (p'.downs downs) (min (pos + downs.length) p.history.length) := by
  induction downs using List.reverseRecOn with
  | nil =>
      rw [List.length_nil, Nat.add_zero, Nat.min_eq_left hpos]
      exact h
  | append_singleton downs now ih =>
      have hlast : p'.downs (downs ++ [now]) = (p'.downs downs).down now := List.foldl_concat _ _ _ _
      rw [hlast, List.length_append, List.length_singleton]
      obtain ⟨hhistory, hplace, hsaved, hline⟩ := ih
      unfold Prompt.down
      by_cases hend : p.history.length ≤ pos + downs.length
      · rw [Nat.min_eq_right hend] at hplace hline
        rw [hhistory, hplace, if_pos le_rfl, Nat.min_eq_right (by omega)]
        exact ⟨hhistory, hplace, hsaved, hline⟩
      · rw [Nat.min_eq_left (by omega)] at hplace
        rw [hhistory, hplace, if_neg hend, Nat.min_eq_left (by omega)]
        dsimp only [Prompt.load]
        rw [hsaved]
        exact ⟨rfl, rfl, rfl, rfl⟩

theorem rep_ups {c : Cmdline} {p : Prompt} (h : Rep c p) (ups : List ℤ) :
    Rep (ups.foldl (fun c now => cmdHistoryPrev now c) c) (p.ups ups) := by
  induction ups using List.reverseRecOn with
  | nil => exact h
  | append_singleton ups now ih =>
      unfold Prompt.ups at ih ⊢
      rw [List.foldl_concat, List.foldl_concat]
      exact cmdHistoryPrev_spec now ih

theorem rep_downs {c : Cmdline} {p : Prompt} (h : Rep c p) (downs : List ℤ) :
    Rep (downs.foldl (fun c now => cmdHistoryNext now c) c) (p.downs downs) := by
  induction downs using List.reverseRecOn with
  | nil => exact h
  | append_singleton downs now ih =>
      unfold Prompt.downs at ih ⊢
      rw [List.foldl_concat, List.foldl_concat]
      exact cmdHistoryNext_spec now ih

theorem up_down {p : Prompt} (hpos : p.histPos = p.history.length) (hne : p.history ≠ []) {ups : List ℤ}
    (hups : ups ≠ []) (downs : List ℤ) :
    (p.ups ups).line = ⟨p.history.getD (p.history.length - ups.length) [], []⟩ ∧
    (p.history.length ≤ p.history.length - ups.length + downs.length →
      ((p.ups ups).downs downs).line = ⟨p.text, []⟩) := by
  have hlen := List.length_pos_iff.mpr hne
  have hupslen := List.length_pos_iff.mpr hups
  have hwalk := walking_ups hpos hne hups
  refine ⟨?_, fun hback => ?_⟩
  · rw [hwalk.line, if_neg (by omega)]
  · have hdown := walking_downs hwalk (by omega) downs
    rw [hdown.line, if_pos (Nat.min_eq_right hback)]

/-- **A walk through the history.** From the line being typed, Up shows the lines executed, the last one first, and Down
comes back to the line. -/
theorem history_walk (inputs : List Input) (ups downs : List ℤ) :
    Runs (inputs.foldlM Session.step .start) fun s =>
      s.cmd.histPos = s.cmd.history.length → s.cmd.history ≠ [] → ups ≠ [] →
      let up := ups.foldl (fun c now => cmdHistoryPrev now c) s.cmd
      let back := downs.foldl (fun c now => cmdHistoryNext now c) up
      cstr up.buf = s.cmd.history.getD (s.cmd.history.length - ups.length) [] ∧
      (s.cmd.history.length ≤ s.cmd.history.length - ups.length + downs.length → cstr back.buf = cstr s.cmd.buf) := by
  refine (run_shown inputs).mono fun s h hpos hne hups => ?_
  have hr := h.rep
  rw [hr.histPos, hr.history] at hpos
  rw [hr.history] at hne ⊢
  have hup := rep_ups hr ups
  have hback := rep_downs hup downs
  obtain ⟨hline, hrest⟩ := up_down hpos hne hups downs
  dsimp only
  rw [hup.cstr_buf, hback.cstr_buf, hr.cstr_buf, Prompt.text, hline, List.append_nil]
  refine ⟨rfl, fun hle => ?_⟩
  rw [Prompt.text, hrest hle, List.append_nil]

/-! ## Completion -/

/-- What completion appends to the word `base`: the rest of the only name there is, or as much as all names have in
common. -/
def Completes (names : List (List UInt8)) (close : List UInt8 → List UInt8) (base w : List UInt8) : Prop :=
  match names.filter base.isPrefixOf with
  | [] => w = []
  | [name] => base ++ w = name ++ close name
  | matching => (∀ name ∈ matching, base ++ w <+: name) ∧ ∀ w', (∀ name ∈ matching, base ++ w' <+: name) → w' <+: w

theorem completes_many {names : List (List UInt8)} {close : List UInt8 → List UInt8} {base w : List UInt8}
    (hn : 1 < (names.filter base.isPrefixOf).length) (hw : ∀ name ∈ names.filter base.isPrefixOf, base ++ w <+: name)
    (hlongest : ∀ w', (∀ name ∈ names.filter base.isPrefixOf, base ++ w' <+: name) → w' <+: w) :
    Completes names close base w := by
  unfold Completes
  split
  next hnil =>
    rw [hnil] at hn
    exact nomatch hn
  next name hname =>
    rw [hname, List.length_singleton] at hn
    exact absurd hn (lt_irrefl 1)
  next => exact ⟨hw, hlongest⟩

theorem completion_spec (names : List (List UInt8)) (close : List UInt8 → List UInt8) (base : List UInt8) :
    Completes names close base ((Prompt.completion names close base).getD []) := by
  have hfound := found_foldl base names
  have hn := hfound.n
  unfold Prompt.completion
  dsimp only
  by_cases hone : (names.foldl (matchRound base) ⟨0, [], []⟩).n = 1
  · rw [if_pos hone, Option.getD_some]
    rw [hone] at hn
    obtain ⟨name, hname⟩ := List.length_eq_one_iff.mp hn.symm
    have honly := hfound.only
    have hpre : base <+: name :=
      List.isPrefixOf_iff_prefix.mp (List.of_mem_filter (hname ▸ List.mem_singleton_self name))
    have hwhole : base ++ name.drop base.length = name := List.prefix_iff_eq_append.mp hpre
    rw [hname, List.headD_cons] at honly
    rw [Completes, hname, honly]
    change base ++ (name.drop base.length ++ close name) = name ++ close name
    rw [← List.append_assoc, hwhole]
  · rw [if_neg hone]
    by_cases hzero : (names.foldl (matchRound base) ⟨0, [], []⟩).n = 0
    · rw [if_neg (by omega), Completes, List.length_eq_zero_iff.mp (hn.symm.trans hzero)]
      rfl
    have hlcp := fun w => hfound.lcp w hzero
    by_cases hlong : base.length < (names.foldl (matchRound base) ⟨0, [], []⟩).lcp.length
    · rw [if_pos ⟨by omega, hlong⟩, Option.getD_some]
      generalize (names.foldl (matchRound base) ⟨0, [], []⟩).lcp = lcp at hlcp hlong ⊢
      have hpre : base <+: lcp :=
        (hlcp base).mpr fun name hname => List.isPrefixOf_iff_prefix.mp (List.of_mem_filter hname)
      obtain ⟨w, rfl⟩ := hpre
      rw [List.drop_left]
      exact completes_many (by omega) ((hlcp _).mp List.prefix_rfl) fun w' hw' =>
        (List.prefix_append_right_inj base).mp ((hlcp _).mpr hw')
    · rw [if_neg (by omega), Option.getD_none]
      refine completes_many (by omega) (fun name hname => ?_) fun w' hw' => ?_
      · rw [List.append_nil]
        exact List.isPrefixOf_iff_prefix.mp (List.of_mem_filter hname)
      · have hle := ((hlcp _).mpr hw').length_le
        rw [List.length_append] at hle
        exact List.prefix_nil.mpr (List.length_eq_zero_iff.mp (by omega))

/-- The names that the word in front of the cursor is completed from, with what closes the only one, and the part of the
word that they are compared with. -/
def candidates (env : Env) (before : List UInt8) : List (List UInt8) × (List UInt8 → List UInt8) × List UInt8 :=
  let token := before.rtakeWhile inWord
  if token = before then (gCmdNames, fun _ => [byte ' '], token)
  else
    let base := token.drop (dirLit token).length
    match scanDir env (dirLit token) with
    | none => ([], id, base)
    | some dir =>
      ((((env.readdir dir).getD []).map cstr).filter (shown base),
        fun only => if env.isDir (fullPath dir only) then [byte '/'] else [], base)

theorem completion_nil (close : List UInt8 → List UInt8) (base : List UInt8) :
    Prompt.completion [] close base = none := rfl

theorem completed_eq (env : Env) (p : Prompt) :
    p.completed env = Prompt.completion (candidates env p.line.before).1 (candidates env p.line.before).2.1
      (candidates env p.line.before).2.2 := by
  unfold Prompt.completed candidates Prompt.token
  dsimp only
  split_ifs
  · rfl
  · cases scanDir env (dirLit (p.line.before.rtakeWhile inWord)) with
    | none => rfl
    | some dir =>
        dsimp only
        rw [Option.bind_some]
        cases env.readdir dir with
        | none => rfl
        | some names => rfl

/-- **Completion.** Whenever the prompt is open, Tab puts in behind the cursor what completes the word in front of it,
as much of it as there is room for, and nothing else. -/
theorem tab_run (inputs : List Input) (env : Env) (now : ℤ) :
    Runs (inputs.foldlM Session.step .start) fun s => s.cmd.active = true →
      Runs (cmdTabComplete env now s.cmd) fun c =>
        let before := (cstr s.cmd.buf).take s.cmd.cursor.toNat
        let (names, close, base) := candidates env before
        ∃ w, Completes names close base w ∧
          cstr c.buf = before ++ w.take (cmdBufSize - 1 - (cstr s.cmd.buf).length) ++
            (cstr s.cmd.buf).drop s.cmd.cursor.toNat := by
  refine (run_shown inputs).mono fun s h hactive => ?_
  have hopen : (Desk.run inputs).prompt.active = true := h.rep.active.symm.trans hactive
  refine (cmdTabComplete_spec env now h.rep hopen).mono fun c hc => ?_
  have hcursor : s.cmd.cursor = (Desk.run inputs).prompt.line.before.length := h.rep.shows.cursor
  rw [h.rep.cstr_buf, hcursor, Int.toNat_natCast, hc.cstr_buf]
  generalize (Desk.run inputs).prompt = p
  dsimp only
  rw [Prompt.text, List.take_left, List.drop_left]
  refine ⟨_, completion_spec _ _ _, ?_⟩
  rw [← completed_eq]
  unfold Prompt.complete
  cases p.completed env with
  | none =>
      rw [Option.elim_none, Option.getD_none, List.take_nil, List.append_nil]
      rfl
  | some w => rfl

end SimpleSatOps.CmdLine
