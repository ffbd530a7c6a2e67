import SimpleSatOps.Ui.TextField.Buffer

/-!
# The command line (`cmd_line.c`)

* `Cmdline` : the prompt, its buffer byte by byte, and its history;
* `cmdExpand`, `cmdTabComplete` : paths and their completion;
* `cmdHandleKey`, `cmdPump` : the keys, and the preview for the viewers once the typing rests;
* `Viewer`, `viewerOnEvent` : the bottom row of a viewer (`viewer.c`).
-/

namespace SimpleSatOps.CmdLine

open FieldBuffer (memmove putAt skipBack char)

def cmdBufSize : ℕ := 128

def cmdHistorySize : ℕ := 64

/-- `cmdline_t`; of the history, the entries in use. -/
structure Cmdline where
  active : Bool
  buf : List UInt8
  len : ℤ
  cursor : ℤ
  status : List UInt8
  dirty : Bool
  lastEditNs : ℤ
  history : List (List UInt8)
  histPos : ℕ
  histSaved : List UInt8

/-- `snprintf(dst, sizeof dst, "%s", s)` into a buffer of `CMD_BUF_SIZE` bytes. -/
def cmdBufText (buf s : List UInt8) : List UInt8 := patch buf 0 (snprintf cmdBufSize s ++ [0])

/-- `cmd_enter`. -/
def cmdEnter (c : Cmdline) : Cmdline :=
  { c with
    active := true
    buf := c.buf.set 0 0
    len := 0
    cursor := 0
    histPos := c.history.length
    dirty := true
    lastEditNs := 0 }

/-! ## History -/

/-- `cmd_history_push`. -/
def cmdHistoryPush (c : Cmdline) (line : List UInt8) : Cmdline :=
  if line = [] then c
  else if c.history.getLast? = some line then { c with histPos := c.history.length }
  else
    let history := if c.history.length < cmdHistorySize then c.history ++ [snprintf cmdBufSize line]
      else c.history.tail ++ [snprintf cmdBufSize line]
    { c with history := history, histPos := history.length }

/-- `cmd_buf_set`. -/
def cmdBufSet (now : ℤ) (c : Cmdline) (s : List UInt8) : Cmdline :=
  let buf := cmdBufText c.buf s
  { c with buf := buf, len := (cstr buf).length, cursor := (cstr buf).length, dirty := true, lastEditNs := now }

/-- `cmd_history_prev`. -/
def cmdHistoryPrev (now : ℤ) (c : Cmdline) : Cmdline :=
  if c.history.length = 0 then c
  else
    let c := if c.histPos = c.history.length then { c with histSaved := snprintf cmdBufSize (cstr c.buf) } else c
    let c := if 0 < c.histPos then { c with histPos := c.histPos - 1 } else c
    cmdBufSet now c (c.history.getD c.histPos [])

/-- `cmd_history_next`. -/
def cmdHistoryNext (now : ℤ) (c : Cmdline) : Cmdline :=
  if c.history.length = 0 then c
  else if c.history.length ≤ c.histPos then c
  else
    let c := { c with histPos := c.histPos + 1 }
    cmdBufSet now c (if c.histPos = c.history.length then c.histSaved else c.history.getD c.histPos [])

/-! ## Completion -/

/-- What the process sees of its environment and of the file system. -/
structure Env where
  getenv : List UInt8 → Option (List UInt8)
  readdir : List UInt8 → Option (List (List UInt8))
  isDir : List UInt8 → Bool

/-- `CMD_EXPAND_PUT` for each byte. -/
def expandPut (cap : ℕ) (out : List UInt8) : List UInt8 → Option (List UInt8)
  | [] => some out
  | c :: cs => if cap ≤ out.length + 1 then none else expandPut cap (out ++ [c]) cs

/-- The loop of `cmd_expand`; `first` where it is at the start of the text. -/
def expandFrom (env : Env) (cap : ℕ) (first : Bool) (out : List UInt8) : List UInt8 → Option (List UInt8)
  | [] => some out
  | c :: rest =>
    if first && c == byte '~' && (rest.head?.getD 0 == byte '/' || rest.head?.getD 0 == 0) then
      (expandPut cap out ((env.getenv (text "HOME")).getD [])).bind fun out => expandFrom env cap false out rest
    else
      let braced := c == byte '$' && rest.head? == some (byte '{')
      let body := if braced then rest.drop 1 else rest
      let name := body.takeWhile fun b => isAlnum b || b == byte '_'
      if c == byte '$' && name ≠ [] then
        let behind := body.drop name.length
        let behind := if braced && behind.head? == some (byte '}') then behind.drop 1 else behind
        (expandPut cap out ((env.getenv (name.take 63)).getD [])).bind fun out => expandFrom env cap false out behind
      else (expandPut cap out [c]).bind fun out => expandFrom env cap false out rest
termination_by s => s.length
decreasing_by
  · rw [List.length_cons]
    omega
  · rw [List.length_cons]
    split <;> split <;> simp only [List.length_drop] <;> omega
  · rw [List.length_cons]
    omega

/-- `cmd_expand`. -/
def cmdExpand (env : Env) (cap : ℕ) (s : List UInt8) : Option (List UInt8) := expandFrom env cap true [] s

/-- `cmd_insert_str`. -/
def cmdInsertStr (now : ℤ) (c : Cmdline) : List UInt8 → Run Cmdline
  | [] => .ok { c with dirty := true, lastEditNs := now }
  | p :: s =>
    if (cmdBufSize : ℤ) - 1 ≤ c.len then .ok { c with dirty := true, lastEditNs := now }
    else do
      let buf ← memmove c.buf (c.cursor + 1) c.cursor (c.len - c.cursor + 1)
      let buf ← putAt buf c.cursor p
      cmdInsertStr now { c with buf := buf, len := c.len + 1, cursor := c.cursor + 1 } s

/-- `g_cmd_names`. -/
def gCmdNames : List (List UInt8) :=
  ["help", "tx", "auto", "track", "stop", "home", "retarget", "freq", "rs", "spectrum", "lo_offset", "lo_bandwidth",
    "gain", "quit"].map text

/-- The names that have matched, what they have in common, and the first of them. -/
structure Matches where
  n : ℕ
  lcp : List UInt8
  only : List UInt8

def commonPrefix : List UInt8 → List UInt8 → List UInt8
  | a :: as, b :: bs => if a = b then a :: commonPrefix as bs else []
  | _, _ => []

/-- The body of the loop over the names. -/
def matchRound (base : List UInt8) (m : Matches) (name : List UInt8) : Matches :=
  if base.isPrefixOf name then
    if m.n = 0 then ⟨1, name, name⟩ else ⟨m.n + 1, commonPrefix name m.lcp, m.only⟩
  else m

/-- The directory part of a word, with its last slash. -/
def dirLit (token : List UInt8) : List UInt8 := token.rdropWhile (· != byte '/')

/-- Files that start with a dot are hidden unless the word does. -/
def shown (base name : List UInt8) : Bool := !(name.head? == some (byte '.') && base.head? != some (byte '.'))

/-- The directory to look in. -/
def scanDir (env : Env) (dir : List UInt8) : Option (List UInt8) :=
  if dir = [] then some [byte '.'] else (cmdExpand env 1024 dir).filter (· ≠ [])

def fullPath (dir name : List UInt8) : List UInt8 :=
  snprintf 2048 (if dir.getLast? = some (byte '/') then dir ++ name else dir ++ [byte '/'] ++ name)

/-- The part of `cmd_tab_complete` for the first word. -/
def completeName (now : ℤ) (c : Cmdline) (token : List UInt8) : Run Cmdline :=
  let m := gCmdNames.foldl (matchRound token) ⟨0, [], []⟩
  if m.n = 1 then do
    let c ← cmdInsertStr now c (m.only.drop token.length)
    cmdInsertStr now c [byte ' ']
  else if 1 < m.n ∧ token.length < m.lcp.length then cmdInsertStr now c (m.lcp.drop token.length)
  else .ok c

/-- The part of `cmd_tab_complete` for a path. -/
def completePath (env : Env) (now : ℤ) (c : Cmdline) (token : List UInt8) : Run Cmdline :=
  let base := token.drop (dirLit token).length
  match (scanDir env (dirLit token)).bind fun dir => (env.readdir dir).map fun names => (dir, names) with
  | none => .ok c
  | some (dir, names) =>
    let m := ((names.map cstr).filter (shown base)).foldl (matchRound base) ⟨0, [], []⟩
    if m.n = 0 then .ok c
    else if m.n = 1 then do
      let c ← cmdInsertStr now c (m.only.drop base.length)
      if env.isDir (fullPath dir m.only) then cmdInsertStr now c [byte '/'] else .ok c
    else if base.length < m.lcp.length then cmdInsertStr now c (m.lcp.drop base.length)
    else .ok c

/-- No space and no tab. -/
def inWord (b : UInt8) : Bool := b != byte ' ' && b != byte '\t'

/-- `cmd_tab_complete`. -/
def cmdTabComplete (env : Env) (now : ℤ) (c : Cmdline) : Run Cmdline := do
  if c.active then
    let start ← skipBack inWord c.buf c.cursor.toNat
    let token ← rdRange c.buf start (c.cursor.toNat - start)
    if cmdBufSize ≤ token.length then pure c
    else if start = 0 then completeName now c token
    else completePath env now c token
  else pure c

/-! ## Keys -/

/-- `cmd_action_t`. -/
inductive Action
  | none | left | right | home | toEnd | backspace | del | histPrev | histNext

/-- `cmd_apply_action`. -/
def cmdApplyAction (now : ℤ) (c : Cmdline) : Action → Run Cmdline
  | .none => .ok c
  | .left => .ok (if 0 < c.cursor then { c with cursor := c.cursor - 1 } else c)
  | .right => .ok (if c.cursor < c.len then { c with cursor := c.cursor + 1 } else c)
  | .home => .ok { c with cursor := 0 }
  | .toEnd => .ok { c with cursor := c.len }
  | .backspace =>
    if 0 < c.cursor then do
      let buf ← memmove c.buf (c.cursor - 1) c.cursor (c.len - c.cursor + 1)
      pure { c with buf := buf, len := c.len - 1, cursor := c.cursor - 1, dirty := true, lastEditNs := now }
    else .ok c
  | .del =>
    if c.cursor < c.len then do
      let buf ← memmove c.buf c.cursor (c.cursor + 1) (c.len - c.cursor)
      pure { c with buf := buf, len := c.len - 1, dirty := true, lastEditNs := now }
    else .ok c
  | .histPrev => .ok (cmdHistoryPrev now c)
  | .histNext => .ok (cmdHistoryNext now c)

/-- `cmd_drain_csi` on what `getch` returns; nothing is left where it returns `ERR`. -/
def cmdDrainCsi : List Char → Action
  | '[' :: 'D' :: _ => .left
  | '[' :: 'C' :: _ => .right
  | '[' :: 'A' :: _ => .histPrev
  | '[' :: 'B' :: _ => .histNext
  | '[' :: 'H' :: _ => .home
  | '[' :: 'F' :: _ => .toEnd
  | '[' :: '1' :: '~' :: _ => .home
  | '[' :: '3' :: '~' :: _ => .del
  | '[' :: '4' :: '~' :: _ => .toEnd
  | '[' :: '7' :: '~' :: _ => .home
  | '[' :: '8' :: '~' :: _ => .toEnd
  | _ => .none

/-- What the operator types; the keys of `cmd_apply_action` come in several codes. -/
inductive Key
  | err
  | esc (queue : List Char)
  | enter
  | tab
  | action (a : Action)
  | other (key : ℤ)

/-- What is sent to the viewers. -/
inductive Event
  | cmdPreview (cmdText : List UInt8)
  | cmdExecuted (cmdText cmdStatus : List UInt8)
deriving DecidableEq

/-- The command line, and the events for which it has called the encoder. -/
structure Session where
  cmd : Cmdline
  events : List Event

/-- `cmd_broadcast_preview`. -/
def cmdBroadcastPreview (s : Session) : Session :=
  { s with events := s.events ++ [.cmdPreview (snprintf 160 (cstr s.cmd.buf))] }

/-- `cmd_broadcast_executed`. -/
def cmdBroadcastExecuted (s : Session) (executed : List UInt8) : Session :=
  { s with events := s.events ++ [.cmdExecuted (snprintf 160 executed) (snprintf 160 s.cmd.status)] }

/-- The cancelled prompt. -/
def cmdCancel (s : Session) : Session :=
  let s := cmdBroadcastExecuted
    { s with cmd := { s.cmd with active := false, status := [], buf := s.cmd.buf.set 0 0, len := 0, cursor := 0 } } []
  { s with cmd := { s.cmd with dirty := false } }

/-- The line is executed; `dispatch` is the status that `cmd_dispatch` leaves. -/
def cmdExecute (dispatch : List UInt8 → List UInt8) (s : Session) : Session :=
  let executed := snprintf cmdBufSize (cstr s.cmd.buf)
  let c := cmdHistoryPush { s.cmd with active := false } executed
  let s := cmdBroadcastExecuted { s with cmd := { c with status := snprintf 160 (dispatch (cstr c.buf)) } } executed
  { s with cmd := { s.cmd with dirty := false } }

/-- `cmd_handle_key`. -/
def cmdHandleKey (env : Env) (dispatch : List UInt8 → List UInt8) (now : ℤ) (s : Session) (key : Key) : Run Session :=
  if s.cmd.active then
    match key with
    | .err => .ok s
    | .esc queue =>
      match cmdDrainCsi queue with
      | .none => .ok (cmdCancel s)
      | a => (fun c => { s with cmd := c }) <$> cmdApplyAction now s.cmd a
    | .enter => .ok (cmdExecute dispatch s)
    | .tab => (fun c => { s with cmd := c }) <$> cmdTabComplete env now s.cmd
    | .action a => (fun c => { s with cmd := c }) <$> cmdApplyAction now s.cmd a
    | .other key =>
      if 32 ≤ key ∧ key < 127 ∧ s.cmd.len < (cmdBufSize : ℤ) - 1 then
        (fun c => { s with cmd := c }) <$> cmdInsertStr now s.cmd [char key]
      else .ok s
  else .ok s

/-- `g_cmd_debounce_ns`. -/
def gCmdDebounceNs : ℤ := 150000000

/-- `cmd_pump`. -/
def cmdPump (now : ℤ) (s : Session) : Session :=
  if s.cmd.active && s.cmd.dirty && gCmdDebounceNs ≤ now - s.cmd.lastEditNs then
    let s := cmdBroadcastPreview s
    { s with cmd := { s.cmd with dirty := false } }
  else s

/-! ## The viewer -/

/-- The bottom row of `viewer_t`. -/
structure Viewer where
  cmdActive : Bool
  cmdBuf : List UInt8
  cmdStatus : List UInt8
deriving DecidableEq

/-- `viewer_on_event`, for the events of the command line. -/
def viewerOnEvent (v : Viewer) : Event → Viewer
  | .cmdPreview cmdText => { v with cmdActive := true, cmdBuf := snprintf 160 cmdText }
  | .cmdExecuted _ cmdStatus => ⟨false, [], snprintf 160 cmdStatus⟩

end SimpleSatOps.CmdLine
