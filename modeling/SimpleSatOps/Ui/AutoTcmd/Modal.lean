import SimpleSatOps.Pipeline.TxHandoff
import SimpleSatOps.Proto.TcmdGate
import SimpleSatOps.Ui.AutoTcmd
import SimpleSatOps.Ui.TextField

/-!
# The auto-tcmd modal

The modal loads an agenda, lets the operator set up a run and stages one telecommand after the other.

* `AutoTcmd` : the state of a run; `Operator` : with the modal and the hand-off of its requests;
* `autoTcmdOpen`, `autoTcmdClose`, `autoTcmdHandleKey`, `autoTcmdTick` : what the main loop calls;
* `Action`, `step`, `run` : the runs of the main loop.
-/

namespace SimpleSatOps.AutoTcmdModal
open SimpleSatOps.AutoTcmd (loaded)
open Csp TxHandoff SsoPseudo TcmdGate

/-! ## State -/

/-- `auto_tcmd_state_t`. -/
inductive State where
  | setup | running | stopped | done | passOver | pausePrompt | paused | resumePrompt
deriving DecidableEq

/-- `auto_tcmd_field_t`. -/
inductive Field where
  | power | repeats | interval | allowTx
deriving DecidableEq

/-- `auto_tcmd_t` as far as the run reads it; `commands` is `none` for NULL. -/
structure AutoTcmd where
  commands : Option (List (List UInt8))
  lintErrors : ℤ
  lintDangers : ℤ
  power : TextField
  repeats : TextField
  intervalS : TextField
  allowTx : Bool
  focus : Field
  state : State
  cmdIdx : ℕ
  repeatIdx : ℕ
  repeatsTotal : ℕ
  intervalSVal : ℚ
  nextSendNs : ℤ
  sendsTotal : ℕ

/-- The commands as an array. -/
def AutoTcmd.cmds (a : AutoTcmd) : List (List UInt8) := a.commands.getD []

def AutoTcmd.nCommands (a : AutoTcmd) : ℕ := a.cmds.length

/-- `auto_tcmd_free_commands`, and the pointer cleared. -/
def AutoTcmd.freeCommands (a : AutoTcmd) : AutoTcmd := { a with commands := none }

/-- A telecommand that was staged, with the clock it was expanded with. -/
structure Send where
  utcMs : Int64
  payload : List UInt8
deriving DecidableEq

/-- A run since its start or restart: the agenda, the repeats, and what has been staged. The code keeps no such
record. -/
structure Run where
  commands : List (List UInt8)
  repeats : ℕ
  sends : List Send

/-- What is fixed while the program runs; `nsOfSeconds` is the rounded product `(long)(s * 1e9)`. -/
structure Session where
  filePath : List UInt8
  ignoreTcErrors : Bool
  ignoreDangerousTcmds : Bool
  testingMode : Bool
  withSdr : Bool
  passTssentMs : Int64
  nsOfSeconds : ℚ → ℤ

/-- The operator's modals and the hand-off; `active` is `auto_tcmd_active`. -/
structure Operator where
  handoff : Handoff
  composeActive : Bool
  active : Bool
  auto : AutoTcmd
  run : Run

def Operator.setState (s : Operator) (st : State) : Operator := { s with auto := { s.auto with state := st } }

/-! ## Opening and closing -/

/-- What the system answers while the modal opens: whether there is an IPC server, what the loader reads, whether
the sink opens, what the linter reads, and whether there is a window. -/
structure OpenEnv where
  ipc : Bool
  file : Option (List UInt8)
  sink : Bool
  lintFile : Option (List UInt8)
  window : Bool

/-- The counts `auto_tcmd_reload` takes from the linter: zeros where it could not run. -/
def reloadCounts (env : OpenEnv) : ℤ × ℤ :=
  if env.sink then
    let r := tcmdLintFile env.lintFile
    (if 0 < r.ret then r.ret else 0, if 0 < r.dangerCount then r.dangerCount else 0)
  else (0, 0)

/-- The fields of a fresh setup. -/
def freshSetup (cmds : List (List UInt8)) (counts : ℤ × ℤ) : AutoTcmd where
  commands := some cmds
  lintErrors := counts.1
  lintDangers := counts.2
  power := .ofText (text "80.0")
  repeats := .ofText (text "3")
  intervalS := .ofText (text "1.0")
  allowTx := false
  focus := .power
  state := .setup
  cmdIdx := 0
  repeatIdx := 0
  repeatsTotal := 0
  intervalSVal := 0
  nextSendNs := 0
  sendsTotal := 0

/-- `auto_tcmd_reload`, and whether it succeeded. -/
def autoTcmdReload (ses : Session) (env : OpenEnv) (a : AutoTcmd) : AutoTcmd × Bool :=
  if ses.filePath = [] then (a, false)
  else
    match env.file with
    | none => (a.freeCommands, false)
    | some content => (freshSetup (loaded content) (reloadCounts env), true)

/-- `auto_tcmd_open`. -/
def autoTcmdOpen (ses : Session) (env : OpenEnv) (s : Operator) : Operator :=
  if env.ipc = false then s
  else if s.composeActive then s
  else if s.active then s
  else if s.auto.state = .paused ∧ s.auto.commands.isSome then
    if env.window = false then s.setState .resumePrompt
    else { s.setState .resumePrompt with active := true }
  else if ses.filePath = [] then s
  else
    match autoTcmdReload ses env s.auto with
    | (a, false) => { s with auto := a }
    | (a, true) =>
      if env.window = false then { s with auto := a.freeCommands } else { s with auto := a, active := true }

/-- `auto_tcmd_close`. -/
def autoTcmdClose (s : Operator) : Operator :=
  { s with active := false, auto := if s.auto.state ≠ .paused then s.auto.freeCommands else s.auto }

/-! ## Start, stop, pause, resume -/

/-- `auto_tcmd_start` at `now`; a start that is rejected changes nothing but the status line. -/
def autoTcmdStart (ses : Session) (now : ℤ) (s : Operator) : Operator :=
  let a := s.auto
  let power := atof a.power.buf
  let repeats := atoi a.repeats.buf
  let interval := atof a.intervalS.buf
  if a.nCommands = 0 then s
  else if tcmdLintGateDecision a.lintErrors a.lintDangers ses.ignoreTcErrors ses.ignoreDangerousTcmds ≠ .proceed then s
  else if a.allowTx = false then s
  else if power < 0 ∨ 359 / 4 < power then s
  else if repeats < 1 then s
  else if interval < 0 then s
  else
    { s with
      auto := { a with
        repeatsTotal := repeats.toNat
        intervalSVal := if interval < 1 then 1 else interval
        cmdIdx := 0
        repeatIdx := 0
        sendsTotal := 0
        nextSendNs := now
        state := .running }
      run := ⟨a.cmds, repeats.toNat, []⟩ }

/-- `auto_tcmd_resume`. -/
def autoTcmdResume (now : ℤ) (s : Operator) : Operator :=
  { s with auto := { s.auto with nextSendNs := now, state := .running } }

/-- `auto_tcmd_restart`. -/
def autoTcmdRestart (now : ℤ) (s : Operator) : Operator :=
  { s with
    auto := { s.auto with cmdIdx := 0, repeatIdx := 0, sendsTotal := 0, nextSendNs := now, state := .running }
    run := ⟨s.auto.cmds, s.auto.repeatsTotal, []⟩ }

/-! ## Keys -/

/-- The key codes of the terminal library. -/
def keyErr : ℤ := -1
def keyDown : ℤ := 258
def keyUp : ℤ := 259
def keyLeft : ℤ := 260
def keyRight : ℤ := 261
def keyHome : ℤ := 262
def keyBackspace : ℤ := 263
def keyDc : ℤ := 330
def keyEnter : ℤ := 343
def keyBtab : ℤ := 353
def keyEnd : ℤ := 360

/-- The code of a character. -/
def keyOf (c : Char) : ℤ := c.toNat

/-- `tx_drain_csi` on the characters waiting in the window; `none` for `-1`. -/
def txDrainCsi (waiting : List ℤ) : Option ℤ :=
  match waiting with
  | b1 :: b2 :: rest =>
    if b1 ≠ keyOf '[' then none
    else if b2 = keyOf 'A' then some keyUp
    else if b2 = keyOf 'B' then some keyDown
    else if b2 = keyOf 'C' then some keyRight
    else if b2 = keyOf 'D' then some keyLeft
    else if b2 = keyOf 'H' then some keyHome
    else if b2 = keyOf 'F' then some keyEnd
    else if rest.head? ≠ some (keyOf '~') then none
    else if b2 = keyOf '1' ∨ b2 = keyOf '7' then some keyHome
    else if b2 = keyOf '3' then some keyDc
    else if b2 = keyOf '4' ∨ b2 = keyOf '8' then some keyEnd
    else none
  | _ => none

/-- `auto_field_buf`: the capacity of the buffer of a field, none for the toggle. -/
def Field.cap : Field → ℕ
  | .power => 12
  | .repeats => 8
  | .interval => 12
  | .allowTx => 0

/-- `auto_field_char_ok`. -/
def Field.charOk (f : Field) (c : UInt8) : Bool :=
  match f with
  | .power | .interval => isDigit c || c == byte '.' || c == byte '-'
  | .repeats => isDigit c
  | .allowTx => false

def Field.next : Field → Field
  | .power => .repeats
  | .repeats => .interval
  | .interval => .allowTx
  | .allowTx => .power

def Field.prev : Field → Field
  | .power => .allowTx
  | .repeats => .power
  | .interval => .repeats
  | .allowTx => .interval

/-- An edit of the focused field; the toggle has no text. -/
def AutoTcmd.edit (a : AutoTcmd) (f : TextField → TextField) : AutoTcmd :=
  match a.focus with
  | .power => { a with power := f a.power }
  | .repeats => { a with repeats := f a.repeats }
  | .interval => { a with intervalS := f a.intervalS }
  | .allowTx => a

/-- The focus moves, and the cursor of the field it moves to is clamped. -/
def AutoTcmd.moveFocus (a : AutoTcmd) (f : Field) : AutoTcmd := { a with focus := f }.edit TextField.uiTfClampCursor

/-- The keys of the setup form. -/
def setupKey (a : AutoTcmd) (key : ℤ) : AutoTcmd :=
  if key = keyOf '\t' then a.moveFocus a.focus.next
  else if key = keyBtab then a.moveFocus a.focus.prev
  else if key = keyBackspace ∨ key = 127 ∨ key = 8 then a.edit fun t => t.uiTfBackspace.1
  else if key = keyDc ∨ key = 4 then a.edit fun t => t.uiTfDelete.1
  else if key = 11 then a.edit fun t => t.uiTfKillToEnd.1
  else if key = 23 then a.edit fun t => t.uiTfKillWordBack.1
  else if key = keyLeft then a.edit TextField.uiTfLeft
  else if key = keyRight then a.edit TextField.uiTfRight
  else if key = keyHome ∨ key = 1 then a.edit TextField.uiTfHome
  else if key = keyEnd ∨ key = 5 then a.edit TextField.uiTfEnd
  else if key = keyOf ' ' ∧ a.focus = .allowTx then { a with allowTx := !a.allowTx }
  else if 32 ≤ key ∧ key < 127 then
    let ch := UInt8.ofNat key.toNat
    if a.focus.charOk ch then a.edit fun t => (t.uiTfInsert a.focus.cap ch).1 else a
  else a

/-- A bare Esc, and whether the modal stays open. -/
def bareEsc (s : Operator) : Operator × Bool :=
  match s.auto.state with
  | .running => (s.setState .pausePrompt, true)
  | .pausePrompt => (s.setState .running, true)
  | .resumePrompt => (s.setState .paused, false)
  | _ => (s, false)

/-- Any other key, by the state of the run, and whether the modal stays open. -/
def stateKey (ses : Session) (now : ℤ) (s : Operator) (key : ℤ) : Operator × Bool :=
  match s.auto.state with
  | .pausePrompt =>
    if key = keyOf 'p' ∨ key = keyOf 'P' then (s.setState .paused, false)
    else if key = keyOf 'a' ∨ key = keyOf 'A' then (s.setState .stopped, true)
    else (s, true)
  | .resumePrompt =>
    if key = keyOf 'r' ∨ key = keyOf 'R' then (autoTcmdResume now s, true)
    else if key = keyOf 's' ∨ key = keyOf 'S' then (autoTcmdRestart now s, true)
    else (s, true)
  | .running => if key = keyOf 's' ∨ key = keyOf 'S' then (s.setState .stopped, true) else (s, true)
  | _ =>
    if key = keyOf '\n' ∨ key = keyOf '\r' ∨ key = keyEnter then (autoTcmdStart ses now s, true)
    else ({ s with auto := setupKey s.auto key }, true)

/-- `auto_tcmd_handle_key` on a key, with the characters waiting behind it. -/
def autoTcmdHandleKey (ses : Session) (now : ℤ) (s : Operator) (key : ℤ) (waiting : List ℤ) : Operator × Bool :=
  if s.active = false then (s, false)
  else if key = keyErr then (s, true)
  else if key = 27 then
    match txDrainCsi waiting with
    | some translated => stateKey ses now s translated
    | none => bareEsc s
  else stateKey ses now s key

/-- `input_handle_keys` while no other modal is up: a modal that does not stay open is closed. -/
def inputHandleKeys (ses : Session) (now : ℤ) (s : Operator) (key : ℤ) (waiting : List ℤ) : Operator :=
  if s.composeActive then s
  else if s.active = false then s
  else
    let p := autoTcmdHandleKey ses now s key waiting
    if p.2 then p.1 else autoTcmdClose p.1

/-! ## The tick -/

/-- What a tick looks at: the two clocks and the prediction. -/
structure TickEnv where
  nowNs : ℤ
  utcMs : Int64
  elevation : ℚ
  minutesUntilVisible : ℚ

/-- The expansion of a command at a tick. -/
def expansion (ses : Session) (utcMs : Int64) (raw : List UInt8) : Expansion :=
  ssoPseudoExpand raw ⟨utcMs, ses.passTssentMs⟩ 512 160

/-- A command that cannot be keyed is skipped. -/
def AutoTcmd.skip (a : AutoTcmd) (now : ℤ) : AutoTcmd :=
  { a with cmdIdx := a.cmdIdx + 1, repeatIdx := 0, nextSendNs := now }

/-- The counters after a send. -/
def AutoTcmd.sent (a : AutoTcmd) (nextSendNs : ℤ) : AutoTcmd :=
  { a with
    sendsTotal := a.sendsTotal + 1
    cmdIdx := if a.repeatsTotal ≤ a.repeatIdx + 1 then a.cmdIdx + 1 else a.cmdIdx
    repeatIdx := if a.repeatsTotal ≤ a.repeatIdx + 1 then 0 else a.repeatIdx + 1
    nextSendNs := nextSendNs }

/-- The summary of a send, before it is cut to its buffer. -/
def AutoTcmd.sendSummary (a : AutoTcmd) (e : Expansion) (raw : List UInt8) : List UInt8 :=
  let head := text "auto[" ++ decimal (a.cmdIdx + 1) ++ text "/" ++ decimal a.nCommands ++ text " " ++
    decimal (a.repeatIdx + 1) ++ text "/" ++ decimal a.repeatsTotal ++ text "]: " ++ e.out.take 190
  if e.status = .ok ∧ head.length < txTextMax then head ++ text " (replaced '" ++ raw ++ text "')" else head

/-- The request `auto_tcmd_tick` fills in. -/
def AutoTcmd.request (a : AutoTcmd) (e : Expansion) (raw : List UInt8) : TxRequestSlot :=
  telecommandRequest e.out (if e.status = .ok then raw else []) (text "auto-cmd (file)") (a.sendSummary e raw)

/-- `auto_tcmd_tick`. -/
def autoTcmdTick (ses : Session) (env : TickEnv) (s : Operator) : Operator :=
  let a := s.auto
  if s.active = false then s
  else if a.state ≠ .running then s
  else if ses.testingMode = false ∧ env.elevation < 0 ∧ 1 / 2 < env.minutesUntilVisible then s.setState .passOver
  else if a.nCommands ≤ a.cmdIdx then s.setState .done
  else if ses.withSdr = false then s.setState .stopped
  else if env.nowNs < a.nextSendNs then s
  else if s.handoff.pending then s
  else
    let raw := a.cmds.getD a.cmdIdx []
    let e := expansion ses env.utcMs raw
    if e.status ≠ .ok ∧ e.status ≠ .notPseudo then { s with auto := a.skip env.nowNs }
    else if TxBurst.tcmdRfMaxLen < e.out.length then { s with auto := a.skip env.nowNs }
    else
      { s with
        handoff := s.handoff.stage (a.request e raw)
        auto := a.sent (env.nowNs + ses.nsOfSeconds a.intervalSVal)
        run := { s.run with sends := s.run.sends ++ [⟨env.utcMs, (a.request e raw).payload⟩] } }

/-! ## Runs -/

/-- A step of the main loop: the modal opens, a key comes in, it ticks; the compose modal opens and closes; the
requests are handed on. -/
inductive Action where
  | opened (env : OpenEnv)
  | key (now : ℤ) (key : ℤ) (waiting : List ℤ)
  | tick (env : TickEnv)
  | composeOpen
  | composeClose
  | handoff (a : TxHandoff.Action)

section Runs
variable (sha1 : List UInt8 → Bytes 20) (cfg : Config) (ses : Session)

def step (s : Operator) : Action → Operator
  | .opened env => autoTcmdOpen ses env s
  | .key now key waiting => inputHandleKeys ses now s key waiting
  | .tick env => autoTcmdTick ses env s
  | .composeOpen => if s.active then s else { s with composeActive := true }
  | .composeClose => { s with composeActive := false }
  | .handoff a => { s with handoff := TxHandoff.step sha1 cfg s.handoff a }

/-- Start-up: no modal is up, nothing is loaded. -/
def init : Operator where
  handoff := TxHandoff.init
  composeActive := false
  active := false
  auto := { freshSetup [] (0, 0) with commands := none, power := ⟨[], 0⟩, repeats := ⟨[], 0⟩, intervalS := ⟨[], 0⟩ }
  run := ⟨[], 0, []⟩

def run (actions : List Action) : Operator := actions.foldl (step sha1 cfg ses) init

end Runs

end SimpleSatOps.AutoTcmdModal
