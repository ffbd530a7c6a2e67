import SimpleSatOps.Lib.ExactDecimal
import SimpleSatOps.Ui.AutoTcmd.Modal

/-!
# The compose modal

The modal takes a telecommand, the power of the amplifier and the permission to key it, shows viewers a draft while
the operator types, and stages the telecommand when Enter is pressed.

* `TxCompose`, `Tx` : the form, and what is remembered between two forms;
* `TxCompose.press` : the keys that edit the form;
* `txComposeValidate`, `txComposeCommit` : what Enter checks, and the request it stages;
* `txComposeOpen`, `txComposeHandleKey`, `txComposePump` : what the main loop calls;
* `Desk`, `Action`, `run` : both modals, the hand-off and the TX thread.
-/

namespace SimpleSatOps.TxComposeModal
open TxHandoff SsoPseudo AutoTcmdModal
open TxBurst (tcmdRfMaxLen)

/-! ## State -/

/-- `TX_HISTORY_MAX`. -/
def txHistoryMax : ℕ := 32

/-- `tx_field_t`. -/
inductive TxField where
  | payload | power | allowTx
deriving DecidableEq

/-- `tx_compose_t`; `historyIdx` is `none` for -1. -/
structure TxCompose where
  payload : TextField
  power : TextField
  allowTx : Bool
  focus : TxField
  previewDirty : Bool
  statusMsg : List UInt8
  historyIdx : Option ℕ
  historySavedEdit : List UInt8

/-- What `tx_t` remembers of the form: the last one, and the payloads sent, the newest first. -/
structure Tx where
  lastPayload : List UInt8
  lastPower : List UInt8
  lastAllowTx : Bool
  history : List (List UInt8)

/-- `sizeof payload`, `sizeof power`; the toggle has no buffer. -/
def TxField.size : TxField → ℕ
  | .payload => 256
  | .power => 12
  | .allowTx => 0

/-- `tx_history_push`. -/
def txHistoryPush (history : List (List UInt8)) (payload : List UInt8) : List (List UInt8) :=
  if payload = [] then history
  else if history.head? = some payload then history
  else
    let keep := if history.length < txHistoryMax - 1 then history.length else txHistoryMax - 1
    snprintf TxField.payload.size payload :: history.take keep

/-- `tx_compose_init`. -/
def txComposeInit (tx : Tx) : TxCompose where
  payload := .ofText (snprintf TxField.payload.size tx.lastPayload)
  power := .ofText (snprintf TxField.power.size tx.lastPower)
  allowTx := tx.lastAllowTx
  focus := .payload
  previewDirty := false
  statusMsg := text "edit; viewers see drafts ~200 ms after you stop typing"
  historyIdx := none
  historySavedEdit := []

/-- `tx_compose_remember`. -/
def txComposeRemember (tx : Tx) (c : TxCompose) : Tx :=
  { tx with
    lastPayload := snprintf TxField.payload.size c.payload.buf
    lastPower := snprintf TxField.power.size c.power.buf
    lastAllowTx := c.allowTx }

/-- `tx_compose_summary`. -/
def txComposeSummary (c : TxCompose) : List UInt8 :=
  snprintf txTextMax (if c.payload.buf = [] then text "(empty)" else c.payload.buf)

/-! ## Editing -/

/-- The capacity `tx_field_insert` keeps to: a payload stops at what can be framed. -/
def TxField.insertCap (f : TxField) : ℕ :=
  if f = .payload ∧ tcmdRfMaxLen + 1 < f.size then tcmdRfMaxLen + 1 else f.size

/-- The characters `tx_field_insert` takes. -/
def TxField.accepts : TxField → UInt8 → Bool
  | .payload, ch => 32 ≤ ch && ch < 127
  | .power, ch => isDigit ch || ch == byte '.' || ch == byte '-'
  | .allowTx, _ => false

def TxField.next : TxField → TxField
  | .payload => .power
  | .power => .allowTx
  | .allowTx => .payload

def TxField.prev : TxField → TxField
  | .payload => .allowTx
  | .power => .payload
  | .allowTx => .power

namespace TxCompose

/-- `tx_field_after_edit`. -/
def afterEdit (c : TxCompose) : TxCompose :=
  { c with previewDirty := true, historyIdx := if c.focus = .payload then none else c.historyIdx }

/-- The focused field after an operation that says whether it changed the buffer; the toggle has no text. -/
def edit (c : TxCompose) (f : TextField → TextField × Bool) : TxCompose :=
  match c.focus with
  | .payload => if (f c.payload).2 then { c with payload := (f c.payload).1 }.afterEdit else c
  | .power => if (f c.power).2 then { c with power := (f c.power).1 }.afterEdit else c
  | .allowTx => c

/-- The focused field after its cursor has moved. -/
def move (c : TxCompose) (f : TextField → TextField) : TxCompose :=
  match c.focus with
  | .payload => { c with payload := f c.payload }
  | .power => { c with power := f c.power }
  | .allowTx => c

/-- `tx_field_insert`. -/
def insert (c : TxCompose) (ch : UInt8) : TxCompose :=
  if c.focus = .payload ∧ c.focus.insertCap ≤ c.payload.buf.length + 1 then
    { c with statusMsg := text "at the " ++ decimal tcmdRfMaxLen ++ text "-char RF uplink limit" }
  else if c.focus.accepts ch then c.edit (TextField.uiTfInsert c.focus.insertCap ch)
  else c

/-- The entry that `tx_history_recall` goes to, older or newer; `none` where it returns without effect. -/
def recalled (c : TxCompose) (history : List (List UInt8)) (older : Bool) : Option (Option ℕ) :=
  if c.focus ≠ .payload ∨ history = [] then none
  else
    let idx := if older then some (some (c.historyIdx.elim 0 (· + 1)))
      else c.historyIdx.map fun idx => if idx = 0 then none else some (idx - 1)
    idx.filter fun i => i.elim true (· < history.length)

/-- `tx_history_recall`. -/
def historyRecall (c : TxCompose) (history : List (List UInt8)) (older : Bool) : TxCompose :=
  match c.recalled history older with
  | none => c
  | some idx =>
    let saved := if c.historyIdx = none ∧ idx ≠ none then snprintf TxField.payload.size c.payload.buf
      else c.historySavedEdit
    let line := idx.elim saved fun i => history.getD i []
    { c with
      payload := .ofText ((snprintf TxField.payload.size line).take tcmdRfMaxLen)
      historyIdx := idx
      historySavedEdit := saved
      previewDirty := true }

/-- `tx_field_toggle` on the toggle. -/
def toggle (c : TxCompose) : TxCompose := { c with allowTx := !c.allowTx, previewDirty := true }

/-- The focus moves, and the cursor of the field it moves to is clamped. -/
def moveFocus (c : TxCompose) (f : TxField) : TxCompose := { c with focus := f }.move TextField.uiTfClampCursor

/-- The keys that edit the form; `none` for a key without effect. -/
def press (c : TxCompose) (history : List (List UInt8)) (key : ℤ) : Option TxCompose :=
  if key = keyOf '\t' then some (c.moveFocus c.focus.next)
  else if key = keyBtab then some (c.moveFocus c.focus.prev)
  else if key = keyBackspace ∨ key = 127 ∨ key = 8 then some (c.edit TextField.uiTfBackspace)
  else if key = keyDc ∨ key = 4 then some (c.edit TextField.uiTfDelete)
  else if key = 11 then some (c.edit TextField.uiTfKillToEnd)
  else if key = 23 then some (c.edit TextField.uiTfKillWordBack)
  else if key = keyLeft then some (c.move TextField.uiTfLeft)
  else if key = keyRight then some (c.move TextField.uiTfRight)
  else if key = keyHome ∨ key = 1 then some (c.move TextField.uiTfHome)
  else if key = keyEnd ∨ key = 5 then some (c.move TextField.uiTfEnd)
  else if key = keyUp then some (c.historyRecall history true)
  else if key = keyDown then some (c.historyRecall history false)
  else if key = keyOf ' ' ∧ c.focus = .allowTx then some c.toggle
  else if 32 ≤ key ∧ key < 127 then some (c.insert (UInt8.ofNat key.toNat))
  else none

end TxCompose

/-! ## Sending -/

/-- `sizeof err` of the Enter key. -/
def errSize : ℕ := 120

/-- `sizeof status_msg`. -/
def statusSize : ℕ := 160

/-- `tx_compose_validate`; `none` where it finds nothing to object to. -/
def txComposeValidate (c : TxCompose) : Option (List UInt8) :=
  let payload := c.payload.buf
  let db := atof c.power.buf
  if payload = [] then some (text "empty payload")
  else if tcmdRfMaxLen < payload.length then
    some (snprintf errSize (text "payload " ++ decimal payload.length ++ text " chars exceeds the " ++
      decimal tcmdRfMaxLen ++ text "-char RF uplink limit"))
  else if c.allowTx = false then some (text "--allow-tx is off; tick it before commit")
  else if db < 0 ∨ 359 / 4 < db then
    some (snprintf errSize (text "TX power " ++ printFixedExact 1 db ++ text " dB out of B210 range 0..89.75"))
  else none

/-- The summary of a request. -/
def commitSummary (c : TxCompose) (e : Expansion) : List UInt8 :=
  if e.status = .ok then
    text "ascii:" ++ e.out.take 150 ++ text " (replaced '" ++ c.payload.buf.take 80 ++ text "')"
  else txComposeSummary c

/-- `tx_compose_commit` at `utcMs`: the error, or the hand-off with the request staged. -/
def txComposeCommit (cfg : Config) (ses : Session) (utcMs : Int64) (c : TxCompose) (s : Handoff) :
    Except (List UInt8) Handoff :=
  let e := expansion ses utcMs c.payload.buf
  if ses.withSdr = false then .error (text "this build has no B210 support")
  else if cfg.noTx then .error (text "TX disabled by --no-tx (preview still goes to viewers)")
  else if cfg.rxSession = some false then .error (text "TX not supported by this SDR (RX-only backend)")
  else if s.pending then .error (text "previous burst still in flight")
  else if e.status ≠ .ok ∧ e.status ≠ .notPseudo then
    .error (snprintf errSize (text "SSO+ expansion failed: " ++ e.err))
  else if e.out = [] then .error (text "empty payload")
  else .ok (TxHandoff.txComposeCommit cfg s e.out (if e.status = .ok then c.payload.buf else []) (commitSummary c e))

/-! ## The modal -/

/-- A draft that viewers are sent, as far as the form decides it. -/
structure Draft where
  payload : List UInt8
  gainDb : ℚ
  allowTx : Bool
deriving DecidableEq

/-- `tx_compose_fill_event`. -/
def txComposeFillEvent (c : TxCompose) : Draft := ⟨snprintf txTextMax c.payload.buf, atof c.power.buf, c.allowTx⟩

/-- A request as it was staged: the form, the clock and the slot. The code keeps no such record. -/
structure Commit where
  form : TxCompose
  utcMs : Int64
  request : TxRequestSlot

/-- Both modals with the hand-off, what is remembered of the form, and its record: the drafts sent since it was opened
and the requests staged from it. -/
structure Desk where
  op : Operator
  tx : Tx
  form : TxCompose
  lastEditNs : ℤ
  drafts : List Draft
  commits : List Commit

/-- The form as it is opened; with a device that only receives the permission is off. -/
def openedForm (cfg : Config) (ses : Session) (tx : Tx) : TxCompose :=
  if ses.withSdr = true ∧ cfg.rxSession = some false then { txComposeInit tx with allowTx := false }
  else txComposeInit tx

/-- `tx_compose_open`, with whether there is a window. -/
def txComposeOpen (cfg : Config) (ses : Session) (ipc window : Bool) (now : ℤ) (d : Desk) : Desk :=
  if ipc = false then d
  else if d.op.composeActive then d
  else if d.op.active then d
  else if window = false then d
  else
    { d with
      op := { d.op with composeActive := true }
      form := openedForm cfg ses d.tx
      lastEditNs := now
      drafts := [] }

/-- `tx_compose_close`. -/
def txComposeClose (d : Desk) : Desk := { d with op := { d.op with composeActive := false } }

/-- The Enter key, and whether the modal stays open. -/
def enterKey (cfg : Config) (ses : Session) (now : ℤ) (utcMs : Int64) (d : Desk) : Desk × Bool :=
  match txComposeValidate d.form with
  | some err =>
    ({ d with
      form := { d.form with statusMsg := snprintf statusSize (text "rejected: " ++ err.take (statusSize - 16)) }
      lastEditNs := now }, true)
  | none =>
    match txComposeCommit cfg ses utcMs d.form d.op.handoff with
    | .error err =>
      ({ d with
        form := { d.form with statusMsg := snprintf statusSize (text "commit failed: " ++ err.take (statusSize - 20)) }
        lastEditNs := now }, true)
    | .ok h =>
      ({ d with
        op := { d.op with handoff := h }
        tx := txComposeRemember { d.tx with history := txHistoryPush d.tx.history d.form.payload.buf } d.form
        commits := d.commits ++ [⟨d.form, utcMs, h.txRequest⟩] }, false)

/-- `tx_compose_handle_key` on a key, with the characters waiting behind it, and whether the modal stays open. -/
def txComposeHandleKey (cfg : Config) (ses : Session) (now : ℤ) (utcMs : Int64) (d : Desk) (key : ℤ)
    (waiting : List ℤ) : Desk × Bool :=
  let pressed (key : ℤ) : Desk × Bool :=
    if key = keyOf '\n' ∨ key = keyOf '\r' ∨ key = keyEnter then enterKey cfg ses now utcMs d
    else
      match d.form.press d.tx.history key with
      | some c => ({ d with form := c, lastEditNs := now }, true)
      | none => (d, true)
  if d.op.composeActive = false then (d, false)
  else if key = keyErr then (d, true)
  else if key = 27 then
    match txDrainCsi waiting with
    | some translated => pressed translated
    | none => ({ d with tx := txComposeRemember d.tx d.form }, false)
  else pressed key

/-- `input_handle_keys` while the command line is closed: a modal that does not stay open is closed. -/
def inputHandleKeys (cfg : Config) (ses : Session) (now : ℤ) (utcMs : Int64) (d : Desk) (key : ℤ)
    (waiting : List ℤ) : Desk :=
  if d.op.composeActive then
    let p := txComposeHandleKey cfg ses now utcMs d key waiting
    if p.2 then p.1 else txComposeClose p.1
  else { d with op := AutoTcmdModal.inputHandleKeys ses now d.op key waiting }

/-- `g_tx_compose_debounce_ns`. -/
def gTxComposeDebounceNs : ℤ := 200000000

/-- `tx_compose_pump`. -/
def txComposePump (ipc : Bool) (now : ℤ) (d : Desk) : Desk :=
  if d.op.composeActive = false then d
  else if d.form.previewDirty = true ∧ gTxComposeDebounceNs ≤ now - d.lastEditNs then
    { d with
      form := { d.form with previewDirty := false }
      drafts := if ipc then d.drafts ++ [txComposeFillEvent d.form] else d.drafts }
  else d

/-! ## Runs -/

/-- A step of the main loop or of the TX thread: a modal opens, a key comes in, the modals tick; a request is handed
on, taken, transmitted and published. -/
inductive Action where
  | composeOpen (window : Bool) (now : ℤ)
  | key (now : ℤ) (utcMs : Int64) (key : ℤ) (waiting : List ℤ)
  | composePump (now : ℤ)
  | autoOpen (env : OpenEnv)
  | autoTick (env : TickEnv)
  | serviceRequest
  | takeRequest
  | runBurst (radio : Radio)
  | publish
  | deviceLost

section Runs
variable (sha1 : List UInt8 → Bytes 20) (cfg : Config) (ses : Session) (ipc : Bool)

/-- A step of the hand-off, with nothing staged. -/
def handOn (d : Desk) (a : TxHandoff.Action) : Desk :=
  { d with op := { d.op with handoff := TxHandoff.step sha1 cfg d.op.handoff a } }

def step (d : Desk) : Action → Desk
  | .composeOpen window now => txComposeOpen cfg ses ipc window now d
  | .key now utcMs key waiting => inputHandleKeys cfg ses now utcMs d key waiting
  | .composePump now => txComposePump ipc now d
  | .autoOpen env => { d with op := autoTcmdOpen ses env d.op }
  | .autoTick env => { d with op := autoTcmdTick ses env d.op }
  | .serviceRequest => handOn sha1 cfg d .serviceRequest
  | .takeRequest => handOn sha1 cfg d .takeRequest
  | .runBurst radio => handOn sha1 cfg d (.runBurst radio)
  | .publish => handOn sha1 cfg d .publish
  | .deviceLost => handOn sha1 cfg d .deviceLost

/-- Start-up: nothing has been composed. -/
def init : Desk where
  op := AutoTcmdModal.init
  tx := ⟨[], [], false, []⟩
  form := txComposeInit ⟨[], [], false, []⟩
  lastEditNs := 0
  drafts := []
  commits := []

def run (actions : List Action) : Desk := actions.foldl (step sha1 cfg ses ipc) init

end Runs

end SimpleSatOps.TxComposeModal
