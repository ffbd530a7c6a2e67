import SimpleSatOps.Control.OperatorAudio.Frame

/-!
# Live audio (`operator_audio.c`)

* `Sub`, `State` : the table of subscribers, the receiver's tap, and a log of what was asked, emitted and sent;
* `audioSubSink`, `emit` : the sink, and an encoder that calls it;
* `dropSlot`, `updateTap`, `sendStatus` : the parts the handlers share;
* `operatorAudioHandleCtl`, `operatorAudioPump`, `operatorAudioPrune`, `operatorAudioShutdown` : the handlers;
* `Op`, `Action` : a call with what the encoders do in it, and what happens around the calls.

The encoder is an input: whether it opens, and the blocks it emits. A build without the receiver is one in which there
never is a session.
-/

namespace SimpleSatOps.OperatorAudio
open Ipc Base64

/-! ## The state -/

/-- `SSO_AUDIO_MAX_SUBS` -/
def ssoAudioMaxSubs : ℕ := 4

/-- `AUDIO_DEFAULT_QUALITY` -/
def audioDefaultQuality : Double := .nearest false (2 / 10)

/-- `sso_client_id_t` -/
abbrev ClientId : Type := Int32

/-- What an encoder emits in one call. -/
abbrev Blocks : Type := List (List UInt8)

/-- `audio_sub_t`; `enc` and `srv` are whether the pointers are set. -/
structure Sub where
  inUse : Bool
  id : ClientId
  enc : Bool
  seq : IntKind.int.Val
  started : Bool
  sr : IntKind.int.Val
  ch : IntKind.int.Val
  srv : Bool

/-- `memset(&g_subs[i], 0, sizeof g_subs[i])`. -/
def Sub.zero : Sub := ⟨false, 0, false, IntKind.int.zero, false, IntKind.int.zero, IntKind.int.zero, false⟩

/-- `rx_session_t`: `lround` of its bandwidth, and its tap. -/
structure Receiver where
  bandwidthHz : IntKind.long.Val
  audioTapOn : Bool

/-- What happens to the streams: an encoder is asked for, emits a block, an event is handed to the server. -/
inductive Entry
  | enable (id : ClientId) (format : Format) (quality : Double) (ok : Bool)
  | block (id : ClientId) (bytes : List UInt8)
  | send (id : ClientId) (evt : Event) (line : List UInt8) (lossy : Bool)

/-- `g_subs`, `g_n`, and what the handlers read of `state_t`. -/
structure State where
  subs : Fin ssoAudioMaxSubs → Sub
  n : ℕ
  ipc : Bool
  noAudio : Bool
  rxSession : Option Receiver
  log : List Entry

variable (now : ℕ → Bytes StrField.ts.size)

def findSlot (st : State) (id : ClientId) : Option (Fin ssoAudioMaxSubs) :=
  (List.finRange ssoAudioMaxSubs).find? fun i => (st.subs i).inUse && (st.subs i).id == id

def findFreeSlot (st : State) : Option (Fin ssoAudioMaxSubs) :=
  (List.finRange ssoAudioMaxSubs).find? fun i => !(st.subs i).inUse

/-! ## The sink -/

/-- One round of the loop of `audio_sub_sink`; the clock is read at the end of the log. -/
def sendChunk (s : Sub) (log : List Entry) (chunk : List UInt8) : Run (Sub × List Entry) := do
  let start := if s.started then none else some (s.sr, s.ch)
  let (buf, _) ← ssoBase64Encode chunk (zeros audioB64Max).1
  let b64 ← asArray StrField.audioB64.size buf
  let e := audioEvent (now log.length) s.seq start b64
  let s := { s with seq := IntKind.int.narrow (s.seq.1 + 1), started := true }
  match ssoEventEncode e lineMax with
  | some line => pure (s, if s.srv then log ++ [.send s.id e line start.isNone] else log)
  | none => pure (s, log)

/-- `audio_sub_sink`; an empty block makes an empty chunk. -/
def audioSubSink (s : Sub) (log : List Entry) (bytes : List UInt8) : Run (Sub × List Entry) := do
  let (s, log) ← sendChunk now s log (bytes.take audioRawMax)
  if audioRawMax < bytes.length then audioSubSink s log (bytes.drop audioRawMax) else pure (s, log)
termination_by bytes.length
decreasing_by
  rw [List.length_drop]
  unfold audioRawMax at *
  omega

/-- An encoder hands its blocks to the sink in order. -/
def emit (s : Sub) (log : List Entry) (blocks : Blocks) : Run (Sub × List Entry) :=
  blocks.foldlM (fun (s, log) bytes => audioSubSink now s (log ++ [.block s.id bytes]) bytes) (s, log)

/-- `ogg_stream_write` and `ogg_stream_close`: nothing without an encoder. -/
def oggStream (s : Sub) (log : List Entry) (blocks : Blocks) : Run (Sub × List Entry) :=
  if s.enc then emit now s log blocks else pure (s, log)

/-! ## The handlers -/

/-- The count of slots one lower. -/
def State.decrement (st : State) : State := { st with n := if 0 < st.n then st.n - 1 else st.n }

/-- `drop_slot`, and what the encoder emits as it is closed. -/
def dropSlot (i : Fin ssoAudioMaxSubs) (tail : Blocks) (st : State) : Run State :=
  if (st.subs i).inUse = false then pure st
  else do
    let (_, log) ← oggStream now (st.subs i) st.log tail
    pure { st with subs := Function.update st.subs i .zero, log := log }.decrement

def updateTap (st : State) : State :=
  { st with rxSession := st.rxSession.map fun rx => { rx with audioTapOn := 0 < st.n } }

/-- `snprintf(buf, n, "%s", s)` into zeros. -/
def printed (n : ℕ) (s : List UInt8) : Bytes n := ⟨(snprintf n s ++ (zeros n).1).take n, by simp [zeros]⟩

/-- The event of `send_status`. -/
def statusEvent (ts : Bytes StrField.ts.size) (audioState : String) (reason : Option String) (format : Format) :
    Event :=
  let e := (ssoEventInit ts .audioStatus).setStr .audioState (printed _ (text audioState))
  let e := match reason with
    | some r => e.setStr .reason (printed _ (text r))
    | none => e
  (e.setInt .audioSr format.1).setInt .audioCh format.2

def sendStatus (id : ClientId) (audioState : String) (reason : Option String) (format : Format) (st : State) : State :=
  let e := statusEvent (now st.log.length) audioState reason format
  match ssoEventEncode e lineMax with
  | some line => { st with log := st.log ++ [.send id e line false] }
  | none => st

/-- No rate, no channels. -/
def noFormat : Format := (IntKind.int.zero, IntKind.int.zero)

/-- The rate and the channels of a stream. -/
def streamFormat (rx : Receiver) : Format :=
  let sr := IntKind.int.narrow rx.bandwidthHz.1
  (if sr.1 ≤ 0 then IntKind.int.narrow 96000 else sr, IntKind.int.narrow 1)

def streamQuality (evt : Event) : Double :=
  if (evt.dbl .audioQuality).isPos then evt.dbl .audioQuality else audioDefaultQuality

/-- The rest of the enable, in slot `i`: the old encoder is closed and a new one asked for. -/
def restart (id : ClientId) (i : Fin ssoAudioMaxSubs) (isNew : Bool) (format : Format) (quality : Double)
    (tail head : Blocks) (opened : Bool) (st : State) : Run State := do
  let (s, log) ← oggStream now (st.subs i) st.log tail
  let s : Sub :=
    { s with
      id := id, sr := format.1, ch := format.2, seq := IntKind.int.zero, started := false, srv := true }
  -- the new encoder emits its header pages while it is opened
  let (s, log) ← emit now s (log ++ [.enable id format quality opened]) head
  let s := { s with enc := opened }
  if opened = false then
    let st :=
      if isNew then { st with subs := Function.update st.subs i s, log := log }
      else { st with subs := Function.update st.subs i { s with inUse := false }, log := log }.decrement
    pure (sendStatus now id "unavailable" (some "no audio support in this build") noFormat (updateTap st))
  else
    let st :=
      if isNew then { st with subs := Function.update st.subs i { s with inUse := true }, n := st.n + 1, log := log }
      else { st with subs := Function.update st.subs i s, log := log }
    pure (sendStatus now id "on" none format (updateTap st))

def operatorAudioHandleCtl (id : ClientId) (evt : Event) (tail head : Blocks) (opened : Bool) (st : State) :
    Run State :=
  if st.ipc = false then pure st
  else if evt.flag .audioEnable = false then do
    let st ← match findSlot st id with
      | some i => dropSlot now i tail st
      | none => pure st
    pure (sendStatus now id "off" none noFormat (updateTap st))
  else if st.noAudio then pure (sendStatus now id "unavailable" (some "audio disabled") noFormat st)
  else match st.rxSession with
    | none => pure (sendStatus now id "unavailable" (some "no receiver") noFormat st)
    | some rx =>
      match findSlot st id with
      | some i => restart now id i false (streamFormat rx) (streamQuality evt) tail head opened st
      | none =>
        match findFreeSlot st with
        | some i => restart now id i true (streamFormat rx) (streamQuality evt) tail head opened st
        | none => pure (sendStatus now id "unavailable" (some "too many listeners") noFormat st)

/-- A batch of samples for every subscriber. -/
def pumpBatch (st : State) (writes : Fin ssoAudioMaxSubs → Blocks) : Run State :=
  (List.finRange ssoAudioMaxSubs).foldlM (fun st i =>
    if (st.subs i).inUse = false then pure st
    else do
      let (s, log) ← oggStream now { st.subs i with srv := st.ipc } st.log (writes i)
      pure { st with subs := Function.update st.subs i s, log := log }) st

/-- `operator_audio_pump`: what the encoders emit for every batch that is read from the ring. -/
def operatorAudioPump (batches : List (Fin ssoAudioMaxSubs → Blocks)) (st : State) : Run State :=
  if st.n = 0 ∨ st.rxSession.isNone then pure st else batches.foldlM (pumpBatch now) st

/-- `operator_audio_prune`, with the ids of the clients that are still there. -/
def operatorAudioPrune (clients : List ClientId) (tails : Fin ssoAudioMaxSubs → Blocks) (st : State) : Run State :=
  if st.n = 0 ∨ st.ipc = false then pure st
  else do
    let alive := clients.filterMap (findSlot st)
    let (st, dropped) ← (List.finRange ssoAudioMaxSubs).foldlM (fun (st, dropped) i =>
      if (st.subs i).inUse ∧ i ∉ alive then do
        let st ← dropSlot now i (tails i) st
        pure (st, true)
      else pure (st, dropped)) (st, false)
    pure (if dropped then updateTap st else st)

def operatorAudioShutdown (tails : Fin ssoAudioMaxSubs → Blocks) (st : State) : Run State := do
  let st ← (List.finRange ssoAudioMaxSubs).foldlM (fun st i => dropSlot now i (tails i) st) st
  pure (updateTap { st with n := 0 })

/-! ## Runs -/

/-- A call, with what the encoders do in it. -/
inductive Op
  | handleCtl (id : ClientId) (evt : Event) (tail head : Blocks) (opened : Bool)
  | pump (batches : List (Fin ssoAudioMaxSubs → Blocks))
  | prune (clients : List ClientId) (tails : Fin ssoAudioMaxSubs → Blocks)
  | shutdown (tails : Fin ssoAudioMaxSubs → Blocks)

def Op.run (st : State) : Op → Run State
  | .handleCtl id evt tail head opened => operatorAudioHandleCtl now id evt tail head opened st
  | .pump batches => operatorAudioPump now batches st
  | .prune clients tails => operatorAudioPrune now clients tails st
  | .shutdown tails => operatorAudioShutdown now tails st

/-- A call, or a change of the receiver between two calls. -/
inductive Action
  | call (op : Op)
  | receiver (noAudio : Bool) (rxSession : Option Receiver)

def Action.run (st : State) : Action → Run State
  | .call op => op.run now st
  | .receiver noAudio rxSession => pure { st with noAudio := noAudio, rxSession := rxSession }

/-- The program before the first call. -/
def initial (ipc noAudio : Bool) (rxSession : Option Receiver) : State :=
  ⟨fun _ => .zero, 0, ipc, noAudio, rxSession, []⟩

end SimpleSatOps.OperatorAudio
