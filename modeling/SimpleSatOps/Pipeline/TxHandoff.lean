import SimpleSatOps.Lib.CText
import SimpleSatOps.Pipeline.TxBurst

/-!
# The hand-off of a burst to the TX thread

The main loop stages a request in `tx_request`, hands it to the session's slot and polls for the result; the TX thread
takes it from the slot, transmits and publishes.

* `txBurstServiceRequest`, `rxSessionSubmitBurst`, `rxSessionPollBurst`, `takeRequest`, `runBurst`, `publish` : the
  steps of the two threads;
* `Phase` : the combinations of flags that occur, with what has been logged;
* `phase_step`, `phase_run` : they are kept by every step of either thread;
* `handoff_rounds` : every request gets one result, its own.
-/

namespace SimpleSatOps.TxHandoff
open Csp TxBurst

/-! ## Requests and bursts -/

/-- `tx_request_slot_t` as far as the hand-off reads it; the payload is `payload[0 .. payload_len)`. -/
structure TxRequestSlot where
  payload : List UInt8
  isHex : Bool
  cspHdr : CspV1Header
  repeats : ℤ
  ssoOrigin : List UInt8
  txSource : List UInt8
  summary : List UInt8
deriving DecidableEq

/-- `rx_burst_result_t`; the first four are `tx_burst_result_t`. -/
inductive RxBurstResult where
  | ok | noCore | frameBuildFailed | uhdError | aborted
deriving DecidableEq

/-- `SSO_TX_TEXT_MAX`, the size of every summary buffer. -/
def txTextMax : ℕ := 256

/-- `sizeof payload`. -/
def payloadCap : ℕ := 2048

/-- `tx_burst_summarize`. -/
def txBurstSummarize (payload : List UInt8) (isHex : Bool) (outSize : ℕ) : List UInt8 :=
  if isHex = false then snprintf outSize (text "ascii:" ++ cstr payload)
  else
    let hexbuf := (payload.take 16).flatMap hexByte
    snprintf outSize (text "hex:" ++ if 16 < payload.length then hexbuf ++ text "..." else hexbuf)

/-- The summary `tx_burst_run` writes: the payload, and the `SSO+` line it was expanded from. -/
def burstSummary (req : TxRequestSlot) : List UInt8 :=
  let s := txBurstSummarize req.payload req.isHex txTextMax
  if req.ssoOrigin = [] then s else snprintf txTextMax (s ++ text " (replaced '" ++ req.ssoOrigin ++ text "')")

/-- What the device makes of a burst: whether there is one, whether the samples could be built from the frame, and
the return code of `b210_rx_tx_core_burst`. -/
structure Radio where
  core : Bool
  iqBuilt : Bool
  rc : ℤ
deriving DecidableEq

section Burst
variable (sha1 : List UInt8 → Bytes 20)

/-- The frame of a burst; no key is passed on as NULL. -/
def burstFrame (req : TxRequestSlot) (key : List UInt8) : Option (List UInt8) :=
  txBurstBuildFrame sha1 req.payload req.cspHdr (if key = [] then none else some key) 4200

/-- `tx_burst_run`. -/
def txBurstRun (radio : Radio) (req : TxRequestSlot) (key : List UInt8) : RxBurstResult :=
  if radio.core = false then .noCore
  else
    match burstFrame sha1 req key with
    | none => .frameBuildFailed
    | some _ => if radio.iqBuilt = false then .frameBuildFailed else if radio.rc = 0 then .ok else .uhdError

/-! ## State -/

/-- The configuration of a session: `--no-tx`, `--tx-dry-run`, the keyfile, and the receive session with whether its
device can transmit. -/
structure Config where
  noTx : Bool
  txDryRun : Bool
  hmacKey : List UInt8
  hmacKey_le : hmacKey.length ≤ 64
  rxSession : Option Bool

/-- The fields of `rx_session_t` the two threads share. -/
structure RxSession where
  burstReqPending : Bool
  burstInFlight : Bool
  burstComplete : Bool
  burstReq : TxRequestSlot
  burstHmacKey : List UInt8
  burstResult : RxBurstResult
  burstSummary : List UInt8
  deviceLost : Bool

/-- Where the TX thread stands: waiting for a request, about to run the one it took, or about to publish. -/
inductive TxThread where
  | waiting
  | took (req : TxRequestSlot) (key : List UInt8) (lost : Bool)
  | ran (result : RxBurstResult) (summary : List UInt8)

/-- What happens to requests, in order. -/
inductive TxEvent where
  | staged (req : TxRequestSlot)
  | burst (req : TxRequestSlot) (key : List UInt8) (lost : Bool) (result : RxBurstResult)
  | commandSent (origin summary : List UInt8)
  | notSent (origin summary reason : List UInt8)

structure Handoff where
  pending : Bool
  txRequest : TxRequestSlot
  txInflight : Bool
  rx : RxSession
  thread : TxThread
  log : List TxEvent

/-! ## The main loop -/

/-- The header both producers put on a telecommand. -/
def telecommandHdr : CspV1Header := ⟨2, 10, 1, 7, 16, 0⟩

/-- The slot as both producers fill it. -/
def telecommandRequest (wire ssoOrigin txSource summary : List UInt8) : TxRequestSlot where
  payload := wire.take payloadCap
  isHex := false
  cspHdr := telecommandHdr
  repeats := 1
  ssoOrigin := snprintf 256 ssoOrigin
  txSource := snprintf 16 txSource
  summary := snprintf txTextMax summary

def Handoff.stage (s : Handoff) (req : TxRequestSlot) : Handoff :=
  { s with pending := true, txRequest := req, log := s.log ++ [.staged req] }

/-- `tx_compose_commit`, behind the expansion of the payload to `wire`. -/
def txComposeCommit (cfg : Config) (s : Handoff) (wire ssoOrigin summary : List UInt8) : Handoff :=
  if cfg.noTx then s
  else if cfg.rxSession = some false then s
  else if s.pending then s
  else if wire = [] then s
  else s.stage (telecommandRequest wire ssoOrigin (text "manual send") summary)

/-- The staging part of `auto_tcmd_tick`. -/
def autoTcmdStage (s : Handoff) (wire ssoOrigin summary : List UInt8) : Handoff :=
  if s.pending then s
  else if tcmdRfMaxLen < wire.length then s
  else s.stage (telecommandRequest wire ssoOrigin (text "auto-cmd (file)") summary)

/-- The key as it is copied into the slot. -/
def slotKey (key : List UInt8) : List UInt8 := if key.length ≤ 128 then key else []

/-- `rx_session_submit_burst`; `none` for `-1`. -/
def rxSessionSubmitBurst (rx : RxSession) (req : TxRequestSlot) (key : List UInt8) : Option RxSession :=
  if rx.burstReqPending || rx.burstInFlight || rx.burstComplete then none
  else some { rx with burstReq := req, burstHmacKey := slotKey key, burstComplete := false, burstReqPending := true }

/-- `rx_session_poll_burst`; `none` while there is no result. -/
def rxSessionPollBurst (rx : RxSession) : Option (RxSession × RxBurstResult × List UInt8) :=
  if rx.burstComplete then some ({ rx with burstComplete := false }, rx.burstResult, rx.burstSummary) else none

/-- The outcome text of a burst. -/
def outcome : RxBurstResult → List UInt8
  | .ok => text "ok"
  | .noCore => text "rejected: no B210"
  | .frameBuildFailed => text "rejected: frame build"
  | .uhdError => text "uhd-err"
  | .aborted => text "rejected: aborted"

/-- The end of `tx_burst_service_request`: the event is emitted and the slot freed. -/
def Handoff.finish (s : Handoff) (onAir : Bool) (summary reason : List UInt8) : Handoff :=
  { s with
    pending := false
    log := s.log ++ [if onAir then .commandSent s.txRequest.txSource summary
      else .notSent s.txRequest.txSource summary reason] }

/-- `tx_burst_service_request`. -/
def txBurstServiceRequest (cfg : Config) (s : Handoff) : Handoff :=
  if s.pending = false then s
  else if cfg.txDryRun then s.finish false s.txRequest.summary (text "dry-run")
  else if cfg.hmacKey.length = 0 then
    s.finish false s.txRequest.summary (text "rejected: no HMAC key (see banner)")
  else
    match cfg.rxSession with
    | none => s.finish false s.txRequest.summary (text "rejected: no B210")
    | some false => s.finish false s.txRequest.summary (text "rejected: RX-only SDR")
    | some true =>
      if s.txInflight = false then
        match rxSessionSubmitBurst s.rx s.txRequest cfg.hmacKey with
        | some rx => { s with rx := rx, txInflight := true }
        | none => s.finish false s.txRequest.summary (text "rejected: rx_session busy")
      else
        match rxSessionPollBurst s.rx with
        | some (rx, result, summary) =>
          { s with rx := rx, txInflight := false }.finish (result == RxBurstResult.ok) summary (outcome result)
        | none => s

/-! ## The TX thread -/

/-- The first critical section of `rx_session_tx_thread_fn`: the request is taken from the slot. -/
def takeRequest (s : Handoff) : Handoff :=
  match s.thread with
  | .waiting =>
    if s.rx.burstReqPending then
      { s with
        rx := { s.rx with burstReqPending := false, burstInFlight := true }
        thread := .took s.rx.burstReq s.rx.burstHmacKey s.rx.deviceLost }
    else s
  | _ => s

/-- Between the critical sections: the burst, unless the device was lost. -/
def runBurst (radio : Radio) (s : Handoff) : Handoff :=
  match s.thread with
  | .took req key lost =>
    let result := if lost then .noCore else txBurstRun sha1 radio req key
    let summary := if lost then text "rejected: SDR disconnected" else burstSummary req
    { s with thread := .ran result summary, log := s.log ++ [.burst req key lost result] }
  | _ => s

/-- The second critical section: the result is published. -/
def publish (s : Handoff) : Handoff :=
  match s.thread with
  | .ran result summary =>
    { s with
      rx := { s.rx with
        burstResult := result, burstSummary := summary, burstInFlight := false, burstComplete := true }
      thread := .waiting }
  | _ => s

/-! ## Runs -/

/-- A step of one of the threads, or the loss of the device. A step whose thread stands elsewhere does nothing. -/
inductive Action where
  | composeCommit (wire ssoOrigin summary : List UInt8)
  | autoTcmdStage (wire ssoOrigin summary : List UInt8)
  | serviceRequest
  | takeRequest
  | runBurst (radio : Radio)
  | publish
  | deviceLost

def step (cfg : Config) (s : Handoff) : Action → Handoff
  | .composeCommit wire ssoOrigin summary => txComposeCommit cfg s wire ssoOrigin summary
  | .autoTcmdStage wire ssoOrigin summary => TxHandoff.autoTcmdStage s wire ssoOrigin summary
  | .serviceRequest => txBurstServiceRequest cfg s
  | .takeRequest => TxHandoff.takeRequest s
  | .runBurst radio => TxHandoff.runBurst sha1 radio s
  | .publish => TxHandoff.publish s
  | .deviceLost => { s with rx := { s.rx with deviceLost := true } }

/-- Start-up: nothing staged, the slot empty; the other fields are zeroed. -/
def init : Handoff where
  pending := false
  txRequest := ⟨[], false, ⟨0, 0, 0, 0, 0, 0⟩, 0, [], [], []⟩
  txInflight := false
  rx := ⟨false, false, false, ⟨[], false, ⟨0, 0, 0, 0, 0, 0⟩, 0, [], [], []⟩, [], .ok, [], false⟩
  thread := .waiting
  log := []

def run (cfg : Config) (actions : List Action) : Handoff := actions.foldl (step sha1 cfg) init

/-! ## Rounds -/

/-- What the main loop answers without handing the request on. -/
def refusals : List (List UInt8) :=
  [text "dry-run", text "rejected: no HMAC key (see banner)", text "rejected: no B210", text "rejected: RX-only SDR"]

/-- The events of one request, from its staging to its result: it is refused, or there is one burst of it, under the
session's key, whose result is reported. It counts as sent exactly when the burst went well. -/
inductive Round (cfg : Config) : List TxEvent → Prop
  | refused {req : TxRequestSlot} {reason : List UInt8} (hreason : reason ∈ refusals) :
      Round cfg [.staged req, .notSent req.txSource req.summary reason]
  | sent {req : TxRequestSlot} {radio : Radio} (hok : txBurstRun sha1 radio req cfg.hmacKey = .ok) :
      Round cfg [.staged req, .burst req cfg.hmacKey false .ok, .commandSent req.txSource (burstSummary req)]
  | failed {req : TxRequestSlot} {radio : Radio} {result : RxBurstResult}
      (hrun : txBurstRun sha1 radio req cfg.hmacKey = result) (hbad : result ≠ .ok) :
      Round cfg [.staged req, .burst req cfg.hmacKey false result,
        .notSent req.txSource (burstSummary req) (outcome result)]
  | lost {req : TxRequestSlot} :
      Round cfg [.staged req, .burst req cfg.hmacKey true .noCore,
        .notSent req.txSource (text "rejected: SDR disconnected") (outcome .noCore)]

/-- Completed rounds one after the other. -/
def Rounds (cfg : Config) (log : List TxEvent) : Prop :=
  ∃ rounds : List (List TxEvent), log = rounds.flatten ∧ ∀ events ∈ rounds, Round sha1 cfg events

/-- The session's slot when it is free. -/
def RxSession.Free (rx : RxSession) : Prop :=
  rx.burstReqPending = false ∧ rx.burstInFlight = false ∧ rx.burstComplete = false

/-- What a burst of `req` under the session's key may end in. -/
inductive Ran (cfg : Config) (req : TxRequestSlot) : Bool → RxBurstResult → List UInt8 → Prop
  | radio (radio : Radio) : Ran cfg req false (txBurstRun sha1 radio req cfg.hmacKey) (burstSummary req)
  | lost : Ran cfg req true .noCore (text "rejected: SDR disconnected")

/-- A configuration in which requests are handed on. -/
def Config.Live (cfg : Config) : Prop := cfg.txDryRun = false ∧ cfg.hmacKey.length ≠ 0 ∧ cfg.rxSession = some true

/-- The combinations of flags that occur, in the order a request goes through them, and the log in each. -/
inductive Phase (cfg : Config) (s : Handoff) : Prop
  | idle (hpending : s.pending = false) (hinflight : s.txInflight = false) (hfree : s.rx.Free)
      (hthread : s.thread = .waiting) (hlog : Rounds sha1 cfg s.log)
  | staged (hpending : s.pending = true) (hinflight : s.txInflight = false) (hfree : s.rx.Free)
      (hthread : s.thread = .waiting)
      (hlog : ∃ log, Rounds sha1 cfg log ∧ s.log = log ++ [.staged s.txRequest])
  | queued (hlive : cfg.Live) (hpending : s.pending = true) (hinflight : s.txInflight = true)
      (hreq : s.rx.burstReqPending = true)
      (hfly : s.rx.burstInFlight = false) (hcomplete : s.rx.burstComplete = false)
      (hslot : s.rx.burstReq = s.txRequest ∧ s.rx.burstHmacKey = cfg.hmacKey) (hthread : s.thread = .waiting)
      (hlog : ∃ log, Rounds sha1 cfg log ∧ s.log = log ++ [.staged s.txRequest])
  | taken (lost : Bool) (hlive : cfg.Live) (hpending : s.pending = true) (hinflight : s.txInflight = true)
      (hreq : s.rx.burstReqPending = false) (hfly : s.rx.burstInFlight = true) (hcomplete : s.rx.burstComplete = false)
      (hthread : s.thread = .took s.txRequest cfg.hmacKey lost)
      (hlog : ∃ log, Rounds sha1 cfg log ∧ s.log = log ++ [.staged s.txRequest])
  | ran (lost : Bool) (result : RxBurstResult) (summary : List UInt8)
      (hran : Ran sha1 cfg s.txRequest lost result summary)
      (hlive : cfg.Live) (hpending : s.pending = true) (hinflight : s.txInflight = true)
      (hreq : s.rx.burstReqPending = false) (hfly : s.rx.burstInFlight = true) (hcomplete : s.rx.burstComplete = false)
      (hthread : s.thread = .ran result summary)
      (hlog : ∃ log, Rounds sha1 cfg log ∧
        s.log = log ++ [.staged s.txRequest, .burst s.txRequest cfg.hmacKey lost result])
  | complete (lost : Bool) (hran : Ran sha1 cfg s.txRequest lost s.rx.burstResult s.rx.burstSummary)
      (hlive : cfg.Live) (hpending : s.pending = true) (hinflight : s.txInflight = true)
      (hreq : s.rx.burstReqPending = false) (hfly : s.rx.burstInFlight = false) (hcomplete : s.rx.burstComplete = true)
      (hthread : s.thread = .waiting)
      (hlog : ∃ log, Rounds sha1 cfg log ∧
        s.log = log ++ [.staged s.txRequest, .burst s.txRequest cfg.hmacKey lost s.rx.burstResult])

/-! ## Every step keeps the phases -/

variable {sha1} {cfg : Config} {s : Handoff}

theorem Rounds.nil : Rounds sha1 cfg [] := ⟨[], rfl, fun _ h => absurd h List.not_mem_nil⟩

theorem Rounds.append {log events : List TxEvent} (h : Rounds sha1 cfg log) (hround : Round sha1 cfg events) :
    Rounds sha1 cfg (log ++ events) := by
  obtain ⟨rounds, rfl, hall⟩ := h
  refine ⟨rounds ++ [events], by simp, fun x hx => ?_⟩
  rcases List.mem_append.mp hx with hx | hx
  · exact hall x hx
  · exact List.mem_singleton.mp hx ▸ hround

theorem slotKey_hmacKey (cfg : Config) : slotKey cfg.hmacKey = cfg.hmacKey :=
  if_pos (cfg.hmacKey_le.trans (by decide))

theorem phase_init (cfg : Config) : Phase sha1 cfg init := .idle rfl rfl ⟨rfl, rfl, rfl⟩ rfl .nil

/-- A request is staged only when nothing else is under way. -/
theorem phase_stage (h : Phase sha1 cfg s) (hp : s.pending = false) (req : TxRequestSlot) :
    Phase sha1 cfg (s.stage req) := by
  cases h with
  | idle hpending hinflight hfree hthread hlog => exact .staged rfl hinflight hfree hthread ⟨s.log, hlog, rfl⟩
  | staged hpending => exact absurd hp (by simp [hpending])
  | queued hlive hpending => exact absurd hp (by simp [hpending])
  | taken lost hlive hpending => exact absurd hp (by simp [hpending])
  | ran lost result summary hran hlive hpending => exact absurd hp (by simp [hpending])
  | complete lost hran hlive hpending => exact absurd hp (by simp [hpending])

theorem phase_composeCommit (h : Phase sha1 cfg s) (wire ssoOrigin summary : List UInt8) :
    Phase sha1 cfg (txComposeCommit cfg s wire ssoOrigin summary) := by
  unfold txComposeCommit
  split_ifs with _ _ hp
  · exact h
  · exact h
  · exact h
  · exact h
  · exact phase_stage h (Bool.eq_false_of_not_eq_true hp) _

theorem phase_autoTcmdStage (h : Phase sha1 cfg s) (wire ssoOrigin summary : List UInt8) :
    Phase sha1 cfg (autoTcmdStage s wire ssoOrigin summary) := by
  unfold autoTcmdStage
  split_ifs with hp
  · exact h
  · exact h
  · exact phase_stage h (Bool.eq_false_of_not_eq_true hp) _

/-- A staged request that is not handed on is reported as not sent. -/
theorem phase_refuse (hinflight : s.txInflight = false) (hfree : s.rx.Free) (hthread : s.thread = .waiting)
    (hlog : ∃ log, Rounds sha1 cfg log ∧ s.log = log ++ [.staged s.txRequest]) {reason : List UInt8}
    (hreason : reason ∈ refusals) : Phase sha1 cfg (s.finish false s.txRequest.summary reason) := by
  obtain ⟨log, hrounds, heq⟩ := hlog
  refine .idle rfl hinflight hfree hthread ?_
  have hround : Rounds sha1 cfg
      (log ++ [.staged s.txRequest, .notSent s.txRequest.txSource s.txRequest.summary reason]) :=
    hrounds.append (.refused hreason)
  simpa [Handoff.finish, heq] using hround

/-- The result of a burst is reported for the request it was built from. -/
theorem round_of_ran {req : TxRequestSlot} {lost : Bool} {result : RxBurstResult} {summary : List UInt8}
    (h : Ran sha1 cfg req lost result summary) :
    Round sha1 cfg [.staged req, .burst req cfg.hmacKey lost result,
      if (result == RxBurstResult.ok) = true then .commandSent req.txSource summary
      else .notSent req.txSource summary (outcome result)] := by
  cases h with
  | radio radio =>
      by_cases hok : txBurstRun sha1 radio req cfg.hmacKey = .ok
      · rw [hok]
        exact .sent hok
      · rw [if_neg (by simpa using hok)]
        exact .failed rfl hok
  | lost => exact .lost

theorem serviceRequest_of_not_pending (hp : s.pending = false) : txBurstServiceRequest cfg s = s := if_pos hp

/-- A tick that hands on or polls. -/
theorem serviceRequest_of_live (hlive : cfg.Live) (hpending : s.pending = true) :
    txBurstServiceRequest cfg s =
      if s.txInflight = false then
        match rxSessionSubmitBurst s.rx s.txRequest cfg.hmacKey with
        | some rx => { s with rx := rx, txInflight := true }
        | none => s.finish false s.txRequest.summary (text "rejected: rx_session busy")
      else
        match rxSessionPollBurst s.rx with
        | some (rx, result, summary) =>
          { s with rx := rx, txInflight := false }.finish (result == RxBurstResult.ok) summary (outcome result)
        | none => s := by
  obtain ⟨hdry, hkey, hsession⟩ := hlive
  unfold txBurstServiceRequest
  rw [hpending, if_neg (by decide), hdry, if_neg (by decide), if_neg hkey, hsession]

theorem serviceRequest_wait (hlive : cfg.Live) (hpending : s.pending = true) (hinflight : s.txInflight = true)
    (hcomplete : s.rx.burstComplete = false) : txBurstServiceRequest cfg s = s := by
  rw [serviceRequest_of_live hlive hpending, hinflight, if_neg (by decide)]
  simp [rxSessionPollBurst, hcomplete]

theorem phase_serviceRequest (h : Phase sha1 cfg s) : Phase sha1 cfg (txBurstServiceRequest cfg s) := by
  cases h with
  | idle hpending hinflight hfree hthread hlog =>
      rw [serviceRequest_of_not_pending hpending]
      exact .idle hpending hinflight hfree hthread hlog
  | staged hpending hinflight hfree hthread hlog =>
      by_cases hlive : cfg.Live
      · rw [serviceRequest_of_live hlive hpending, if_pos hinflight]
        obtain ⟨h1, h2, h3⟩ := hfree
        simp only [rxSessionSubmitBurst, h1, h2, h3, Bool.or_self, Bool.false_eq_true, if_false]
        exact .queued hlive hpending rfl rfl rfl rfl ⟨rfl, slotKey_hmacKey cfg⟩ hthread hlog
      · unfold txBurstServiceRequest
        rw [hpending, if_neg (by decide)]
        split_ifs with hdry hkey
        · exact phase_refuse hinflight hfree hthread hlog (by decide)
        · exact phase_refuse hinflight hfree hthread hlog (by decide)
        · cases hsession : cfg.rxSession with
          | none => exact phase_refuse hinflight hfree hthread hlog (by decide)
          | some canTx =>
              cases canTx with
              | false => exact phase_refuse hinflight hfree hthread hlog (by decide)
              | true => exact absurd ⟨Bool.eq_false_of_not_eq_true hdry, hkey, hsession⟩ hlive
  | queued hlive hpending hinflight hreq hfly hcomplete hslot hthread hlog =>
      rw [serviceRequest_wait hlive hpending hinflight hcomplete]
      exact .queued hlive hpending hinflight hreq hfly hcomplete hslot hthread hlog
  | taken lost hlive hpending hinflight hreq hfly hcomplete hthread hlog =>
      rw [serviceRequest_wait hlive hpending hinflight hcomplete]
      exact .taken lost hlive hpending hinflight hreq hfly hcomplete hthread hlog
  | ran lost result summary hran hlive hpending hinflight hreq hfly hcomplete hthread hlog =>
      rw [serviceRequest_wait hlive hpending hinflight hcomplete]
      exact .ran lost result summary hran hlive hpending hinflight hreq hfly hcomplete hthread hlog
  | complete lost hran hlive hpending hinflight hreq hfly hcomplete hthread hlog =>
      rw [serviceRequest_of_live hlive hpending, hinflight, if_neg (by decide)]
      simp only [rxSessionPollBurst, hcomplete, if_true]
      obtain ⟨log, hrounds, heq⟩ := hlog
      refine .idle rfl rfl ⟨hreq, hfly, rfl⟩ hthread ?_
      have hround := hrounds.append (round_of_ran hran)
      simpa [Handoff.finish, heq] using hround

theorem phase_takeRequest (h : Phase sha1 cfg s) : Phase sha1 cfg (takeRequest s) := by
  unfold takeRequest
  cases h with
  | idle hpending hinflight hfree hthread hlog =>
      simp only [hthread, hfree.1, Bool.false_eq_true, if_false]
      exact .idle hpending hinflight hfree hthread hlog
  | staged hpending hinflight hfree hthread hlog =>
      simp only [hthread, hfree.1, Bool.false_eq_true, if_false]
      exact .staged hpending hinflight hfree hthread hlog
  | queued hlive hpending hinflight hreq hfly hcomplete hslot hthread hlog =>
      simp only [hthread, hreq, if_true, hslot.1, hslot.2]
      exact .taken s.rx.deviceLost hlive hpending hinflight rfl rfl hcomplete rfl hlog
  | taken lost hlive hpending hinflight hreq hfly hcomplete hthread hlog =>
      simp only [hthread]
      exact .taken lost hlive hpending hinflight hreq hfly hcomplete hthread hlog
  | ran lost result summary hran hlive hpending hinflight hreq hfly hcomplete hthread hlog =>
      simp only [hthread]
      exact .ran lost result summary hran hlive hpending hinflight hreq hfly hcomplete hthread hlog
  | complete lost hran hlive hpending hinflight hreq hfly hcomplete hthread hlog =>
      simp only [hthread, hreq, Bool.false_eq_true, if_false]
      exact .complete lost hran hlive hpending hinflight hreq hfly hcomplete hthread hlog

theorem phase_runBurst (h : Phase sha1 cfg s) (radio : Radio) : Phase sha1 cfg (runBurst sha1 radio s) := by
  unfold runBurst
  cases h with
  | idle hpending hinflight hfree hthread hlog =>
      simp only [hthread]
      exact .idle hpending hinflight hfree hthread hlog
  | staged hpending hinflight hfree hthread hlog =>
      simp only [hthread]
      exact .staged hpending hinflight hfree hthread hlog
  | queued hlive hpending hinflight hreq hfly hcomplete hslot hthread hlog =>
      simp only [hthread]
      exact .queued hlive hpending hinflight hreq hfly hcomplete hslot hthread hlog
  | taken lost hlive hpending hinflight hreq hfly hcomplete hthread hlog =>
      simp only [hthread]
      obtain ⟨log, hrounds, heq⟩ := hlog
      cases lost with
      | false =>
          exact .ran false _ _ (.radio radio) hlive hpending hinflight hreq hfly hcomplete rfl
            ⟨log, hrounds, by simp [heq]⟩
      | true => exact .ran true _ _ .lost hlive hpending hinflight hreq hfly hcomplete rfl ⟨log, hrounds, by simp [heq]⟩
  | ran lost result summary hran hlive hpending hinflight hreq hfly hcomplete hthread hlog =>
      simp only [hthread]
      exact .ran lost result summary hran hlive hpending hinflight hreq hfly hcomplete hthread hlog
  | complete lost hran hlive hpending hinflight hreq hfly hcomplete hthread hlog =>
      simp only [hthread]
      exact .complete lost hran hlive hpending hinflight hreq hfly hcomplete hthread hlog

theorem phase_publish (h : Phase sha1 cfg s) : Phase sha1 cfg (publish s) := by
  unfold publish
  cases h with
  | idle hpending hinflight hfree hthread hlog =>
      simp only [hthread]
      exact .idle hpending hinflight hfree hthread hlog
  | staged hpending hinflight hfree hthread hlog =>
      simp only [hthread]
      exact .staged hpending hinflight hfree hthread hlog
  | queued hlive hpending hinflight hreq hfly hcomplete hslot hthread hlog =>
      simp only [hthread]
      exact .queued hlive hpending hinflight hreq hfly hcomplete hslot hthread hlog
  | taken lost hlive hpending hinflight hreq hfly hcomplete hthread hlog =>
      simp only [hthread]
      exact .taken lost hlive hpending hinflight hreq hfly hcomplete hthread hlog
  | ran lost result summary hran hlive hpending hinflight hreq hfly hcomplete hthread hlog =>
      simp only [hthread]
      exact .complete lost hran hlive hpending hinflight hreq rfl rfl rfl hlog
  | complete lost hran hlive hpending hinflight hreq hfly hcomplete hthread hlog =>
      simp only [hthread]
      exact .complete lost hran hlive hpending hinflight hreq hfly hcomplete hthread hlog

theorem phase_deviceLost (h : Phase sha1 cfg s) :
    Phase sha1 cfg { s with rx := { s.rx with deviceLost := true } } := by
  cases h with
  | idle hpending hinflight hfree hthread hlog => exact .idle hpending hinflight hfree hthread hlog
  | staged hpending hinflight hfree hthread hlog => exact .staged hpending hinflight hfree hthread hlog
  | queued hlive hpending hinflight hreq hfly hcomplete hslot hthread hlog =>
      exact .queued hlive hpending hinflight hreq hfly hcomplete hslot hthread hlog
  | taken lost hlive hpending hinflight hreq hfly hcomplete hthread hlog =>
      exact .taken lost hlive hpending hinflight hreq hfly hcomplete hthread hlog
  | ran lost result summary hran hlive hpending hinflight hreq hfly hcomplete hthread hlog =>
      exact .ran lost result summary hran hlive hpending hinflight hreq hfly hcomplete hthread hlog
  | complete lost hran hlive hpending hinflight hreq hfly hcomplete hthread hlog =>
      exact .complete lost hran hlive hpending hinflight hreq hfly hcomplete hthread hlog

theorem phase_step (h : Phase sha1 cfg s) (a : Action) : Phase sha1 cfg (step sha1 cfg s a) := by
  cases a with
  | composeCommit wire ssoOrigin summary => exact phase_composeCommit h wire ssoOrigin summary
  | autoTcmdStage wire ssoOrigin summary => exact phase_autoTcmdStage h wire ssoOrigin summary
  | serviceRequest => exact phase_serviceRequest h
  | takeRequest => exact phase_takeRequest h
  | runBurst radio => exact phase_runBurst h radio
  | publish => exact phase_publish h
  | deviceLost => exact phase_deviceLost h

theorem phase_run (sha1 : List UInt8 → Bytes 20) (cfg : Config) (actions : List Action) :
    Phase sha1 cfg (run sha1 cfg actions) := by
  unfold run
  induction actions using List.reverseRecOn with
  | nil => exact phase_init cfg
  | append_singleton actions a ih =>
      rw [List.foldl_append]
      exact phase_step ih a

/-! ## What a run guarantees -/

/-- The events of a request whose result is still to come. -/
inductive Open (cfg : Config) (req : TxRequestSlot) : List TxEvent → Prop
  | staged : Open cfg req [.staged req]
  | burst (lost : Bool) (result : RxBurstResult) : Open cfg req [.staged req, .burst req cfg.hmacKey lost result]

theorem Phase.log_eq (h : Phase sha1 cfg s) :
    ∃ log last, Rounds sha1 cfg log ∧ s.log = log ++ last ∧
      (s.pending = false ∧ last = [] ∨ s.pending = true ∧ Open cfg s.txRequest last) := by
  cases h with
  | idle hpending hinflight hfree hthread hlog => exact ⟨s.log, [], hlog, by simp, .inl ⟨hpending, rfl⟩⟩
  | staged hpending hinflight hfree hthread hlog =>
      obtain ⟨log, hrounds, heq⟩ := hlog
      exact ⟨log, _, hrounds, heq, .inr ⟨hpending, .staged⟩⟩
  | queued hlive hpending hinflight hreq hfly hcomplete hslot hthread hlog =>
      obtain ⟨log, hrounds, heq⟩ := hlog
      exact ⟨log, _, hrounds, heq, .inr ⟨hpending, .staged⟩⟩
  | taken lost hlive hpending hinflight hreq hfly hcomplete hthread hlog =>
      obtain ⟨log, hrounds, heq⟩ := hlog
      exact ⟨log, _, hrounds, heq, .inr ⟨hpending, .staged⟩⟩
  | ran lost result summary hran hlive hpending hinflight hreq hfly hcomplete hthread hlog =>
      obtain ⟨log, hrounds, heq⟩ := hlog
      exact ⟨log, _, hrounds, heq, .inr ⟨hpending, .burst lost result⟩⟩
  | complete lost hran hlive hpending hinflight hreq hfly hcomplete hthread hlog =>
      obtain ⟨log, hrounds, heq⟩ := hlog
      exact ⟨log, _, hrounds, heq, .inr ⟨hpending, .burst lost _⟩⟩

/-- Whenever the main loop would submit a request, the session's slot is free. -/
theorem Phase.free_of_not_inflight (h : Phase sha1 cfg s) (hidle : s.txInflight = false) : s.rx.Free := by
  cases h with
  | idle hpending hinflight hfree hthread hlog => exact hfree
  | staged hpending hinflight hfree hthread hlog => exact hfree
  | queued hlive hpending hinflight => exact absurd hidle (by simp [hinflight])
  | taken lost hlive hpending hinflight => exact absurd hidle (by simp [hinflight])
  | ran lost result summary hran hlive hpending hinflight => exact absurd hidle (by simp [hinflight])
  | complete lost hran hlive hpending hinflight => exact absurd hidle (by simp [hinflight])

theorem Phase.idle_of_not_pending (h : Phase sha1 cfg s) (hp : s.pending = false) : s.txInflight = false := by
  cases h with
  | idle hpending hinflight => exact hinflight
  | staged hpending => exact absurd hp (by simp [hpending])
  | queued hlive hpending => exact absurd hp (by simp [hpending])
  | taken lost hlive hpending => exact absurd hp (by simp [hpending])
  | ran lost result summary hran hlive hpending => exact absurd hp (by simp [hpending])
  | complete lost hran hlive hpending => exact absurd hp (by simp [hpending])

/-- A tick, the TX thread's three steps and another tick. -/
def settle (radio : Radio) : List Action := [.serviceRequest, .takeRequest, .runBurst radio, .publish, .serviceRequest]

theorem Phase.settles_of_complete (h : Phase sha1 cfg s) (hcomplete : s.rx.burstComplete = true) :
    (txBurstServiceRequest cfg s).pending = false := by
  cases h with
  | idle hpending hinflight hfree => exact absurd hcomplete (by simp [hfree.2.2])
  | staged hpending hinflight hfree => exact absurd hcomplete (by simp [hfree.2.2])
  | queued hlive hpending hinflight hreq hfly hnot => exact absurd hcomplete (by simp [hnot])
  | taken lost hlive hpending hinflight hreq hfly hnot => exact absurd hcomplete (by simp [hnot])
  | ran lost result summary hran hlive hpending hinflight hreq hfly hnot => exact absurd hcomplete (by simp [hnot])
  | complete lost hran hlive hpending hinflight =>
      rw [serviceRequest_of_live hlive hpending, hinflight, if_neg (by decide)]
      simp [rxSessionPollBurst, hcomplete, Handoff.finish]

theorem Phase.settles_of_busy (h : Phase sha1 cfg s) (hbusy : s.thread ≠ .waiting) (radio : Radio) :
    (txBurstServiceRequest cfg (publish (runBurst sha1 radio s))).pending = false := by
  apply (phase_publish (phase_runBurst h radio)).settles_of_complete
  cases hthread : s.thread with
  | waiting => exact absurd hthread hbusy
  | took req key lost => simp [runBurst, publish, hthread]
  | ran result summary => simp [runBurst, publish, hthread]

theorem Phase.settles_of_inflight (h : Phase sha1 cfg s) (hinflight : s.txInflight = true)
    (hnot : s.rx.burstComplete = false) (radio : Radio) :
    (txBurstServiceRequest cfg (publish (runBurst sha1 radio (takeRequest s)))).pending = false := by
  apply (phase_takeRequest h).settles_of_busy
  cases h with
  | idle hpending hidle => exact absurd hinflight (by simp [hidle])
  | staged hpending hidle => exact absurd hinflight (by simp [hidle])
  | queued hlive hpending _ hreq hfly _ hslot hthread => simp [takeRequest, hthread, hreq]
  | taken lost hlive hpending _ hreq hfly _ hthread => simp [takeRequest, hthread]
  | ran lost result summary hran hlive hpending _ hreq hfly _ hthread => simp [takeRequest, hthread]
  | complete lost hran hlive hpending _ hreq hfly hcomplete => exact absurd hcomplete (by simp [hnot])

/-- A tick finishes a request or leaves it with the TX thread. -/
theorem Phase.serviceRequest_cases (h : Phase sha1 cfg s) :
    (txBurstServiceRequest cfg s).pending = false ∨
      (txBurstServiceRequest cfg s).txInflight = true ∧ (txBurstServiceRequest cfg s).rx.burstComplete = false := by
  cases h with
  | idle hpending =>
      rw [serviceRequest_of_not_pending hpending]
      exact .inl hpending
  | staged hpending hinflight hfree =>
      by_cases hlive : cfg.Live
      · rw [serviceRequest_of_live hlive hpending, if_pos hinflight]
        obtain ⟨h1, h2, h3⟩ := hfree
        simp [rxSessionSubmitBurst, h1, h2, h3]
      · unfold txBurstServiceRequest
        rw [hpending, if_neg (by decide)]
        split_ifs with hdry hkey
        · exact .inl rfl
        · exact .inl rfl
        · cases hsession : cfg.rxSession with
          | none => exact .inl rfl
          | some canTx =>
              cases canTx with
              | false => exact .inl rfl
              | true => exact absurd ⟨Bool.eq_false_of_not_eq_true hdry, hkey, hsession⟩ hlive
  | queued hlive hpending hinflight hreq hfly hcomplete =>
      rw [serviceRequest_wait hlive hpending hinflight hcomplete]
      exact .inr ⟨hinflight, hcomplete⟩
  | taken lost hlive hpending hinflight hreq hfly hcomplete =>
      rw [serviceRequest_wait hlive hpending hinflight hcomplete]
      exact .inr ⟨hinflight, hcomplete⟩
  | ran lost result summary hran hlive hpending hinflight hreq hfly hcomplete =>
      rw [serviceRequest_wait hlive hpending hinflight hcomplete]
      exact .inr ⟨hinflight, hcomplete⟩
  | complete lost hran hlive hpending hinflight hreq hfly hcomplete =>
      exact .inl ((Phase.complete lost hran hlive hpending hinflight hreq hfly hcomplete ‹_› ‹_›).settles_of_complete
        hcomplete)

@[simp] theorem pending_takeRequest (s : Handoff) : (takeRequest s).pending = s.pending := by
  unfold takeRequest
  split
  · split_ifs <;> rfl
  · rfl

@[simp] theorem pending_runBurst (radio : Radio) (s : Handoff) : (runBurst sha1 radio s).pending = s.pending := by
  unfold runBurst
  split <;> rfl

@[simp] theorem pending_publish (s : Handoff) : (publish s).pending = s.pending := by
  unfold publish
  split <;> rfl

/-- Wherever a run stands, its request is done when the main loop ticks, the TX thread finishes and it ticks again. -/
theorem Phase.settles (h : Phase sha1 cfg s) (radio : Radio) :
    ((settle radio).foldl (step sha1 cfg) s).pending = false := by
  change (txBurstServiceRequest cfg
    (publish (runBurst sha1 radio (takeRequest (txBurstServiceRequest cfg s))))).pending = false
  rcases h.serviceRequest_cases with hdone | ⟨hinflight, hnot⟩
  · have hp : (publish (runBurst sha1 radio (takeRequest (txBurstServiceRequest cfg s)))).pending = false := by
      simpa using hdone
    rw [serviceRequest_of_not_pending hp]
    exact hp
  · exact (phase_serviceRequest h).settles_of_inflight hinflight hnot radio

/-- **Every request gets its own result**, and only then can another one be staged: the log is one completed round
after the other, and at most one that is still open. A request that is handed on finds the slot free, and whatever
the order of steps so far, the request that is pending does get its result. -/
theorem handoff_rounds (sha1 : List UInt8 → Bytes 20) (cfg : Config) (actions : List Action) :
    let s := run sha1 cfg actions
    (∃ log last, Rounds sha1 cfg log ∧ s.log = log ++ last ∧
      (s.pending = false ∧ last = [] ∨ s.pending = true ∧ Open cfg s.txRequest last)) ∧
    (s.pending = false → s.txInflight = false) ∧
    (s.txInflight = false → ∀ req, (rxSessionSubmitBurst s.rx req cfg.hmacKey).isSome) ∧
    ∀ radio, (run sha1 cfg (actions ++ settle radio)).pending = false := by
  intro s
  have h : Phase sha1 cfg s := phase_run sha1 cfg actions
  refine ⟨h.log_eq, h.idle_of_not_pending, fun hidle req => ?_, fun radio => ?_⟩
  · obtain ⟨h1, h2, h3⟩ := h.free_of_not_inflight hidle
    simp [rxSessionSubmitBurst, h1, h2, h3]
  · unfold run
    rw [List.foldl_append]
    exact h.settles radio

end Burst

end SimpleSatOps.TxHandoff
