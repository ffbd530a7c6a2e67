import SimpleSatOps.Ipc.Decoded

/-!
# The viewer's mirror

What a viewer copies from an event that came over the socket, with every read and write of an array.

* `snprintfInto`, `snprintfPrec`, `strchr` : the calls that scan for a NUL;
* `TxLog` : the last few TX events, at most `txLogSize` of them;
* `mirrorPanel` : the RX panel from a STATE or WELCOME event;
* `viewerOnEvent` : the callback;
* `viewer_safe` : for any line, the decoder and the callback stay inside their arrays.
-/

namespace SimpleSatOps.Mirror
open Ipc JsonText JsonReader

/-! ## Calls -/

/-- `snprintf(dst, sizeof dst, "%s", src)`. -/
def snprintfInto {n : ℕ} (dst : Bytes n) (src : List UInt8) : Run (Bytes n) := do
  let len ← strlen src
  let buf ← copyInto dst.1 src (min len (n - 1))
  let buf ← put buf (min len (n - 1)) 0
  asArray n buf

/-- `strnlen(buf, prec)`, which reads no byte from `prec` on. -/
def strnlen (buf : List UInt8) (prec : ℕ) : Run ℕ :=
  if 0 ∈ buf.take prec ∨ prec ≤ buf.length then .ok (cstr (buf.take prec)).length else .error .overread

/-- `snprintf(dst, sizeof dst, "%.*s", (int)(sizeof dst - 1), src)`. -/
def snprintfPrec {n : ℕ} (dst : Bytes n) (src : List UInt8) : Run (Bytes n) := do
  let len ← strnlen src (n - 1)
  let buf ← copyInto dst.1 src (min len (n - 1))
  let buf ← put buf (min len (n - 1)) 0
  asArray n buf

/-- `strchr(buf, c)`, as an index. -/
def strchr (buf : List UInt8) (c : UInt8) : Run (Option ℕ) := do
  let p := buf.findIdx fun b => b == c || b == 0
  let b ← rd buf p
  pure (if b = c then some p else none)

/-! ## TX log -/

structure TxLogEntry where
  kind : EventType
  ts : Bytes 16
  ascii : Bytes txTextMax
  txNotSentReason : Bytes 24
  source : Bytes 16

def txLogSize : ℕ := 8

/-- `tx_log[0 .. tx_log_count)`. -/
structure TxLog where
  entries : List TxLogEntry
  bounded : entries.length ≤ txLogSize

/-- `HH:MM:SS` of the event's time, or of the local time `clock`. -/
def txLogTsFromEvent (clock : List UInt8) (e : Event) (out : Bytes 16) : Run (Bytes 16) := do
  let ts := (e.str .ts).1
  let fallback := snprintfInto out (clock ++ [0])
  let first ← rd ts 0
  if first = 0 then fallback
  else do
    match ← strchr ts (byte 'T') with
    | none => fallback
    | some p => do
        let len ← strlen (ts.drop p)
        if len < 9 then fallback
        else do
          let buf ← copyInto out.1 (ts.drop (p + 1)) 8
          let buf ← put buf 8 0
          asArray 16 buf

def txLogEntry (clock : List UInt8) (e : Event) : Run TxLogEntry := do
  let ts ← txLogTsFromEvent clock e (zeros 16)
  let ascii ← snprintfInto (zeros txTextMax) (e.str .ascii).1
  let reason ← snprintfInto (zeros 24) (e.str .txNotSentReason).1
  let source ← snprintfInto (zeros 16) (e.str .txOrigin).1
  pure ⟨e.type, ts, ascii, reason, source⟩

/-- The last entry is a draft. -/
def TxLog.draft (log : TxLog) : Bool := log.entries.getLast?.any fun x => x.kind == .txCommandPreview

/-- A draft is replaced by the next draft or by what was sent; else the oldest entry makes room. -/
def TxLog.push (log : TxLog) (x : TxLogEntry) : TxLog :=
  if (x.kind = .txCommandPreview ∨ x.kind = .txCommandSent) ∧ log.draft then
    ⟨log.entries.set (log.entries.length - 1) x, by
      rw [List.length_set]
      exact log.bounded⟩
  else if h : log.entries.length < txLogSize then
    ⟨log.entries ++ [x], by
      rw [List.length_append, List.length_singleton]
      exact h⟩
  else
    ⟨log.entries.drop 1 ++ [x], by
      have hb := log.bounded
      rw [List.length_append, List.length_drop, List.length_singleton]
      simp only [txLogSize] at *
      omega⟩

/-! ## Panel -/

/-- `rx_panel_data_t`; a viewer does not fill its other fields. -/
structure RxPanel where
  haveSession : Bool
  recActive : Bool
  rxFreqHz : Double
  peakDbfs : Double
  rmsDbfs : Double
  framesTotal : UInt64
  framesPcm : UInt64
  framesVit : UInt64
  lastFrameSummary : Bytes 80
  ageS : Double
  ptCount : Fin ptSlots → UInt64
  ptPayloadLen : Fin ptSlots → ℤ
  ptPayload : Fin ptSlots → Bytes payloadMax
  ptSummary : Fin ptSlots → Bytes summaryMax
  ribbonN : ℕ
  ribbon : Bytes (ribbonMax + 1)
  ribbonPeak : Bytes ribbonMax
  warning : Bytes 80

/-- `memset(&v->rx_panel, 0, sizeof v->rx_panel)`. -/
def RxPanel.zero : RxPanel where
  haveSession := false
  recActive := false
  rxFreqHz := .zero
  peakDbfs := .zero
  rmsDbfs := .zero
  framesTotal := 0
  framesPcm := 0
  framesVit := 0
  lastFrameSummary := zeros 80
  ageS := .zero
  ptCount _ := 0
  ptPayloadLen _ := 0
  ptPayload _ := zeros payloadMax
  ptSummary _ := zeros summaryMax
  ribbonN := 0
  ribbon := zeros (ribbonMax + 1)
  ribbonPeak := zeros ribbonMax
  warning := zeros 80

/-- The body of the loop over the packet types; the length is kept as it came, the copy is not longer than the array. -/
def mirrorSlot (e : Event) (p : RxPanel) (s : Fin ptSlots) : Run RxPanel := do
  let len : ℤ := (e.int (.rxPtPayloadLen s)).1
  let pl := if len < 0 then 0 else len
  let copy := if (payloadMax : ℤ) < pl then (payloadMax : ℤ) else pl
  let payload ← copyInto (p.ptPayload s).1 (e.rxPtPayload s).1 copy.toNat
  let payload ← asArray payloadMax payload
  let summary ← snprintfPrec (p.ptSummary s) (e.str (.rxPtSummary s)).1
  pure { p with
    ptCount := Function.update p.ptCount s (UInt64.ofInt (e.int (.rxPtCount s)).1)
    ptPayloadLen := Function.update p.ptPayloadLen s pl
    ptPayload := Function.update p.ptPayload s payload
    ptSummary := Function.update p.ptSummary s summary }

/-- Both ends are clamped. -/
def clampRibbon (n : ℤ) : ℤ :=
  let rn := if n < 0 then 0 else n
  if (ribbonMax : ℤ) < rn then (ribbonMax : ℤ) else rn

def mirrorRibbon (e : Event) (p : RxPanel) : Run RxPanel := do
  let rn := (clampRibbon e.rxRibbonN.1).toNat
  let ribbon ← copyInto p.ribbon.1 (e.str .rxRibbon).1 rn
  let ribbon ← put ribbon rn 0
  let ribbon ← asArray (ribbonMax + 1) ribbon
  let peak ← copyInto p.ribbonPeak.1 e.rxRibbonPeak.1 rn
  let peak ← asArray ribbonMax peak
  pure { p with ribbonN := rn, ribbon, ribbonPeak := peak }

/-- The RX panel is wiped and filled again. -/
def mirrorPanel (e : Event) : Run RxPanel := do
  let warning ← snprintfInto RxPanel.zero.warning (e.str .rxWarning).1
  let p := { RxPanel.zero with haveSession := e.flag .rxHaveSession, warning }
  if e.flag .rxHaveSession then do
    let summary ← snprintfInto p.lastFrameSummary (e.str .rxLastFrameSummary).1
    let p := { p with
      recActive := e.flag .rxRecActive
      rxFreqHz := e.dbl .rxFreqHz
      peakDbfs := e.dbl .rxPeakDbfs
      rmsDbfs := e.dbl .rxRmsDbfs
      framesTotal := UInt64.ofInt (e.int .rxFramesTotal).1
      framesPcm := UInt64.ofInt (e.int .rxFramesPcm).1
      framesVit := UInt64.ofInt (e.int .rxFramesVit).1
      lastFrameSummary := summary
      ageS := e.dbl .rxAgeS }
    let p ← (List.finRange ptSlots).foldlM (mirrorSlot e) p
    mirrorRibbon e p
  else pure p

/-! ## Callback -/

/-- `viewer_t` and what it mirrors in its `state_t`; `carrier_hz`, a sum of two fields, and the clock are left out. -/
structure Viewer where
  eventPending : Bool
  hasState : Bool
  operator : Bytes 64
  rosterJson : Bytes rosterMax
  cmdActive : Bool
  cmdBuf : Bytes 160
  cmdStatus : Bytes 160
  autoOn : Bool
  autoSent : ℤ
  autoTotal : ℤ
  autoState : Bytes 12
  rxPanel : RxPanel
  txLog : TxLog
  satName : Bytes 128
  idesg : Bytes 9
  number : DblField → Double
  inPass : Bool
  tracking : Bool
  flipModePass : Bool
  haveAntennaRotator : Bool
  hasRotator : Bool
  tlePath : Bytes 256
  passFolder : Bytes 256

/-- The numbers that are copied as they are. -/
def mirrored : List DblField :=
  [.epochMin, .minVisible, .minAbove0, .minAbove30, .maxEl, .predAz, .predEl, .altKm, .latDeg, .lonDeg, .speedKms,
    .rangeKm, .rangeRateKms, .az, .el, .targetAz, .targetEl, .julUtc]

/-- A string that is copied only when it is not empty. -/
def copyNonempty {n : ℕ} (dst : Bytes n) (src : List UInt8) : Run (Bytes n) := do
  let first ← rd src 0
  if first = 0 then pure dst else snprintfInto dst src

def mirrorState (v : Viewer) (e : Event) : Run Viewer := do
  let satName ← snprintfInto v.satName (e.str .satellite).1
  let idesg ← snprintfInto v.idesg (e.str .idesg).1
  let tlePath ← copyNonempty v.tlePath (e.str .tlePath).1
  let passFolder ← copyNonempty v.passFolder (e.str .passFolder).1
  let autoState ← snprintfInto v.autoState (e.str .autoTcmdState).1
  let rxPanel ← mirrorPanel e
  pure { v with
    satName, idesg, tlePath, passFolder, autoState, rxPanel
    number := fun f => if f ∈ mirrored then e.dbl f else v.number f
    inPass := e.flag .inPass
    tracking := e.flag .tracking
    flipModePass := e.flag .flip
    haveAntennaRotator := e.flag .hasRotator
    hasRotator := e.flag .hasRotator
    autoOn := e.flag .autoTcmdOn
    autoSent := (e.int .autoTcmdSent).1
    autoTotal := (e.int .autoTcmdTotal).1
    hasState := true
    eventPending := true }

/-- `viewer_on_event`. The pass folder of the viewer's own `state_t` is never set, so `tx_log_push` writes no file. -/
def viewerOnEvent (clock : List UInt8) (v : Viewer) (e : Event) : Run Viewer :=
  match e.type with
  | .txCommandPreview | .txCommandSent | .txNotSent => do
      let x ← txLogEntry clock e
      pure { v with txLog := v.txLog.push x, eventPending := true }
  | .cmdPreview => do
      let cmdBuf ← snprintfInto v.cmdBuf (e.str .cmdText).1
      pure { v with cmdActive := true, cmdBuf, eventPending := true }
  | .cmdExecuted => do
      let cmdBuf ← put v.cmdBuf.1 0 0
      let cmdBuf ← asArray 160 cmdBuf
      let cmdStatus ← snprintfInto v.cmdStatus (e.str .cmdStatus).1
      pure { v with cmdActive := false, cmdBuf, cmdStatus, eventPending := true }
  | .state | .welcome => do
      let operator ← copyNonempty v.operator (e.str .operatorUser).1
      let rosterJson ← copyNonempty v.rosterJson e.rosterJson.1
      let v := { v with operator, rosterJson }
      if e.hasState then mirrorState v e else pure v
  | _ => pure v

/-! ## The accesses stay inside -/

theorem strlen_runs {buf : List UInt8} (h : 0 ∈ buf) : Runs (strlen buf) (· ≤ buf.length) :=
  ⟨_, strlen_of_mem h, (List.takeWhile_sublist _).length_le⟩

theorem strnlen_runs {buf : List UInt8} {prec : ℕ} (h : prec ≤ buf.length) : Runs (strnlen buf prec) (· ≤ prec) := by
  refine ⟨_, if_pos (.inr h), ?_⟩
  calc (cstr (buf.take prec)).length ≤ (buf.take prec).length := (List.takeWhile_sublist _).length_le
    _ ≤ prec := List.length_take_le _ _

theorem copyInto_runs {dst src : List UInt8} {n : ℕ} (hdst : n ≤ dst.length) (hsrc : n ≤ src.length) :
    Runs (copyInto dst src n) (·.length = dst.length) := by
  refine ⟨_, copyInto_of_le hdst hsrc, ?_⟩
  apply length_overlay
  rw [List.length_take]
  omega

theorem put_runs {buf : List UInt8} {i : ℕ} (h : i < buf.length) (v : UInt8) :
    Runs (put buf i v) fun b => b.length = buf.length ∧ v ∈ b :=
  ⟨_, put_of_lt h v, List.length_set, List.mem_set h v⟩

theorem asArray_runs {n : ℕ} {buf : List UInt8} (h : buf.length = n) : Runs (asArray n buf) (·.1 = buf) :=
  ⟨_, asArray_of_length h, rfl⟩

/-- A copy into an array, and a NUL behind it. -/
theorem terminated_runs {n k : ℕ} (hn : 0 < n) (dst : Bytes n) {src : List UInt8} (hk : k ≤ src.length) :
    Runs (do
      let buf ← copyInto dst.1 src (min k (n - 1))
      let buf ← put buf (min k (n - 1)) 0
      asArray n buf) fun b : Bytes n => 0 ∈ b.1 := by
  have hdst := dst.2
  have hmin := Nat.min_le_left k (n - 1)
  have hmin' := Nat.min_le_right k (n - 1)
  refine (copyInto_runs (by omega) (by omega)).bind fun buf hbuf => ?_
  refine (put_runs (by omega) 0).bind fun buf' hbuf' => ?_
  refine (asArray_runs (by omega)).mono fun b hb => ?_
  rw [hb]
  exact hbuf'.2

theorem snprintfInto_runs {n : ℕ} (hn : 0 < n) (dst : Bytes n) {src : List UInt8} (h : 0 ∈ src) :
    Runs (snprintfInto dst src) fun b => 0 ∈ b.1 :=
  (strlen_runs h).bind fun _ hk => terminated_runs hn dst hk

/-- A precision that is not longer than the source needs no NUL in it. -/
theorem snprintfPrec_runs {n : ℕ} (hn : 0 < n) (dst : Bytes n) {src : List UInt8} (h : n - 1 ≤ src.length) :
    Runs (snprintfPrec dst src) fun b => 0 ∈ b.1 :=
  (strnlen_runs h).bind fun _ hk => terminated_runs hn dst (hk.trans h)

theorem rd_runs {s : List UInt8} {p : ℕ} (h : p < s.length) : Runs (rd s p) (· = s.getD p 0) := ⟨_, rd_of_lt h, rfl⟩

/-- Where a byte was found, the string is still going on. -/
theorem strchr_runs {buf : List UInt8} (h : 0 ∈ buf) (c : UInt8) :
    Runs (strchr buf c) fun r => ∀ p, r = some p → 0 ∈ buf.drop p := by
  have hlt : buf.findIdx (fun b => b == c || b == 0) < buf.length :=
    List.findIdx_lt_length_of_exists ⟨0, h, by simp⟩
  refine (rd_runs hlt).bind fun b _ => .pure fun p hp => ?_
  split_ifs at hp
  obtain ⟨i, hi, hget⟩ := List.mem_iff_getElem.mp h
  have hle : p ≤ i := by
    rw [← Option.some.inj hp]
    by_contra hlt'
    have hno := List.not_of_lt_findIdx (Nat.lt_of_not_le hlt')
    simp [hget] at hno
  rw [List.mem_iff_getElem]
  refine ⟨i - p, by rw [List.length_drop]; omega, ?_⟩
  rw [List.getElem_drop, ← hget]
  congr 1
  omega

theorem copyNonempty_runs {n : ℕ} (hn : 0 < n) (dst : Bytes n) {src : List UInt8} (h : 0 ∈ src) :
    Runs (copyNonempty dst src) fun _ => True := by
  refine (rd_runs (List.length_pos_of_mem h)).bind fun first _ => ?_
  split_ifs
  · exact .pure trivial
  · exact (snprintfInto_runs hn dst h).mono fun _ _ => trivial

theorem txLogTsFromEvent_runs (clock : List UInt8) {e : Event} (he : e.WellFormed) (out : Bytes 16) :
    Runs (txLogTsFromEvent clock e out) fun _ => True := by
  have hts := he.str .ts
  have hfallback : Runs (snprintfInto out (clock ++ [0])) fun _ => True :=
    (snprintfInto_runs (by decide) out (List.mem_append_right _ List.mem_cons_self)).mono fun _ _ => trivial
  unfold txLogTsFromEvent
  refine (rd_runs (List.length_pos_of_mem hts)).bind fun first _ => ?_
  split_ifs
  · exact hfallback
  · refine (strchr_runs hts (byte 'T')).bind fun r hr => ?_
    cases r with
    | none => exact hfallback
    | some p =>
        have hnul := hr p rfl
        refine (strlen_runs hnul).bind fun len hlen => ?_
        split_ifs
        · exact hfallback
        · rw [List.length_drop] at hlen
          have hout := out.2
          refine (copyInto_runs (by omega) (by rw [List.length_drop]; omega)).bind fun buf hbuf => ?_
          refine (put_runs (by omega) 0).bind fun buf' hbuf' => ?_
          exact (asArray_runs (by omega)).mono fun _ _ => trivial

theorem txLogEntry_runs (clock : List UInt8) {e : Event} (he : e.WellFormed) :
    Runs (txLogEntry clock e) fun _ => True := by
  refine (txLogTsFromEvent_runs clock he _).bind fun _ _ => ?_
  refine (snprintfInto_runs (by decide) _ (he.str .ascii)).bind fun _ _ => ?_
  refine (snprintfInto_runs (by decide) _ (he.str .txNotSentReason)).bind fun _ _ => ?_
  exact (snprintfInto_runs (by decide) _ (he.str .txOrigin)).bind fun _ _ => .pure trivial

/-- The strings of the panel end in their arrays. -/
structure RxPanel.WellFormed (p : RxPanel) : Prop where
  warning : 0 ∈ p.warning.1
  lastFrameSummary : 0 ∈ p.lastFrameSummary.1
  ptSummary : ∀ s, 0 ∈ (p.ptSummary s).1
  ribbon : 0 ∈ p.ribbon.1
  ribbonN : p.ribbonN ≤ ribbonMax

theorem RxPanel.wellFormed_zero : RxPanel.zero.WellFormed := by
  have hzero : ∀ n, 0 < n → (0 : UInt8) ∈ (zeros n).1 := fun n hn => List.mem_replicate.mpr ⟨hn.ne', rfl⟩
  constructor
  · exact hzero 80 (by decide)
  · exact hzero 80 (by decide)
  · exact fun _ => hzero summaryMax (by decide)
  · exact hzero (ribbonMax + 1) (by decide)
  · exact Nat.zero_le _

theorem mirrorSlot_runs (e : Event) {p : RxPanel} (hp : p.WellFormed) (s : Fin ptSlots) :
    Runs (mirrorSlot e p s) RxPanel.WellFormed := by
  have hdst := (p.ptPayload s).2
  have hsrc := (e.rxPtPayload s).2
  have hsummary : summaryMax - 1 ≤ (e.str (.rxPtSummary s)).1.length := by
    rw [(e.str (.rxPtSummary s)).2]
    exact Nat.sub_le _ _
  unfold mirrorSlot
  simp only
  generalize hpl : (if (e.int (.rxPtPayloadLen s)).1 < 0 then 0 else (e.int (.rxPtPayloadLen s)).1) = pl
  have hcopy : (if (payloadMax : ℤ) < pl then (payloadMax : ℤ) else pl).toNat ≤ payloadMax := by
    split_ifs <;> omega
  refine (copyInto_runs (by omega) (by omega)).bind fun buf hbuf => ?_
  refine (asArray_runs (by omega)).bind fun payload _ => ?_
  refine (snprintfPrec_runs (by decide) (p.ptSummary s) hsummary).bind fun summary hs => .pure ?_
  refine { hp with ptSummary := fun s' => ?_ }
  show 0 ∈ (Function.update p.ptSummary s summary s').1
  rcases eq_or_ne s' s with rfl | hne
  · rw [Function.update_self]
    exact hs
  · rw [Function.update_of_ne hne]
    exact hp.ptSummary s'

theorem mirrorSlots_runs (e : Event) (l : List (Fin ptSlots)) {p : RxPanel} (hp : p.WellFormed) :
    Runs (l.foldlM (mirrorSlot e) p) RxPanel.WellFormed := by
  induction l generalizing p with
  | nil => exact .pure hp
  | cons s l ih =>
      rw [List.foldlM_cons]
      exact (mirrorSlot_runs e hp s).bind fun _ h => ih h

theorem clampRibbon_le (n : ℤ) : (clampRibbon n).toNat ≤ ribbonMax := by
  unfold clampRibbon
  simp only
  split_ifs <;> omega

theorem mirrorRibbon_runs (e : Event) {p : RxPanel} (hp : p.WellFormed) :
    Runs (mirrorRibbon e p) RxPanel.WellFormed := by
  have hrn := clampRibbon_le e.rxRibbonN.1
  have hdst := p.ribbon.2
  have hsrc : (e.str .rxRibbon).1.length = ribbonMax + 1 := (e.str .rxRibbon).2
  have hpeak := p.ribbonPeak.2
  have hpeak' := e.rxRibbonPeak.2
  unfold mirrorRibbon
  refine (copyInto_runs (by omega) (by omega)).bind fun ribbon hribbon => ?_
  refine (put_runs (by omega) 0).bind fun ribbon' hribbon' => ?_
  refine (asArray_runs (by omega)).bind fun ribbon'' hribbon'' => ?_
  refine (copyInto_runs (by omega) (by omega)).bind fun peak hpk => ?_
  refine (asArray_runs (by omega)).bind fun peak' _ => .pure ?_
  exact { hp with ribbon := hribbon''.symm ▸ hribbon'.2, ribbonN := hrn }

theorem mirrorPanel_runs {e : Event} (he : e.WellFormed) : Runs (mirrorPanel e) RxPanel.WellFormed := by
  unfold mirrorPanel
  refine (snprintfInto_runs (by decide) _ (he.str .rxWarning)).bind fun warning hw => ?_
  split_ifs
  · refine (snprintfInto_runs (by decide) _ (he.str .rxLastFrameSummary)).bind fun summary hs => ?_
    refine (mirrorSlots_runs e _ ?_).bind fun p hp => mirrorRibbon_runs e hp
    exact { RxPanel.wellFormed_zero with warning := hw, lastFrameSummary := hs }
  · exact .pure { RxPanel.wellFormed_zero with warning := hw }

theorem mirrorState_runs (v : Viewer) {e : Event} (he : e.WellFormed) :
    Runs (mirrorState v e) fun v' => v'.rxPanel.WellFormed := by
  unfold mirrorState
  refine (snprintfInto_runs (by decide) _ (he.str .satellite)).bind fun _ _ => ?_
  refine (snprintfInto_runs (by decide) _ (he.str .idesg)).bind fun _ _ => ?_
  refine (copyNonempty_runs (by decide) _ (he.str .tlePath)).bind fun _ _ => ?_
  refine (copyNonempty_runs (by decide) _ (he.str .passFolder)).bind fun _ _ => ?_
  refine (snprintfInto_runs (by decide) _ (he.str .autoTcmdState)).bind fun _ _ => ?_
  exact (mirrorPanel_runs he).bind fun _ hp => .pure hp

/-- A well-formed event is mirrored without a read or a write outside an array, and the panel stays well formed. -/
theorem viewerOnEvent_runs (clock : List UInt8) (v : Viewer) {e : Event} (he : e.WellFormed) :
    Runs (viewerOnEvent clock v e) fun v' => v.rxPanel.WellFormed → v'.rxPanel.WellFormed := by
  have htx : Runs (do
      let x ← txLogEntry clock e
      pure { v with txLog := v.txLog.push x, eventPending := true })
      fun v' : Viewer => v.rxPanel.WellFormed → v'.rxPanel.WellFormed :=
    (txLogEntry_runs clock he).bind fun _ _ => .pure id
  have hstate : Runs (do
      let operator ← copyNonempty v.operator (e.str .operatorUser).1
      let rosterJson ← copyNonempty v.rosterJson e.rosterJson.1
      let v := { v with operator, rosterJson }
      if e.hasState then mirrorState v e else pure v)
      fun v' : Viewer => v.rxPanel.WellFormed → v'.rxPanel.WellFormed := by
    refine (copyNonempty_runs (by decide) _ (he.str .operatorUser)).bind fun _ _ => ?_
    refine (copyNonempty_runs (by decide) _ he.roster).bind fun _ _ => ?_
    show Runs (ite _ _ _) _
    split_ifs
    · exact (mirrorState_runs _ he).mono fun _ h _ => h
    · exact .pure id
  unfold viewerOnEvent
  cases e.type with
  | txCommandPreview => exact htx
  | txCommandSent => exact htx
  | txNotSent => exact htx
  | cmdPreview => exact (snprintfInto_runs (by decide) _ (he.str .cmdText)).bind fun _ _ => .pure id
  | cmdExecuted =>
      have hbuf := v.cmdBuf.2
      refine (put_runs (by omega) 0).bind fun _ hb => ?_
      refine (asArray_runs (by omega)).bind fun _ _ => ?_
      exact (snprintfInto_runs (by decide) _ (he.str .cmdStatus)).bind fun _ _ => .pure id
  | state => exact hstate
  | welcome => exact hstate
  | _ => exact .pure id

/-- For any bytes a peer may send, the decoder does not leave the line or its arrays; the event it returns is well
formed, and mirroring it stays inside the arrays of the event and of the viewer. -/
theorem viewer_safe (line clock : List UInt8) (v : Viewer) :
    Runs (ssoEventDecode line) fun r => ∀ e, r = some e → e.WellFormed ∧
      Runs (viewerOnEvent clock v e) fun v' => v.rxPanel.WellFormed → v'.rxPanel.WellFormed := by
  refine ⟨_, ssoEventDecode_eq line, fun e he => ?_⟩
  have hwf := wellFormed_of_decode he
  exact ⟨hwf, viewerOnEvent_runs clock v hwf⟩

end SimpleSatOps.Mirror
