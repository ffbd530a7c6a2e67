import SimpleSatOps.Lib.Double

/-!
# IPC events

* `EventType` : the types and their names on the wire;
* `StrField`, `DblField`, `IntField`, `FlagField` : the fields of `sso_event_t` by what they hold;
* `Event` : the record, with its arrays as they stand in memory;
* `Slot` : what has a key on the wire;
* `slots` : every slot but the type, in the order in which the decoder asks for them;
* `key_injective` : no two slots have one key.
-/

namespace SimpleSatOps.Ipc

/-! ## Types -/

inductive EventType
  | unknown | hello | welcome | state | operatorChanged | handoffOffer | handoffAccepted | handoffDeclined | rxStats
  | txCommandSent | bye | yieldRequest | txCommandPreview | txRequest | txNotSent | cmdPreview | cmdExecuted | audioCtl
  | audioStatus | audio
deriving DecidableEq

/-- `g_event_types`, in its order. -/
def eventTypes : List (EventType × String) :=
  [(.hello, "hello"), (.welcome, "welcome"), (.state, "state"), (.operatorChanged, "operator-changed"),
    (.handoffOffer, "handoff-offer"), (.handoffAccepted, "handoff-accepted"), (.handoffDeclined, "handoff-declined"),
    (.rxStats, "rx-stats"), (.txCommandSent, "tx-command-sent"), (.bye, "bye"), (.yieldRequest, "yield-request"),
    (.txCommandPreview, "tx-preview"), (.txRequest, "tx-request"), (.txNotSent, "tx-not-sent"),
    (.cmdPreview, "cmd-preview"), (.cmdExecuted, "cmd-executed"), (.audioCtl, "audio-ctl"),
    (.audioStatus, "audio-status"), (.audio, "audio")]

def ssoEventTypeName (t : EventType) : List UInt8 :=
  ((eventTypes.find? fun p => p.1 = t).map fun p => text p.2).getD (text "?")

def ssoEventTypeFromName (name : List UInt8) : EventType :=
  ((eventTypes.find? fun p => text p.2 = name).map Prod.fst).getD .unknown

/-! ## Fields -/

def txTextMax : ℕ := 256

def ptSlots : ℕ := 6

def payloadMax : ℕ := 64

def summaryMax : ℕ := 160

def ribbonMax : ℕ := 60

def audioRawMax : ℕ := 4096

def audioB64Max : ℕ := (audioRawMax + 2) / 3 * 4 + 1

def rosterMax : ℕ := 1024

/-- The `char` arrays; `fromName`, `byName` and `toName` are `from`, `by` and `to`. -/
inductive StrField
  | ts | fromName | role | user | operatorUser | prev | newUser | byName | toName | reason | passFolder
  | satellite | source | rxStatus | txStatus | tlePath | idesg | autoTcmdState
  | lastPacketTs | lastPacketSummary
  | ascii | txPayloadKind | txPayload | txNotSentReason | txOrigin | cmdText | cmdStatus
  | rxLastFrameSummary | rxPtSummary (s : Fin ptSlots) | rxRibbon | rxWarning
  | audioState | audioB64
deriving DecidableEq

/-- The size of the array. -/
def StrField.size : StrField → ℕ
  | .ts | .lastPacketTs => 40
  | .fromName | .user | .operatorUser | .prev | .newUser | .byName | .toName | .satellite => 64
  | .role | .source | .txOrigin | .audioState => 16
  | .reason => 32
  | .passFolder | .tlePath => 256
  | .rxStatus | .txStatus | .lastPacketSummary | .cmdText | .cmdStatus => 160
  | .idesg => 9
  | .autoTcmdState => 12
  | .ascii | .txPayload => txTextMax
  | .txPayloadKind => 8
  | .txNotSentReason => 24
  | .rxLastFrameSummary | .rxWarning => 80
  | .rxPtSummary _ => summaryMax
  | .rxRibbon => ribbonMax + 1
  | .audioB64 => audioB64Max

theorem size_pos (f : StrField) : 0 < f.size := by
  cases f with
  | rxPtSummary s =>
      show 0 < summaryMax
      decide
  | _ => decide

/-- The `double` fields. -/
inductive DblField
  | az | el | dopplerHz | targetAz | targetEl | julUtc | epochMin | minVisible | minAbove0 | minAbove30 | maxEl
  | predAz | predEl | altKm | latDeg | lonDeg | speedKms | rangeKm | rangeRateKms
  | snrDb | txGainDb | rxFreqHz | rxPeakDbfs | rxRmsDbfs | rxAgeS | audioQuality
deriving DecidableEq

/-- The integer fields. -/
inductive IntField
  | freqHz | autoTcmdSent | autoTcmdTotal | packets
  | txCspSrc | txCspDst | txCspDport | txCspSport | txCspPrio | txFreqHz | txRepeat | txGapMs
  | rxFramesTotal | rxFramesPcm | rxFramesVit | rxPtCount (s : Fin ptSlots) | rxPtPayloadLen (s : Fin ptSlots)
  | audioSeq | audioSr | audioCh
deriving DecidableEq

inductive IntKind
  | long | int | uint8

def IntKind.min : IntKind → ℤ
  | .long => -2 ^ 63
  | .int => -2 ^ 31
  | .uint8 => 0

def IntKind.max : IntKind → ℤ
  | .long => 2 ^ 63 - 1
  | .int => 2 ^ 31 - 1
  | .uint8 => 2 ^ 8 - 1

/-- A value of the type. -/
abbrev IntKind.Val (k : IntKind) : Type := {z : ℤ // k.min ≤ z ∧ z ≤ k.max}

def IntField.kind : IntField → IntKind
  | .freqHz | .packets | .txFreqHz | .rxFramesTotal | .rxFramesPcm | .rxFramesVit | .rxPtCount _ => .long
  | .txCspSrc | .txCspDst | .txCspDport | .txCspSport | .txCspPrio => .uint8
  | .autoTcmdSent | .autoTcmdTotal | .txRepeat | .txGapMs | .rxPtPayloadLen _ | .audioSeq | .audioSr | .audioCh => .int

/-- The `int` fields that hold 0 or 1; `has_state` has no key and is kept apart. -/
inductive FlagField
  | forced | flip | inPass | tracking | hasRotator | autoTcmdOn | txAllowTx | txAllowHighPower | txAllowHfTx
  | rxHaveSession | rxRecActive | audioEnable | audioStart
deriving DecidableEq

/-- `sso_event_t`. -/
@[ext] structure Event where
  type : EventType
  str : (f : StrField) → Bytes f.size
  dbl : DblField → Double
  int : (f : IntField) → f.kind.Val
  flag : FlagField → Bool
  hasState : Bool
  rosterJson : Bytes rosterMax
  rxPtPayload : Fin ptSlots → Bytes payloadMax
  rxRibbonN : IntKind.int.Val
  rxRibbonPeak : Bytes ribbonMax

def IntKind.zero (k : IntKind) : k.Val := ⟨0, by cases k <;> decide⟩

/-- `memset(evt, 0, sizeof(*evt))`. -/
def Event.zero : Event where
  type := .unknown
  str f := zeros f.size
  dbl _ := .zero
  int f := f.kind.zero
  flag _ := false
  hasState := false
  rosterJson := zeros rosterMax
  rxPtPayload _ := zeros payloadMax
  rxRibbonN := IntKind.int.zero
  rxRibbonPeak := zeros ribbonMax

/-- The string in a field. -/
def Event.strText (e : Event) (f : StrField) : List UInt8 := cstr (e.str f).1

/-! ## Keys -/

/-- What has a key on the wire. -/
inductive Slot
  | type
  | str (f : StrField)
  | dbl (f : DblField)
  | int (f : IntField)
  | flag (f : FlagField)
  | roster
  | payload (s : Fin ptSlots)
  | ribbonPeak
deriving DecidableEq

def StrField.name : StrField → String
  | .ts => "ts"
  | .fromName => "from"
  | .role => "role"
  | .user => "user"
  | .operatorUser => "operator"
  | .prev => "prev"
  | .newUser => "new"
  | .byName => "by"
  | .toName => "to"
  | .reason => "reason"
  | .passFolder => "pass_folder"
  | .satellite => "sat"
  | .source => "source"
  | .rxStatus => "rx_status"
  | .txStatus => "tx_status"
  | .tlePath => "tle_path"
  | .idesg => "idesg"
  | .autoTcmdState => "at_st"
  | .lastPacketTs => "last_packet_ts"
  | .lastPacketSummary => "last_packet_summary"
  | .ascii => "ascii"
  | .txPayloadKind => "tx_kind"
  | .txPayload => "tx_pl"
  | .txNotSentReason => "tx_st"
  | .txOrigin => "tx_org"
  | .cmdText => "cmd_text"
  | .cmdStatus => "cmd_status"
  | .rxLastFrameSummary => "rx_lf"
  | .rxPtSummary _ => "_s"
  | .rxRibbon => "rx_rb"
  | .rxWarning => "rx_warn"
  | .audioState => "state"
  | .audioB64 => "data"

def DblField.name : DblField → String
  | .az => "az"
  | .el => "el"
  | .dopplerHz => "doppler"
  | .targetAz => "target_az"
  | .targetEl => "target_el"
  | .julUtc => "jul"
  | .epochMin => "ep_min"
  | .minVisible => "mv"
  | .minAbove0 => "ma0"
  | .minAbove30 => "ma30"
  | .maxEl => "max_el"
  | .predAz => "p_az"
  | .predEl => "p_el"
  | .altKm => "alt"
  | .latDeg => "lat"
  | .lonDeg => "lon"
  | .speedKms => "spd"
  | .rangeKm => "rng"
  | .rangeRateKms => "rrate"
  | .snrDb => "snr_db"
  | .txGainDb => "tx_gain"
  | .rxFreqHz => "rx_fhz"
  | .rxPeakDbfs => "rx_pk"
  | .rxRmsDbfs => "rx_rm"
  | .rxAgeS => "rx_age"
  | .audioQuality => "q"

def IntField.name : IntField → String
  | .freqHz => "freq"
  | .autoTcmdSent => "at_sent"
  | .autoTcmdTotal => "at_tot"
  | .packets => "packets"
  | .txCspSrc => "tx_src"
  | .txCspDst => "tx_dst"
  | .txCspDport => "tx_dp"
  | .txCspSport => "tx_sp"
  | .txCspPrio => "tx_prio"
  | .txFreqHz => "tx_freq"
  | .txRepeat => "tx_rep"
  | .txGapMs => "tx_gap"
  | .rxFramesTotal => "rx_fr"
  | .rxFramesPcm => "rx_fr_pcm"
  | .rxFramesVit => "rx_fr_vt"
  | .rxPtCount _ => "_c"
  | .rxPtPayloadLen _ => "_l"
  | .audioSeq => "seq"
  | .audioSr => "sr"
  | .audioCh => "ch"

def FlagField.name : FlagField → String
  | .forced => "forced"
  | .flip => "flip"
  | .inPass => "in_pass"
  | .tracking => "tracking"
  | .hasRotator => "has_rot"
  | .autoTcmdOn => "at_on"
  | .txAllowTx => "tx_allow"
  | .txAllowHighPower => "tx_hp"
  | .txAllowHfTx => "tx_hf"
  | .rxHaveSession => "rx_has"
  | .rxRecActive => "rx_rec"
  | .audioEnable => "enable"
  | .audioStart => "start"

/-- `snprintf(key, sizeof key, "rx_pt%d" "_x", s)`. -/
def ptKey (s : Fin ptSlots) (tail : String) : List UInt8 := text "rx_pt" ++ (decimal s.val ++ text tail)

/-- The key on the wire. -/
def Slot.key : Slot → List UInt8
  | .type => text "t"
  | .str (.rxPtSummary s) => ptKey s "_s"
  | .int (.rxPtCount s) => ptKey s "_c"
  | .int (.rxPtPayloadLen s) => ptKey s "_l"
  | .str f => text f.name
  | .dbl f => text f.name
  | .int f => text f.name
  | .flag f => text f.name
  | .roster => text "roster"
  | .payload s => ptKey s "_p"
  | .ribbonPeak => text "rx_rb_p"

/-- The slots of one packet type. -/
def ptBlock (s : Fin ptSlots) : List Slot :=
  [.int (.rxPtCount s), .int (.rxPtPayloadLen s), .payload s, .str (.rxPtSummary s)]

/-- The slots in front of those of the packet types. -/
def headSlots : List Slot :=
  [.str .ts, .str .fromName, .str .role, .str .user, .str .operatorUser, .str .prev, .str .newUser, .str .byName,
    .str .toName, .flag .forced, .str .reason, .str .passFolder,
    .str .satellite, .str .source, .dbl .az, .dbl .el, .int .freqHz, .dbl .dopplerHz, .str .rxStatus, .str .txStatus,
    .str .tlePath, .dbl .targetAz, .dbl .targetEl, .flag .flip, .flag .inPass, .flag .tracking, .dbl .julUtc,
    .flag .hasRotator, .str .idesg, .dbl .epochMin, .dbl .minVisible, .dbl .minAbove0, .dbl .minAbove30, .dbl .maxEl,
    .dbl .predAz, .dbl .predEl, .dbl .altKm, .dbl .latDeg, .dbl .lonDeg, .dbl .speedKms, .dbl .rangeKm,
    .dbl .rangeRateKms, .roster,
    .flag .autoTcmdOn, .int .autoTcmdSent, .int .autoTcmdTotal, .str .autoTcmdState,
    .dbl .snrDb, .int .packets, .str .lastPacketTs, .str .lastPacketSummary, .str .ascii, .str .txPayloadKind,
    .str .txPayload, .int .txCspSrc, .int .txCspDst, .int .txCspDport, .int .txCspSport, .int .txCspPrio,
    .int .txFreqHz, .dbl .txGainDb, .flag .txAllowTx, .flag .txAllowHighPower, .flag .txAllowHfTx, .int .txRepeat,
    .int .txGapMs, .str .txNotSentReason, .str .txOrigin, .str .cmdText, .str .cmdStatus,
    .flag .audioEnable, .dbl .audioQuality, .str .audioState, .int .audioSeq, .flag .audioStart, .int .audioSr,
    .int .audioCh, .str .audioB64,
    .flag .rxHaveSession, .flag .rxRecActive, .dbl .rxFreqHz, .dbl .rxPeakDbfs, .dbl .rxRmsDbfs, .int .rxFramesTotal,
    .int .rxFramesPcm, .int .rxFramesVit, .str .rxLastFrameSummary, .dbl .rxAgeS]

/-- Every slot but the type, in the order in which `sso_event_decode` asks for them. -/
def slots : List Slot :=
  headSlots ++ ((List.finRange ptSlots).flatMap ptBlock ++ [.str .rxWarning, .str .rxRibbon, .ribbonPeak])

theorem mem_slots {s : Slot} (h : s ≠ .type) : s ∈ slots := by
  cases s with
  | type => exact absurd rfl h
  | str f =>
      cases f with
      | rxPtSummary s =>
          revert s
          decide +kernel
      | _ => decide +kernel
  | dbl f => cases f <;> decide +kernel
  | int f =>
      cases f with
      | rxPtCount s =>
          revert s
          decide +kernel
      | rxPtPayloadLen s =>
          revert s
          decide +kernel
      | _ => decide +kernel
  | flag f => cases f <;> decide +kernel
  | roster => decide +kernel
  | payload s =>
      revert s
      decide +kernel
  | ribbonPeak => decide +kernel

theorem nodup_keys : ((Slot.type :: slots).map Slot.key).Nodup := by decide +kernel

/-- No two slots have one key. -/
theorem key_injective : Function.Injective Slot.key := by
  have hmem : ∀ s, s ∈ Slot.type :: slots := by
    intro s
    by_cases h : s = .type
    · exact h ▸ List.mem_cons_self
    · exact List.mem_cons_of_mem _ (mem_slots h)
  intro s s' h
  exact List.inj_on_of_nodup_map nodup_keys (hmem s) (hmem s') h

end SimpleSatOps.Ipc
