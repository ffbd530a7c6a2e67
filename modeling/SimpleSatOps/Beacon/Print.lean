import SimpleSatOps.Beacon.Cts1
import SimpleSatOps.Lib.LittleEndian
import SimpleSatOps.Lib.Utc

/-!
# Printing CTS1 packets (`beacon_cts1.c`)

* `Kind` : the four types of packets, each with its detector `Kind.is` and its printer `Kind.print`;
* `cts1PacketPrint` : the printer of the first type that matches;
* `is_unique` : no payload matches two types;
* `first_eq` : so the detectors may be asked in any order.
-/

namespace SimpleSatOps.Cts1

abbrev bulkFile : UInt8 := 0x10

/-- `COMMS_BULK_FILE_DOWNLINK_PACKET_HEADER_SIZE`. -/
abbrev bulkFileHeaderSize : ℕ := 5

def bulkFileIs (payload : List UInt8) : Bool :=
  bulkFileHeaderSize + 1 ≤ payload.length && payload.length ≤ downlinkMaxBytes + crc32TrailerBytes &&
    payload.getD 0 0 == bulkFile && !beaconIsBasic payload

/-! ## Names and numbers -/

def rebootReasonStr : ℕ → List UInt8 :=
  enumStr ["UNKNOWN", "LOW_POWER", "WINDOW_WATCHDOG", "INDEPENDENT_WATCHDOG", "SOFTWARE", "EXTERNAL_PIN", "BROWNOUT",
    "OPTION_BYTE_LOADER", "FIREWALL"]

def rbfStateStr : ℕ → List UInt8 := enumStr ["BENCH", "FLYING"]

def epsResetCauseStr : ℕ → List UInt8 :=
  enumStr ["POWER_ON", "WATCHDOG", "COMMANDED", "CTRL_SYS_RESET", "EMERGENCY_LOW_POWER"]

/-- `rf_switch_mode_str`; the firmware uses 255 for a mode it could not parse. -/
def rfSwitchModeStr (v : ℕ) : List UInt8 :=
  if v = 255 then text "UNKNOWN"
  else enumStr ["TOGGLE_PER_BEACON", "FORCE_ANT1", "FORCE_ANT2", "ADCS_NORMAL", "ADCS_FLIPPED"] v

def timeSyncSourceStr : ℕ → List UInt8 :=
  enumStr ["NONE", "GNSS_UART", "GNSS_PPS", "TCMD_ABS", "TCMD_CORR", "EPS_RTC"]

def mpiRxModeStr : ℕ → List UInt8 := enumStr ["COMMAND", "SENSING", "NOT_LISTENING"]

def mpiTransceiverStr : ℕ → List UInt8 := enumStr ["INACTIVE", "MOSI", "MISO", "DUPLEX"]

def mpiStopReasonStr : ℕ → List UInt8 :=
  enumStr ["NOT_SET", "TEMP_EXCEEDED", "TELECOMMAND", "MAX_TIME_EXCEEDED", "SELF_CHECK_DONE"]

def gnssRxModeStr : ℕ → List UInt8 := enumStr ["COMMAND", "FIREHOSE", "DISABLED"]

/-- `fmt_cC_i16` into a buffer of 16 bytes. -/
def fmtCCI16 (v : ℤ) : List UInt8 :=
  snprintf 16 <|
    if v = 2 ^ 15 - 1 ∨ v = -2 ^ 15 then text "n/a"
    else Double.printFixed 2 (Double.nearest (v < 0) (v.natAbs / 10 ^ 2)) ++ text "C"

/-- `fmt_epoch_ms` into a buffer of 32 bytes. -/
def fmtEpochMs (msIn : ℕ) : List UInt8 :=
  let tm := gmtimeR (msIn / 1000 : ℕ)
  snprintf 32 (decimalInt (tm.tmYear + 1900) ++ text "-" ++ zeroPadInt 2 (tm.tmMon + 1) ++ text "-" ++
    zeroPadInt 2 tm.tmMday ++ text "T" ++ zeroPadInt 2 tm.tmHour ++ text ":" ++ zeroPadInt 2 tm.tmMin ++ text ":" ++
    zeroPadInt 2 tm.tmSec ++ text "Z")

/-- `"%.3f"` of the millivolts over `1000.0`. -/
def millivolts (mV : ℕ) : List UInt8 := Double.printFixed 3 (Double.nearest false (mV / 1000))

/-- `"%.2f"` of the centiwatts over `100.0`. -/
def watts (cW : ℤ) : List UInt8 := Double.printFixed 2 (Double.nearest (cW < 0) (cW.natAbs / 100))

/-- `"%x"`. -/
def hexNumber (n : ℕ) : List UInt8 := if n = 0 then text "0" else (Nat.digits 16 n).reverse.map hexDigit

/-- The decoration of a line; there is none without a timestamp. -/
def linePrefix : Option (List UInt8) → List UInt8
  | some ts => snprintf 64 (text "[" ++ ts ++ text "] ")
  | none => []

/-- A line of a packet of the type with this name. -/
def line (ts : Option (List UInt8)) (name : String) (rest : List UInt8) : List UInt8 :=
  linePrefix ts ++ text name ++ text ": " ++ rest ++ text "\n"

/-! ## Printers -/

def beaconPrint (ts : Option (List UInt8)) (payload : List UInt8) : List UInt8 :=
  let number := fun f : BeaconField => decimal (f.value payload)
  line ts "beacon"
      (text "name=\"" ++ (cts1SanitiseText (BeaconField.satelliteName.bytes payload) 5).1 ++
      text "\" state=" ++ cts1StateStr (BeaconField.cts1OperationState.value payload) ++
      text " eps_mode=" ++ epsModeStr (BeaconField.epsModeEnum.value payload) ++
      text " fs_mounted=" ++ number .isFsMounted ++ text " count=" ++ number .totalBeaconCountSinceBoot) ++
    line ts "beacon"
      (text "uptime=" ++ fmtMsClock (BeaconField.uptimeMs.value payload) ++
      text " since_uplink=" ++ fmtMsClock (BeaconField.durationSinceLastUplinkMs.value payload) ++
      text " epoch=" ++ fmtEpochMs (BeaconField.unixEpochTimeMs.value payload)) ++
    line ts "beacon"
      (text "batt=" ++ millivolts (BeaconField.epsBatteryVoltageMV.value payload) ++
      text "V " ++ number .epsBatteryPercent ++
      text "% temps=" ++ fmtCCI16 (BeaconField.epsBatteryTemperature0CC.signedValue payload) ++
      text "/" ++ fmtCCI16 (BeaconField.epsBatteryTemperature1CC.signedValue payload) ++
      text " obc=" ++ fmtCCI32 (BeaconField.obcTemperatureCC.signedValue payload)) ++
    line ts "beacon"
      (text "pcu in/out=" ++ watts (BeaconField.epsTotalPcuPowerInputCW.signedValue payload) ++
      text "W/" ++ watts (BeaconField.epsTotalPcuPowerOutputCW.signedValue payload) ++
      text "W avg=" ++ watts (BeaconField.epsTotalAvgPcuPowerInputCW.signedValue payload) ++
      text "W/" ++ watts (BeaconField.epsTotalAvgPcuPowerOutputCW.signedValue payload) ++
      text "W faults=" ++ decimalInt (BeaconField.epsTotalFaultCount.signedValue payload) ++
      text " channels=0x" ++ hexNumber (BeaconField.epsEnabledChannelsBitfield.value payload)) ++
    line ts "beacon"
      (text "tcmd queued=" ++ number .totalTcmdQueuedCount ++ text " pending=" ++ number .pendingQueuedTcmdCount ++
      text " reboot=" ++ rebootReasonStr (BeaconField.rebootReason.value payload) ++
      text " eps_reset=" ++ epsResetCauseStr (BeaconField.epsResetCauseEnum.value payload) ++
      text " rbf=" ++ rbfStateStr (BeaconField.rbfPinState.value payload) ++
      text " antenna=" ++ number .activeRfSwitchAntenna) ++
    line ts "beacon"
      (text "rf_switch=" ++ rfSwitchModeStr (BeaconField.activeRfSwitchControlMode.value payload) ++
      text " time_sync=" ++ timeSyncSourceStr (BeaconField.lastTimeSyncSourceEnum.value payload) ++
      text " gnss_rx_mode=" ++ gnssRxModeStr (BeaconField.gnssRxModeEnum.value payload)) ++
    line ts "beacon"
      (text "mpi rx=" ++ mpiRxModeStr (BeaconField.mpiRxModeEnum.value payload) ++
      text " tx=" ++ mpiTransceiverStr (BeaconField.mpiTransceiverStateEnum.value payload) ++
      text " last_stop=" ++ mpiStopReasonStr (BeaconField.mpiLastReasonForStoppingEnum.value payload)) ++
    line ts "beacon"
      (text "msg=\"" ++ (cts1SanitiseText (BeaconField.friendlyMessage.bytes payload) 43).1 ++ text "\"")

def tcmdResponsePrint (ts : Option (List UInt8)) (payload : List UInt8) : List UInt8 :=
  let code := (payload.getD 9 0).toNat
  let tsSent := littleEndian (slice payload 1 8)
  -- the data up to the first NUL
  let data := cstr (payload.drop tcmdResponseHeaderSize)
  line ts "tcmd_response"
      (text "code=" ++ decimal code ++ (if code = 0 then text " (OK)" else []) ++
      text " duration=" ++ decimal (littleEndian (slice payload 10 2)) ++
      text "ms seq=" ++ decimal (payload.getD 12 0).toNat ++ text "/" ++ decimal (payload.getD 13 0).toNat ++
      text " ts_sent=" ++ fmtEpochMs tsSent ++ text " (" ++ decimal tsSent ++ text ")") ++
    line ts "tcmd_response"
      (text "data (" ++ decimal data.length ++ text " bytes): \"" ++
      (data.map fun b => if isPrintable b then b else byte '.') ++ text "\"")

def logMessagePrint (ts : Option (List UInt8)) (payload : List UInt8) : List UInt8 :=
  let shown := cts1SanitiseText (payload.drop 1) (logMessageMaxData + 1)
  line ts "log"
    (text "\"" ++ shown.1 ++ text "\"" ++ (if shown.2 then text "..." else []) ++
    text " (" ++ decimal shown.1.length ++ text " bytes)")

def bulkFilePrint (ts : Option (List UInt8)) (payload : List UInt8) : List UInt8 :=
  let offset := hexNumber (littleEndian (slice payload 1 4))
  let data := payload.drop bulkFileHeaderSize
  line ts "bulk_file"
    (text "offset=0x" ++ List.replicate (8 - offset.length) (byte '0') ++ offset ++
    text " bytes=" ++ decimal data.length ++ text " preview=" ++ (data.take 16).flatMap hexByte ++
    if 16 < data.length then text "..." else [])

/-! ## Types -/

/-- The types of packets that are recognized. -/
inductive Kind
  | beacon | tcmdResponse | logMessage | bulkFile
deriving DecidableEq

namespace Kind

/-- The detector of a type. -/
def is : Kind → List UInt8 → Bool
  | beacon => beaconIsBasic
  | tcmdResponse => tcmdResponseIs
  | logMessage => logMessageIs
  | bulkFile => bulkFileIs

def print : Kind → Option (List UInt8) → List UInt8 → List UInt8
  | beacon => beaconPrint
  | tcmdResponse => tcmdResponsePrint
  | logMessage => logMessagePrint
  | bulkFile => bulkFilePrint

/-- `packet_type_name`. -/
def name : Kind → String
  | beacon => "beacon"
  | tcmdResponse => "tcmd_response"
  | logMessage => "log"
  | bulkFile => "bulk_file"

/-- All types, in the order in which the source asks for them. -/
def all : List Kind := [beacon, tcmdResponse, logMessage, bulkFile]

/-- The first byte of a packet, and `packet_type` in the database. -/
def packetType : Kind → UInt8
  | beacon => Cts1.beaconBasic
  | tcmdResponse => Cts1.tcmdResponse
  | logMessage => Cts1.logMessage
  | bulkFile => Cts1.bulkFile

end Kind

/-- `cts1_packet_print`; the payload is `none` for `NULL`. -/
def cts1PacketPrint (ts payload : Option (List UInt8)) : List UInt8 :=
  match payload with
  | none => []
  | some payload =>
    if payload.length = 0 then []
    else if beaconIsBasic payload then beaconPrint ts payload
    else if tcmdResponseIs payload then tcmdResponsePrint ts payload
    else if logMessageIs payload then logMessagePrint ts payload
    else if bulkFileIs payload then bulkFilePrint ts payload
    else []

/-! ## One type at most -/

/-- All but the beacon keep clear of the lengths of a beacon, and insist on their first byte. -/
theorem Kind.anchor {k : Kind} {payload : List UInt8} (h : k.is payload = true) (hk : k ≠ .beacon) :
    beaconIsBasic payload = false ∧ payload.getD 0 0 = k.packetType := by
  cases k with
  | beacon => exact absurd rfl hk
  | tcmdResponse =>
      simp only [is, tcmdResponseIs, Bool.and_eq_true, Bool.not_eq_true', beq_iff_eq] at h
      exact ⟨h.1.1.1.1, h.1.2⟩
  | logMessage =>
      simp only [is, logMessageIs, Bool.and_eq_true, Bool.not_eq_true', beq_iff_eq] at h
      exact ⟨h.1.2, h.1.1.2⟩
  | bulkFile =>
      simp only [is, bulkFileIs, Bool.and_eq_true, Bool.not_eq_true', beq_iff_eq] at h
      exact ⟨h.2, h.1.2⟩

theorem Kind.packetType_injective : Function.Injective Kind.packetType := by
  intro k k' h
  cases k <;> cases k' <;> first | rfl | exact absurd h (by decide)

theorem Kind.is_unique {k k' : Kind} {payload : List UInt8} (h : k.is payload = true) (h' : k'.is payload = true) :
    k = k' := by
  by_cases hk : k = .beacon
  · subst hk
    by_contra hk'
    exact absurd h (Bool.eq_false_iff.mp (anchor h' (Ne.symm hk')).1)
  · by_cases hk' : k' = .beacon
    · subst hk'
      exact absurd h' (Bool.eq_false_iff.mp (anchor h hk).1)
    · exact packetType_injective ((anchor h hk).2.symm.trans (anchor h' hk').2)

theorem Kind.mem_all (k : Kind) : k ∈ all := by cases k <;> decide

/-- The first type that matches, in some order of asking. -/
def first (order : List Kind) (payload : List UInt8) : Option Kind := order.find? (·.is payload)

theorem is_of_first {order : List Kind} {payload : List UInt8} {k : Kind} (h : first order payload = some k) :
    k.is payload = true := by
  unfold first at h
  exact List.find?_some (p := fun k : Kind => k.is payload) h

theorem first_eq_some {order : List Kind} (hall : ∀ k, k ∈ order) {payload : List UInt8} {k : Kind} :
    first order payload = some k ↔ k.is payload = true := by
  constructor
  · exact is_of_first
  · intro h
    cases hfirst : first order payload with
    | none => exact absurd h (List.find?_eq_none.mp hfirst k (hall k))
    | some k' => rw [Kind.is_unique h (is_of_first hfirst)]

/-- **The order in which the detectors are asked does not matter.** -/
theorem first_eq {order : List Kind} (h : order.Perm Kind.all) (payload : List UInt8) :
    first order payload = first Kind.all payload := by
  apply Option.ext
  intro k
  rw [first_eq_some fun k => h.mem_iff.mpr (Kind.mem_all k), first_eq_some Kind.mem_all]

theorem first_nil : first Kind.all [] = none := by decide

/-- The dispatcher prints for the type that matches. -/
theorem cts1PacketPrint_eq (ts : Option (List UInt8)) (payload : List UInt8) :
    cts1PacketPrint ts (some payload) = (first Kind.all payload).elim [] fun k => k.print ts payload := by
  by_cases hlen : payload.length = 0
  · rw [List.length_eq_zero_iff] at hlen
    subst hlen
    rw [first_nil]
    rfl
  · simp only [cts1PacketPrint, if_neg hlen, first, Kind.all, List.find?_cons, List.find?_nil, Kind.is]
    cases beaconIsBasic payload with
    | true => rfl
    | false =>
        cases tcmdResponseIs payload with
        | true => rfl
        | false =>
            cases logMessageIs payload with
            | true => rfl
            | false => cases bulkFileIs payload <;> rfl

/-- A printed packet begins with the name of its type. -/
theorem Kind.print_eq (k : Kind) (ts : Option (List UInt8)) (payload : List UInt8) :
    ∃ rest, k.print ts payload = linePrefix ts ++ text k.name ++ text ": " ++ rest := by
  cases k <;> simp only [print, name, beaconPrint, tcmdResponsePrint, logMessagePrint, bulkFilePrint, line,
    List.append_assoc] <;> exact ⟨_, rfl⟩

end SimpleSatOps.Cts1
