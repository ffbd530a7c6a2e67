import SimpleSatOps.Lib.Printf

/-!
# CTS1 packets (`beacon_cts1.c`)

A payload is a CSP packet without its header; its first byte is the packet type.

* `BeaconField` : the fields of `COMMS_beacon_basic_packet_t`;
* `cts1SanitiseText` : text off the air, fit for a terminal;
* `beaconIsBasic`, `tcmdResponseIs`, `logMessageIs` : the detectors;
* `beaconBasicSummary`, `tcmdResponseSummary`, `logMessageSummary` : a packet in one line;
* `cts1RxPanelSummary` : the line of the receiver's panel.
-/

namespace SimpleSatOps.Cts1

/-! ## Packet types -/

abbrev beaconBasic : UInt8 := 0x01

abbrev logMessage : UInt8 := 0x03

abbrev tcmdResponse : UInt8 := 0x04

/-- `AX100_DOWNLINK_MAX_BYTES`. -/
abbrev downlinkMaxBytes : ℕ := 200

/-- `COMMS_CSP_CRC32_TRAILER_BYTES`. -/
abbrev crc32TrailerBytes : ℕ := 4

/-- `sizeof(COMMS_beacon_basic_packet_t)`. -/
abbrev sizeofBeacon : ℕ := 130

/-- `COMMS_TCMD_RESPONSE_HEADER_SIZE`: `packet_type`, `ts_sent`, `response_code`, `duration_ms`, `response_seq_num` and
`response_max_seq_num` take 1, 8, 1, 2, 1 and 1 bytes. -/
abbrev tcmdResponseHeaderSize : ℕ := 14

/-- `COMMS_TCMD_RESPONSE_PACKET_MAX_DATA_BYTES_PER_PACKET`. -/
abbrev tcmdResponseMaxData : ℕ := 186

/-- `COMMS_LOG_MESSAGE_PACKET_MAX_DATA_BYTES_PER_PACKET`. -/
abbrev logMessageMaxData : ℕ := 199

/-! ## The beacon -/

/-- The fields of `COMMS_beacon_basic_packet_t`. -/
inductive BeaconField
  | packetType | satelliteName | activeRfSwitchAntenna | activeRfSwitchControlMode | uptimeMs
  | durationSinceLastUplinkMs | unixEpochTimeMs | lastTimeSyncSourceEnum | isFsMounted
  | totalTcmdQueuedCount | pendingQueuedTcmdCount | totalBeaconCountSinceBoot
  | epsModeEnum | epsResetCauseEnum | epsUptimeSec | epsErrorCode | epsBatteryVoltageMV | epsBatteryPercent
  | epsBatteryTemperature0CC | epsBatteryTemperature1CC | epsTotalFaultCount | epsEnabledChannelsBitfield
  | epsTotalPcuPowerInputCW | epsTotalPcuPowerOutputCW | epsTotalAvgPcuPowerInputCW | epsTotalAvgPcuPowerOutputCW
  | obcTemperatureCC | rebootReason | cts1OperationState | rbfPinState
  | mpiRxModeEnum | mpiTransceiverStateEnum | mpiLastReasonForStoppingEnum
  | gnssUartInterruptEnabled | gnssRxModeEnum | friendlyMessage | endMessage
deriving DecidableEq

namespace BeaconField

/-- Every field with its size in bytes, in the order of the struct. -/
def layout : List (BeaconField × ℕ) :=
  [(packetType, 1), (satelliteName, 4), (activeRfSwitchAntenna, 1), (activeRfSwitchControlMode, 1), (uptimeMs, 4),
    (durationSinceLastUplinkMs, 4), (unixEpochTimeMs, 8), (lastTimeSyncSourceEnum, 1), (isFsMounted, 1),
    (totalTcmdQueuedCount, 2), (pendingQueuedTcmdCount, 2), (totalBeaconCountSinceBoot, 4),
    (epsModeEnum, 1), (epsResetCauseEnum, 1), (epsUptimeSec, 4), (epsErrorCode, 2), (epsBatteryVoltageMV, 2),
    (epsBatteryPercent, 1), (epsBatteryTemperature0CC, 2), (epsBatteryTemperature1CC, 2), (epsTotalFaultCount, 4),
    (epsEnabledChannelsBitfield, 4), (epsTotalPcuPowerInputCW, 4), (epsTotalPcuPowerOutputCW, 4),
    (epsTotalAvgPcuPowerInputCW, 4), (epsTotalAvgPcuPowerOutputCW, 4), (obcTemperatureCC, 4), (rebootReason, 1),
    (cts1OperationState, 1), (rbfPinState, 1), (mpiRxModeEnum, 1), (mpiTransceiverStateEnum, 1),
    (mpiLastReasonForStoppingEnum, 1), (gnssUartInterruptEnabled, 1), (gnssRxModeEnum, 1), (friendlyMessage, 42),
    (endMessage, 4)]

/-- Where a field starts in the packed struct. -/
def offset (f : BeaconField) : ℕ := ((layout.takeWhile (·.1 ≠ f)).map Prod.snd).sum

def width (f : BeaconField) : ℕ := ((layout.find? (·.1 = f)).map Prod.snd).getD 0

/-- The bytes of a field. -/
def bytes (f : BeaconField) (payload : List UInt8) : List UInt8 := slice payload f.offset f.width

/-- The number in a field, little-endian. -/
def value (f : BeaconField) (payload : List UInt8) : ℕ := (f.bytes payload).foldr (fun b n => b.toNat + 256 * n) 0

/-- The number in a signed field. -/
def signedValue (f : BeaconField) (payload : List UInt8) : ℤ := (BitVec.ofNat (8 * f.width) (f.value payload)).toInt

/-- The assertion behind the struct. -/
theorem sum_width : (layout.map Prod.snd).sum = sizeofBeacon := by decide

end BeaconField

/-! ## Texts -/

def isPrintable (b : UInt8) : Bool := 0x20 ≤ b && b < 0x7F

/-- `cts1_sanitise_text` into a buffer of `outn` bytes: the text, whose length it returns, and `*out_truncated`. -/
def cts1SanitiseText (data : List UInt8) (outn : ℕ) : List UInt8 × Bool :=
  if outn = 0 then ([], !data.isEmpty)
  else
    let data := data.rdropWhile (· == 0)
    ((data.take (outn - 1)).map fun b => if isPrintable b then b else byte '.', outn - 1 < data.length)

/-- The name of a value, or the value where there is none. -/
def enumStr (names : List String) (v : ℕ) : List UInt8 :=
  match names[v]? with
  | some name => text name
  | none => snprintf 8 (decimal v)

def epsModeStr : ℕ → List UInt8 := enumStr ["STARTUP", "NOMINAL", "SAFETY", "EMERGENCY"]

def cts1StateStr : ℕ → List UInt8 := enumStr ["BOOTING", "DEPLOYING", "NOMINAL_TX", "NOMINAL_NO_TX"]

/-- `fmt_cC_i32` into a buffer of 16 bytes. -/
def fmtCCI32 (v : ℤ) : List UInt8 :=
  snprintf 16 <|
    if v = 2 ^ 31 - 1 ∨ v = -2 ^ 31 then text "n/a"
    else Double.printFixed 2 (Double.nearest (v < 0) (v.natAbs / 10 ^ 2)) ++ text "C"

/-- `fmt_ms_clock` into a buffer of 24 bytes. -/
def fmtMsClock (msIn : ℕ) : List UInt8 :=
  let totalS := msIn / 1000
  snprintf 24 (zeroPad 2 (totalS / 3600) ++ text ":" ++ zeroPad 2 (totalS / 60 % 60) ++ text ":" ++
    zeroPad 2 (totalS % 60) ++ text "." ++ zeroPad 3 (msIn % 1000))

/-- `"%.2f"` of the millivolts over `1000.0`. -/
def volts (mV : ℕ) : List UInt8 := Double.printFixed 2 (Double.nearest false (mV / 1000))

/-! ## Detectors -/

def beaconIsBasic (payload : List UInt8) : Bool :=
  payload.length == sizeofBeacon || payload.length == sizeofBeacon + 4

def tcmdResponseIs (payload : List UInt8) : Bool :=
  let len := payload.length
  let seq := payload.getD 12 0
  let maxSeq := payload.getD 13 0
  !(len == sizeofBeacon || len == sizeofBeacon + 4) && tcmdResponseHeaderSize + 1 ≤ len &&
    len ≤ tcmdResponseHeaderSize + tcmdResponseMaxData + crc32TrailerBytes &&
    payload.getD 0 0 == tcmdResponse && !(seq < 1 || maxSeq < 1 || maxSeq < seq)

def logMessageIs (payload : List UInt8) : Bool :=
  2 ≤ payload.length && payload.length ≤ downlinkMaxBytes + crc32TrailerBytes && payload.getD 0 0 == logMessage &&
    !beaconIsBasic payload && ((payload.drop 1).take 8).any isPrintable

/-! ## Summaries

The text left in a buffer of `outSize` bytes, whose length the source returns. -/

def beaconBasicSummary (payload : List UInt8) (outSize : ℕ) : List UInt8 :=
  if !beaconIsBasic payload then []
  else
    let name := (cts1SanitiseText (BeaconField.satelliteName.bytes payload) 5).1
    let msg := (cts1SanitiseText (BeaconField.friendlyMessage.bytes payload) 43).1
    snprintf outSize (name ++ text " st=" ++ cts1StateStr (BeaconField.cts1OperationState.value payload) ++
      text " eps=" ++ epsModeStr (BeaconField.epsModeEnum.value payload) ++
      text " batt=" ++ volts (BeaconField.epsBatteryVoltageMV.value payload) ++
      text "V/" ++ decimal (BeaconField.epsBatteryPercent.value payload) ++
      text "% obc=" ++ fmtCCI32 (BeaconField.obcTemperatureCC.signedValue payload) ++
      text " up=" ++ fmtMsClock (BeaconField.uptimeMs.value payload) ++
      text " cnt=" ++ decimal (BeaconField.totalBeaconCountSinceBoot.value payload) ++
      text " \"" ++ msg ++ text "\"")

def tcmdResponseSummary (payload : List UInt8) (outSize : ℕ) : List UInt8 :=
  if !tcmdResponseIs payload then []
  else
    let code := (payload.getD 9 0).toNat
    -- the data up to the first NUL
    let data := cstr (payload.drop tcmdResponseHeaderSize)
    snprintf outSize (text "[" ++ decimal (payload.getD 12 0).toNat ++ text "/" ++
      decimal (payload.getD 13 0).toNat ++ text "] code=" ++ decimal code ++ (if code = 0 then text "(OK)" else []) ++
      text " '" ++ (cts1SanitiseText data 96).1 ++ text "'")

def logMessageSummary (payload : List UInt8) (outSize : ℕ) : List UInt8 :=
  if !logMessageIs payload then []
  else
    let shown := cts1SanitiseText (payload.drop 1) (logMessageMaxData + 1)
    snprintf outSize (text "'" ++ shown.1 ++ text "'" ++ if shown.2 then text "..." else [])

/-- `cts1_rx_panel_summary`; a frame that Reed-Solomon gave up on has `rs_errs` at -2. -/
def cts1RxPanelSummary (packet : List UInt8) (packetType : UInt8) (rsErrs : ℤ) (outSize : ℕ) : List UInt8 :=
  if rsErrs = -2 then snprintf outSize (text "!RS!RS-FAIL: telemetry hidden (uncorrectable frame)")
  else if packetType = beaconBasic then beaconBasicSummary packet outSize
  else if packetType = tcmdResponse then tcmdResponseSummary packet outSize
  else if packetType = logMessage then logMessageSummary packet outSize
  else []

end SimpleSatOps.Cts1
