import SimpleSatOps.Beacon.Print
import SimpleSatOps.Db.PacketDb
import SimpleSatOps.Lib.Fold
import SimpleSatOps.Proto.Csp

/-!
# Recording packets (`decode_loop.c`)

Every frame is counted and recorded, also when nothing recognizes it.

* `recordPacket` : `decode_loop_record_packet`, with the record it inserts;
* `emitFrame` : `emit_frame`, with what it prints of the packet;
* `Counted` : the counters agree with each other and with the calls made;
* `classification` : the types, the texts and the counters are consistent.
-/

namespace SimpleSatOps.DecodeLoop
open Cts1 Csp PacketDb

/-- The fields of `decode_loop_stats_t` that are counted. -/
structure Stats where
  emitted : ℕ
  cspOk : ℕ
  rsCorrected : ℕ
  rsUncorrectable : ℕ
  recognized : ℕ
  unrecognized : ℕ
  beacon : ℕ
  tcmdResponse : ℕ
  logMessage : ℕ
  bulkFile : ℕ
  dbBusy : ℕ
  dbError : ℕ
deriving DecidableEq

/-- `decode_loop_reset_stats`. -/
def Stats.reset : Stats := ⟨0, 0, 0, 0, 0, 0, 0, 0, 0, 0, 0, 0⟩

/-- What stays between calls: `g_stats`, whether there is a `g_packet_db`, and the records handed to it. -/
structure Globals where
  stats : Stats
  packetDb : Bool
  inserted : List (Record (List UInt8))

/-- The arguments of `decode_loop_record_packet` but the timestamp. -/
structure Packet where
  hdr : CspV1Header
  cspOk : Bool
  payload : Option (List UInt8)
  golayErrs : ℤ
  hmacOk : ℤ
  rsErrs : ℤ
  crcStatus : ℤ

/-- What a call gets from outside: `setting` holds the fields of the record that the clock and the setters decide, and
`dbrc` is what `packet_db_insert` would return. -/
structure Outside where
  setting : Record (List UInt8)
  dbrc : ℤ

/-- `ptype`, `ptype_name` and `satellite` of a recognized packet. -/
structure Recognized where
  ptype : ℤ
  ptypeName : String
  satellite : Option String
deriving DecidableEq

/-- The chain of detectors in `decode_loop_record_packet`. -/
def recognize (cspOk : Bool) (payload : List UInt8) : Option Recognized :=
  if cspOk then
    if beaconIsBasic payload then some ⟨0x01, "beacon", some "CTS1"⟩
    else if tcmdResponseIs payload then some ⟨0x04, "tcmd_response", none⟩
    else if logMessageIs payload then some ⟨0x03, "log", none⟩
    else if bulkFileIs payload then some ⟨0x10, "bulk_file", none⟩
    else none
  else none

/-- The counters after a packet. -/
def Stats.tally (s : Stats) : Option Recognized → Stats
  | some r =>
    let s := { s with recognized := s.recognized + 1 }
    if r.ptype = 0x01 then { s with beacon := s.beacon + 1 }
    else if r.ptype = 0x04 then { s with tcmdResponse := s.tcmdResponse + 1 }
    else if r.ptype = 0x03 then { s with logMessage := s.logMessage + 1 }
    else if r.ptype = 0x10 then { s with bulkFile := s.bulkFile + 1 }
    else s
  | none => { s with unrecognized := s.unrecognized + 1 }

/-- The `summary`, printed into a buffer of 2048 bytes. -/
def summaryOf (payload : List UInt8) : Option (List UInt8) :=
  let summary := snprintf 2048 (cts1PacketPrint none (some payload))
  if summary = [] then none else some summary

/-- The record `decode_loop_record_packet` hands to the database. -/
def recordOf (p : Packet) (payload : List UInt8) (setting : Record (List UInt8)) : Record (List UInt8) :=
  let recognized := recognize p.cspOk payload
  { setting with
    satellite := recognized.bind fun r => r.satellite.map text
    packetType := recognized.elim 0 Recognized.ptype
    packetTypeName := some (recognized.elim (if p.cspOk then text "unknown" else text "unparsed") fun r =>
      text r.ptypeName)
    cspSrc := p.hdr.src.toNat
    cspDst := p.hdr.dst.toNat
    cspDport := p.hdr.dport.toNat
    cspSport := p.hdr.sport.toNat
    cspPrio := p.hdr.prio.toNat
    cspFlags := p.hdr.flags.toNat
    cspPresent := p.cspOk
    payload := some payload
    payloadLen := payload.length
    golayErrs := p.golayErrs
    rsErrs := p.rsErrs
    hmacOk := p.hmacOk
    crcStatus := p.crcStatus
    decodedSummary := recognized.bind fun _ => summaryOf payload }

/-- The insert at the end of `decode_loop_record_packet`, and what becomes of its result. -/
def Globals.insert (g : Globals) (r : Record (List UInt8)) (dbrc : ℤ) : Globals :=
  if g.packetDb then
    { g with
      inserted := g.inserted ++ [r]
      stats :=
        if dbrc = PACKET_DB_INSERT_BUSY then { g.stats with dbBusy := g.stats.dbBusy + 1 }
        else if dbrc < 0 then { g.stats with dbError := g.stats.dbError + 1 }
        else g.stats }
  else g

/-- `decode_loop_record_packet`. -/
def recordPacket (g : Globals) (p : Packet) (o : Outside) : Globals :=
  match p.payload with
  | none => g
  | some payload =>
    if payload.length = 0 then g
    else
      { g with stats := g.stats.tally (recognize p.cspOk payload) }.insert (recordOf p payload o.setting) o.dbrc

/-- The arguments of `emit_frame` that are counted or recorded. -/
structure Frame where
  packet : List UInt8
  golayErrs : ℤ
  hmacOk : ℤ
  rsErrs : ℤ
  crcStatus : ℤ

namespace Frame
variable (f : Frame)

/-- `csp_ok`: there are bytes for a header, and `csp_v1_decode` accepts any. -/
def cspOk : Bool := 4 ≤ f.packet.length

/-- The bytes behind the header, or the whole packet where there is no header. -/
def payload : List UInt8 := if f.cspOk then f.packet.drop 4 else f.packet

/-- What `emit_frame` records. -/
def toPacket : Packet where
  hdr := if f.cspOk then cspV1Decode f.packet else ⟨0, 0, 0, 0, 0, 0⟩
  cspOk := f.cspOk
  payload := some f.payload
  golayErrs := f.golayErrs
  hmacOk := f.hmacOk
  rsErrs := f.rsErrs
  crcStatus := f.crcStatus

/-- What `emit_frame` prints of the packet by `cts1_packet_print`; without `--force-beacon` it does so for every
stream. -/
def printed (ts : List UInt8) : List UInt8 :=
  if f.cspOk then cts1PacketPrint (some ts) (some (f.packet.drop 4)) else []

end Frame

/-- The framing counters of `emit_frame`. -/
def Stats.emit (s : Stats) (f : Frame) : Stats :=
  let s := { s with emitted := s.emitted + 1 }
  let s := if f.cspOk then { s with cspOk := s.cspOk + 1 } else s
  if f.rsErrs = -2 then { s with rsUncorrectable := s.rsUncorrectable + 1 }
  else if 0 ≤ f.rsErrs then { s with rsCorrected := s.rsCorrected + 1 }
  else s

/-- `emit_frame`, as far as it counts and records. -/
def emitFrame (g : Globals) (f : Frame) (o : Outside) : Globals :=
  recordPacket { g with stats := g.stats.emit f } f.toPacket o

/-- A call from a receiver: of `emit_frame`, or of `decode_loop_record_packet` by itself. -/
inductive Call
  | emit (f : Frame) (o : Outside)
  | record (p : Packet) (o : Outside)

def Globals.call (g : Globals) : Call → Globals
  | .emit f o => emitFrame g f o
  | .record p o => recordPacket g p o

/-- The globals after a run of calls. -/
def Globals.run (g : Globals) (calls : List Call) : Globals := calls.foldl Globals.call g

namespace Call

def packet : Call → Packet
  | emit f _ => f.toPacket
  | record p _ => p

def outside : Call → Outside
  | emit _ o => o
  | record _ o => o

/-- The payload to record; an empty one and `NULL` are not recorded. -/
def payload (c : Call) : List UInt8 := c.packet.payload.getD []

/-- The record of a call. -/
def stored (c : Call) : Record (List UInt8) := recordOf c.packet c.payload c.outside.setting

def isEmit : Call → Bool
  | emit _ _ => true
  | record _ _ => false

end Call

/-! ## Types -/

/-- The row of `decode_loop_record_packet` for a type. -/
def recognizedAs (k : Kind) : Recognized :=
  ⟨k.packetType.toNat, k.name, if k = .beacon then some "CTS1" else none⟩

/-- The second chain of detectors recognizes the first type that matches, too. -/
theorem recognize_eq (payload : List UInt8) : recognize true payload = (first Kind.all payload).map recognizedAs := by
  unfold recognize
  simp only [first, Kind.all, List.find?_cons, List.find?_nil, Kind.is, if_true]
  cases beaconIsBasic payload with
  | true => rfl
  | false =>
      cases tcmdResponseIs payload with
      | true => rfl
      | false =>
          cases logMessageIs payload with
          | true => rfl
          | false => cases bulkFileIs payload <;> rfl

/-- What is printed is a text of the type in the record, and nothing if the record has no type. -/
inductive PrintedAs (ts : Option (List UInt8)) (r : Record (List UInt8)) : List UInt8 → Prop
  | nothing (htype : r.packetType = 0) : PrintedAs ts r []
  | packet {k : Kind} {payload rest : List UInt8} (htype : r.packetType = k.packetType.toNat)
    (hname : r.packetTypeName = some (text k.name)) (hpayload : r.payload = some payload)
    (hprint : k.print ts payload = linePrefix ts ++ text k.name ++ text ": " ++ rest) :
    PrintedAs ts r (k.print ts payload)

theorem printedAs (ts : Option (List UInt8)) {p : Packet} (hcsp : p.cspOk = true) (payload : List UInt8)
    (setting : Record (List UInt8)) :
    PrintedAs ts (recordOf p payload setting) (cts1PacketPrint ts (some payload)) := by
  have hrec : recognize p.cspOk payload = (first Kind.all payload).map recognizedAs := by rw [hcsp, recognize_eq]
  rw [cts1PacketPrint_eq]
  cases hfirst : first Kind.all payload with
  | none =>
      rw [hfirst] at hrec
      exact .nothing (by simp only [recordOf, hrec]; rfl)
  | some k =>
      rw [hfirst] at hrec
      obtain ⟨rest, hprint⟩ := k.print_eq ts payload
      exact .packet (by simp only [recordOf, hrec]; rfl) (by simp only [recordOf, hrec]; rfl) rfl hprint

/-- `emit_frame` prints nothing of a packet without a header, and its record has no type. -/
theorem printedAs_printed (f : Frame) (ts : List UInt8) (setting : Record (List UInt8)) :
    PrintedAs (some ts) (recordOf f.toPacket f.payload setting) (f.printed ts) := by
  unfold Frame.printed Frame.payload
  cases hcsp : f.cspOk with
  | true => exact printedAs (some ts) hcsp (f.packet.drop 4) setting
  | false =>
      have hrec : recognize f.toPacket.cspOk f.packet = none := by
        show recognize f.cspOk f.packet = none
        rw [hcsp]
        rfl
      exact .nothing (by
        show (recognize f.toPacket.cspOk f.packet).elim 0 Recognized.ptype = 0
        rw [hrec]
        rfl)

/-! ## Counters -/

/-- The counters after calls that emitted `emits` frames and recorded `records` packets. -/
structure Counted (s : Stats) (emits records : ℕ) : Prop where
  emitted : s.emitted = emits
  recorded : s.recognized + s.unrecognized = records
  byType : s.recognized = s.beacon + s.tcmdResponse + s.logMessage + s.bulkFile

namespace Counted
variable {s : Stats} {emits records : ℕ}

theorem reset : Counted .reset 0 0 := ⟨rfl, rfl, rfl⟩

/-- One counter of a type for one that is recognized, and `unrecognized` for the others. -/
theorem tally (h : Counted s emits records) (cspOk : Bool) (payload : List UInt8) :
    Counted (s.tally (recognize cspOk payload)) emits (records + 1) := by
  obtain ⟨hemitted, hrecorded, hbyType⟩ := h
  have hunrecognized : Counted (s.tally none) emits (records + 1) :=
    ⟨hemitted, by rw [← hrecorded]; rfl, hbyType⟩
  cases cspOk with
  | false => exact hunrecognized
  | true =>
      rw [recognize_eq]
      cases first Kind.all payload with
      | none => exact hunrecognized
      | some k =>
          have hrec : s.recognized + 1 + s.unrecognized = records + 1 := by omega
          cases k with
          | beacon =>
              have hbeacon : s.recognized + 1 = s.beacon + 1 + s.tcmdResponse + s.logMessage + s.bulkFile := by omega
              exact ⟨hemitted, hrec, hbeacon⟩
          | tcmdResponse =>
              have hresponse : s.recognized + 1 = s.beacon + (s.tcmdResponse + 1) + s.logMessage + s.bulkFile := by
                omega
              exact ⟨hemitted, hrec, hresponse⟩
          | logMessage =>
              have hlog : s.recognized + 1 = s.beacon + s.tcmdResponse + (s.logMessage + 1) + s.bulkFile := by omega
              exact ⟨hemitted, hrec, hlog⟩
          | bulkFile =>
              have hbulk : s.recognized + 1 = s.beacon + s.tcmdResponse + s.logMessage + (s.bulkFile + 1) := by omega
              exact ⟨hemitted, hrec, hbulk⟩

theorem emit (h : Counted s emits records) (f : Frame) : Counted (s.emit f) (emits + 1) records := by
  obtain ⟨hemitted, hrecorded, hbyType⟩ := h
  unfold Stats.emit
  split_ifs <;> exact ⟨congrArg (· + 1) hemitted, hrecorded, hbyType⟩

end Counted

/-- The insert changes its own two counters only. -/
theorem Counted.insert {g : Globals} {emits records : ℕ} (h : Counted g.stats emits records)
    (r : Record (List UInt8)) (dbrc : ℤ) : Counted (g.insert r dbrc).stats emits records := by
  unfold Globals.insert
  split_ifs <;> exact ⟨h.emitted, h.recorded, h.byType⟩

theorem Counted.record {g : Globals} {emits records : ℕ} (h : Counted g.stats emits records) {p : Packet}
    (hp : p.payload.getD [] ≠ []) (o : Outside) : Counted (recordPacket g p o).stats emits (records + 1) := by
  unfold recordPacket
  cases hpayload : p.payload with
  | none =>
      rw [hpayload] at hp
      exact absurd rfl hp
  | some payload =>
      have hlen : payload.length ≠ 0 := by
        rw [hpayload] at hp
        exact fun hlen => hp (List.length_eq_zero_iff.mp hlen)
      dsimp only
      rw [if_neg hlen]
      exact Counted.insert (h.tally p.cspOk payload) _ o.dbrc

theorem Counted.call {g : Globals} {emits records : ℕ} (h : Counted g.stats emits records) {c : Call}
    (hc : c.packet.payload.getD [] ≠ []) :
    Counted (g.call c).stats (emits + [c].countP Call.isEmit) (records + 1) := by
  cases c with
  | emit f o => exact Counted.record (h.emit f) hc o
  | record p o => exact Counted.record h hc o

theorem Counted.run {g : Globals} {emits records : ℕ} (h : Counted g.stats emits records) {calls : List Call}
    (hcalls : ∀ c ∈ calls, c.packet.payload.getD [] ≠ []) :
    Counted (g.run calls).stats (emits + calls.countP Call.isEmit) (records + calls.length) := by
  induction calls generalizing g emits records with
  | nil => exact h
  | cons c calls ih =>
      have hrun := ih (h.call (hcalls c List.mem_cons_self)) fun c hc => hcalls c (List.mem_cons_of_mem _ hc)
      have hemits : emits + [c].countP Call.isEmit + calls.countP Call.isEmit =
          emits + (c :: calls).countP Call.isEmit := by
        rw [Nat.add_assoc, ← List.countP_append, List.singleton_append]
      have hrecords : records + 1 + calls.length = records + (c :: calls).length := by
        rw [List.length_cons]
        omega
      rw [hemits, hrecords] at hrun
      exact hrun

/-! ## Records -/

/-- The list `l`, if there is a database. -/
abbrev kept (db : Bool) (l : List (Record (List UInt8))) : List (Record (List UInt8)) := if db then l else []

theorem Globals.inserted_insert (g : Globals) (r : Record (List UInt8)) (dbrc : ℤ) :
    (g.insert r dbrc).packetDb = g.packetDb ∧ (g.insert r dbrc).inserted = g.inserted ++ kept g.packetDb [r] := by
  unfold Globals.insert
  cases hdb : g.packetDb with
  | true => exact ⟨rfl, rfl⟩
  | false => exact ⟨hdb, (List.append_nil _).symm⟩

theorem inserted_recordPacket (g : Globals) {p : Packet} (hp : p.payload.getD [] ≠ []) (o : Outside) :
    (recordPacket g p o).packetDb = g.packetDb ∧ (recordPacket g p o).inserted =
      g.inserted ++ kept g.packetDb [recordOf p (p.payload.getD []) o.setting] := by
  unfold recordPacket
  cases hpayload : p.payload with
  | none =>
      rw [hpayload] at hp
      exact absurd rfl hp
  | some payload =>
      have hlen : payload.length ≠ 0 := by
        rw [hpayload] at hp
        exact fun hlen => hp (List.length_eq_zero_iff.mp hlen)
      dsimp only
      rw [if_neg hlen]
      exact Globals.inserted_insert { g with stats := g.stats.tally (recognize p.cspOk payload) } _ o.dbrc

theorem inserted_call (g : Globals) {c : Call} (hc : c.payload ≠ []) :
    (g.call c).packetDb = g.packetDb ∧ (g.call c).inserted = g.inserted ++ kept g.packetDb [c.stored] := by
  cases c with
  | emit f o => exact inserted_recordPacket { g with stats := g.stats.emit f } hc o
  | record p o => exact inserted_recordPacket g hc o

/-- With a database every call leaves one record. -/
theorem inserted_run (g : Globals) {calls : List Call} (hcalls : ∀ c ∈ calls, c.payload ≠ []) :
    (g.run calls).inserted = g.inserted ++ kept g.packetDb (calls.map Call.stored) := by
  induction calls generalizing g with
  | nil =>
      show g.inserted = _
      cases g.packetDb <;> exact (List.append_nil _).symm
  | cons c calls ih =>
      obtain ⟨hdb, hcall⟩ := inserted_call g (hcalls c List.mem_cons_self)
      show ((g.call c).run calls).inserted = _
      rw [ih _ fun c hc => hcalls c (List.mem_cons_of_mem _ hc), hcall, hdb, List.append_assoc]
      cases g.packetDb <;> rfl

/-- **Classification is exclusive and consistent.** No payload matches two detectors, so all orders of asking find the
same type. What `cts1_packet_print` prints, and what `emit_frame` lets it print, is of the type that is recorded. After
calls with payloads the counters agree with the records, which are all there. -/
theorem classification {calls : List Call} (hcalls : ∀ c ∈ calls, c.payload ≠ []) (db : Bool) :
    let g := Globals.run ⟨.reset, db, []⟩ calls
    (∀ (payload : Option (List UInt8)) (k k' : Kind), payload.any k.is = true → payload.any k'.is = true → k = k') ∧
    (∀ order : List Kind, order.Perm Kind.all → ∀ payload,
      recognize true payload = (first order payload).map recognizedAs ∧
      ∀ ts, cts1PacketPrint ts (some payload) = (first order payload).elim [] fun k => k.print ts payload) ∧
    (∀ (ts : Option (List UInt8)) (p : Packet) (payload : List UInt8) (setting : Record (List UInt8)),
      p.cspOk = true → PrintedAs ts (recordOf p payload setting) (cts1PacketPrint ts (some payload))) ∧
    (∀ (ts : List UInt8) (f : Frame) (setting : Record (List UInt8)),
      PrintedAs (some ts) (recordOf f.toPacket f.payload setting) (f.printed ts)) ∧
    g.inserted = (if db then calls.map Call.stored else []) ∧
    g.stats.recognized + g.stats.unrecognized = calls.length ∧
    g.stats.emitted = calls.countP Call.isEmit ∧
    ((∀ c ∈ calls, c.isEmit = true) → g.stats.emitted = g.stats.recognized + g.stats.unrecognized) ∧
    g.stats.recognized = g.stats.beacon + g.stats.tcmdResponse + g.stats.logMessage + g.stats.bulkFile := by
  have hcounted := Counted.run (g := ⟨.reset, db, []⟩) .reset hcalls
  rw [Nat.zero_add, Nat.zero_add] at hcounted
  refine ⟨?_, ?_, ?_, fun ts f setting => printedAs_printed f ts setting,
    inserted_run ⟨.reset, db, []⟩ hcalls, hcounted.recorded, hcounted.emitted, ?_,
    hcounted.byType⟩
  · intro payload k k' h h'
    cases payload with
    | none => cases h
    | some payload => exact Kind.is_unique h h'
  · intro order horder payload
    rw [first_eq horder]
    exact ⟨recognize_eq payload, fun ts => cts1PacketPrint_eq ts payload⟩
  · intro ts p payload setting hcsp
    exact printedAs ts hcsp payload setting
  · intro hemit
    rw [hcounted.recorded, hcounted.emitted, List.countP_eq_length.mpr hemit]

/-- A log message behind a header, and a packet that no detector recognizes. -/
def twoCalls : List Call :=
  [.emit ⟨[0, 0, 0, 0, 0x03, 0x41], 0, -1, 0, -1⟩ ⟨Record.blank, 0⟩,
    .record ⟨⟨0, 0, 0, 0, 0, 0⟩, true, some [0x7f], 0, -1, -2, -1⟩ ⟨Record.blank, 0⟩]

theorem classification_two : let g := Globals.run ⟨.reset, true, []⟩ twoCalls
    g.inserted.length = 2 ∧ g.stats.recognized = 1 ∧ g.stats.unrecognized = 1 ∧ g.stats.logMessage = 1 := by
  have hpayloads : ∀ c ∈ twoCalls, c.payload ≠ [] := by decide
  have h := classification hpayloads true
  obtain ⟨-, -, -, -, hinserted, -, -, -, -⟩ := h
  refine ⟨?_, by decide, by decide, by decide⟩
  rw [hinserted]
  rfl

end SimpleSatOps.DecodeLoop
