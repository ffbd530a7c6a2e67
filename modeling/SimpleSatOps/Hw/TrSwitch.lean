import SimpleSatOps.Lib.Double
import SimpleSatOps.Lib.Framing

/-!
# The T/R switch's serial status lines (`tr_switch.c`)

The pump reads what has come over the serial line, cuts it into lines and hands each to the heartbeat parser.

* `TrSwitch`, `findKv`, `parseLine` : the link and the parser;
* `receive`, `pump` : a byte read, a call of `tr_switch_pump`;
* `Watched` : the link with what was read from it and handed to the parser so far;
* `Split`, `split_run` : both by the bytes alone, however they were chunked;
* `handed_iff` : the lines handed are the lines of the stream exactly when every one of them fits;
* `stream_pump`, `handed_congr` : the stream is what the chunks hold, and the chunks do not matter otherwise.
-/

namespace SimpleSatOps.TrStatus
open Framing

abbrev cr : UInt8 := 0x0d

abbrev nl : UInt8 := 0x0a

def TR_SWITCH_RX_BUF_BYTES : ℕ := 256
def TR_SWITCH_STATE_MAX : ℕ := 8
def TR_SWITCH_MODE_MAX : ℕ := 16

/-- `NAN`. -/
def nan : Double := ⟨false, 2047, 2 ^ 51⟩

/-- `INFINITY`. -/
def infinity : Double := ⟨false, 2047, 0⟩

/-- `tr_switch_t`; the index stays inside the buffer. -/
structure TrSwitch where
  connected : Bool
  rxBuf : Bytes TR_SWITCH_RX_BUF_BYTES
  rxLen : Fin TR_SWITCH_RX_BUF_BYTES
  stateStr : List UInt8
  modeStr : List UInt8
  lastTxAgoS : Double
  tLastByte : Double
  tLastHeartbeat : Double
  heartbeatCount : UInt64

/-- `tr_switch_init` once the device is open; the buffer holds whatever it held. -/
def TrSwitch.init (rxBuf : Bytes TR_SWITCH_RX_BUF_BYTES) : TrSwitch where
  connected := true
  rxBuf := rxBuf
  rxLen := ⟨0, by decide⟩
  stateStr := []
  modeStr := []
  lastTxAgoS := nan
  tLastByte := .zero
  tLastHeartbeat := .zero
  heartbeatCount := 0

/-! ## The parser -/

/-- `strstr`: the text from the first occurrence on. -/
def strstr (needle : List UInt8) : List UInt8 → Option (List UInt8)
  | [] => if needle = [] then some [] else none
  | c :: s => if needle <+: c :: s then some (c :: s) else strstr needle s

/-- `find_kv`: the value behind the key, cut to its buffer. -/
def findKv (line needle : List UInt8) (cap : ℕ) : Option (List UInt8) :=
  (strstr needle line).map fun p =>
    ((p.drop needle.length).takeWhile fun c => c != byte ' ' && c != cr && c != nl).take (cap - 1)

section Pump
-- `sscanf(s, "%lf", &v)`
variable (sscanfLf : List UInt8 → Option Double)

/-- `parse_line`. -/
def parseLine (s : TrSwitch) (line : List UInt8) (tNow : Double) : TrSwitch :=
  match strstr (text "Heartbeat:") line with
  | none => s
  | some hb =>
    match findKv hb (text "state=") TR_SWITCH_STATE_MAX, findKv hb (text "mode=") TR_SWITCH_MODE_MAX with
    | some state, some mode =>
      let age :=
        match findKv hb (text "last_tx_ago_s=") 32 with
        | none => s.lastTxAgoS
        | some age => if age = text "never" then infinity else (sscanfLf age).getD nan
      { s with
        stateStr := state
        modeStr := mode
        lastTxAgoS := age
        tLastHeartbeat := tNow
        heartbeatCount := s.heartbeatCount + 1 }
    | _, _ => s

/-! ## The pump -/

/-- The byte `c` in the buffer at `rxLen`. -/
def TrSwitch.put (s : TrSwitch) (c : UInt8) : Bytes TR_SWITCH_RX_BUF_BYTES :=
  ⟨s.rxBuf.1.set s.rxLen c, by rw [List.length_set, s.rxBuf.2]⟩

/-- One byte of a chunk: the switch, and the line that is handed to the parser if one is. -/
def receive (tNow : Double) (s : TrSwitch) (c : UInt8) : TrSwitch × Option (List UInt8) :=
  if c = cr then (s, none)
  else if c = nl then
    let line := cstr (s.put 0).1
    ({ parseLine sscanfLf { s with rxBuf := s.put 0 } line tNow with rxLen := ⟨0, by decide⟩ }, some line)
  else if h : TR_SWITCH_RX_BUF_BYTES ≤ s.rxLen + 1 then ({ s with rxLen := ⟨0, by decide⟩ }, none)
  else ({ s with rxBuf := s.put c, rxLen := ⟨s.rxLen + 1, Nat.not_le.mp h⟩ }, none)

/-- What `read` gives: some bytes, none of them at the end of the file; `EAGAIN`; another error. -/
inductive ReadResult where
  | data (chunk : List UInt8)
  | again
  | error

/-- The link, with the bytes that were read from it and the lines that were handed to the parser. -/
structure Watched where
  switch : TrSwitch
  stream : List UInt8
  handed : List (List UInt8)

namespace Watched

/-- A link just opened. -/
def opened (rxBuf : Bytes TR_SWITCH_RX_BUF_BYTES) : Watched := ⟨TrSwitch.init rxBuf, [], []⟩

/-- One byte of a chunk. -/
def receive (tNow : Double) (w : Watched) (c : UInt8) : Watched :=
  let (s, line) := TrStatus.receive sscanfLf tNow w.switch c
  ⟨s, w.stream ++ [c], w.handed ++ line.toList⟩

/-- The loop of `tr_switch_pump` over what its reads give; without any more the next one gives `EAGAIN`. -/
def pumpLoop (tNow : Double) : List ReadResult → Watched → Watched
  | .data chunk :: reads, w =>
    if chunk = [] then w
    else pumpLoop tNow reads
      (chunk.foldl (receive sscanfLf tNow) { w with switch := { w.switch with tLastByte := tNow } })
  | .error :: _, w => { w with switch := { w.switch with connected := false } }
  | .again :: _, w => w
  | [], w => w

/-- `tr_switch_pump`. -/
def pump (w : Watched) (tNow : Double) (reads : List ReadResult) : Watched :=
  if w.switch.connected = false then w else pumpLoop sscanfLf tNow reads w

/-- Calls of the pump, each with its time and what its reads give. -/
def run (w : Watched) (pumps : List (Double × List ReadResult)) : Watched :=
  pumps.foldl (fun w p => w.pump sscanfLf p.1 p.2) w

end Watched

/-! ## Lines -/

/-- The complete lines of a stream without its carriage returns. -/
def completeLines (stream : List UInt8) : List (List UInt8) := lines nl (stream.filter (· != cr))

/-- The line that is not complete yet. -/
def openLine (stream : List UInt8) : List UInt8 := rest nl (stream.filter (· != cr))

/-- The lines that should be handed to the parser: the complete ones that fit the buffer with their NUL. -/
def due (stream : List UInt8) : List (List UInt8) :=
  (completeLines stream).filter fun l => l.length < TR_SWITCH_RX_BUF_BYTES

variable {sscanfLf}

/-- The buffer and the lines handed so far, by the stream. -/
structure Split (w : Watched) : Prop where
  line_eq : w.switch.rxBuf.1.take w.switch.rxLen = wrapped TR_SWITCH_RX_BUF_BYTES (openLine w.stream)
  handed_eq : w.handed = (completeLines w.stream).map fun l => cstr (wrapped TR_SWITCH_RX_BUF_BYTES l)

theorem completeLines_append_cr (stream : List UInt8) : completeLines (stream ++ [cr]) = completeLines stream := by
  unfold completeLines
  rw [List.filter_append]
  simp

theorem openLine_append_cr (stream : List UInt8) : openLine (stream ++ [cr]) = openLine stream := by
  unfold openLine
  rw [List.filter_append]
  simp

theorem filter_append_singleton {c : UInt8} (hc : c ≠ cr) (stream : List UInt8) :
    (stream ++ [c]).filter (· != cr) = stream.filter (· != cr) ++ [c] := by
  rw [List.filter_append, List.filter_cons_of_pos (by simpa using hc), List.filter_nil]

theorem completeLines_append_nl (stream : List UInt8) :
    completeLines (stream ++ [nl]) = completeLines stream ++ [openLine stream] := by
  unfold completeLines openLine
  rw [filter_append_singleton (by decide), lines_append, lines_line_cons (free_rest _), lines_of_free List.not_mem_nil]

theorem openLine_append_nl (stream : List UInt8) : openLine (stream ++ [nl]) = [] := by
  unfold openLine
  rw [filter_append_singleton (by decide), rest_append_cons, rest_of_free List.not_mem_nil]

theorem completeLines_append {c : UInt8} (hcr : c ≠ cr) (hnl : c ≠ nl) (stream : List UInt8) :
    completeLines (stream ++ [c]) = completeLines stream := by
  unfold completeLines
  rw [filter_append_singleton hcr, lines_append_of_free]
  rw [List.mem_append, List.mem_singleton, not_or]
  exact ⟨free_rest _, hnl.symm⟩

theorem openLine_append {c : UInt8} (hcr : c ≠ cr) (hnl : c ≠ nl) (stream : List UInt8) :
    openLine (stream ++ [c]) = openLine stream ++ [c] := by
  unfold openLine
  rw [filter_append_singleton hcr, rest_append, rest_of_free]
  rw [List.mem_append, List.mem_singleton, not_or]
  exact ⟨free_rest _, hnl.symm⟩

theorem cstr_put_nul (s : TrSwitch) : cstr (s.put 0).1 = cstr (s.rxBuf.1.take s.rxLen) := by
  have hlt : s.rxLen < s.rxBuf.1.length := by
    rw [s.rxBuf.2]
    exact s.rxLen.2
  change cstr (s.rxBuf.1.set s.rxLen 0) = _
  rw [List.set_eq_take_append_cons_drop, if_pos hlt, cstr_append_zero]

/-- One byte. -/
theorem split_receive {w : Watched} (h : Split w) (tNow : Double) (c : UInt8) :
    Split (w.receive sscanfLf tNow c) := by
  have hlen : w.switch.rxLen < w.switch.rxBuf.1.length := by
    rw [w.switch.rxBuf.2]
    exact w.switch.rxLen.2
  have hheld : (wrapped TR_SWITCH_RX_BUF_BYTES (openLine w.stream)).length = w.switch.rxLen := by
    rw [← h.line_eq, List.length_take_of_le hlen.le]
  unfold Watched.receive TrStatus.receive
  by_cases hcr : c = cr
  · subst hcr
    rw [if_pos rfl]
    refine ⟨?_, ?_⟩
    · rw [openLine_append_cr]
      exact h.line_eq
    · rw [completeLines_append_cr, ← h.handed_eq]
      exact List.append_nil _
  rw [if_neg hcr]
  by_cases hnl : c = nl
  · subst hnl
    rw [if_pos rfl]
    refine ⟨?_, ?_⟩
    · rw [openLine_append_nl]
      rfl
    · rw [completeLines_append_nl, List.map_append, ← h.handed_eq, List.map_singleton, ← h.line_eq, ← cstr_put_nul]
      rfl
  rw [if_neg hnl]
  split_ifs with hfull
  · refine ⟨?_, ?_⟩
    · rw [openLine_append hcr hnl, wrapped_append_singleton (by decide), hheld, if_neg (Nat.not_lt.mpr hfull)]
      rfl
    · rw [completeLines_append hcr hnl, ← h.handed_eq]
      exact List.append_nil _
  · refine ⟨?_, ?_⟩
    · rw [openLine_append hcr hnl, wrapped_append_singleton (by decide), hheld, if_pos (Nat.not_le.mp hfull),
        ← h.line_eq]
      exact take_succ_set hlen c
    · rw [completeLines_append hcr hnl, ← h.handed_eq]
      exact List.append_nil _

theorem split_foldl {w : Watched} (h : Split w) (tNow : Double) (chunk : List UInt8) :
    Split (chunk.foldl (Watched.receive sscanfLf tNow) w) := by
  induction chunk generalizing w with
  | nil => exact h
  | cons c chunk ih => exact ih (split_receive h tNow c)

theorem split_pumpLoop (tNow : Double) (reads : List ReadResult) : ∀ {w : Watched}, Split w →
    Split (w.pumpLoop sscanfLf tNow reads) := by
  induction reads with
  | nil => exact fun h => h
  | cons r reads ih =>
    intro w h
    cases r with
    | data chunk =>
      unfold Watched.pumpLoop
      split_ifs
      · exact h
      · refine ih (split_foldl ?_ tNow chunk)
        exact ⟨h.line_eq, h.handed_eq⟩
    | again => exact h
    | error => exact ⟨h.line_eq, h.handed_eq⟩

theorem split_pump {w : Watched} (h : Split w) (tNow : Double) (reads : List ReadResult) :
    Split (w.pump sscanfLf tNow reads) := by
  unfold Watched.pump
  split_ifs
  · exact h
  · exact split_pumpLoop tNow reads h

theorem split_run {w : Watched} (h : Split w) (pumps : List (Double × List ReadResult)) :
    Split (w.run sscanfLf pumps) := by
  induction pumps generalizing w with
  | nil => exact h
  | cons p pumps ih => exact ih (split_pump h p.1 p.2)

theorem split_opened (rxBuf : Bytes TR_SWITCH_RX_BUF_BYTES) : Split (Watched.opened rxBuf) where
  line_eq := by
    have hopen : openLine [] = [] := rest_of_free List.not_mem_nil
    change rxBuf.1.take 0 = wrapped TR_SWITCH_RX_BUF_BYTES (openLine [])
    rw [hopen, List.take_zero, wrapped_of_lt (by decide)]
  handed_eq := by
    have hlines : completeLines [] = [] := lines_of_free List.not_mem_nil
    change [] = (completeLines []).map _
    rw [hlines, List.map_nil]

/-- A line the parser gets as it is: it fits the buffer with its NUL and has none of its own. -/
def Fits (l : List UInt8) : Prop := l.length < TR_SWITCH_RX_BUF_BYTES ∧ 0 ∉ l

theorem map_eq_filter_iff (ls : List (List UInt8)) :
    (ls.map fun l => cstr (wrapped TR_SWITCH_RX_BUF_BYTES l)) =
      ls.filter (fun l => l.length < TR_SWITCH_RX_BUF_BYTES) ↔ ∀ l ∈ ls, Fits l := by
  constructor
  · intro h
    -- the filter may drop nothing, and then each line is its own string
    have hlen := congrArg List.length h
    rw [List.length_map] at hlen
    have hall := List.length_filter_eq_length_iff.mp hlen.symm
    rw [List.filter_eq_self.mpr hall] at h
    intro l hl
    have hlt : l.length < TR_SWITCH_RX_BUF_BYTES := of_decide_eq_true (hall l hl)
    have hsame : cstr (wrapped TR_SWITCH_RX_BUF_BYTES l) = l := by
      exact List.map_inj_left.mp (h.trans (List.map_id ls).symm) l hl
    rw [wrapped_of_lt hlt] at hsame
    exact ⟨hlt, hsame ▸ nul_not_mem_cstr l⟩
  · intro h
    rw [List.filter_eq_self.mpr fun l hl => decide_eq_true (h l hl).1]
    refine (List.map_congr_left fun l hl => ?_).trans (List.map_id ls)
    rw [wrapped_of_lt (h l hl).1, cstr_of_not_mem (h l hl).2, id]

/-- **The splitter**: after any calls of the pump, whatever chunks its reads gave, the lines handed to the parser are
the complete lines of the stream that fit the buffer exactly when every complete line fits. -/
theorem handed_iff (sscanfLf : List UInt8 → Option Double) (rxBuf : Bytes TR_SWITCH_RX_BUF_BYTES)
    (pumps : List (Double × List ReadResult)) :
    ((Watched.opened rxBuf).run sscanfLf pumps).handed = due ((Watched.opened rxBuf).run sscanfLf pumps).stream ↔
      ∀ l ∈ completeLines ((Watched.opened rxBuf).run sscanfLf pumps).stream, Fits l := by
  rw [(split_run (split_opened rxBuf) pumps).handed_eq]
  exact map_eq_filter_iff _

/-- The chunks do not matter, only the bytes. -/
theorem handed_congr {v w : Watched} (hv : Split v) (hw : Split w) (h : v.stream = w.stream) : v.handed = w.handed := by
  rw [hv.handed_eq, hw.handed_eq, h]

theorem connected_receive (tNow : Double) (w : Watched) (c : UInt8) :
    (w.receive sscanfLf tNow c).switch.connected = w.switch.connected := by
  unfold Watched.receive TrStatus.receive parseLine
  split_ifs
  · rfl
  · dsimp only
    split
    · rfl
    · split <;> rfl
  · rfl
  · rfl

theorem foldl_receive (tNow : Double) (chunk : List UInt8) : ∀ w : Watched,
    (chunk.foldl (Watched.receive sscanfLf tNow) w).stream = w.stream ++ chunk ∧
      (chunk.foldl (Watched.receive sscanfLf tNow) w).switch.connected = w.switch.connected := by
  induction chunk with
  | nil => exact fun w => ⟨(List.append_nil _).symm, rfl⟩
  | cons c chunk ih =>
    intro w
    obtain ⟨hstream, hconnected⟩ := ih (w.receive sscanfLf tNow c)
    refine ⟨?_, hconnected.trans (connected_receive tNow w c)⟩
    rw [List.foldl_cons, hstream]
    exact List.append_assoc _ _ _

/-- The stream is what the chunks hold, one after the other. -/
theorem stream_pump (tNow : Double) (chunks : List (List UInt8)) : ∀ {w : Watched}, w.switch.connected = true →
    (∀ chunk ∈ chunks, chunk ≠ []) → (w.pump sscanfLf tNow (chunks.map .data)).stream = w.stream ++ chunks.flatten := by
  induction chunks with
  | nil =>
    intro w hconnected _
    rw [Watched.pump, if_neg (by rw [hconnected]; decide)]
    exact (List.append_nil _).symm
  | cons chunk chunks ih =>
    intro w hconnected hne
    set w' := chunk.foldl (Watched.receive sscanfLf tNow) { w with switch := { w.switch with tLastByte := tNow } }
      with hw'
    obtain ⟨hstream, hstill⟩ := foldl_receive tNow chunk { w with switch := { w.switch with tLastByte := tNow } }
    have hstill' : w'.switch.connected = true := hstill.trans hconnected
    have hrest := ih hstill' fun d hd => hne d (List.mem_cons_of_mem chunk hd)
    rw [Watched.pump, if_neg (by rw [hstill']; decide)] at hrest
    rw [Watched.pump, if_neg (by rw [hconnected]; decide), List.map_cons, Watched.pumpLoop,
      if_neg (hne chunk List.mem_cons_self), ← hw', hrest, hw', hstream, List.flatten_cons, List.append_assoc]

end Pump

/-! ## The tail of a long line -/

/-- A heartbeat behind 256 bytes of noise on the same line, in chunks as `read` gives them. -/
def noisy : List (Double × List ReadResult) :=
  [(.zero, [.data (List.replicate 128 (byte 'x')), .data (List.replicate 128 (byte 'x')),
    .data (text "Heartbeat: state=TX mode=AUTO\r\n"), .again])]

def clearBuf : Bytes TR_SWITCH_RX_BUF_BYTES := ⟨List.replicate TR_SWITCH_RX_BUF_BYTES 0, List.length_replicate⟩

/-- No line of the stream fits, but the tail of the long one is handed to the parser, and the switch reports TX. -/
theorem noisy_handed :
    due ((Watched.opened clearBuf).run strtod noisy).stream = [] ∧
    ((Watched.opened clearBuf).run strtod noisy).handed = [text "Heartbeat: state=TX mode=AUTO"] ∧
    ((Watched.opened clearBuf).run strtod noisy).switch.stateStr = text "TX" ∧
    ¬ ∀ (rxBuf : Bytes TR_SWITCH_RX_BUF_BYTES) (pumps : List (Double × List ReadResult)),
      ((Watched.opened rxBuf).run strtod pumps).handed = due ((Watched.opened rxBuf).run strtod pumps).stream := by
  have hdue : due ((Watched.opened clearBuf).run strtod noisy).stream = [] := by decide +kernel
  have hhanded : ((Watched.opened clearBuf).run strtod noisy).handed = [text "Heartbeat: state=TX mode=AUTO"] := by
    decide +kernel
  refine ⟨hdue, hhanded, by decide +kernel, fun h => ?_⟩
  have heq := h clearBuf noisy
  rw [hdue, hhanded] at heq
  exact List.cons_ne_nil _ _ heq

end SimpleSatOps.TrStatus
