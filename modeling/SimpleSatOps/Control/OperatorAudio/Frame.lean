import SimpleSatOps.Ipc.Base64
import SimpleSatOps.Ipc.Broadcast

/-!
# Audio events

* `ssoEventInit`, `audioEvent` : the event of a chunk of a stream;
* `audioData` : what a viewer decodes from an event;
* `sublist_onWire`, `size_audioEvent_le` : what its line is made of, and that it fits;
* `audioData_audioEvent` : the chunk is decoded from it;
* `encode_chunk` : the encoder has room for a chunk.
-/

namespace SimpleSatOps.OperatorAudio
open Ipc Base64 Json

/-- `sso_event_init`, at the time `ts`. -/
def ssoEventInit (ts : Bytes StrField.ts.size) (type : EventType) : Event :=
  { Event.zero with type := type }.setStr .ts ts

/-- Rate and channels of a stream. -/
abbrev Format : Type := IntKind.int.Val × IntKind.int.Val

/-- What `audio_sub_sink` fills in; the first event of a stream has its format. -/
def audioEvent (ts : Bytes StrField.ts.size) (seq : IntKind.int.Val) (start : Option Format)
    (b64 : Bytes StrField.audioB64.size) : Event :=
  let e := (ssoEventInit ts .audio).setInt .audioSeq seq
  let e := match start with
    | some (sr, ch) => ((e.setFlag .audioStart true).setInt .audioSr sr).setInt .audioCh ch
    | none => e
  e.setStr .audioB64 b64

/-- The bytes of an event, in a buffer of `SSO_AUDIO_RAW_MAX`. -/
def audioData (e : Event) : Option (List UInt8) :=
  match ssoBase64Decode (e.str .audioB64).1 (zeros audioRawMax).1 with
  | .ok (out, some n) => some (out.take n)
  | _ => none

section
variable (ts : Bytes StrField.ts.size) (seq : IntKind.int.Val) (start : Option Format)
  (b64 : Bytes StrField.audioB64.size)

@[simp] theorem type_audioEvent : (audioEvent ts seq start b64).type = .audio := by cases start <;> rfl

@[simp] theorem seq_audioEvent : (audioEvent ts seq start b64).int .audioSeq = seq := by cases start <;> rfl

@[simp] theorem start_audioEvent : (audioEvent ts seq start b64).flag .audioStart = start.isSome := by
  cases start <;> rfl

@[simp] theorem data_audioEvent : (audioEvent ts seq start b64).str .audioB64 = b64 := by cases start <;> rfl

/-! ## The line -/

/-- The fields an audio event leaves empty. -/
def unset : List Slot :=
  [.str .fromName, .str .role, .str .user, .str .operatorUser, .str .prev, .str .newUser, .str .byName, .str .toName,
    .str .reason, .str .passFolder]

/-- The fields it may have. -/
def audioFields : List Slot :=
  [.type, .str .ts, .int .audioSeq, .flag .audioStart, .int .audioSr, .int .audioCh, .str .audioB64]

theorem shown_unset : ∀ s ∈ unset, (audioEvent ts seq start b64).shown s = false := by
  have hstr : ∀ f, f ≠ .ts → f ≠ .audioB64 → (audioEvent ts seq start b64).shown (.str f) = false := by
    intro f hts hdata
    have hzero : (audioEvent ts seq start b64).str f = zeros f.size := by
      cases start <;> simp [audioEvent, ssoEventInit, Event.setStr, Event.setInt, Event.setFlag, Event.zero, hts, hdata]
    rw [Event.shown, Event.strText, hzero, cstr_zeros]
    rfl
  intro s hs
  simp only [unset, List.mem_cons, List.not_mem_nil, or_false] at hs
  rcases hs with rfl | rfl | rfl | rfl | rfl | rfl | rfl | rfl | rfl | rfl
  all_goals exact hstr _ (by decide) (by decide)

/-- What the line of an audio event has on it. -/
theorem sublist_onWire : (audioEvent ts seq start b64).onWire.Sublist audioFields := by
  have hfields : (audioEvent ts seq start b64).fields.Sublist (audioFields.take 2 ++ unset ++ audioFields.drop 2) := by
    have hstate : (audioEvent ts seq start b64).hasState = false := by cases start <;> rfl
    have hforced : (audioEvent ts seq start b64).flag .forced = false := by cases start <;> rfl
    simp only [Event.fields, Event.headFields, Event.typeFields, Event.formatFields, when, hstate, hforced,
      type_audioEvent, start_audioEvent]
    split_ifs <;> first | contradiction | decide
  have hshown : ∀ s, (audioEvent ts seq start b64).shown s = true → decide (s ∉ unset) = true := by
    intro s hs
    apply decide_eq_true
    intro hmem
    rw [shown_unset ts seq start b64 s hmem] at hs
    exact Bool.false_ne_true hs
  exact (hfields.filter _).trans (List.monotone_filter_right _ hshown)

/-- A string of `n` bytes has at most six times as many on the wire. -/
theorem length_escape_le (s : List UInt8) : (escape s).length ≤ 6 * s.length := by
  induction s with
  | nil => exact le_rfl
  | cons c s ih =>
      have hc := length_escapeByte_le c
      rw [escape_cons, List.length_append, List.length_cons]
      omega

theorem length_valueText_int (e : Event) {f : IntField} (hf : f.kind = .int) : (e.valueText (.int f)).length ≤ 11 := by
  show (decimalInt (e.int f).1).length ≤ 9 + 2
  have hlo : IntKind.int.min ≤ (e.int f).1 := (congrArg IntKind.min hf).symm.le.trans (e.int f).2.1
  have hhi : (e.int f).1 ≤ IntKind.int.max := (e.int f).2.2.trans (congrArg IntKind.max hf).le
  apply length_decimalInt_le
  simp only [IntKind.min, IntKind.max] at hlo hhi
  omega

theorem length_valueText_str (e : Event) (f : StrField) : (e.valueText (.str f)).length ≤ 2 + 6 * f.size := by
  have hbuf : (e.strText f).length ≤ f.size := ((List.takeWhile_sublist _).length_le).trans (e.str f).2.le
  have hesc := length_escape_le (e.strText f)
  show (quoted (escape (e.strText f))).length ≤ _
  rw [quoted, List.length_cons, List.length_append, List.length_singleton]
  omega

/-- The text of a chunk needs no escapes. -/
theorem escape_encoded (chunk : List UInt8) : escape (encoded chunk) = encoded chunk := by
  have hall : ∀ c ∈ byte '=' :: enc, 0x20 ≤ c ∧ c ≠ byte '"' ∧ c ≠ byte '\\' := by decide
  exact escape_plain fun c hc => hall c (mem_of_mem_encoded chunk hc)

/-- The line of a chunk fits, with 2000 bytes to spare. -/
theorem size_audioEvent_le {chunk : List UInt8} (hb64 : cstr b64.1 = encoded chunk)
    (hchunk : chunk.length ≤ audioRawMax) : (audioEvent ts seq start b64).size ≤ 6000 := by
  have hsum := ((sublist_onWire ts seq start b64).map fun s =>
    s.key.length + ((audioEvent ts seq start b64).valueText s).length + 4).sum_le_sum (by simp)
  have htype : ((audioEvent ts seq start b64).valueText .type).length = 7 := by
    rw [Event.valueText, type_audioEvent]
    decide
  have hts : ((audioEvent ts seq start b64).valueText (.str .ts)).length ≤ 2 + 6 * 40 := length_valueText_str _ _
  have hseq := length_valueText_int (audioEvent ts seq start b64) (f := .audioSeq) rfl
  have hsr := length_valueText_int (audioEvent ts seq start b64) (f := .audioSr) rfl
  have hch := length_valueText_int (audioEvent ts seq start b64) (f := .audioCh) rfl
  have hstart : ((audioEvent ts seq start b64).valueText (.flag .audioStart)).length ≤ 5 := by
    show (if _ then text "true" else text "false").length ≤ 5
    split_ifs <;> decide
  have hdata : ((audioEvent ts seq start b64).valueText (.str .audioB64)).length ≤ 2 + 5464 := by
    show (quoted (escape (cstr ((audioEvent ts seq start b64).str .audioB64).1))).length ≤ _
    rw [data_audioEvent, hb64, escape_encoded, quoted, List.length_cons, List.length_append, List.length_singleton,
      length_encoded, ssoBase64EncodedLen]
    unfold audioRawMax at hchunk
    omega
  have hkeys : (audioFields.map fun s => s.key.length) = [1, 2, 3, 5, 2, 2, 4] := by decide
  simp only [audioFields, List.map_cons, List.map_nil, List.cons.injEq, and_true] at hkeys
  obtain ⟨k1, k2, k3, k4, k5, k6, k7⟩ := hkeys
  simp only [audioFields, List.map_cons, List.map_nil, List.sum_cons, List.sum_nil, k1, k2, k3, k4, k5, k6, k7,
    htype] at hsum
  unfold Event.size
  omega

theorem encode_audioEvent {chunk : List UInt8} (hb64 : cstr b64.1 = encoded chunk)
    (hchunk : chunk.length ≤ audioRawMax) :
    ssoEventEncode (audioEvent ts seq start b64) lineMax = some ((audioEvent ts seq start b64).line ++ [0]) := by
  have hsize := size_audioEvent_le ts seq start b64 hb64 hchunk
  rw [ssoEventEncode_eq, length_line]
  apply if_pos
  unfold lineMax
  omega

/-! ## The data -/

/-- The chunk is decoded from its event. -/
theorem audioData_audioEvent {chunk : List UInt8} (hb64 : cstr b64.1 = encoded chunk)
    (hchunk : chunk.length ≤ audioRawMax) : audioData (audioEvent ts seq start b64) = some chunk := by
  have hroom : 0 + chunk.length ≤ (zeros audioRawMax).1.length := by
    rw [(zeros audioRawMax).2]
    omega
  have hfour : (encoded chunk).length % 4 = 0 := by rw [length_encoded, ssoBase64EncodedLen, Nat.mul_mod_left]
  rw [audioData, data_audioEvent, ssoBase64Decode, hb64, if_neg (not_not.mpr hfour),
    decodeLoop_run _ (decoded_encoded chunk) hroom, Nat.zero_add]
  show some ((patch _ 0 chunk).take chunk.length) = some chunk
  rw [patch, List.take_zero, List.nil_append, List.take_left]

end

/-- The array after the encoder has run on a chunk. -/
def b64Buffer (chunk : List UInt8) : List UInt8 := patch (zeros audioB64Max).1 0 (encoded chunk ++ [0])

section
variable {chunk : List UInt8} (hchunk : chunk.length ≤ audioRawMax)
include hchunk

theorem encodedLen_lt : ssoBase64EncodedLen chunk.length < (zeros audioB64Max).1.length := by
  rw [(zeros audioB64Max).2, ssoBase64EncodedLen]
  unfold audioB64Max
  have hdiv : (chunk.length + 2) / 3 ≤ (audioRawMax + 2) / 3 := Nat.div_le_div_right (by omega)
  omega

theorem encode_chunk : ssoBase64Encode chunk (zeros audioB64Max).1 =
    .ok (b64Buffer chunk, some (ssoBase64EncodedLen chunk.length)) :=
  encode_run (encodedLen_lt hchunk)

theorem length_b64Buffer : (b64Buffer chunk).length = StrField.audioB64.size := by
  have hlt := encodedLen_lt hchunk
  have hroom : 0 + (encoded chunk ++ [0]).length ≤ (zeros audioB64Max).1.length := by
    rw [List.length_append, length_encoded, List.length_singleton]
    omega
  rw [b64Buffer, length_patch hroom, (zeros audioB64Max).2]
  rfl

omit hchunk in
theorem cstr_b64Buffer : cstr (b64Buffer chunk) = encoded chunk := by
  rw [b64Buffer, patch, List.take_zero, List.nil_append, List.append_assoc]
  exact cstr_append_nul (not_mem_encoded chunk) _

end

end SimpleSatOps.OperatorAudio
