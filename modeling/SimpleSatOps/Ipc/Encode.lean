import SimpleSatOps.Ipc.Event
import SimpleSatOps.Lib.Json

/-!
# Encoding an event

* `jsonAppend`, `jsonAppendEscaped`, `jsonFieldStr` and its siblings : the writes, each checked against the end;
* `fields` : the fields an event has on the wire, in their order;
* `ssoEventEncode` : the bytes written, with the NUL;
* `line` : the text of an event, whatever the size of the buffer;
* `ssoEventEncode_eq` : the encoder writes the line when it fits.
-/

namespace SimpleSatOps.Ipc

/-! ## Appending -/

/-- Append to the `out.length` bytes written, none of them from offset `lim` on. -/
def jsonAppend (lim : ℕ) (out s : List UInt8) : Option (List UInt8) :=
  if lim < out.length + s.length then none else some (out ++ s)

def escapeByte (c : UInt8) : List UInt8 :=
  if c = byte '"' then text "\\\""
  else if c = byte '\\' then text "\\\\"
  else if c = byte '\n' then text "\\n"
  else if c = byte '\r' then text "\\r"
  else if c = byte '\t' then text "\\t"
  else if c < 0x20 then text "\\u00" ++ hexByte c
  else [c]

def jsonAppendEscaped (lim : ℕ) (out s : List UInt8) : Option (List UInt8) := do
  let out ← jsonAppend lim out [byte '"']
  let out ← s.foldlM (fun out c => jsonAppend lim out (escapeByte c)) out
  jsonAppend lim out [byte '"']

/-- What is written, and whether no field is. -/
structure Writer where
  out : List UInt8
  first : Bool

/-- The comma in front of a field. -/
def appendComma (lim : ℕ) (w : Writer) : Option (List UInt8) :=
  if w.first then some w.out else jsonAppend lim w.out [byte ',']

/-- A field whose value `put` writes. -/
def jsonField (lim : ℕ) (key : List UInt8) (put : List UInt8 → Option (List UInt8)) (w : Writer) : Option Writer := do
  let out ← appendComma lim w
  let out ← jsonAppend lim out [byte '"']
  let out ← jsonAppend lim out key
  let out ← jsonAppend lim out (text "\":")
  let out ← put out
  pure ⟨out, false⟩

def jsonFieldStr (lim : ℕ) (key val : List UInt8) (w : Writer) : Option Writer :=
  if val = [] then some w else jsonField lim key (fun out => jsonAppendEscaped lim out val) w

def jsonFieldInt (lim : ℕ) (key : List UInt8) (val : ℤ) (w : Writer) : Option Writer :=
  jsonField lim key (fun out => jsonAppend lim out (decimalInt val)) w

def jsonFieldDouble (lim : ℕ) (key : List UInt8) (val : Double) (w : Writer) : Option Writer :=
  jsonField lim key (fun out => jsonAppend lim out val.print) w

def jsonFieldBool (lim : ℕ) (key : List UInt8) (val : Bool) (w : Writer) : Option Writer :=
  jsonField lim key (fun out => jsonAppend lim out (if val then text "true" else text "false")) w

def jsonFieldRaw (lim : ℕ) (key raw : List UInt8) (w : Writer) : Option Writer :=
  if raw = [] then some w else jsonField lim key (fun out => jsonAppend lim out raw) w

/-! ## The fields of an event -/

/-- The fields behind an `if`. -/
def when (c : Bool) (l : List Slot) : List Slot := if c then l else []

namespace Event
variable (e : Event)

/-- `evt->f` as a condition on an integer. -/
def has (f : IntField) : Bool := (e.int f).1 != 0

/-- `evt->f[0]` as a condition on a string. -/
def hasText (f : StrField) : Bool := e.strText f != []

def roster : List UInt8 := cstr e.rosterJson.1

def ptFields (s : Fin ptSlots) : List Slot :=
  when (e.has (.rxPtCount s)) (List.flatten
    [[.int (.rxPtCount s)],
      when (0 < (e.int (.rxPtPayloadLen s)).1) [.int (.rxPtPayloadLen s), .payload s],
      when (e.hasText (.rxPtSummary s)) [.str (.rxPtSummary s)]])

def panelFields : List Slot := List.flatten
  [[.flag .rxHaveSession],
    when (e.flag .rxRecActive) [.flag .rxRecActive],
    [.dbl .rxFreqHz, .dbl .rxPeakDbfs, .dbl .rxRmsDbfs, .int .rxFramesTotal],
    when (e.has .rxFramesPcm) [.int .rxFramesPcm],
    when (e.has .rxFramesVit) [.int .rxFramesVit],
    when (e.hasText .rxLastFrameSummary) [.str .rxLastFrameSummary],
    when (e.dbl .rxAgeS).isNonneg [.dbl .rxAgeS],
    (List.finRange ptSlots).flatMap e.ptFields,
    when (0 < e.rxRibbonN.1) [.str .rxRibbon, .ribbonPeak]]

def stateFields : List Slot := List.flatten
  [[.str .satellite],
    when (e.hasText .source) [.str .source],
    [.dbl .az, .dbl .el],
    when (e.has .freqHz) [.int .freqHz],
    when (e.dbl .dopplerHz).nonzero [.dbl .dopplerHz],
    [.str .rxStatus, .str .txStatus, .str .tlePath, .dbl .targetAz, .dbl .targetEl],
    when (e.flag .flip) [.flag .flip],
    when (e.flag .inPass) [.flag .inPass],
    when (e.flag .tracking) [.flag .tracking],
    when (e.dbl .julUtc).nonzero [.dbl .julUtc],
    when (e.flag .hasRotator) [.flag .hasRotator],
    [.str .idesg, .dbl .epochMin, .dbl .minVisible, .dbl .minAbove0, .dbl .minAbove30, .dbl .maxEl, .dbl .predAz,
      .dbl .predEl, .dbl .altKm, .dbl .latDeg, .dbl .lonDeg, .dbl .speedKms, .dbl .rangeKm, .dbl .rangeRateKms],
    when (e.roster != []) [.roster],
    when (e.flag .autoTcmdOn) [.flag .autoTcmdOn, .int .autoTcmdSent, .int .autoTcmdTotal, .str .autoTcmdState],
    when (e.hasText .rxWarning) [.str .rxWarning],
    when (e.flag .rxHaveSession) e.panelFields]

def headFields : List Slot := List.flatten
  [[.type, .str .ts, .str .fromName, .str .role, .str .user, .str .operatorUser, .str .prev, .str .newUser,
      .str .byName, .str .toName],
    when (e.flag .forced) [.flag .forced],
    [.str .reason, .str .passFolder]]

def txFields : List Slot := List.flatten
  [[.str .ascii, .str .txPayloadKind, .str .txPayload],
    when (e.has .txCspSrc) [.int .txCspSrc],
    when (e.has .txCspDst) [.int .txCspDst],
    when (e.has .txCspDport) [.int .txCspDport],
    when (e.has .txCspSport) [.int .txCspSport],
    when (e.has .txCspPrio) [.int .txCspPrio],
    when (e.has .txFreqHz) [.int .txFreqHz],
    when (e.dbl .txGainDb).nonzero [.dbl .txGainDb],
    when (e.flag .txAllowTx) [.flag .txAllowTx],
    when (e.flag .txAllowHighPower) [.flag .txAllowHighPower],
    when (e.flag .txAllowHfTx) [.flag .txAllowHfTx],
    when (e.has .txRepeat) [.int .txRepeat],
    when (e.has .txGapMs) [.int .txGapMs],
    [.str .txNotSentReason],
    when (e.hasText .txOrigin) [.str .txOrigin]]

/-- Sample rate and channel count. -/
def formatFields : List Slot := List.flatten
  [when (e.has .audioSr) [.int .audioSr], when (e.has .audioCh) [.int .audioCh]]

/-- The fields of one type. -/
def typeFields : List Slot := List.flatten
  [when (e.type = .rxStats) [.dbl .snrDb, .int .packets, .str .lastPacketTs, .str .lastPacketSummary],
    when (e.type ∈ [.txCommandSent, .txCommandPreview, .txRequest, .txNotSent]) e.txFields,
    when (e.type ∈ [.cmdPreview, .cmdExecuted]) [.str .cmdText, .str .cmdStatus],
    when (e.type = .audioCtl) (List.flatten
      [[.flag .audioEnable], when (e.dbl .audioQuality).isPos [.dbl .audioQuality]]),
    when (e.type = .audioStatus) (List.flatten [[.str .audioState], e.formatFields]),
    when (e.type = .audio) (List.flatten
      [[.int .audioSeq],
        when (e.flag .audioStart) (List.flatten [[.flag .audioStart], e.formatFields]),
        [.str .audioB64]])]

/-- The calls of `json_field_*` an event leads to. -/
def fields : List Slot := List.flatten [e.headFields, when e.hasState e.stateFields, e.typeFields]

end Event

/-- The digits of `hd`. -/
def hexUpper (d : ℕ) : UInt8 := if d < 10 then UInt8.ofNat (0x30 + d) else UInt8.ofNat (0x37 + d)

/-- Two digits for each byte. -/
def hexText (bs : List UInt8) : List UInt8 := bs.flatMap fun b => [hexUpper (b.toNat / 16), hexUpper (b.toNat % 16)]

/-- The bytes of a payload that are sent. -/
def Event.payloadText (e : Event) (s : Fin ptSlots) : List UInt8 :=
  hexText ((e.rxPtPayload s).1.take (min (e.int (.rxPtPayloadLen s)).1.toNat payloadMax))

def Event.peakText (e : Event) : List UInt8 := hexText (e.rxRibbonPeak.1.take e.rxRibbonN.1.toNat)

/-- One call; a flag is written where it is set, `enable` always. -/
def putField (lim : ℕ) (e : Event) (w : Writer) : Slot → Option Writer
  | .type => jsonFieldStr lim Slot.type.key (ssoEventTypeName e.type) w
  | .str f => jsonFieldStr lim (Slot.str f).key (e.strText f) w
  | .dbl f => jsonFieldDouble lim (Slot.dbl f).key (e.dbl f) w
  | .int f => jsonFieldInt lim (Slot.int f).key (e.int f).1 w
  | .flag f => jsonFieldBool lim (Slot.flag f).key (e.flag f) w
  | .roster => jsonFieldRaw lim Slot.roster.key e.roster w
  | .payload s => jsonFieldStr lim (Slot.payload s).key (e.payloadText s) w
  | .ribbonPeak => jsonFieldStr lim Slot.ribbonPeak.key e.peakText w

/-- `sso_event_encode` into `outSize` bytes: what it writes, `none` for -1. -/
def ssoEventEncode (e : Event) (outSize : ℕ) : Option (List UInt8) :=
  if outSize < 8 then none
  else do
    let fin := outSize - 2
    let out ← jsonAppend fin [] (text "\x7b")
    let w ← e.fields.foldlM (putField fin e) ⟨out, true⟩
    -- the last check is against `end + 2`, the end of the buffer
    let out ← jsonAppend (fin + 2) w.out (text "\x7d\n")
    pure (out ++ [0])

/-! ## The line -/

/-- A string as it stands between its quotes. -/
def escape (s : List UInt8) : List UInt8 := s.flatMap escapeByte

/-- The value written for a slot. -/
def Event.valueText (e : Event) : Slot → List UInt8
  | .type => Json.quoted (escape (ssoEventTypeName e.type))
  | .str f => Json.quoted (escape (e.strText f))
  | .dbl f => (e.dbl f).print
  | .int f => decimalInt (e.int f).1
  | .flag f => if e.flag f then text "true" else text "false"
  | .roster => e.roster
  | .payload s => Json.quoted (escape (e.payloadText s))
  | .ribbonPeak => Json.quoted (escape e.peakText)

/-- Whether the call writes anything: an empty string is left out. -/
def Event.shown (e : Event) : Slot → Bool
  | .type => ssoEventTypeName e.type != []
  | .str f => e.strText f != []
  | .roster => e.roster != []
  | .payload s => e.payloadText s != []
  | .ribbonPeak => e.peakText != []
  | _ => true

/-- A member without white space. -/
def memberText (key v : List UInt8) : List UInt8 := Json.member [] key [] [] v []

/-- Texts with commas between them. -/
def joined : List (List UInt8) → List UInt8
  | [] => []
  | [m] => m
  | m :: m' :: ms => m ++ byte ',' :: joined (m' :: ms)

/-- The slots on the wire. -/
def Event.onWire (e : Event) : List Slot := e.fields.filter e.shown

/-- What stands between the braces. -/
def Event.body (e : Event) : List UInt8 := joined (e.onWire.map fun s => memberText s.key (e.valueText s))

/-- The line of an event. -/
def Event.line (e : Event) : List UInt8 := byte '{' :: (e.body ++ text "\x7d\n")

theorem joined_concat (ms : List (List UInt8)) (m : List UInt8) :
    joined (ms ++ [m]) = if ms = [] then m else joined ms ++ byte ',' :: m := by
  induction ms with
  | nil => rfl
  | cons a ms ih =>
      cases ms with
      | nil => rfl
      | cons b ms =>
          rw [if_neg (List.cons_ne_nil _ _)] at ih ⊢
          show a ++ byte ',' :: joined (b :: ms ++ [m]) = (a ++ byte ',' :: joined (b :: ms)) ++ byte ',' :: m
          rw [ih, List.append_assoc, List.cons_append]

theorem joined_cons (m : List UInt8) {ms : List (List UInt8)} (h : ms ≠ []) :
    joined (m :: ms) = m ++ byte ',' :: joined ms := by
  cases ms with
  | nil => exact absurd rfl h
  | cons b ms => rfl

theorem length_joined_le (ms ms' : List (List UInt8)) : (joined ms).length ≤ (joined (ms ++ ms')).length := by
  induction ms' using List.reverseRecOn with
  | nil => rw [List.append_nil]
  | append_singleton ms' m ih =>
      refine ih.trans ?_
      rw [← List.append_assoc, joined_concat]
      split_ifs with hnil
      · rw [hnil]
        exact Nat.zero_le _
      · rw [List.length_append]
        exact Nat.le_add_right _ _

/-! ## The checked writes -/

/-- `put` appends `t`, or fails where that does not fit. -/
def Writes (lim : ℕ) (put : List UInt8 → Option (List UInt8)) (t : List UInt8) : Prop :=
  ∀ out, out.length ≤ lim → put out = if lim < out.length + t.length then none else some (out ++ t)

theorem Writes.append (lim : ℕ) (s : List UInt8) : Writes lim (fun out => jsonAppend lim out s) s := fun _ _ => rfl

theorem Writes.bind {lim : ℕ} {f g : List UInt8 → Option (List UInt8)} {s t : List UInt8} (hf : Writes lim f s)
    (hg : Writes lim g t) : Writes lim (fun out => f out >>= g) (s ++ t) := by
  intro out hout
  show f out >>= g = _
  rw [hf out hout, List.length_append]
  split_ifs with h₁ h₂ h₂
  · rfl
  · omega
  · show g (out ++ s) = none
    rw [hg _ (by rw [List.length_append]; omega), List.length_append, if_pos (by omega)]
  · show g (out ++ s) = some _
    rw [hg _ (by rw [List.length_append]; omega), List.length_append, if_neg (by omega), List.append_assoc]

theorem Writes.escaped (lim : ℕ) (s : List UInt8) :
    Writes lim (fun out => s.foldlM (fun out c => jsonAppend lim out (escapeByte c)) out) (escape s) := by
  induction s with
  | nil =>
      intro out hout
      show some out = _
      rw [show escape [] = [] from rfl, List.append_nil, List.length_nil, if_neg (by omega)]
  | cons c s ih =>
      have h := (Writes.append lim (escapeByte c)).bind ih
      exact h

theorem Writes.appendEscaped (lim : ℕ) (s : List UInt8) :
    Writes lim (fun out => jsonAppendEscaped lim out s) (Json.quoted (escape s)) := by
  have h := (Writes.append lim [byte '"']).bind ((Writes.escaped lim s).bind (.append lim [byte '"']))
  exact h

/-- A field whose value is written as `v`. -/
theorem jsonField_eq {lim : ℕ} (key : List UInt8) {put : List UInt8 → Option (List UInt8)} {v : List UInt8}
    (hput : Writes lim put v) {w : Writer} (hw : w.out.length ≤ lim) :
    jsonField lim key put w =
      if lim < (w.out ++ ((if w.first then [] else [byte ',']) ++ memberText key v)).length then none
      else some ⟨w.out ++ ((if w.first then [] else [byte ',']) ++ memberText key v), false⟩ := by
  have hcomma : appendComma lim w = if lim < w.out.length + (if w.first then [] else [byte ',']).length then none
      else some (w.out ++ (if w.first then [] else [byte ','])) := by
    unfold appendComma
    split_ifs with h₁ h₂ h₂
    · exact absurd h₂ (by rw [List.length_nil]; omega)
    · rw [List.append_nil]
    · exact if_pos h₂
    · exact if_neg h₂
  have hrest := (Writes.append lim [byte '"']).bind ((Writes.append lim key).bind
    ((Writes.append lim (text "\":")).bind hput))
  have hmember : [byte '"'] ++ (key ++ (text "\":" ++ v)) = memberText key v := by
    have hcolon : text "\":" = [byte '"', byte ':'] := by decide
    simp [memberText, Json.member, Json.quoted, hcolon]
  rw [hmember] at hrest
  have hbind : jsonField lim key put w = (appendComma lim w).bind fun out =>
      (jsonAppend lim out [byte '"'] >>= fun out => jsonAppend lim out key >>= fun out =>
        jsonAppend lim out (text "\":") >>= put).map fun out => ⟨out, false⟩ := by
    unfold jsonField
    simp only [Option.map_eq_bind, Option.bind_eq_bind, Option.bind_assoc]
    rfl
  generalize (if w.first then [] else [byte ',']) = comma at hcomma ⊢
  have hlen : (w.out ++ (comma ++ memberText key v)).length = (w.out ++ comma).length + (memberText key v).length := by
    simp only [List.length_append]
    omega
  rw [hbind, hcomma, hlen, List.length_append]
  by_cases h₁ : lim < w.out.length + comma.length
  · rw [if_pos h₁, if_pos (by omega)]
    rfl
  · have h := hrest (w.out ++ comma) (by rw [List.length_append]; omega)
    rw [List.length_append] at h
    rw [if_neg h₁, ← List.append_assoc]
    refine (congrArg (Option.map _) h).trans ?_
    split_ifs <;> rfl

/-- The writer behind the fields `ms`. -/
def writer (ms : List (List UInt8)) : Writer := ⟨byte '{' :: joined ms, ms.isEmpty⟩

theorem writer_concat (ms : List (List UInt8)) (m : List UInt8) :
    (⟨(writer ms).out ++ ((if (writer ms).first then [] else [byte ',']) ++ m), false⟩ : Writer) =
      writer (ms ++ [m]) := by
  unfold writer
  rw [joined_concat]
  cases ms with
  | nil => rfl
  | cons a ms => simp

/-- A field: nothing, or a member more. -/
theorem putField_eq {lim : ℕ} (e : Event) {ms : List (List UInt8)} (h : (writer ms).out.length ≤ lim) (s : Slot) :
    putField lim e (writer ms) s =
      if e.shown s then
        if lim < (writer (ms ++ [memberText s.key (e.valueText s)])).out.length then none
        else some (writer (ms ++ [memberText s.key (e.valueText s)]))
      else some (writer ms) := by
  have hfield : ∀ {key v : List UInt8} {put : List UInt8 → Option (List UInt8)}, Writes lim put v →
      jsonField lim key put (writer ms) =
        if lim < (writer (ms ++ [memberText key v])).out.length then none
        else some (writer (ms ++ [memberText key v])) := by
    intro key v put hput
    rw [jsonField_eq key hput h, ← writer_concat]
  have hstr : ∀ key val : List UInt8, jsonFieldStr lim key val (writer ms) =
      if (val != []) = true then
        if lim < (writer (ms ++ [memberText key (Json.quoted (escape val))])).out.length then none
        else some (writer (ms ++ [memberText key (Json.quoted (escape val))]))
      else some (writer ms) := by
    intro key val
    unfold jsonFieldStr
    rw [hfield (Writes.appendEscaped lim val)]
    by_cases hval : val = []
    · rw [if_pos hval, if_neg (by simp [hval])]
    · have hne : (val != []) = true := bne_iff_ne.mpr hval
      rw [if_neg hval, if_pos hne]
  cases s with
  | type => exact hstr _ _
  | str f => exact hstr _ _
  | dbl f => exact hfield (.append lim _)
  | int f => exact hfield (.append lim _)
  | flag f => exact hfield (.append lim _)
  | roster =>
      show jsonFieldRaw lim _ _ _ = if (e.roster != []) = true then _ else _
      unfold jsonFieldRaw
      rw [hfield (.append lim _)]
      by_cases hval : e.roster = []
      · rw [if_pos hval, if_neg (by simp [hval])]
      · have hne : (e.roster != []) = true := bne_iff_ne.mpr hval
        rw [if_neg hval, if_pos hne]
        rfl
  | payload s => exact hstr _ _
  | ribbonPeak => exact hstr _ _

/-- The members of some slots. -/
def Event.texts (e : Event) (l : List Slot) : List (List UInt8) :=
  (l.filter e.shown).map fun s => memberText s.key (e.valueText s)

theorem foldlM_putField {lim : ℕ} (e : Event) (l : List Slot) {ms : List (List UInt8)}
    (h : (writer ms).out.length ≤ lim) :
    l.foldlM (putField lim e) (writer ms) =
      if lim < (writer (ms ++ e.texts l)).out.length then none else some (writer (ms ++ e.texts l)) := by
  induction l generalizing ms with
  | nil =>
      rw [show e.texts [] = [] from rfl, List.append_nil, if_neg (by omega)]
      rfl
  | cons s l ih =>
      rw [List.foldlM_cons, putField_eq e h]
      by_cases hs : e.shown s = true
      · have htexts : e.texts (s :: l) = memberText s.key (e.valueText s) :: e.texts l := by
          unfold Event.texts
          rw [List.filter_cons_of_pos hs, List.map_cons]
        have happend : ms ++ e.texts (s :: l) = ms ++ [memberText s.key (e.valueText s)] ++ e.texts l := by
          rw [htexts, List.append_assoc, List.singleton_append]
        have hmono : (writer (ms ++ [memberText s.key (e.valueText s)])).out.length ≤
            (writer (ms ++ [memberText s.key (e.valueText s)] ++ e.texts l)).out.length :=
          Nat.succ_le_succ (length_joined_le _ _)
        rw [if_pos hs, happend]
        by_cases hfull : lim < (writer (ms ++ [memberText s.key (e.valueText s)])).out.length
        · rw [if_pos hfull, if_pos (by omega)]
          rfl
        · rw [if_neg hfull]
          exact ih (by omega)
      · have htexts : e.texts (s :: l) = e.texts l := by
          unfold Event.texts
          rw [List.filter_cons_of_neg hs]
        rw [if_neg hs, htexts]
        exact ih h

/-- The encoder writes the line and a NUL when the line fits. -/
theorem ssoEventEncode_eq (e : Event) (outSize : ℕ) :
    ssoEventEncode e outSize =
      if 8 ≤ outSize ∧ e.line.length ≤ outSize then some (e.line ++ [0]) else none := by
  have hbody : (writer (e.texts e.fields)).out = byte '{' :: e.body := rfl
  have hline : e.line.length = e.body.length + 3 := by
    have hend : (text "\x7d\n").length = 2 := by decide
    rw [Event.line, List.length_cons, List.length_append, hend]
  unfold ssoEventEncode
  by_cases h8 : outSize < 8
  · rw [if_pos h8, if_neg (by omega)]
  · have hopen : jsonAppend (outSize - 2) [] (text "\x7b") = some (byte '{' :: joined []) := by
      have hbrace : text "\x7b" = [byte '{'] := by decide
      rw [jsonAppend, hbrace, List.length_nil, List.length_singleton, if_neg (by omega)]
      rfl
    rw [if_neg h8]
    show (jsonAppend (outSize - 2) [] (text "\x7b") >>= _) = _
    rw [hopen]
    show (e.fields.foldlM (putField (outSize - 2) e) (writer []) >>= _) = _
    rw [foldlM_putField e e.fields (by show 1 ≤ _; omega), List.nil_append, hbody, List.length_cons]
    by_cases hfit : outSize - 2 < e.body.length + 1
    · rw [if_pos hfit, if_neg (by omega)]
      rfl
    · rw [if_neg hfit, if_pos (by omega)]
      show (jsonAppend _ (byte '{' :: e.body) (text "\x7d\n") >>= _) = _
      have hend : (text "\x7d\n").length = 2 := by decide
      rw [jsonAppend, List.length_cons, hend, if_neg (by omega)]
      rfl

end SimpleSatOps.Ipc
