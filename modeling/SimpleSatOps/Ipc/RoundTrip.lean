import SimpleSatOps.Ipc.Decoded
import SimpleSatOps.Ipc.Roster
import SimpleSatOps.Lib.DoubleReread

/-!
# The round trip

* `foundOf` : what is found for a slot on the wire;
* `strOf_foundOf`, `intOf_foundOf`, ... : every value is read back;
* `Event.Sound` : an event that uses only what its type and its flags put on the wire;
* `Event.RoundTrips` : what the round trip keeps;
* `decode_encode` : the line of a sound event is decoded to the event.
-/

namespace SimpleSatOps.Ipc
open Json JsonText JsonReader

/-! ## Values -/

theorem isQuoted_quoted (x : List UInt8) : isQuoted (quoted x) = true := rfl

theorem bare_quoted (x : List UInt8) : bare (quoted x) = x := by
  rw [bare, if_pos (isQuoted_quoted x)]
  show (x ++ [byte '"']).dropLast = x
  exact List.dropLast_concat

theorem isQuoted_word {v : List UInt8} (h : Word v) : isQuoted v = false := by
  obtain ⟨hne, hw⟩ := h
  obtain ⟨c, t, rfl⟩ := List.exists_cons_of_ne_nil hne
  have hc : c ≠ byte '"' := by
    rintro rfl
    exact absurd (hw _ List.mem_cons_self) (by decide)
  simp [isQuoted, hc]

theorem bare_word {v : List UInt8} (h : Word v) : bare v = v := by
  rw [bare, isQuoted_word h]
  rfl

/-- What is found for a slot on the wire. -/
def Event.foundOf (e : Event) (s : Slot) : Found := .found (isQuoted (e.valueText s)) (bare (e.valueText s))

theorem foundOf_quoted {e : Event} {s : Slot} {t : List UInt8} (h : e.valueText s = quoted (escape t)) :
    e.foundOf s = .found true (escape t) := by
  rw [Event.foundOf, h, isQuoted_quoted, bare_quoted]

theorem foundOf_word {e : Event} {s : Slot} (h : Word (e.valueText s)) :
    e.foundOf s = .found false (e.valueText s) := by
  rw [Event.foundOf, isQuoted_word h, bare_word h]

/-- A string that fits is copied with its NUL. -/
theorem getString_escape {t : List UInt8} (ht : Printable t) {n : ℕ} (hn : t.length < n) (out : List UInt8) :
    getString out n (.found true (escape t)) = (1, overlay (t ++ [0]) out) := by
  have hun := unescape_escape ht
  have hfit : unescapeInto (escape t) out n = (true, overlay (t ++ [0]) out) := by
    rw [unescapeInto, hun, if_pos hn]
  rw [getString, hfit]
  rfl

theorem length_cstr_lt {s : List UInt8} (h : 0 ∈ s) : (cstr s).length < s.length := by
  refine lt_of_le_of_ne (List.takeWhile_sublist _).length_le fun hlen => ?_
  have heq : cstr s = s := (List.takeWhile_sublist _).eq_of_length hlen
  exact nul_not_mem_cstr s (heq.symm ▸ h)

theorem cstr_zeros (n : ℕ) : cstr (zeros n).1 = [] := by
  cases n <;> rfl

/-! ## Strings -/

theorem strOf_foundOf {e : Event} {f : StrField} (ht : 0 ∈ (e.str f).1) (hp : Printable (e.strText f))
    (buf : Bytes f.size) : cstr (strOf f (e.foundOf (.str f)) buf).1 = e.strText f := by
  have hlen : (e.strText f).length < f.size := by
    have h := length_cstr_lt ht
    rw [(e.str f).2] at h
    exact h
  have hfound : e.foundOf (.str f) = .found true (escape (e.strText f)) := foundOf_quoted rfl
  show cstr (getString buf.1 f.size (e.foundOf (.str f))).2 = _
  rw [hfound, getString_escape hp hlen]
  exact cstr_overlay_nul (nul_not_mem_cstr _) _

theorem ribbonOf_foundOf {e : Event} (ht : 0 ∈ (e.str .rxRibbon).1) (hp : Printable (e.strText .rxRibbon))
    (buf : Bytes StrField.rxRibbon.size) (n : IntKind.int.Val) :
    (ribbonOf (e.foundOf (.str .rxRibbon)) buf n).1 = (e.strText .rxRibbon).length := by
  have hlen : (e.strText .rxRibbon).length < StrField.rxRibbon.size := by
    have h := length_cstr_lt ht
    rw [(e.str .rxRibbon).2] at h
    exact h
  have hle : (e.strText .rxRibbon).length ≤ ribbonMax := Nat.le_of_lt_succ hlen
  have hfound : e.foundOf (.str .rxRibbon) = .found true (escape (e.strText .rxRibbon)) := foundOf_quoted rfl
  have hcode : 0 < (getString buf.1 StrField.rxRibbon.size (e.foundOf (.str .rxRibbon))).1 := by
    rw [hfound, getString_escape hp hlen]
    exact one_pos
  unfold ribbonOf
  rw [if_pos hcode, strOf_foundOf ht hp]
  show min ((e.strText .rxRibbon).length : ℤ) ribbonMax = _
  exact min_eq_left (Int.ofNat_le.mpr hle)

/-! ## Numbers and flags -/

theorem IntKind.narrow_val (k : IntKind) (z : k.Val) : k.narrow z.1 = z := by
  obtain ⟨z, hlo, hhi⟩ := z
  apply Subtype.ext
  cases k <;> simp only [IntKind.min, IntKind.max] at hlo hhi <;> simp only [IntKind.narrow, IntKind.wrap] <;> omega

theorem IntKind.bounds {k : IntKind} (z : k.Val) : -2 ^ 63 ≤ z.1 ∧ z.1 ≤ 2 ^ 63 - 1 := by
  obtain ⟨hlo, hhi⟩ := z.2
  cases k <;> simp only [IntKind.min, IntKind.max] at hlo hhi <;> omega

theorem length_decimalInt_lt {k : IntKind} (z : k.Val) : (decimalInt z.1).length < 40 := by
  obtain ⟨hlo, hhi⟩ := IntKind.bounds z
  have habs : z.1.natAbs < 10 ^ (19 + 1) := by omega
  exact (length_decimalInt_le habs).trans_lt (by decide)

/-- A short number without a NUL is read to its end. -/
theorem getNumber_eq {α : Type} {parse : List UInt8 → Option α} {v : List UInt8} {x : α} (hlen : v.length < 40)
    (h0 : 0 ∉ v) (hparse : parse v = some x) (out : α) : getNumber parse out (.found false v) = (1, x) := by
  rw [getNumber, if_neg (by omega), cstr_of_not_mem h0, hparse]
  rfl

theorem getInt_decimalInt {k : IntKind} (z : k.Val) : getInt 0 (.found false (decimalInt z.1)) = (1, z.1) := by
  have hstrtol : strtol (decimalInt z.1) = some z.1 := strtol_decimalInt (IntKind.bounds z).1 (IntKind.bounds z).2
  exact getNumber_eq (length_decimalInt_lt z) (nul_not_mem_number (number_decimalInt z.1)) hstrtol 0

theorem intOf_foundOf (e : Event) (f : IntField) (z : f.kind.Val) : intOf f (e.foundOf (.int f)) z = e.int f := by
  have hfound : e.foundOf (.int f) = .found false (decimalInt (e.int f).1) :=
    foundOf_word (.of_number (number_decimalInt _))
  unfold intOf
  rw [hfound, getInt_decimalInt (e.int f), if_pos (by show (0 : ℤ) < 1; decide)]
  exact IntKind.narrow_val _ _

theorem getDouble_print (x y : Double) : getDouble y (.found false x.print) = (1, x.reread) :=
  getNumber_eq (x.length_print_le.trans_lt (by decide)) (nul_not_mem_of_le (le_of_mem_print x)) x.strtod_print y

theorem dblOf_foundOf (e : Event) (f : DblField) (y : Double) : dblOf f (e.foundOf (.dbl f)) y = (e.dbl f).reread := by
  have hfound : e.foundOf (.dbl f) = .found false (e.dbl f).print := foundOf_word (word_print _)
  unfold dblOf
  rw [hfound, getDouble_print, if_neg (by rintro ⟨h, -⟩; exact absurd h (by show ¬ (1 : ℤ) ≤ 0; decide))]

theorem flagOf_foundOf (e : Event) (f : FlagField) (b : Bool) : flagOf (e.foundOf (.flag f)) b = e.flag f := by
  have hfound : e.foundOf (.flag f) = .found false (if e.flag f then text "true" else text "false") :=
    foundOf_word (word_bool _)
  rw [hfound]
  cases e.flag f <;> rfl

/-! ## Bytes -/

theorem hexNibble_hexUpper {d : ℕ} (h : d < 16) : hexNibble (hexUpper d) = d := by
  interval_cases d <;> decide

theorem length_hexText (bs : List UInt8) : (hexText bs).length = 2 * bs.length := by
  induction bs with
  | nil => rfl
  | cons b bs ih =>
      show (hexText bs).length + 2 = _
      rw [ih, List.length_cons]
      omega

theorem hexBytes_hexText (bs t : List UInt8) : hexBytes bs.length (hexText bs ++ t) = bs := by
  induction bs with
  | nil => rfl
  | cons b bs ih =>
      have hlt := b.toNat_lt
      have hb : UInt8.ofNat (hexNibble (hexUpper (b.toNat / 16)) * 16 + hexNibble (hexUpper (b.toNat % 16))) = b := by
        rw [hexNibble_hexUpper (by omega), hexNibble_hexUpper (by omega), Nat.div_add_mod', UInt8.ofNat_toNat]
      unfold hexBytes at ih ⊢
      rw [List.length_cons, tab_succ]
      refine congrArg₂ List.cons hb ?_
      have hget : ∀ i, (hexText (b :: bs) ++ t).getD (i + 2) 0 = (hexText bs ++ t).getD i 0 := fun _ => rfl
      simp only [Nat.add_mul, one_mul, Nat.add_right_comm _ 2 1, hget]
      exact ih

/-- The bytes of a text of digits, in front of what the array held. -/
theorem hexOf_hexText {max : ℕ} {bs : List UInt8} (h : bs.length ≤ max) (buf : Bytes max) :
    (hexOf (.found true (escape (hexText bs))) buf).1 = overlay bs buf.1 := by
  have hlen := length_hexText bs
  have hp : Printable (hexText bs) := .of_isXdigit (isXdigit_hexText bs)
  have hnul : 0 ∉ hexText bs := fun hmem => absurd (isXdigit_hexText bs 0 hmem) (by decide)
  unfold hexOf
  simp only
  rw [getString_escape hp (by omega), if_pos (by show (0 : ℤ) < 1; decide)]
  show overlay (hexBytes (min ((cstr (overlay (hexText bs ++ [0]) _)).length / 2) max)
    (overlay (hexText bs ++ [0]) _)) buf.1 = _
  have hn : min (2 * bs.length / 2) max = bs.length := by omega
  rw [cstr_overlay_nul hnul, hlen, hn]
  congr 1
  rw [overlay, List.append_assoc, hexBytes_hexText]

/-! ## The roster -/

theorem rosterOf_array {t : List UInt8} (hq : isQuoted t = false) (h0 : 0 ∉ t) (hlen : t.length < rosterMax)
    (buf : Bytes rosterMax) : cstr (rosterOf (.found (isQuoted t) (bare t)) buf).1 = t := by
  have hbare : bare t = t := by
    rw [bare, hq]
    rfl
  unfold rosterOf
  rw [hq, hbare]
  show cstr (getRaw buf.1 rosterMax (.found false t)).2 = t
  have hraw : getRaw buf.1 rosterMax (.found false t) = (1, overlay (t ++ [0]) buf.1) :=
    if_neg (Nat.not_le.mpr hlen)
  rw [hraw]
  exact cstr_overlay_nul h0 _

/-! ## The fields of an event -/

theorem mem_when {c : Bool} {l : List Slot} {s : Slot} : s ∈ when c l ↔ c = true ∧ s ∈ l := by
  cases c <;> simp [when]

theorem forall_when {P : Slot → Prop} {l : List Slot} (h : ∀ s ∈ l, P s) (c : Bool) : ∀ s ∈ when c l, P s :=
  fun s hs => h s (mem_when.mp hs).2

theorem mem_fields {e : Event} {s : Slot} :
    s ∈ e.fields ↔ s ∈ e.headFields ∨ (e.hasState = true ∧ s ∈ e.stateFields) ∨ s ∈ e.typeFields := by
  simp [Event.fields, mem_when]

/-- Only fields of the state set `has_state`. -/
theorem marksState_headFields (e : Event) : ∀ s ∈ e.headFields, marksState s = false := by
  simp only [Event.headFields, List.flatten_cons, List.flatten_nil, List.append_nil, List.forall_mem_append]
  exact ⟨by decide, forall_when (by decide) _, by decide⟩

theorem marksState_typeFields (e : Event) : ∀ s ∈ e.typeFields, marksState s = false := by
  have hformat : ∀ s ∈ e.formatFields, marksState s = false := by
    simp only [Event.formatFields, List.flatten_cons, List.flatten_nil, List.append_nil, List.forall_mem_append]
    exact ⟨forall_when (by decide) _, forall_when (by decide) _⟩
  have htx : ∀ s ∈ e.txFields, marksState s = false := by
    simp only [Event.txFields, List.flatten_cons, List.flatten_nil, List.append_nil, List.forall_mem_append]
    refine ⟨by decide, ?_, ?_, ?_, ?_, ?_, ?_, ?_, ?_, ?_, ?_, ?_, ?_, by decide, ?_⟩ <;>
      exact forall_when (by decide) _
  simp only [Event.typeFields, List.flatten_cons, List.flatten_nil, List.append_nil, List.forall_mem_append]
  refine ⟨forall_when (by decide) _, forall_when htx _, forall_when (by decide) _, ?_, ?_, ?_⟩
  · apply forall_when
    simp only [List.forall_mem_append]
    exact ⟨by decide, forall_when (by decide) _⟩
  · apply forall_when
    simp only [List.forall_mem_append]
    exact ⟨by decide, hformat⟩
  · apply forall_when
    simp only [List.forall_mem_append]
    refine ⟨by decide, ?_, by decide⟩
    apply forall_when
    simp only [List.forall_mem_append]
    exact ⟨by decide, hformat⟩

/-- When the bytes of a packet type are sent, with their length. -/
theorem mem_fields_payload {e : Event} {i : Fin ptSlots} :
    (.payload i ∈ e.fields ↔ .int (.rxPtPayloadLen i) ∈ e.fields) := by
  simp [Event.fields, Event.headFields, Event.stateFields, Event.panelFields, Event.typeFields, Event.txFields,
    Event.formatFields, Event.ptFields, mem_when]

theorem mem_fields_ribbonPeak {e : Event} : (.ribbonPeak ∈ e.fields ↔ .str .rxRibbon ∈ e.fields) := by
  simp [Event.fields, Event.headFields, Event.stateFields, Event.panelFields, Event.typeFields, Event.txFields,
    Event.formatFields, Event.ptFields, mem_when]

theorem mem_fields_az {e : Event} : (.dbl .az ∈ e.fields ↔ e.hasState = true) := by
  simp [Event.fields, Event.headFields, Event.stateFields, Event.panelFields, Event.typeFields, Event.txFields,
    Event.formatFields, Event.ptFields, mem_when]

/-! ## Sound events -/

/-- An event that uses only what its type and its flags put on the wire. -/
structure Event.Sound (e : Event) : Prop where
  terminated : ∀ f, 0 ∈ (e.str f).1
  printable : ∀ f, Printable (e.strText f)
  roster : e.roster = [] ∨ ∃ entries buf, ssoEventSetRoster entries buf = (true, e.rosterJson)
  payloadLen : ∀ i, (e.int (.rxPtPayloadLen i)).1 ≤ payloadMax
  ribbonN : e.rxRibbonN.1 = (e.strText .rxRibbon).length
  unused_str : ∀ f, .str f ∉ e.fields → e.strText f = []
  unused_dbl : ∀ f, .dbl f ∉ e.fields → e.dbl f = if f = .rxAgeS then .minusOne else .zero
  unused_int : ∀ f, .int f ∉ e.fields → (e.int f).1 = 0
  unused_flag : ∀ f, .flag f ∉ e.fields → e.flag f = false
  unused_roster : .roster ∉ e.fields → e.roster = []

/-- The bytes of a payload that are sent. -/
def Event.sentPayload (e : Event) (i : Fin ptSlots) : List UInt8 :=
  (e.rxPtPayload i).1.take (e.int (.rxPtPayloadLen i)).1.toNat

def Event.sentPeak (e : Event) : List UInt8 := e.rxRibbonPeak.1.take e.rxRibbonN.1.toNat

/-- What the round trip keeps; the arrays of bytes are zero behind what is sent. -/
structure Event.RoundTrips (e e' : Event) : Prop where
  type : e'.type = e.type
  hasState : e'.hasState = e.hasState
  str : ∀ f, e'.strText f = e.strText f
  int : ∀ f, e'.int f = e.int f
  flag : ∀ f, e'.flag f = e.flag f
  roster : e'.roster = e.roster
  payload : ∀ i, (e'.rxPtPayload i).1 = overlay (e.sentPayload i) (zeros payloadMax).1
  ribbonN : e'.rxRibbonN = e.rxRibbonN
  ribbonPeak : e'.rxRibbonPeak.1 = overlay e.sentPeak (zeros ribbonMax).1
  dbl : ∀ f, ¬ (e.dbl f).IsSubnormal → (e'.dbl f).print = (e.dbl f).print
  reread : ∀ f, .dbl f ∈ e.fields → strtod (e.dbl f).print = some (e'.dbl f)

section
variable {e : Event}

/-- A roster that was set whole. -/
theorem Event.Sound.roster_eq (he : e.Sound) (h : e.roster ≠ []) :
    ∃ entries, e.roster = rosterText entries ∧ (rosterText entries).length ≤ rosterMax - 1 := by
  rcases he.roster with hnil | ⟨entries, buf, hset⟩
  · exact absurd hnil h
  · by_cases hfit : (rosterText entries).length ≤ rosterMax - 1
    · refine ⟨entries, ?_, hfit⟩
      have harr := (setRoster_of_le hfit buf).2
      rw [hset] at harr
      rw [Event.roster, harr]
      exact cstr_overlay_nul (nul_not_mem_rosterText entries) _
    · have hfail := (setRoster_of_lt (Nat.lt_of_not_le hfit) buf).1
      rw [hset] at hfail
      cases hfail

theorem roster_ne_nil (h : .roster ∈ e.onWire) : e.roster ≠ [] := bne_iff_ne.mp (mem_onWire.mp h).2

theorem Event.Sound.get (he : e.Sound) (s : Slot) :
    getField e.line s.key = if s ∈ e.onWire then e.foundOf s else .absent := by
  apply getField_line
  intro hwire
  obtain ⟨entries, heq, -⟩ := he.roster_eq (roster_ne_nil hwire)
  rw [heq]
  exact .of_value (value_rosterText entries)

/-- The event that is read back. -/
def Event.decoded (e : Event) : Event := fill (getField e.line) { Event.zero with type := e.type }

theorem decoded_str (he : e.Sound) (f : StrField) : e.decoded.strText f = e.strText f := by
  rw [Event.strText, Event.decoded, fill_str, he.get]
  by_cases hwire : .str f ∈ e.onWire
  · rw [if_pos hwire]
    exact strOf_foundOf (he.terminated f) (he.printable f) _
  · rw [if_neg hwire]
    show cstr (zeros f.size).1 = _
    rw [cstr_zeros]
    by_cases hf : .str f ∈ e.fields
    · by_contra hne
      exact hwire (mem_onWire.mpr ⟨hf, bne_iff_ne.mpr (Ne.symm hne)⟩)
    · exact (he.unused_str f hf).symm

theorem decoded_int (he : e.Sound) (f : IntField) : e.decoded.int f = e.int f := by
  rw [Event.decoded, fill_int, he.get]
  by_cases hf : .int f ∈ e.fields
  · rw [if_pos (mem_onWire.mpr ⟨hf, rfl⟩)]
    exact intOf_foundOf e f _
  · rw [if_neg fun h => hf (mem_onWire.mp h).1]
    exact Subtype.ext (he.unused_int f hf).symm

theorem decoded_flag (he : e.Sound) (f : FlagField) : e.decoded.flag f = e.flag f := by
  rw [Event.decoded, fill_flag, he.get]
  by_cases hf : .flag f ∈ e.fields
  · rw [if_pos (mem_onWire.mpr ⟨hf, rfl⟩)]
    exact flagOf_foundOf e f _
  · rw [if_neg fun h => hf (mem_onWire.mp h).1]
    exact (he.unused_flag f hf).symm

theorem decoded_dbl (he : e.Sound) {f : DblField} (hf : .dbl f ∈ e.fields) : e.decoded.dbl f = (e.dbl f).reread := by
  rw [Event.decoded, fill_dbl, he.get, if_pos (mem_onWire.mpr ⟨hf, rfl⟩)]
  exact dblOf_foundOf e f _

theorem decoded_dbl_unused (he : e.Sound) {f : DblField} (hf : .dbl f ∉ e.fields) : e.decoded.dbl f = e.dbl f := by
  rw [Event.decoded, fill_dbl, he.get, if_neg fun h => hf (mem_onWire.mp h).1, he.unused_dbl f hf]
  show (if (0 : ℤ) ≤ 0 ∧ f = .rxAgeS then Double.minusOne else .zero) = _
  simp only [le_refl, true_and]

theorem decoded_roster (he : e.Sound) : e.decoded.roster = e.roster := by
  rw [Event.roster, Event.decoded, fill_roster, he.get]
  by_cases hwire : .roster ∈ e.onWire
  · obtain ⟨entries, heq, hlen⟩ := he.roster_eq (roster_ne_nil hwire)
    have hq : isQuoted e.roster = false := by
      rw [heq, flatten_rosterPieces]
      rfl
    have h0 : 0 ∉ e.roster := nul_not_mem_cstr _
    rw [if_pos hwire]
    exact rosterOf_array hq h0 (by rw [heq]; exact hlen.trans_lt (by decide)) _
  · rw [if_neg hwire]
    show cstr (zeros rosterMax).1 = _
    rw [cstr_zeros]
    by_cases hf : .roster ∈ e.fields
    · by_contra hne
      exact hwire (mem_onWire.mpr ⟨hf, bne_iff_ne.mpr (Ne.symm hne)⟩)
    · exact (he.unused_roster hf).symm

theorem hexText_eq_nil {bs : List UInt8} (h : hexText bs = []) : bs = [] := by
  have hlen := length_hexText bs
  rw [h, List.length_nil] at hlen
  exact List.length_eq_zero_iff.mp (by omega)

theorem payloadText_eq (he : e.Sound) (i : Fin ptSlots) : e.payloadText i = hexText (e.sentPayload i) := by
  have hlen := he.payloadLen i
  rw [Event.payloadText, Event.sentPayload, min_eq_left (by omega)]

theorem decoded_payload (he : e.Sound) (i : Fin ptSlots) :
    (e.decoded.rxPtPayload i).1 = overlay (e.sentPayload i) (zeros payloadMax).1 := by
  have hlen : (e.sentPayload i).length ≤ payloadMax := by
    rw [Event.sentPayload, List.length_take, (e.rxPtPayload i).2]
    exact min_le_right _ _
  rw [Event.decoded, fill_payload, he.get]
  by_cases hwire : .payload i ∈ e.onWire
  · have hfound : e.foundOf (.payload i) = .found true (escape (hexText (e.sentPayload i))) :=
      foundOf_quoted (by rw [← payloadText_eq he]; rfl)
    rw [if_pos hwire, hfound]
    exact hexOf_hexText hlen _
  · have hnil : e.sentPayload i = [] := by
      by_cases hf : .payload i ∈ e.fields
      · apply hexText_eq_nil
        rw [← payloadText_eq he]
        by_contra hne
        exact hwire (mem_onWire.mpr ⟨hf, bne_iff_ne.mpr hne⟩)
      · rw [Event.sentPayload, he.unused_int _ (mt mem_fields_payload.mpr hf)]
        exact List.take_zero
    rw [if_neg hwire, hnil]
    rfl

theorem decoded_ribbonN (he : e.Sound) : e.decoded.rxRibbonN = e.rxRibbonN := by
  apply Subtype.ext
  rw [Event.decoded, fill_ribbonN, he.get, he.ribbonN]
  by_cases hwire : .str .rxRibbon ∈ e.onWire
  · rw [if_pos hwire]
    exact ribbonOf_foundOf (he.terminated _) (he.printable _) _ _
  · have hnil : e.strText .rxRibbon = [] := by
      by_cases hf : .str .rxRibbon ∈ e.fields
      · by_contra hne
        exact hwire (mem_onWire.mpr ⟨hf, bne_iff_ne.mpr hne⟩)
      · exact he.unused_str _ hf
    rw [if_neg hwire, hnil]
    rfl

theorem decoded_ribbonPeak (he : e.Sound) :
    e.decoded.rxRibbonPeak.1 = overlay e.sentPeak (zeros ribbonMax).1 := by
  have hlen : e.sentPeak.length ≤ ribbonMax := by
    rw [Event.sentPeak, List.length_take, e.rxRibbonPeak.2]
    exact min_le_right _ _
  rw [Event.decoded, fill_ribbonPeak, he.get]
  by_cases hwire : .ribbonPeak ∈ e.onWire
  · have hfound : e.foundOf .ribbonPeak = .found true (escape (hexText e.sentPeak)) := foundOf_quoted rfl
    rw [if_pos hwire, hfound]
    exact hexOf_hexText hlen _
  · have hnil : e.sentPeak = [] := by
      by_cases hf : .ribbonPeak ∈ e.fields
      · apply hexText_eq_nil
        by_contra hne
        exact hwire (mem_onWire.mpr ⟨hf, bne_iff_ne.mpr hne⟩)
      · rw [Event.sentPeak, he.ribbonN, he.unused_str _ (mt mem_fields_ribbonPeak.mpr hf)]
        exact List.take_zero
    rw [if_neg hwire, hnil]
    rfl

/-- A key that was not found does not set the flag. -/
theorem setsState_absent (s : Slot) : setsState .absent s = false := by
  cases s <;> rfl

theorem setsState_az : setsState (e.foundOf (.dbl .az)) (.dbl .az) = true := by
  have hfound : e.foundOf (.dbl .az) = .found false (e.dbl .az).print := foundOf_word (word_print _)
  rw [setsState, codeOf, hfound, getDouble_print]
  rfl

theorem decoded_hasState (he : e.Sound) : e.decoded.hasState = e.hasState := by
  rw [Event.decoded, fill_hasState]
  show (false || _) = _
  rw [Bool.false_or, Bool.eq_iff_iff, List.any_eq_true]
  constructor
  · rintro ⟨s, -, hs⟩
    rw [he.get] at hs
    by_cases hwire : s ∈ e.onWire
    · have hmark : marksState s = true := ((Bool.and_eq_true_iff).mp hs).2
      rcases mem_fields.mp (mem_onWire.mp hwire).1 with h | ⟨h, -⟩ | h
      · rw [marksState_headFields e s h] at hmark
        cases hmark
      · exact h
      · rw [marksState_typeFields e s h] at hmark
        cases hmark
    · rw [if_neg hwire, setsState_absent] at hs
      cases hs
  · intro h
    refine ⟨.dbl .az, mem_slots (by simp), ?_⟩
    rw [he.get, if_pos (mem_onWire.mpr ⟨mem_fields_az.mpr h, rfl⟩)]
    exact setsState_az

theorem ssoEventTypeFromName_name (t : EventType) : ssoEventTypeFromName (ssoEventTypeName t) = t := by
  cases t <;> decide

/-- The type is the first thing on the line. -/
theorem decode_get (e : Event) {get : List UInt8 → Found} (h : get Slot.type.key = e.foundOf .type) :
    decode get = some (fill get { Event.zero with type := e.type }) := by
  have hname : ∀ t, Printable (ssoEventTypeName t) ∧ (ssoEventTypeName t).length < typeMax ∧
      0 ∉ ssoEventTypeName t := by
    intro t
    refine ⟨fun c hc => .inl ?_, ?_, ?_⟩
    · revert c
      cases t <;> decide
    · cases t <;> decide
    · cases t <;> decide
  obtain ⟨hp, hlen, h0⟩ := hname e.type
  have hfound : e.foundOf .type = .found true (escape (ssoEventTypeName e.type)) := foundOf_quoted rfl
  have htype : ssoEventTypeFromName (cstr (overlay (ssoEventTypeName e.type ++ [0]) (zeros typeMax).1)) = e.type := by
    rw [cstr_overlay_nul h0, ssoEventTypeFromName_name]
  unfold decode
  rw [h, hfound, getString_escape hp hlen]
  show (if (1 : ℤ) ≤ 0 then none else some _) = _
  rw [if_neg (by decide), htype]
  rfl

theorem decode_line (he : e.Sound) : ssoEventDecode (e.line ++ [0]) = .ok (some e.decoded) := by
  have htype : getField e.line Slot.type.key = e.foundOf .type := by
    rw [he.get, if_pos (mem_onWire_type e)]
  rw [ssoEventDecode_eq, cstr_append_nul (nul_not_mem_line e), decode_get e htype]
  rfl

theorem roundTrips_decoded (he : e.Sound) : e.RoundTrips e.decoded where
  type := fill_type _ _
  hasState := decoded_hasState he
  str := decoded_str he
  int := decoded_int he
  flag := decoded_flag he
  roster := decoded_roster he
  payload := decoded_payload he
  ribbonN := decoded_ribbonN he
  ribbonPeak := decoded_ribbonPeak he
  dbl f hf := by
    by_cases hfield : .dbl f ∈ e.fields
    · rw [decoded_dbl he hfield, Double.print_reread hf]
    · rw [decoded_dbl_unused he hfield]
  reread f hf := by rw [decoded_dbl he hf, Double.strtod_print]

/-- The line of a sound event is decoded to the event, whatever its strings look like. -/
theorem decode_encode (he : e.Sound) {outSize : ℕ} {bytes : List UInt8} (henc : ssoEventEncode e outSize = some bytes) :
    ∃ e', ssoEventDecode bytes = .ok (some e') ∧ e.RoundTrips e' := by
  rw [ssoEventEncode_eq] at henc
  split_ifs at henc
  obtain rfl := Option.some.inj henc
  exact ⟨e.decoded, decode_line he, roundTrips_decoded he⟩

end

/-- A state with an azimuth and nothing else. -/
def azOnly (x : Double) : Event :=
  { Event.zero with
    type := .state
    hasState := true
    dbl := fun f => if f = .az then x else if f = .rxAgeS then .minusOne else .zero }

theorem sound_azOnly (x : Double) : (azOnly x).Sound where
  terminated f := List.mem_replicate.mpr ⟨(size_pos f).ne', rfl⟩
  printable f := by
    show Printable (cstr (zeros f.size).1)
    rw [cstr_zeros]
    exact nofun
  roster := .inl (cstr_zeros rosterMax)
  payloadLen _ := by
    show (0 : ℤ) ≤ payloadMax
    decide
  ribbonN := by
    show (0 : ℤ) = (cstr (zeros StrField.rxRibbon.size).1).length
    rw [cstr_zeros]
    rfl
  unused_str f _ := cstr_zeros f.size
  unused_dbl f hf := by
    have hne : f ≠ .az := by
      rintro rfl
      exact hf (mem_fields_az.mpr rfl)
    show (if f = .az then x else _) = _
    rw [if_neg hne]
  unused_int _ _ := rfl
  unused_flag _ _ := rfl
  unused_roster _ := cstr_zeros rosterMax

/-- An azimuth of 187.5 degrees. -/
theorem decode_encode_az : ∃ e', ssoEventDecode ((azOnly ⟨false, 1030, 2093470139285504⟩).line ++ [0]) = .ok (some e') ∧
    (azOnly ⟨false, 1030, 2093470139285504⟩).RoundTrips e' := by
  have hfit : 8 ≤ 1000 ∧ (azOnly ⟨false, 1030, 2093470139285504⟩).line.length ≤ 1000 := by decide +kernel
  exact decode_encode (sound_azOnly _) ((ssoEventEncode_eq _ 1000).trans (if_pos hfit))

/-- The smallest doubles have fewer than six digits: what is read back prints otherwise. -/
theorem decode_encode_subnormal :
    ¬ ∀ e : Event, e.Sound → ∀ outSize bytes e', ssoEventEncode e outSize = some bytes →
      ssoEventDecode bytes = .ok (some e') → ∀ f, (e'.dbl f).print = (e.dbl f).print := by
  intro h
  have hfit : 8 ≤ 1000 ∧ (azOnly ⟨false, 0, 202403⟩).line.length ≤ 1000 := by decide +kernel
  have hsound := sound_azOnly ⟨false, 0, 202403⟩
  have hprint := h (azOnly ⟨false, 0, 202403⟩) hsound 1000 _ _ ((ssoEventEncode_eq _ 1000).trans (if_pos hfit))
    (decode_line hsound) .az
  rw [decoded_dbl hsound (mem_fields_az.mpr rfl)] at hprint
  exact Double.print_reread_subnormal hprint

end SimpleSatOps.Ipc
