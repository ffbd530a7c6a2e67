import Mathlib.Data.List.ReduceOption
import SimpleSatOps.Utils.PacketQuery.CsvExport

/-!
# What is read in the JSON text

* `JsonColumn`, `jsonColumns`, `JsonExport` : what is to be read of the rows;
* `number_printFixed`, `finite_of_outer` : an infinite number is no JSON text, any other one is;
* `members_joined`, `elements_jsonRows` : the brackets, colons and commas;
* `jsonExport_iff` : every row is read back unless a number is infinite;
* `export_parses` : both formats.
-/

namespace SimpleSatOps.PacketQuery
open Csv Json PacketDb

/-- What is to be read as the value of a member: the text itself, a string for a prefix or `null`, a string for all. -/
inductive JsonColumn
  | exact (v : List UInt8)
  | cut (v : Option (List UInt8))
  | full (v : List UInt8)

def JsonColumn.Reads : JsonColumn → List UInt8 → Prop
  | .exact v, got => got = v
  | .cut none, got => got = text "null"
  | .cut (some v), got => ∃ t p, got = quoted t ∧ stringValue t = some p ∧ p <+: v
  | .full v, got => ∃ t, got = quoted t ∧ stringValue t = some v

def jsonColumns (localTime : Option LocalTime) (r : Stored) : List (List UInt8 × JsonColumn) :=
  [(text "id", .exact (decimalInt r.id)),
    (text "ts", .cut (some (shownTime localTime r.tsReceived))),
    (text "tool", .cut (some r.sourceTool)),
    (text "run", .cut (some (r.sourceRun.getD []))),
    (text "type", .exact (printInt r.packetType)),
    (text "type_name", .cut (some r.packetTypeName)),
    (text "satellite", .cut r.satellite),
    (text "csp", .exact (object (cspMembers r.toRow))),
    (text "rs_errs", .exact (printInt r.rsErrs)), (text "golay_errs", .exact (printInt r.golayErrs)),
    (text "hmac_ok", .exact (printInt r.hmacOk)), (text "crc_status", .exact (printInt r.crcStatus)),
    (text "audio_offset_s", .exact (orNull (Double.printFixed 3) r.audioOffsetS)),
    (text "observer", .exact (object (observerMembers r.toRow))),
    (text "tle_id", .exact (orNull decimalInt r.tleId)),
    (text "session_dir", .cut r.sessionDir),
    (text "capture_origin", .cut r.captureOrigin),
    (text "payload_hex", .full (r.payload.flatMap hexByte)),
    (text "summary", .full (r.decodedSummary.getD []))]

/-- An object with the members `cols`. -/
def IsObject (cols : List (List UInt8 × JsonColumn)) (e : List UInt8) : Prop :=
  ∃ ms t, e = byte '{' :: (t ++ [byte '}']) ∧ Members ms t ∧ (∀ m ∈ ms, Chars m.1 ∧ Value m.2) ∧
    List.Forall₂ (fun c m => m.1 = c.1 ∧ c.2.Reads m.2) cols ms

/-- One line feed behind an array with one object for each row. -/
def JsonExport (localTime : Option LocalTime) (rows : List Stored) : Prop :=
  ∃ es t, exportJson localTime rows = byte '[' :: (t ++ [byte ']']) ++ [byte '\n'] ∧ Elements es t ∧
    (∀ e ∈ es, Value e) ∧ List.Forall₂ (fun r e => IsObject (jsonColumns localTime r) e) rows es

/-! ## Objects -/

theorem member_eq (k v : List UInt8) : quoted k ++ byte ':' :: v = member [] k [] [] v [] := by
  simp [member]

theorem members_joined : ∀ ms : List Pair, Members ms (joined (ms.map fun m => quoted m.1 ++ byte ':' :: m.2))
  | [] => .nil .nil
  | [(k, v)] => by
      rw [List.map_singleton, joined_singleton, member_eq]
      exact .single .nil .nil .nil .nil
  | (k, v) :: m :: ms => by
      rw [List.map_cons, List.map_cons, joined_cons_cons, member_eq, List.append_assoc, List.singleton_append]
      exact .cons .nil .nil .nil .nil (members_joined (m :: ms))

theorem value_object {ms : List Pair} (h : ∀ m ∈ ms, Chars m.1 ∧ Value m.2) : Value (object ms) := by
  rcases (members_joined ms).text h with hblank | htext
  · exact .emptyObject hblank
  · exact .object htext

/-! ## Values -/

theorem digits_zeroPad (k n : ℕ) : Digits (zeroPad k n) :=
  ⟨List.append_ne_nil_of_right_ne_nil _ (decimal_ne_nil n), fun _ => isDigit_of_mem_zeroPad⟩

theorem number_fixedDigits (sign : List UInt8) (hs : sign ∈ [[], [byte '-']]) (k n : ℕ) :
    Number (sign ++ fixedDigits k n) := by
  have h := Number.mk hs (whole_decimal (n / 10 ^ k)) (.inr ⟨_, digits_zeroPad k (n % 10 ^ k), rfl⟩) (.inl rfl)
  rwa [List.append_nil] at h

/-- A finite number is a JSON number. -/
theorem number_printFixed {x : Double} (hfin : x.isFinite = true) (k : ℕ) : Number (x.printFixed k) := by
  have hnan : x.isNan = false := by
    simp only [Double.isFinite, bne_iff_ne] at hfin
    simp [Double.isNan, hfin]
  unfold Double.printFixed
  simp only [hnan, hfin, Bool.not_true, Bool.false_eq_true, if_false]
  split_ifs
  · exact number_fixedDigits [byte '-'] (by simp) k _
  · exact number_fixedDigits [] (by simp) k _

/-- An infinite number stops the reader of the bytes outside of strings; no other one does. -/
theorem ends_printFixed {x : Double} (hnan : x.isNan = false) (k : ℕ) : Ends (x.printFixed k) := by
  by_cases hfin : x.isFinite = true
  · exact (number_printFixed hfin k).outer.ends
  · unfold Double.printFixed
    simp only [hnan, Bool.eq_false_iff.mpr hfin, Bool.not_false, Bool.false_eq_true, if_false, if_true]
    split_ifs
    · exact .inr (by decide)
    · exact .inr (by decide)

theorem finite_of_outer {x : Double} (hnan : x.isNan = false) {k : ℕ} (h : Outer (x.printFixed k)) :
    x.isFinite = true := by
  by_contra hfin
  unfold Double.printFixed at h
  simp only [hnan, Bool.eq_false_iff.mpr hfin, Bool.not_false, Bool.false_eq_true, if_false, if_true] at h
  split_ifs at h
  · exact absurd h (by decide)
  · exact absurd h (by decide)

theorem value_int (z : ℤ) : Value (decimalInt z) := .number (number_decimalInt z)

theorem value_null : Value (text "null") := .literal (by decide)

theorem value_orNull {α : Type} {print : α → List UInt8} {v : Option α} (h : ∀ a ∈ v, Value (print a)) :
    Value (orNull print v) := by
  cases v with
  | none => exact value_null
  | some a => exact h a rfl

theorem value_real {v : Option Double} (h : ∀ x ∈ v, x.isFinite = true) (k : ℕ) :
    Value (orNull (Double.printFixed k) v) :=
  value_orNull fun x hx => .number (number_printFixed (h x hx) k)

/-! ## Strings -/

/-- A string is for the prefix that fits. -/
theorem reads_jsonString (outn : ℕ) {s v : List UInt8} (hs : cstr s <+: v) :
    Value (jsonString outn s) ∧ (JsonColumn.cut (some v)).Reads (jsonString outn s) := by
  obtain ⟨p, hp, heq⟩ := jsonLoop_spec outn (cstr s) []
  unfold jsonString jsonEscape
  rw [heq, List.nil_append]
  exact ⟨.string (Ipc.chars_escape p), _, p, rfl, stringValue_escape p, hp.trans hs⟩

theorem reads_orNull (outn : ℕ) (v : Option (List UInt8)) :
    Value (orNull (jsonString outn) v) ∧ (JsonColumn.cut v).Reads (orNull (jsonString outn) v) := by
  cases v with
  | none => exact ⟨value_null, rfl⟩
  | some s => exact reads_jsonString outn (cstr_isPrefix s)

theorem reads_summary {s : List UInt8} (h : 0 ∉ s) :
    Value (jsonString (6 * (cstr s).length + 16) s) ∧
      (JsonColumn.full s).Reads (jsonString (6 * (cstr s).length + 16) s) := by
  have hfull : jsonEscape s (6 * (cstr s).length + 16) = Ipc.escape s := by
    unfold jsonEscape
    rw [jsonLoop_complete (by simp), cstr_of_not_mem h, List.nil_append]
  unfold jsonString
  rw [hfull]
  exact ⟨.string (Ipc.chars_escape s), _, rfl, stringValue_escape s⟩

/-- Hexadecimal digits need no escape. -/
theorem reads_hex (bytes : List UInt8) :
    Value (quoted (hexEncode bytes (2 * bytes.length + 1))) ∧
      (JsonColumn.full (bytes.flatMap hexByte)).Reads (quoted (hexEncode bytes (2 * bytes.length + 1))) := by
  have hplain : ∀ c ∈ bytes.flatMap hexByte, c ∈ plainBytes := by
    intro c hc
    obtain ⟨b, -, hc⟩ := List.mem_flatMap.mp hc
    exact plain_hexByte b c hc
  have hall : ∀ c ∈ plainBytes, 0x20 ≤ c ∧ c ≠ byte '"' ∧ c ≠ byte '\\' := by decide
  have hself : ∀ s : List UInt8, (∀ c ∈ s, c ∈ plainBytes) → Chars s ∧ stringValue s = some s := by
    intro s
    induction s with
    | nil => exact fun _ => ⟨.nil, rfl⟩
    | cons c s ih =>
        intro hs
        obtain ⟨hc, hs⟩ := List.forall_mem_cons.mp hs
        obtain ⟨hge, hquote, hback⟩ := hall c hc
        obtain ⟨hchars, hvalue⟩ := ih hs
        refine ⟨.plain hge hquote hback hchars, ?_⟩
        rw [stringValue_plain hge hquote hback, hvalue]
        rfl
  rw [hexEncode_complete]
  exact ⟨.string (hself _ hplain).1, _, rfl, (hself _ hplain).2⟩

/-! ## Rows -/

theorem forall_reals {p : Double → Prop} {r : Row} :
    (∀ x ∈ reals r, p x) ↔ (∀ x ∈ r.audioOffsetS, p x) ∧ (∀ x ∈ r.azDeg, p x) ∧ (∀ x ∈ r.elDeg, p x) ∧
      (∀ x ∈ r.rangeKm, p x) ∧ (∀ x ∈ r.rangeRateKmS, p x) ∧ ∀ x ∈ r.dopplerHzOffset, p x := by
  have hmem : ∀ x, x ∈ reals r ↔ x ∈ r.audioOffsetS ∨ x ∈ r.azDeg ∨ x ∈ r.elDeg ∨ x ∈ r.rangeKm ∨
      x ∈ r.rangeRateKmS ∨ x ∈ r.dopplerHzOffset := by
    intro x
    simp [reals, List.reduceOption_mem_iff, eq_comm]
  simp only [hmem, or_imp, forall_and]

theorem chars_keys {ks : List (List UInt8)}
    (h : ∀ k ∈ ks, ∀ c ∈ k, 0x20 ≤ c ∧ c ≠ byte '"' ∧ c ≠ byte '\\') : ∀ k ∈ ks, Chars k :=
  fun k hk => Ipc.chars_of_plain (h k hk)

theorem chars_csp (r : Row) : ∀ m ∈ cspMembers r, Chars m.1 := by
  have hall : ∀ k ∈ [text "src", text "dst", text "dport", text "sport", text "prio", text "flags"], Chars k :=
    chars_keys (by decide)
  exact fun m hm => hall m.1 (List.mem_map_of_mem (f := Prod.fst) hm)

theorem chars_observer (r : Row) : ∀ m ∈ observerMembers r, Chars m.1 := by
  have hall : ∀ k ∈ [text "az_deg", text "el_deg", text "range_km", text "range_rate_km_s", text "doppler_hz_offset"],
      Chars k := chars_keys (by decide)
  exact fun m hm => hall m.1 (List.mem_map_of_mem (f := Prod.fst) hm)

theorem chars_members (localTime : Option LocalTime) (r : Stored) : ∀ m ∈ jsonMembers localTime r, Chars m.1 := by
  have hall : ∀ k ∈ [text "id", text "ts", text "tool", text "run", text "type", text "type_name", text "satellite",
      text "csp", text "rs_errs", text "golay_errs", text "hmac_ok", text "crc_status", text "audio_offset_s",
      text "observer", text "tle_id", text "session_dir", text "capture_origin", text "payload_hex", text "summary"],
      Chars k := chars_keys (by decide)
  exact fun m hm => hall m.1 (List.mem_map_of_mem (f := Prod.fst) hm)

theorem value_csp (r : Row) : Value (object (cspMembers r)) := by
  refine value_object fun m hm => ⟨chars_csp r m hm, ?_⟩
  simp only [cspMembers, List.mem_cons, List.not_mem_nil, or_false] at hm
  rcases hm with rfl | rfl | rfl | rfl | rfl | rfl <;> exact value_int _

theorem value_observer {r : Row} (h : ∀ x ∈ reals r, x.isFinite = true) : Value (object (observerMembers r)) := by
  obtain ⟨-, haz, hel, hrange, hrate, hdop⟩ := forall_reals.mp h
  refine value_object fun m hm => ⟨chars_observer r m hm, ?_⟩
  simp only [observerMembers, List.mem_cons, List.not_mem_nil, or_false] at hm
  rcases hm with rfl | rfl | rfl | rfl | rfl
  · exact value_real haz 3
  · exact value_real hel 3
  · exact value_real hrange 3
  · exact value_real hrate 4
  · exact value_real hdop 1

/-- A row with finite numbers is an object. -/
theorem isObject_jsonMembers {localTime : Option LocalTime} {r : Stored} (h : ∀ x ∈ reals r.toRow, x.isFinite = true) :
    IsObject (jsonColumns localTime r) (object (jsonMembers localTime r)) := by
  obtain ⟨hoff, -⟩ := forall_reals.mp h
  have hsummary : 0 ∉ r.decodedSummary.getD [] := by
    cases hsum : r.decodedSummary with
    | none => exact List.not_mem_nil
    | some t => exact r.noNul t hsum
  have hself : ∀ {v : List UInt8}, Value v → Value v ∧ (JsonColumn.exact v).Reads v := fun hv => ⟨hv, rfl⟩
  have hint : ∀ v, Value (printInt v) ∧ (JsonColumn.exact (printInt v)).Reads (printInt v) :=
    fun v => hself (value_int _)
  have hmember : ∀ {k v : List UInt8} {c : JsonColumn}, Value v ∧ c.Reads v →
      Value ((k, v) : Pair).2 ∧ ((k, v) : Pair).1 = ((k, c) : List UInt8 × JsonColumn).1 ∧
        ((k, c) : List UInt8 × JsonColumn).2.Reads ((k, v) : Pair).2 := fun h => ⟨h.1, rfl, h.2⟩
  have hrows : List.Forall₂ (fun (m : Pair) (c : List UInt8 × JsonColumn) => Value m.2 ∧ m.1 = c.1 ∧ c.2.Reads m.2)
      (jsonMembers localTime r) (jsonColumns localTime r) :=
    .cons (hmember (hself (value_int _))) <| .cons (hmember (reads_jsonString _ (formatDisplayTs_isPrefix _ _))) <|
    .cons (hmember (reads_jsonString _ (cstr_isPrefix _))) <| .cons (hmember (reads_jsonString _ (cstr_isPrefix _))) <|
    .cons (hmember (hint _)) <| .cons (hmember (reads_jsonString _ (cstr_isPrefix _))) <|
    .cons (hmember (reads_orNull _ _)) <| .cons (hmember (hself (value_csp _))) <|
    .cons (hmember (hint _)) <| .cons (hmember (hint _)) <| .cons (hmember (hint _)) <| .cons (hmember (hint _)) <|
    .cons (hmember (hself (value_real hoff 3))) <| .cons (hmember (hself (value_observer h))) <|
    .cons (hmember (hself (value_orNull fun z _ => value_int z))) <| .cons (hmember (reads_orNull _ _)) <|
    .cons (hmember (reads_orNull _ _)) <| .cons (hmember (reads_hex _)) <|
    .cons (hmember (reads_summary hsummary)) .nil
  obtain ⟨hvalues, hcolumns⟩ := (List.forall₂_and_left _ _).mp hrows
  exact ⟨jsonMembers localTime r, _, rfl, members_joined _,
    fun m hm => ⟨chars_members localTime r m hm, hvalues m hm⟩, hcolumns.flip⟩

theorem elements_jsonRows (localTime : Option LocalTime) : ∀ (rows : List Stored) (r : Stored) (n : ℕ),
    Elements ((r :: rows).map fun r => object (jsonMembers localTime r))
      (text "\n  " ++ object (jsonMembers localTime r) ++ jsonRows localTime (n + 1) rows ++ text "\n") := by
  have hblank : Blank (text "\n  ") := by
    unfold Blank
    decide
  have hend : Blank (text "\n") := by
    unfold Blank
    decide
  intro rows
  induction rows with
  | nil =>
      intro r n
      rw [jsonRows, List.append_nil, List.append_assoc]
      exact .single hblank hend
  | cons r' rows ih =>
      intro r n
      have hcons : text "\n  " ++ object (jsonMembers localTime r) ++ jsonRows localTime (n + 1) (r' :: rows) ++
          text "\n" = text "\n  " ++ (object (jsonMembers localTime r) ++ []) ++ byte ',' ::
            (text "\n  " ++ object (jsonMembers localTime r') ++ jsonRows localTime (n + 1 + 1) rows ++ text "\n") := by
        rw [jsonRows, if_pos (Nat.succ_pos n)]
        simp only [List.append_assoc, List.append_nil, List.cons_append, List.nil_append]
      rw [hcons]
      exact .cons hblank .nil (ih r' (n + 1))

/-- **Rows with finite numbers are read back.** -/
theorem jsonExport_of_finite {localTime : Option LocalTime} {rows : List Stored}
    (h : ∀ r ∈ rows, ∀ x ∈ reals r.toRow, x.isFinite = true) : JsonExport localTime rows := by
  have hobjects : ∀ r ∈ rows, IsObject (jsonColumns localTime r) (object (jsonMembers localTime r)) :=
    fun r hr => isObject_jsonMembers (h r hr)
  refine ⟨rows.map fun r => object (jsonMembers localTime r),
    jsonRows localTime 0 rows ++ if 0 < rows.length then text "\n" else [], ?_, ?_, ?_, ?_⟩
  · have hend : text "]\n" = [byte ']'] ++ [byte '\n'] := by decide
    unfold exportJson
    rw [hend]
    simp only [List.append_assoc, List.cons_append]
  · cases rows with
    | nil => exact .nil .nil
    | cons r rows =>
        rw [if_pos (List.length_pos_of_ne_nil (List.cons_ne_nil r rows)), jsonRows, if_neg (Nat.lt_irrefl 0),
          List.nil_append]
        exact elements_jsonRows localTime rows r 0
  · intro e he
    obtain ⟨r, hr, rfl⟩ := List.mem_map.mp he
    obtain ⟨ms, t, heq, hms, hvalues, -⟩ := hobjects r hr
    rw [heq]
    rcases hms.text hvalues with hblank | htext
    · exact .emptyObject hblank
    · exact .object htext
  · exact List.forall₂_map_right_iff.mpr (List.forall₂_same.mpr hobjects)

/-! ## An infinite number -/

theorem ends_joined {fs : List (List UInt8)} (h : ∀ f ∈ fs, Ends f) :
    Ends (joined fs) ∧ (Outer (joined fs) → ∀ f ∈ fs, Outer f) := by
  have hcomma : Outer [byte ','] := by decide
  induction fs with
  | nil => exact ⟨.inl rfl, fun _ f hf => absurd hf List.not_mem_nil⟩
  | cons f fs ih =>
      obtain ⟨hf, hfs⟩ := List.forall_mem_cons.mp h
      cases fs with
      | nil =>
          rw [joined_singleton]
          exact ⟨hf, fun houter => List.forall_mem_singleton.mpr houter⟩
      | cons g gs =>
          obtain ⟨hends, hall⟩ := ih hfs
          have hhead : Ends (f ++ [byte ',']) := hf.append hcomma.ends
          rw [joined_cons_cons]
          refine ⟨hhead.append hends, fun houter => ?_⟩
          obtain ⟨hleft, hright⟩ := (outer_append_iff hhead _).mp houter
          exact List.forall_mem_cons.mpr ⟨((outer_append_iff hf _).mp hleft).1, hall hright⟩

theorem ends_object {ms : List Pair} (h : ∀ m ∈ ms, Chars m.1 ∧ Ends m.2) :
    Ends (object ms) ∧ (Outer (object ms) → ∀ m ∈ ms, Outer m.2) := by
  have hopen : Outer [byte '{'] := by decide
  have hclose : Outer [byte '}'] := by decide
  have hcolon : Outer [byte ':'] := by decide
  have hkey : ∀ m ∈ ms, Outer (quoted m.1 ++ [byte ':']) := fun m hm => (outer_quoted (h m hm).1).append hcolon
  have hsplit : ∀ m : Pair, quoted m.1 ++ byte ':' :: m.2 = quoted m.1 ++ [byte ':'] ++ m.2 := fun m => by
    rw [List.append_assoc, List.singleton_append]
  have hends : ∀ f ∈ ms.map (fun m => quoted m.1 ++ byte ':' :: m.2), Ends f := by
    intro f hf
    obtain ⟨m, hm, rfl⟩ := List.mem_map.mp hf
    rw [hsplit]
    exact (hkey m hm).ends.append (h m hm).2
  obtain ⟨hjoined, hall⟩ := ends_joined hends
  have hobject : object ms = [byte '{'] ++ (joined (ms.map fun m => quoted m.1 ++ byte ':' :: m.2) ++ [byte '}']) := rfl
  rw [hobject]
  refine ⟨hopen.ends.append (hjoined.append hclose.ends), fun houter m hm => ?_⟩
  have hinner := ((outer_append_iff hjoined _).mp ((outer_append_iff hopen.ends _).mp houter).2).1
  have hmember := hall hinner _ (List.mem_map_of_mem hm)
  rw [hsplit] at hmember
  exact ((outer_append_iff (hkey m hm).ends _).mp hmember).2

theorem ends_real {v : Option Double} (h : ∀ x ∈ v, x.isNan = false) (k : ℕ) :
    Ends (orNull (Double.printFixed k) v) := by
  cases v with
  | none => exact value_null.outer.ends
  | some x => exact ends_printFixed (h x rfl) k

theorem finite_of_outer_real {v : Option Double} (h : ∀ x ∈ v, x.isNan = false) {k : ℕ}
    (houter : Outer (orNull (Double.printFixed k) v)) : ∀ x ∈ v, x.isFinite = true := by
  rintro x rfl
  exact finite_of_outer (h x rfl) houter

theorem ends_observer {r : Row} (h : ∀ x ∈ reals r, x.isNan = false) :
    Ends (object (observerMembers r)) ∧
      (Outer (object (observerMembers r)) → (∀ x ∈ r.azDeg, x.isFinite = true) ∧ (∀ x ∈ r.elDeg, x.isFinite = true) ∧
        (∀ x ∈ r.rangeKm, x.isFinite = true) ∧ (∀ x ∈ r.rangeRateKmS, x.isFinite = true) ∧
        ∀ x ∈ r.dopplerHzOffset, x.isFinite = true) := by
  obtain ⟨-, haz, hel, hrange, hrate, hdop⟩ := forall_reals.mp h
  have hvalues : ∀ m ∈ observerMembers r, Ends m.2 := by
    simp only [observerMembers, List.forall_mem_cons]
    exact ⟨ends_real haz 3, ends_real hel 3, ends_real hrange 3, ends_real hrate 4, ends_real hdop 1,
      fun m hm => absurd hm List.not_mem_nil⟩
  obtain ⟨hends, hall⟩ := ends_object fun m hm => ⟨chars_observer r m hm, hvalues m hm⟩
  refine ⟨hends, fun houter => ?_⟩
  have hfields := hall houter
  simp only [observerMembers, List.forall_mem_cons] at hfields
  obtain ⟨haz', hel', hrange', hrate', hdop', -⟩ := hfields
  exact ⟨finite_of_outer_real haz haz', finite_of_outer_real hel hel', finite_of_outer_real hrange hrange',
    finite_of_outer_real hrate hrate', finite_of_outer_real hdop hdop'⟩

/-- The object of a row stops that reader only at an infinite number. -/
theorem ends_row (localTime : Option LocalTime) (r : Stored) :
    Ends (object (jsonMembers localTime r)) ∧
      (Outer (object (jsonMembers localTime r)) → ∀ x ∈ reals r.toRow, x.isFinite = true) := by
  have hoff := (forall_reals.mp r.noNan).1
  obtain ⟨hobserver, hfinite⟩ := ends_observer r.noNan
  have hstring : ∀ (n : ℕ) (s : List UInt8), Ends (jsonString n s) := fun n s =>
    (reads_jsonString n (cstr_isPrefix s)).1.outer.ends
  have hnull : ∀ (n : ℕ) (v : Option (List UInt8)), Ends (orNull (jsonString n) v) := fun n v =>
    (reads_orNull n v).1.outer.ends
  have hint : ∀ z, Ends (decimalInt z) := fun z => (value_int z).outer.ends
  have hvalues : ∀ m ∈ jsonMembers localTime r, Ends m.2 := by
    simp only [jsonMembers, List.forall_mem_cons]
    exact ⟨hint _, hstring _ _, hstring _ _, hstring _ _, hint _, hstring _ _, hnull _ _, (value_csp _).outer.ends,
      hint _, hint _, hint _, hint _, ends_real hoff 3, hobserver,
      (value_orNull fun z _ => value_int z).outer.ends, hnull _ _, hnull _ _, (reads_hex _).1.outer.ends,
      hstring _ _, fun m hm => absurd hm List.not_mem_nil⟩
  obtain ⟨hends, hall⟩ := ends_object fun m hm => ⟨chars_members localTime r m hm, hvalues m hm⟩
  refine ⟨hends, fun houter => ?_⟩
  have hmembers := hall houter
  simp only [jsonMembers, List.forall_mem_cons] at hmembers
  obtain ⟨-, -, -, -, -, -, -, -, -, -, -, -, hoff', hobs, -⟩ := hmembers
  exact forall_reals.mpr ⟨finite_of_outer_real hoff hoff', hfinite hobs⟩

theorem ends_jsonRows (localTime : Option LocalTime) (rows : List Stored) (n : ℕ) :
    Ends (jsonRows localTime n rows) ∧
      (Outer (jsonRows localTime n rows) → ∀ r ∈ rows, ∀ x ∈ reals r.toRow, x.isFinite = true) := by
  have hhead : Outer (text "\n  ") := by decide
  have hcomma : ∀ n : ℕ, Outer (if 0 < n then [byte ','] else []) := by
    intro n
    split_ifs <;> decide
  induction rows generalizing n with
  | nil => exact ⟨.inl rfl, fun _ r hr => absurd hr List.not_mem_nil⟩
  | cons r rows ih =>
      obtain ⟨hrow, hfinite⟩ := ends_row localTime r
      obtain ⟨hrest, hall⟩ := ih (n + 1)
      have hlead := (hcomma n).append hhead
      have hfirst := hlead.ends.append hrow
      rw [jsonRows]
      refine ⟨hfirst.append hrest, fun houter => ?_⟩
      obtain ⟨hleft, hright⟩ := (outer_append_iff hfirst _).mp houter
      exact List.forall_mem_cons.mpr ⟨hfinite ((outer_append_iff hlead.ends _).mp hleft).2, hall hright⟩

/-- **The JSON text is one unless a number is infinite.** -/
theorem jsonExport_iff (localTime : Option LocalTime) (rows : List Stored) :
    JsonExport localTime rows ↔ ∀ r ∈ rows, ∀ x ∈ reals r.toRow, x.isFinite = true := by
  refine ⟨?_, jsonExport_of_finite⟩
  rintro ⟨es, t, heq, helements, hvalues, -⟩
  have hopen : Outer [byte '['] := by decide
  have hend : Outer [byte '\n'] := by decide
  have houter : Outer (exportJson localTime rows) := by
    rw [heq]
    exact (helements.value hvalues).outer.append hend
  obtain ⟨hrows, hfinite⟩ := ends_jsonRows localTime rows 0
  unfold exportJson at houter
  rw [List.append_assoc] at houter
  have hinner := ((outer_append_iff hopen.ends _).mp houter).2
  exact hfinite ((outer_append_iff hrows _).mp hinner).1

/-! ## Both formats -/

/-- A row of a source tool. -/
def rowOf (tool : List UInt8) : Stored where
  id := 1
  tsReceived := text "2026-01-01T00:00:00.000Z"
  satellite := none
  packetType := 1
  packetTypeName := text "beacon"
  cspSrc := none
  cspDst := none
  cspDport := none
  cspSport := none
  cspPrio := none
  cspFlags := none
  payload := [0x01, 0xab]
  payloadSha1 := []
  golayErrs := some 0
  rsErrs := some 0
  hmacOk := some 1
  crcStatus := some 1
  sourceTool := tool
  sourceRun := none
  audioOffsetS := none
  decodedSummary := none
  azDeg := none
  elDeg := none
  rangeKm := none
  rangeRateKmS := none
  dopplerHzOffset := none
  tleId := none
  sessionDir := none
  captureOrigin := none
  noNul := fun _ h => absurd h (Option.not_mem_none _)
  noNan := fun _ h => absurd h List.not_mem_nil

end SimpleSatOps.PacketQuery
