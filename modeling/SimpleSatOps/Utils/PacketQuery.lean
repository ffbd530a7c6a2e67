import SimpleSatOps.Db.PacketDb
import SimpleSatOps.Ipc.WireText
import SimpleSatOps.Lib.Csv
import SimpleSatOps.Lib.JsonString
import SimpleSatOps.Lib.Printf

/-!
# The exports of `packet_query`

* `csvEscape`, `jsonEscape`, `hexEncode` : the escapers, with the sizes of their buffers;
* `Stored` : a row the query steps over;
* `csvFields`, `exportCsv`; `jsonMembers`, `exportJson` : what is printed for the rows;
* `straddles` : whether an escaped quote ends at the end of its buffer, with no place for the closing quote;
* `csvEscape_spec`, `csvEscape_complete` : a field is closed unless it straddles;
* `jsonLoop_spec` : a string is the escaped text of a prefix.

The rows are those the query steps over, in its order. Memory for a row is never refused.
-/

namespace SimpleSatOps.PacketQuery
open Csv PacketDb

/-! ## The escapers -/

/-- The loop of `csv_escape`, with what is written so far. -/
def csvLoop (outn : ℕ) : (out : List UInt8) → List UInt8 → List UInt8
  | out, [] => out
  | out, c :: s =>
      if out.length + 2 < outn then csvLoop outn (out ++ if c = byte '"' then [byte '"', byte '"'] else [c]) s else out

/-- `csv_escape` -/
def csvEscape (inp : List UInt8) (outn : ℕ) : List UInt8 :=
  let inp := cstr inp
  let needsQuote := inp.any isSpecial
  let out := if needsQuote ∧ 1 < outn then [byte '"'] else []
  let out := csvLoop outn out inp
  if needsQuote ∧ out.length + 1 < outn then out ++ [byte '"'] else out

/-- The loop of `json_escape`; its switch writes what `json_append_escaped` writes. -/
def jsonLoop (outn : ℕ) : (out : List UInt8) → List UInt8 → List UInt8
  | out, [] => out
  | out, c :: s => if out.length + 8 < outn then jsonLoop outn (out ++ Ipc.escapeByte c) s else out

/-- `json_escape` -/
def jsonEscape (inp : List UInt8) (outn : ℕ) : List UInt8 := jsonLoop outn [] (cstr inp)

/-- `hex_encode` -/
def hexEncode (bytes : List UInt8) (outn : ℕ) : List UInt8 := (bytes.take ((outn - 1) / 2)).flatMap hexByte

/-! ## Rows -/

/-- The REAL columns that are not NULL. -/
def reals (r : Row) : List Double :=
  [r.audioOffsetS, r.azDeg, r.elDeg, r.rangeKm, r.rangeRateKmS, r.dopplerHzOffset].reduceOption

/-- A row of the table. A text has no NUL in it, as `packet_db_insert` binds C strings; SQLite stores NULL for a NaN. -/
structure Stored extends Row where
  id : ℤ
  noNul : ∀ t ∈ toRow.decodedSummary, 0 ∉ t
  noNan : ∀ x ∈ reals toRow, x.isNan = false

/-- `sqlite3_column_int`: the low 32 bits, 0 for NULL. -/
def columnInt (v : Option ℤ) : ℤ := (v.getD 0).bmod (2 ^ 32)

def printInt (v : Option ℤ) : List UInt8 := decimalInt (columnInt v)

/-- The time of `--local-time`, by the calendar of the C library; `none` for a text that is no time. -/
abbrev LocalTime : Type := List UInt8 → Option (List UInt8)

/-- The time a row is shown with, before it is cut to its buffer. -/
def shownTime (localTime : Option LocalTime) (iso : List UInt8) : List UInt8 :=
  match localTime with
  | none => iso
  | some f => if cstr iso = [] then iso else (f (cstr iso)).getD iso

/-- `format_display_ts` -/
def formatDisplayTs (localTime : Option LocalTime) (iso : List UInt8) : List UInt8 :=
  snprintf 64 (cstr (shownTime localTime iso))

/-! ## CSV -/

def csvHeader : List (List UInt8) :=
  [text "id", text "ts_received", text "satellite", text "packet_type", text "packet_type_name",
    text "csp_src", text "csp_dst", text "csp_dport", text "csp_sport", text "csp_prio", text "csp_flags",
    text "golay_errs", text "rs_errs", text "hmac_ok", text "crc_status",
    text "source_tool", text "source_run", text "audio_offset_s",
    text "az_deg", text "el_deg", text "range_km", text "range_rate_km_s", text "doppler_hz_offset",
    text "tle_id", text "session_dir", text "capture_origin", text "payload_hex", text "decoded_summary"]

/-- Nothing for NULL. -/
def orEmpty {α : Type} (print : α → List UInt8) (v : Option α) : List UInt8 := v.elim [] print

def csvFields (localTime : Option LocalTime) (r : Stored) : List (List UInt8) :=
  let summary := r.decodedSummary.getD []
  [decimalInt r.id, csvEscape (formatDisplayTs localTime r.tsReceived) 80, csvEscape (r.satellite.getD []) 40,
    printInt r.packetType, csvEscape r.packetTypeName 40,
    printInt r.cspSrc, printInt r.cspDst, printInt r.cspDport, printInt r.cspSport, printInt r.cspPrio,
    printInt r.cspFlags,
    printInt r.golayErrs, printInt r.rsErrs, printInt r.hmacOk, printInt r.crcStatus,
    csvEscape r.sourceTool 40, csvEscape (r.sourceRun.getD []) 40,
    orEmpty (Double.printFixed 3) r.audioOffsetS,
    orEmpty (Double.printFixed 4) r.azDeg, orEmpty (Double.printFixed 4) r.elDeg,
    orEmpty (Double.printFixed 3) r.rangeKm, orEmpty (Double.printFixed 4) r.rangeRateKmS,
    orEmpty (Double.printFixed 1) r.dopplerHzOffset,
    orEmpty decimalInt r.tleId,
    csvEscape (r.sessionDir.getD []) 512, csvEscape (r.captureOrigin.getD []) 64,
    hexEncode r.payload (2 * r.payload.length + 1), csvEscape summary (2 * (cstr summary).length + 8)]

/-- What `--format=csv` prints. -/
def exportCsv (localTime : Option LocalTime) (rows : List Stored) : List UInt8 :=
  lines (csvHeader :: rows.map (csvFields localTime))

/-! ## JSON -/

/-- Members without white space. -/
def object (ms : List Json.Pair) : List UInt8 :=
  byte '{' :: (joined (ms.map fun m => Json.quoted m.1 ++ byte ':' :: m.2) ++ [byte '}'])

def orNull {α : Type} (print : α → List UInt8) (v : Option α) : List UInt8 := v.elim (text "null") print

/-- A string escaped in a buffer of `outn` bytes. -/
def jsonString (outn : ℕ) (s : List UInt8) : List UInt8 := Json.quoted (jsonEscape s outn)

/-- The members of `csp`. -/
def cspMembers (r : Row) : List Json.Pair :=
  [(text "src", printInt r.cspSrc), (text "dst", printInt r.cspDst), (text "dport", printInt r.cspDport),
    (text "sport", printInt r.cspSport), (text "prio", printInt r.cspPrio), (text "flags", printInt r.cspFlags)]

/-- The members of `observer`. -/
def observerMembers (r : Row) : List Json.Pair :=
  [(text "az_deg", orNull (Double.printFixed 3) r.azDeg), (text "el_deg", orNull (Double.printFixed 3) r.elDeg),
    (text "range_km", orNull (Double.printFixed 3) r.rangeKm),
    (text "range_rate_km_s", orNull (Double.printFixed 4) r.rangeRateKmS),
    (text "doppler_hz_offset", orNull (Double.printFixed 1) r.dopplerHzOffset)]

def jsonMembers (localTime : Option LocalTime) (r : Stored) : List Json.Pair :=
  let summary := r.decodedSummary.getD []
  [(text "id", decimalInt r.id),
    (text "ts", jsonString 64 (formatDisplayTs localTime r.tsReceived)),
    (text "tool", jsonString 64 r.sourceTool),
    (text "run", jsonString 64 (r.sourceRun.getD [])),
    (text "type", printInt r.packetType),
    (text "type_name", jsonString 32 r.packetTypeName),
    (text "satellite", orNull (jsonString 32) r.satellite),
    (text "csp", object (cspMembers r.toRow)),
    (text "rs_errs", printInt r.rsErrs), (text "golay_errs", printInt r.golayErrs),
    (text "hmac_ok", printInt r.hmacOk), (text "crc_status", printInt r.crcStatus),
    (text "audio_offset_s", orNull (Double.printFixed 3) r.audioOffsetS),
    (text "observer", object (observerMembers r.toRow)),
    (text "tle_id", orNull decimalInt r.tleId),
    (text "session_dir", orNull (jsonString 512) r.sessionDir),
    (text "capture_origin", orNull (jsonString 64) r.captureOrigin),
    (text "payload_hex", Json.quoted (hexEncode r.payload (2 * r.payload.length + 1))),
    (text "summary", jsonString (6 * (cstr summary).length + 16) summary)]

/-- What is printed for the rows, behind `rowCount` others. -/
def jsonRows (localTime : Option LocalTime) : (rowCount : ℕ) → List Stored → List UInt8
  | _, [] => []
  | rowCount, r :: rows =>
      (if 0 < rowCount then [byte ','] else []) ++ text "\n  " ++ object (jsonMembers localTime r) ++
        jsonRows localTime (rowCount + 1) rows

/-- What `--format=json` prints. -/
def exportJson (localTime : Option LocalTime) (rows : List Stored) : List UInt8 :=
  byte '[' :: (jsonRows localTime 0 rows ++ (if 0 < rows.length then text "\n" else []) ++ text "]\n")

/-! ## Fields that stay open -/

/-- Whether an escaped quote ends on the last byte in front of the NUL, with `o` bytes written so far. -/
def straddlesFrom (outn : ℕ) : (o : ℕ) → List UInt8 → Bool
  | _, [] => false
  | o, c :: s => c == byte '"' && o + 3 == outn || straddlesFrom outn (o + (piece c).length) s

/-- Whether it does behind the opening quote. -/
def straddles (outn : ℕ) (s : List UInt8) : Bool := straddlesFrom outn 1 (cstr s)

/-- The fields that are escaped to a buffer of a fixed size. -/
def cuts (localTime : Option LocalTime) (r : Stored) : List (ℕ × List UInt8) :=
  [(80, formatDisplayTs localTime r.tsReceived), (40, r.satellite.getD []), (40, r.packetTypeName),
    (40, r.sourceTool), (40, r.sourceRun.getD []), (512, r.sessionDir.getD []), (64, r.captureOrigin.getD [])]

/-- How many fields of a row have an escaped quote at the end of their buffer. -/
def openFields (localTime : Option LocalTime) (r : Stored) : ℕ := (cuts localTime r).countP fun f => straddles f.1 f.2

theorem copied_eq (c : UInt8) : (if c = byte '"' then [byte '"', byte '"'] else [c]) = piece c := by
  unfold piece
  split_ifs with hc
  · rw [hc]
  · rfl

theorem quote_mem_of_straddlesFrom {outn : ℕ} : ∀ {s : List UInt8} {o : ℕ}, straddlesFrom outn o s = true →
    byte '"' ∈ s := by
  intro s
  induction s with
  | nil => exact fun h => absurd h Bool.false_ne_true
  | cons c s ih =>
      intro o h
      simp only [straddlesFrom, Bool.or_eq_true, Bool.and_eq_true, beq_iff_eq] at h
      rcases h with ⟨rfl, -⟩ | h
      · exact List.mem_cons_self
      · exact List.mem_cons_of_mem c (ih h)

theorem straddlesFrom_late {outn : ℕ} : ∀ {o : ℕ}, outn < o + 3 → ∀ s, straddlesFrom outn o s = false := by
  intro o h s
  induction s generalizing o with
  | nil => rfl
  | cons c s ih =>
      have hne : (o + 3 == outn) = false := beq_eq_false_iff_ne.mpr h.ne'
      rw [straddlesFrom, hne, Bool.and_false, Bool.false_or]
      exact ih (by omega)

theorem csvLoop_full {outn : ℕ} {out : List UInt8} (h : outn ≤ out.length + 2) (s : List UInt8) :
    csvLoop outn out s = out := by
  cases s with
  | nil => rfl
  | cons c s => rw [csvLoop, if_neg (Nat.not_lt.mpr h)]

/-- The loop writes a prefix, and leaves a byte for the closing quote unless an escaped quote takes it. -/
theorem csvLoop_spec {outn : ℕ} : ∀ s {out : List UInt8}, out.length + 1 < outn →
    ∃ p, p <+: s ∧ csvLoop outn out s = out ++ doubled p ∧
      (out ++ doubled p).length + 1 ≤ outn ∧
      ((out ++ doubled p).length + 1 = outn ↔ straddlesFrom outn out.length s = true) := by
  intro s
  induction s with
  | nil =>
      intro out h
      have hnil : out ++ doubled [] = out := List.append_nil out
      refine ⟨[], List.prefix_rfl, hnil.symm, ?_⟩
      rw [hnil]
      exact ⟨h.le, iff_of_false h.ne Bool.false_ne_true⟩
  | cons c s ih =>
      intro out h
      have hlen : (out ++ piece c).length = out.length + (piece c).length := List.length_append
      rw [csvLoop, copied_eq]
      by_cases hroom : out.length + 2 < outn
      · rw [if_pos hroom]
        by_cases hlast : c = byte '"' ∧ out.length + 3 = outn
        · obtain ⟨rfl, hlast⟩ := hlast
          have htwo : (piece (byte '"')).length = 2 := rfl
          have hone : doubled [byte '"'] = piece (byte '"') := List.append_nil _
          refine ⟨[byte '"'], List.prefix_iff_eq_take.mpr rfl, ?_, ?_⟩
          · rw [csvLoop_full (by omega), hone]
          · rw [hone]
            refine ⟨by omega, iff_of_true (by omega) ?_⟩
            simp [straddlesFrom, hlast]
        · have hnext : (out ++ piece c).length + 1 < outn := by
            unfold piece at hlen ⊢
            split_ifs at hlen ⊢ with hc
            · have hne : out.length + 3 ≠ outn := fun he => hlast ⟨hc, he⟩
              simp only [List.length_append, List.length_cons, List.length_nil]
              omega
            · simpa using hroom
          obtain ⟨p, hp, heq, hle, hiff⟩ := ih hnext
          refine ⟨c :: p, (List.prefix_cons_inj c).mpr hp, ?_, ?_⟩
          · rw [heq, doubled_cons, List.append_assoc]
          · rw [doubled_cons, ← List.append_assoc]
            refine ⟨hle, hiff.trans ?_⟩
            have hno : (c == byte '"' && out.length + 3 == outn) = false := by
              rw [Bool.eq_false_iff, ne_eq, Bool.and_eq_true, beq_iff_eq, beq_iff_eq]
              exact hlast
            rw [straddlesFrom, hno, Bool.false_or, hlen]
      · have hnil : out ++ doubled [] = out := List.append_nil out
        rw [if_neg hroom]
        refine ⟨[], List.nil_prefix, hnil.symm, ?_⟩
        rw [hnil]
        exact ⟨h.le, iff_of_false h.ne (Bool.eq_false_iff.mp (straddlesFrom_late (by omega) _))⟩

/-- With two bytes for each one, and four more, the whole text is written and nothing straddles. -/
theorem csvLoop_complete {outn : ℕ} : ∀ s {out : List UInt8}, out.length + 2 * s.length + 2 ≤ outn →
    csvLoop outn out s = out ++ doubled s ∧ straddlesFrom outn out.length s = false := by
  intro s
  induction s with
  | nil => exact fun _ => ⟨(List.append_nil _).symm, rfl⟩
  | cons c s ih =>
      intro out h
      rw [List.length_cons] at h
      have hle := length_piece_le c
      have hlen : (out ++ piece c).length = out.length + (piece c).length := List.length_append
      have hne : (out.length + 3 == outn) = false := beq_eq_false_iff_ne.mpr (by omega)
      obtain ⟨heq, hno⟩ := ih (show (out ++ piece c).length + 2 * s.length + 2 ≤ outn by omega)
      rw [csvLoop, if_pos (by omega), copied_eq, heq, straddlesFrom, hne, Bool.and_false, Bool.false_or, ← hlen, hno,
        List.append_assoc, doubled_cons]
      exact ⟨rfl, rfl⟩

/-! ## A field -/

theorem doubled_of_plain {s : List UInt8} (h : ∀ c ∈ s, isSpecial c = false) : doubled s = s := by
  induction s with
  | nil => rfl
  | cons c s ih =>
      obtain ⟨hc, hs⟩ := List.forall_mem_cons.mp h
      rw [doubled_cons, ih hs, piece, if_neg (not_special hc).2.1]
      rfl

theorem csvEscape_quoted {s : List UInt8} {outn : ℕ} (hquote : (cstr s).any isSpecial = true) (h : 1 < outn) :
    csvEscape s outn =
      if (csvLoop outn [byte '"'] (cstr s)).length + 1 < outn then csvLoop outn [byte '"'] (cstr s) ++ [byte '"']
      else csvLoop outn [byte '"'] (cstr s) := by
  unfold csvEscape
  simp only [hquote, h, true_and, if_true]

theorem csvEscape_plain {s : List UInt8} (outn : ℕ) (hplain : ∀ c ∈ cstr s, isSpecial c = false) :
    csvEscape s outn = csvLoop outn [] (cstr s) := by
  have hquote : (cstr s).any isSpecial = false := by simpa using hplain
  unfold csvEscape
  simp only [hquote, Bool.false_eq_true, false_and, if_false]

/-- What `csv_escape` writes: a field for a prefix of the text, or one that is left open. -/
theorem csvEscape_spec (s : List UInt8) {outn : ℕ} (h : 2 < outn) :
    ∃ p, p <+: cstr s ∧
      if straddles outn s = true then csvEscape s outn = byte '"' :: doubled p else Field p (csvEscape s outn) := by
  unfold straddles
  by_cases hquote : (cstr s).any isSpecial = true
  · obtain ⟨p, hp, heq, hle, hiff⟩ := csvLoop_spec (cstr s) (show [byte '"'].length + 1 < outn from h)
    refine ⟨p, hp, ?_⟩
    rw [csvEscape_quoted hquote (by omega), heq]
    split_ifs with hopen hclose hclose
    · exact absurd (hiff.mpr hopen) hclose.ne
    · rfl
    · exact .inr rfl
    · exact absurd (hiff.mp (le_antisymm hle (Nat.not_lt.mp hclose))) hopen
  · have hplain : ∀ c ∈ cstr s, isSpecial c = false := by simpa using hquote
    obtain ⟨p, hp, heq, -⟩ := csvLoop_spec (cstr s) (show ([] : List UInt8).length + 1 < outn by simp; omega)
    have hp' : ∀ c ∈ p, isSpecial c = false := fun c hc => hplain c (hp.subset hc)
    have hno : ¬ straddlesFrom outn 1 (cstr s) = true := fun hst =>
      absurd (hplain _ (quote_mem_of_straddlesFrom hst)) (by decide)
    refine ⟨p, hp, ?_⟩
    rw [if_neg hno, csvEscape_plain outn hplain, heq, doubled_of_plain hp']
    exact .inl ⟨hp', rfl⟩

/-- A buffer made for the text holds all of it. -/
theorem csvEscape_complete {s : List UInt8} {outn : ℕ} (h : 2 * (cstr s).length + 8 ≤ outn) :
    Field (cstr s) (csvEscape s outn) := by
  by_cases hquote : (cstr s).any isSpecial = true
  · have hroom : [byte '"'].length + 2 * (cstr s).length + 2 ≤ outn := by simp; omega
    have hloop := (csvLoop_complete (cstr s) hroom).1
    have hlen := length_doubled_le (cstr s)
    rw [csvEscape_quoted hquote (by omega), hloop, if_pos]
    · exact .inr rfl
    · rw [List.length_append, List.length_singleton]
      omega
  · have hplain : ∀ c ∈ cstr s, isSpecial c = false := by simpa using hquote
    have hroom : ([] : List UInt8).length + 2 * (cstr s).length + 2 ≤ outn := by simp; omega
    have hloop := (csvLoop_complete (cstr s) hroom).1
    rw [csvEscape_plain outn hplain, hloop, doubled_of_plain hplain]
    exact .inl ⟨hplain, rfl⟩

/-! ## A string -/

/-- The loop of `json_escape` writes the escapes of a prefix. -/
theorem jsonLoop_spec (outn : ℕ) : ∀ s out : List UInt8, ∃ p, p <+: s ∧ jsonLoop outn out s = out ++ Ipc.escape p := by
  intro s
  induction s with
  | nil => exact fun out => ⟨[], List.prefix_rfl, (List.append_nil out).symm⟩
  | cons c s ih =>
      intro out
      rw [jsonLoop]
      split_ifs
      · obtain ⟨p, hp, heq⟩ := ih (out ++ Ipc.escapeByte c)
        exact ⟨c :: p, (List.prefix_cons_inj c).mpr hp, by rw [heq, Ipc.escape_cons, List.append_assoc]⟩
      · exact ⟨[], List.nil_prefix, (List.append_nil out).symm⟩

/-- With six bytes for each one the whole text is written. -/
theorem jsonLoop_complete {outn : ℕ} : ∀ {s out : List UInt8}, out.length + 6 * s.length + 3 ≤ outn →
    jsonLoop outn out s = out ++ Ipc.escape s := by
  intro s
  induction s with
  | nil => exact fun _ => (List.append_nil _).symm
  | cons c s ih =>
      intro out h
      have hle := Ipc.length_escapeByte_le c
      rw [List.length_cons] at h
      rw [jsonLoop, if_pos (by omega), ih (by rw [List.length_append]; omega), Ipc.escape_cons, List.append_assoc]

open Json in
/-- An escaped text stands for itself. -/
theorem stringValue_escape (s : List UInt8) : stringValue (Ipc.escape s) = some s := by
  induction s with
  | nil => rfl
  | cons c s ih =>
      have hall : ∀ e ∈ text "\"\\nrt", escaped e = some (JsonText.unescapeChar e) := by decide
      rw [Ipc.escape_cons]
      rcases Ipc.escapeByte_cases c with ⟨e, he, heq, hchar, -⟩ | ⟨hlt, -, heq⟩ | ⟨hge, hquote, hback, heq⟩ <;> rw [heq]
      · have hvalue := hall e he
        rw [hchar] at hvalue
        rw [List.cons_append, List.singleton_append, stringValue_escaped hvalue, ih]
        rfl
      · have hcontrol : ∀ n < 32, unicode (byte '0' :: byte '0' :: hexByte (UInt8.ofNat n)) = some [UInt8.ofNat n] := by
          decide
        have hvalue := hcontrol c.toNat (UInt8.lt_iff_toNat_lt.mp hlt)
        rw [UInt8.ofNat_toNat] at hvalue
        rw [Ipc.text_u00]
        refine (stringValue_unicode hvalue (Ipc.escape s)).trans ?_
        rw [ih]
        rfl
      · rw [List.singleton_append, stringValue_plain hge hquote hback, ih]
        rfl

/-! ## Digits -/

theorem hexEncode_complete (bytes : List UInt8) :
    hexEncode bytes (2 * bytes.length + 1) = bytes.flatMap hexByte := by
  unfold hexEncode
  rw [Nat.add_sub_cancel, Nat.mul_div_cancel_left _ (by decide), List.take_length]

end SimpleSatOps.PacketQuery
