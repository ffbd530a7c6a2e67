import Mathlib.Data.Fin.VecNotation
import SimpleSatOps.Lib.Scanf
import SimpleSatOps.Lib.Search

/-!
# Orbit ephemeris messages (`oem.c`)

* `Sample`, `Table` : `oem_sample_t`, `oem_table_t`;
* `gregorianToJulianUtc`, `parseIso8601Utc`, `skipWs`, `rstrip`, `matchKv` : the parts of a line;
* `Mode`, `parseLine`, `oemParse` : the parser, one line after the other;
* `two_le_of_oemParse` : what is accepted has two samples at least.

Numbers are exact, `int` arithmetic does not overflow, and memory for the samples is never refused. What is written to
the standard error is left out.
-/

namespace SimpleSatOps.Oem

/-- `oem_sample_t` -/
structure Sample where
  julUtc : ℚ
  rEcef : Fin 3 → ℚ
  vEcef : Fin 3 → ℚ
deriving DecidableEq

/-- `oem_table_t` -/
structure Table where
  objectName : List UInt8
  objectId : List UInt8
  refFrame : List UInt8
  timeSystem : List UInt8
  startJulUtc : ℚ
  stopJulUtc : ℚ
  samples : List Sample
deriving DecidableEq

/-- `memset(out, 0, sizeof(*out))` -/
def Table.zero : Table := ⟨[], [], [], [], 0, 0, []⟩

/-- `gregorian_to_julian_utc` -/
def gregorianToJulianUtc (y mo d h mi : ℤ) (sec : ℚ) : ℚ :=
  let a := Int.tdiv (14 - mo) 12
  let yy := y + 4800 - a
  let mm := mo + 12 * a - 3
  let jdn := d + Int.tdiv (153 * mm + 2) 5 + 365 * yy + Int.tdiv yy 4 - Int.tdiv yy 100 + Int.tdiv yy 400 - 32045
  (jdn : ℚ) + ((h : ℚ) - 12) / 24 + (mi : ℚ) / 1440 + sec / 86400

/-- `parse_iso8601_utc` -/
def parseIso8601Utc (s : List UInt8) : Option ℚ := do
  let (y, s) ← scanD s
  let (mo, s) ← scanD (← scanByte (byte '-') s)
  let (d, s) ← scanD (← scanByte (byte '-') s)
  let (h, s) ← scanD (← scanByte (byte 'T') s)
  let (mi, s) ← scanD (← scanByte (byte ':') s)
  let (sec, _) ← scanLf (← scanByte (byte ':') s)
  return gregorianToJulianUtc y mo d h mi sec

/-- `skip_ws` -/
def skipWs (s : List UInt8) : List UInt8 := s.dropWhile fun c => c == byte ' ' || c == byte '\t'

/-- `rstrip` -/
def rstrip (s : List UInt8) : List UInt8 :=
  s.rdropWhile fun c => c == byte ' ' || c == byte '\t' || c == byte '\r' || c == byte '\n'

/-- `match_kv`: `none` where the key is another one, and the value where there is an equals sign. -/
def matchKv (line key : List UInt8) : Option (Option (List UInt8)) :=
  let p := skipWs line
  let rest := p.drop key.length
  if p.take key.length ≠ key then none
  else if rest ≠ [] ∧ rest.head? ≠ some (byte ' ') ∧ rest.head? ≠ some (byte '\t') ∧
      rest.head? ≠ some (byte '=') then none
  else some ((Search.strchr (byte '=') rest).map fun eq => skipWs eq.tail)

/-- A key with its value. -/
def valueOf (line : List UInt8) (key : String) : Option (List UInt8) := (matchKv line (text key)).join

inductive Mode
  | preMeta
  | inMeta
  | ephemeris
  | inCov
  | post
deriving DecidableEq

/-- A row of the ephemeris: `none` where it is none, and no time where its time is bad. -/
def scanRow (line : List UInt8) : Option (Option Sample) := do
  let (tstr, s) ← scanS 63 line
  let (x, s) ← scanLf s
  let (y, s) ← scanLf s
  let (z, s) ← scanLf s
  let (vx, s) ← scanLf s
  let (vy, s) ← scanLf s
  let (vz, _) ← scanLf s
  return (parseIso8601Utc tstr).map fun jul => ⟨jul, ![x, y, z], ![vx, vy, vz]⟩

/-- A line of the meta block. -/
def parseMeta (line : List UInt8) (out : Table) : Option (Mode × Table) :=
  if (matchKv line (text "META_STOP")).isSome then some (.ephemeris, out)
  else match valueOf line "OBJECT_NAME" with
  | some val => some (.inMeta, { out with objectName := val.take 63 })
  | none => match valueOf line "OBJECT_ID" with
  | some val => some (.inMeta, { out with objectId := val.take 63 })
  | none => match valueOf line "REF_FRAME" with
  | some val => some (.inMeta, { out with refFrame := val.take 31 })
  | none => match valueOf line "TIME_SYSTEM" with
  | some val => some (.inMeta, { out with timeSystem := val.take 15 })
  | none => match valueOf line "START_TIME" with
  | some val => (parseIso8601Utc val).map fun jul => (.inMeta, { out with startJulUtc := jul })
  | none => match valueOf line "STOP_TIME" with
  | some val => (parseIso8601Utc val).map fun jul => (.inMeta, { out with stopJulUtc := jul })
  | none => some (.inMeta, out)

/-- A line, as it stands in the text. -/
def parseLine (mode : Mode) (out : Table) (raw : List UInt8) : Option (Mode × Table) :=
  let line := rstrip (raw.take 1023)
  if skipWs line = [] then some (mode, out)
  else match mode with
  | .preMeta => some (if (matchKv line (text "META_START")).isSome then .inMeta else .preMeta, out)
  | .inMeta => parseMeta line out
  | .ephemeris =>
      if (matchKv line (text "COVARIANCE_START")).isSome then some (.inCov, out)
      else if (matchKv line (text "META_START")).isSome then none
      else match scanRow line with
      | none => some (.ephemeris, out)
      | some none => none
      | some (some s) => some (.ephemeris, { out with samples := out.samples ++ [s] })
  | .inCov => some (if (matchKv line (text "COVARIANCE_STOP")).isSome then .post else .inCov, out)
  | .post => some (.post, out)

/-- `oem_parse` -/
def oemParse (document : List UInt8) : Option Table := do
  let (_, out) ← ((cstr document).splitOn (byte '\n')).foldlM (fun (mode, out) raw => parseLine mode out raw)
    (Mode.preMeta, Table.zero)
  match out.samples with
  | first :: second :: rest =>
      let out := if out.startJulUtc = 0 then { out with startJulUtc := first.julUtc } else out
      let out := if out.stopJulUtc = 0 then
        { out with stopJulUtc := ((second :: rest).getLast (List.cons_ne_nil _ _)).julUtc } else out
      some out
  | _ => none

theorem two_le_of_oemParse {document : List UInt8} {t : Table} (h : oemParse document = some t) :
    2 ≤ t.samples.length := by
  obtain ⟨⟨mode, out⟩, -, hout⟩ := Option.bind_eq_some_iff.mp h
  dsimp only at hout
  split at hout
  · next first second rest hsamples =>
      have hlen : 2 ≤ out.samples.length := by
        rw [hsamples]
        exact Nat.le_add_left 2 rest.length
      rw [← Option.some.inj hout]
      split_ifs <;> exact hlen
  · cases hout

end SimpleSatOps.Oem
