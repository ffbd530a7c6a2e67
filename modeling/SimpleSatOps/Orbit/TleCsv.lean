import SimpleSatOps.Lib.Calendar
import SimpleSatOps.Lib.ExactDecimal
import SimpleSatOps.Lib.Lines
import SimpleSatOps.Lib.Scanf
import SimpleSatOps.Lib.Utc

/-!
# Element sets from CSV rows (`tle_csv.c`)

Numbers are exact: a column stands for the rational that is written in it.

* `Column`, `csvNext`, `buildHeaderMap`, `rowOf` : the columns of a row;
* `formatIdesg`, `formatEpoch`, `formatMdot`, `formatDecexp`, `formatEcc` : the formatters;
* `tleChecksum`, `buildLines`, `looksValidTle` : the two lines;
* `convertRow`, `convertFile` : a row, a file.
-/

namespace SimpleSatOps.TleCsv

/-! ## Rows -/

/-- `field_id_t`. -/
inductive Column
  | objectName | objectId | epoch | meanMotion | eccentricity | inclination | raOfAscNode | argOfPericenter
  | meanAnomaly | ephemerisType | classificationType | noradCatId | elementSetNo | revAtEpoch | bstar | meanMotionDot
  | meanMotionDdot
deriving DecidableEq

namespace Column

def all : List Column :=
  [objectName, objectId, epoch, meanMotion, eccentricity, inclination, raOfAscNode, argOfPericenter, meanAnomaly,
    ephemerisType, classificationType, noradCatId, elementSetNo, revAtEpoch, bstar, meanMotionDot, meanMotionDdot]

/-- `FIELD_NAMES`. -/
def name : Column → String
  | objectName => "OBJECT_NAME"
  | objectId => "OBJECT_ID"
  | epoch => "EPOCH"
  | meanMotion => "MEAN_MOTION"
  | eccentricity => "ECCENTRICITY"
  | inclination => "INCLINATION"
  | raOfAscNode => "RA_OF_ASC_NODE"
  | argOfPericenter => "ARG_OF_PERICENTER"
  | meanAnomaly => "MEAN_ANOMALY"
  | ephemerisType => "EPHEMERIS_TYPE"
  | classificationType => "CLASSIFICATION_TYPE"
  | noradCatId => "NORAD_CAT_ID"
  | elementSetNo => "ELEMENT_SET_NO"
  | revAtEpoch => "REV_AT_EPOCH"
  | bstar => "BSTAR"
  | meanMotionDot => "MEAN_MOTION_DOT"
  | meanMotionDdot => "MEAN_MOTION_DDOT"

end Column

def isBlank (c : UInt8) : Bool := c == byte ' ' || c == byte '\t'

def isNewline (c : UInt8) : Bool := c == byte '\n' || c == byte '\r'

/-- The text behind an opening quote up to the closing one, and what comes behind that. -/
def quotedField : List UInt8 → List UInt8 × List UInt8
  | [] => ([], [])
  | [c] => if c = byte '"' then ([], []) else ([c], [])
  | c :: d :: s =>
      if c = byte '"' then
        if d = byte '"' then (byte '"' :: (quotedField s).1, (quotedField s).2) else ([], d :: s)
      else (c :: (quotedField (d :: s)).1, (quotedField (d :: s)).2)

/-- `csv_next` into `cap` bytes: the field, and `*p` behind it. -/
def csvNext (cap : ℕ) : List UInt8 → Option (List UInt8 × List UInt8)
  | [] => none
  | c :: s =>
      if isNewline c then none
      else
        let raw :=
          if c = byte '"' then quotedField s
          else
            let inside := fun c => !(c == byte ',' || isNewline c)
            ((c :: s).takeWhile inside, (c :: s).dropWhile inside)
        some ((raw.1.take (cap - 1)).rdropWhile isBlank, if raw.2.head? = some (byte ',') then raw.2.tail else raw.2)

/-- At most `n` fields. -/
def fields (cap : ℕ) : ℕ → List UInt8 → List (List UInt8)
  | 0, _ => []
  | n + 1, p =>
      match csvNext cap p with
      | none => []
      | some (field, p) => field :: fields cap n p

/-- `strcasecmp(..) == 0`. -/
def sameName (s t : List UInt8) : Bool := s.map Double.toLower == t.map Double.toLower

/-- `build_header_map`: the place of every column, and `n_cols`. Every field takes a byte. -/
def buildHeaderMap (header : List UInt8) : Option ((Column → ℕ) × ℕ) :=
  let cols := fields 64 header.length header
  let map := cols.zipIdx.foldl (fun map col =>
    match Column.all.find? fun c => sameName col.1 (text c.name) with
    | some c => Function.update map c (some col.2)
    | none => map) fun _ => none
  if Column.all.all fun c => (map c).isSome then some (fun c => (map c).getD 0, cols.length) else none

/-- The columns of a row, `none` if there are too few. -/
def rowOf (header : (Column → ℕ) × ℕ) (line : List UInt8) : Option (Column → List UInt8) :=
  let cols := fields 96 64 line
  if cols.length < header.2 then none else some fun c => cols.getD (header.1 c) []

/-! ## Formatters -/

def isLetter (c : UInt8) : Bool := byte 'A' ≤ c && c ≤ byte 'Z' || byte 'a' ≤ c && c ≤ byte 'z'

/-- `format_idesg`. -/
def formatIdesg (objId : List UInt8) : List UInt8 :=
  let scanned := do
    let (yy, s) ← scanD objId
    let s ← scanByte (byte '-') s
    let (launch, s) ← scanD s
    some (yy, launch, (s.takeWhile isLetter).take 3)
  match scanned with
  | some (yy, launch, piece) =>
      snprintf 9 (zeroPadInt 2 (yy.tmod 100) ++ zeroPadInt 3 launch ++ padRight 3 piece)
  | none => padRight 8 []

/-- The numbers of an epoch, and all digits behind the point of the seconds. -/
structure Epoch where
  year : ℤ
  mon : ℤ
  mday : ℤ
  hh : ℤ
  mm : ℤ
  ss : ℤ
  frac : List UInt8
deriving DecidableEq

/-- The `sscanf` of `format_epoch`; without the six numbers there is no epoch. -/
def scanEpoch (iso : List UInt8) : Option Epoch := do
  let (year, s) ← scanD iso
  let s ← scanByte (byte '-') s
  let (mon, s) ← scanD s
  let s ← scanByte (byte '-') s
  let (mday, s) ← scanD s
  let s ← scanByte (byte 'T') s
  let (hh, s) ← scanD s
  let s ← scanByte (byte ':') s
  let (mm, s) ← scanD s
  let s ← scanByte (byte ':') s
  let (ss, s) ← scanD s
  some ⟨year, mon, mday, hh, mm, ss, ((scanByte (byte '.') s).getD []).takeWhile isDigit⟩

namespace Epoch
variable (e : Epoch)

/-- The day of the date. -/
def date : ℤ := dayNumber e.year (e.mon - 1) e.mday

/-- The `tm_yday` that `timegm` leaves for the date; no midnight is the `time_t` -1. -/
def tmYday : ℤ := e.date - daysBefore (yearOf e.date)

/-- The seconds of the day, with some digits behind the point. -/
def seconds (frac : List UInt8) : ℚ := e.hh * 3600 + e.mm * 60 + e.ss + digitsValue frac / 10 ^ frac.length

/-- `full`: the day of the year, with the fifteen digits that are read. -/
def full : ℚ := (e.tmYday + 1 : ℤ) + e.seconds (e.frac.take 15) / 86400

end Epoch

/-- `format_epoch`. -/
def formatEpoch (iso : List UInt8) : Option (List UInt8) :=
  (scanEpoch iso).bind fun e =>
    let w := zeroPadInt 2 (e.year.tmod 100) ++ printZeroFixed 12 8 e.full
    if w.length ≠ 14 then none else some w

/-- `format_mdot`. -/
def formatMdot (v : ℚ) : List UInt8 :=
  let frac := min (roundAway (|v| * 10 ^ 8)) 99999999
  (if v < 0 then byte '-' else byte ' ') :: byte '.' :: zeroPad 8 frac

/-- The loop that makes a number larger, at most `n` times. -/
def scaleUp : ℕ → ℚ → ℤ → ℚ × ℤ
  | 0, a, exp => (a, exp)
  | n + 1, a, exp => if a < 1 / 10 then scaleUp n (a * 10) (exp - 1) else (a, exp)

/-- The loop that makes a number smaller, at most `n` times. -/
def scaleDown : ℕ → ℚ → ℤ → ℚ × ℤ
  | 0, a, exp => (a, exp)
  | n + 1, a, exp => if 1 ≤ a then scaleDown n (a / 10) (exp + 1) else (a, exp)

/-- `format_decexp`; the loops end when the exponent passes 20. -/
def formatDecexp (v : ℚ) : List UInt8 :=
  if v = 0 then text " 00000+0"
  else
    let sign := if v < 0 then byte '-' else byte ' '
    let (a, exp) := scaleUp 21 |v| 0
    let (a, exp) := scaleDown 21 a exp
    let mantissa := roundAway (a * 100000)
    let (mantissa, exp) := if 100000 ≤ mantissa then (mantissa / 10, exp + 1) else (mantissa, exp)
    let (mantissa, exp) := if 9 < exp then (99999, 9) else (mantissa, exp)
    if exp < -9 then sign :: text "00000+0"
    else
      (sign :: (zeroPad 5 mantissa ++ (if exp < 0 then byte '-' else byte '+') :: decimal exp.natAbs)).take 8

/-- `format_ecc`. -/
def formatEcc (e : ℚ) : List UInt8 :=
  (zeroPad 7 (if e < 0 then 0 else min (roundAway (e * 10 ^ 7)) 9999999)).take 7

/-- What a character counts in a checksum. -/
def weight (c : UInt8) : ℕ := if isDigit c then c.toNat - 0x30 else if c = byte '-' then 1 else 0

/-- `tle_checksum`. -/
def tleChecksum (line : List UInt8) : ℕ := ((line.take 68).map weight).sum % 10

/-- `"%w.kf"`, of which `w` characters are kept. -/
def fixedColumn (w k : ℕ) (x : ℚ) : List UInt8 := (padLeft w (printFixedExact k x)).take w

/-- `"%wd"`, of which `w` characters are kept. -/
def intColumn (w : ℕ) (z : ℤ) : List UInt8 := (padLeft w (decimalInt z)).take w

/-- The catalog number in five columns. -/
def noradColumn (norad : ℤ) : List UInt8 := (zeroPadInt 5 (norad.tmod 100000)).take 5

/-- The classification, a letter in any case. -/
def classLetter (classification : UInt8) : UInt8 :=
  if isLetter classification then
    if byte 'a' ≤ classification then classification - 0x20 else classification
  else byte 'U'

/-! ## Lines -/

/-- The numbers of a row. -/
structure Elements where
  norad : ℤ
  classification : UInt8
  objectId : List UInt8
  epoch : List UInt8
  bstar : ℚ
  mdot : ℚ
  mddot : ℚ
  elementSetNo : ℤ
  inclination : ℚ
  raan : ℚ
  eccentricity : ℚ
  omega : ℚ
  meanAnomaly : ℚ
  meanMotion : ℚ
  revAtEpoch : ℤ

/-- A line and its checksum. -/
def closeLine (line : List UInt8) : List UInt8 := line ++ [digitByte (tleChecksum line)]

/-- The first line with its epoch. -/
def Elements.line1 (e : Elements) (ep : List UInt8) : List UInt8 :=
  closeLine (List.flatten
    [text "1 ", noradColumn e.norad, [classLetter e.classification, byte ' '], formatIdesg e.objectId, text " ", ep,
      text " ", formatMdot e.mdot, text " ", formatDecexp e.mddot, text " ", formatDecexp e.bstar, text " 0 ",
      intColumn 4 e.elementSetNo])

def Elements.line2 (e : Elements) : List UInt8 :=
  closeLine (List.flatten
    [text "2 ", noradColumn e.norad, text " ", fixedColumn 8 4 e.inclination, text " ", fixedColumn 8 4 e.raan,
      text " ", formatEcc e.eccentricity, text " ", fixedColumn 8 4 e.omega, text " ",
      fixedColumn 8 4 e.meanAnomaly, text " ", fixedColumn 11 8 e.meanMotion, intColumn 5 e.revAtEpoch])

/-- `build_lines`. -/
def buildLines (e : Elements) : Option (List UInt8 × List UInt8) :=
  (formatEpoch e.epoch).map fun ep => (e.line1 ep, e.line2)

/-- `looks_valid_tle`. -/
def looksValidTle (line1 line2 : List UInt8) : Bool :=
  line1.getD 0 0 == byte '1' && line2.getD 0 0 == byte '2' &&
    (line1.getD 23 0 == byte '.' && line1.getD 34 0 == byte '.') &&
    (line2.getD 11 0 == byte '.' && line2.getD 20 0 == byte '.') &&
    (line2.getD 37 0 == byte '.' && line2.getD 46 0 == byte '.') &&
    line2.getD 54 0 == byte '.' && slice line1 61 3 == text " 0 " && slice line1 2 5 == slice line2 2 5

/-! ## Conversion -/

/-- One element set of the output. -/
structure Tle where
  name : List UInt8
  line1 : List UInt8
  line2 : List UInt8
deriving DecidableEq

/-- What the columns of a row stand for. -/
def elementsOf (row : Column → List UInt8) : Elements where
  norad := atoiInt (row .noradCatId)
  classification := (row .classificationType).head?.getD (byte 'U')
  objectId := row .objectId
  epoch := row .epoch
  bstar := realValue (row .bstar)
  mdot := realValue (row .meanMotionDot)
  mddot := realValue (row .meanMotionDdot)
  elementSetNo := atoiInt (row .elementSetNo)
  inclination := realValue (row .inclination)
  raan := realValue (row .raOfAscNode)
  eccentricity := realValue (row .eccentricity)
  omega := realValue (row .argOfPericenter)
  meanAnomaly := realValue (row .meanAnomaly)
  meanMotion := realValue (row .meanMotion)
  revAtEpoch := atoiInt (row .revAtEpoch)

/-- A row; `none` if it is skipped. -/
def convertRow (row : Column → List UInt8) : Option Tle :=
  (buildLines (elementsOf row)).bind fun (line1, line2) =>
    if looksValidTle line1 line2 then some ⟨padRight 24 ((row .objectName).take 24), line1, line2⟩ else none

/-- What `convert_file` has read and written so far. -/
structure Conversion where
  header : Option ((Column → ℕ) × ℕ)
  written : List Tle
  rowsSkipped : ℕ

/-- One line; `none` for a header with a column missing. -/
def Conversion.line (c : Conversion) (line : List UInt8) : Option Conversion :=
  let line := (cstr line).rdropWhile isNewline
  if line.dropWhile isBlank = [] then some c
  else
    match c.header with
    | none => (buildHeaderMap line).map fun header => { c with header := some header }
    | some header =>
        match (rowOf header line).bind convertRow with
        | none => some { c with rowsSkipped := c.rowsSkipped + 1 }
        | some tle => some { c with written := c.written ++ [tle] }

/-- `convert_file`: the element sets that are written, `none` for -1. -/
def convertFile (csv : List UInt8) : Option (List Tle) :=
  ((Lines.readLines (· == byte '\n') 4095 csv).foldlM Conversion.line ⟨none, [], 0⟩).bind fun c =>
    if c.written = [] then none else some c.written

end SimpleSatOps.TleCsv
