import Mathlib.Algebra.Order.Floor.Semifield
import Mathlib.Data.Int.Log
import Mathlib.Data.List.DropRight
import SimpleSatOps.Lib.Decimal

/-!
# Binary64 numbers and their texts

* `Double` : sign, exponent field and fraction field;
* `Double.magnitude`, `Double.nearest` : the rational a number stands for, the number nearest to a rational;
* `Double.print` : `"%.6g"`;
* `strtod`, `strtol` : the number at the start of a text.
-/

namespace SimpleSatOps

/-- A number by the fields of its 64 bits. -/
structure Double where
  negative : Bool
  expo : Fin 2048
  frac : Fin (2 ^ 52)
deriving DecidableEq

instance neZero_expo : NeZero 2048 := ⟨by decide⟩

instance neZero_frac : NeZero (2 ^ 52) := ⟨by decide⟩

/-- `q ≥ 0` to the nearest integer, a tie to the even one. -/
def roundEven (q : ℚ) : ℕ :=
  let n := ⌊q⌋₊
  if q - n < 1 / 2 ∨ q - n = 1 / 2 ∧ n % 2 = 0 then n else n + 1

namespace Double

def zero : Double := ⟨false, 0, 0⟩

def minusOne : Double := ⟨true, 1023, 0⟩

def isNan (x : Double) : Bool := x.expo == 2047 && x.frac != 0

def isFinite (x : Double) : Bool := x.expo != 2047

/-- `x != 0.0` -/
def nonzero (x : Double) : Bool := x.expo != 0 || x.frac != 0

/-- `x > 0.0` -/
def isPos (x : Double) : Bool := !x.negative && x.nonzero && !x.isNan

/-- `x >= 0.0` -/
def isNonneg (x : Double) : Bool := !x.nonzero || x.isPos

/-- The absolute value of a finite number. -/
def magnitude (x : Double) : ℚ :=
  if x.expo = 0 then x.frac * 2 ^ (-1074 : ℤ) else (2 ^ 52 + x.frac) * 2 ^ ((x.expo : ℤ) - 1075)

/-- The number with the two fields side by side; infinity from the last exponent on. -/
def ofFields (negative : Bool) (i : ℕ) : Double :=
  if h : i / 2 ^ 52 < 2047 then ⟨negative, ⟨i / 2 ^ 52, by omega⟩, ⟨i % 2 ^ 52, by omega⟩⟩ else ⟨negative, 2047, 0⟩

/-- The exponent of the last bit of the numbers around `q > 0`. -/
def ulp (q : ℚ) : ℤ := max (Int.log 2 q - 52) (-1074)

/-- The number nearest to `q ≥ 0`, a tie to the even one. -/
def nearest (negative : Bool) (q : ℚ) : Double :=
  if q = 0 then ⟨negative, 0, 0⟩
  else ofFields negative ((ulp q + 1074).toNat * 2 ^ 52 + roundEven (q / 2 ^ ulp q))

/-! ## Printing -/

/-- The six leading digits of `q > 0` as a number from `10 ^ 5` on, and the exponent of the first one. -/
def sixDigits (q : ℚ) : ℕ × ℤ :=
  let x := Int.log 10 q
  let n := roundEven (q / 10 ^ (x - 5))
  if n = 10 ^ 6 then (10 ^ 5, x + 1) else (n, x)

/-- A fraction without the zeros at its end, behind its point. -/
def withFraction (whole frac : List UInt8) : List UInt8 :=
  let frac := frac.rdropWhile (· == byte '0')
  if frac = [] then whole else whole ++ byte '.' :: frac

/-- The exponent with its sign and two digits at least. -/
def printExpo (x : ℤ) : List UInt8 :=
  (if x < 0 then byte '-' else byte '+') ::
    (if x.natAbs < 10 then byte '0' :: decimal x.natAbs else decimal x.natAbs)

def printDigits (n : ℕ) (x : ℤ) : List UInt8 :=
  let ds := decimal n
  if x < -4 ∨ 6 ≤ x then withFraction (ds.take 1) (ds.drop 1) ++ byte 'e' :: printExpo x
  else if 0 ≤ x then withFraction (ds.take (x.toNat + 1)) (ds.drop (x.toNat + 1))
  else withFraction [byte '0'] (List.replicate (-x - 1).toNat (byte '0') ++ ds)

/-- The text without the sign. -/
def printMagnitude (x : Double) : List UInt8 :=
  if x.isNan then text "nan"
  else if !x.isFinite then text "inf"
  else if !x.nonzero then text "0"
  else printDigits (sixDigits x.magnitude).1 (sixDigits x.magnitude).2

/-- `"%.6g"`. -/
def print (x : Double) : List UInt8 := if x.negative then byte '-' :: x.printMagnitude else x.printMagnitude

/-! ## Reading -/

def toLower (c : UInt8) : UInt8 := if byte 'A' ≤ c ∧ c ≤ byte 'Z' then c + 0x20 else c

/-- Whether the text starts with the lower-case word `w`, in any case. -/
def startsWith (w s : List UInt8) : Bool := (s.take w.length).map toLower == w

/-- The value of a digit of either case. -/
def hexValue (c : UInt8) : ℕ :=
  if isDigit c then c.toNat - 0x30 else if byte 'a' ≤ c then c.toNat - 0x57 else c.toNat - 0x37

/-- A sign, and the text behind it. -/
def readSign (s : List UInt8) : Bool × List UInt8 :=
  match s with
  | [] => (false, [])
  | c :: t => if c = byte '-' then (true, t) else if c = byte '+' then (false, t) else (false, s)

/-- The exponent behind one of the letters; 0 when there is none. -/
def readExpo (letters s : List UInt8) : ℤ :=
  match s with
  | [] => 0
  | c :: t =>
      let n : ℤ := digitsValue ((readSign t).2.takeWhile isDigit)
      if c ∈ letters then if (readSign t).1 then -n else n else 0

/-- Digits with a point among them, and an exponent: `base` for a digit's place, `expoBase` for the exponent. -/
def readNumeral (isD : UInt8 → Bool) (base expoBase : ℕ) (letters s : List UInt8) : Option ℚ :=
  let whole := s.takeWhile isD
  let rest := s.dropWhile isD
  let point := rest.head? = some (byte '.')
  let frac := if point then rest.tail.takeWhile isD else []
  let rest := if point then rest.tail.dropWhile isD else rest
  if whole ++ frac = [] then none
  else
    let n : ℕ := (whole ++ frac).foldl (fun n c => base * n + hexValue c) 0
    some (n * (base : ℚ) ^ (-(frac.length : ℤ)) * (expoBase : ℚ) ^ readExpo letters rest)

/-- A text without its sign. -/
def readMagnitude (negative : Bool) (s : List UInt8) : Option Double :=
  if startsWith (text "inf") s then some ⟨negative, 2047, 0⟩
  else if startsWith (text "nan") s then some ⟨negative, 2047, 2 ^ 51⟩
  else if startsWith (text "0x") s ∧ (readNumeral isXdigit 16 2 (text "pP") (s.drop 2)).isSome then
    (readNumeral isXdigit 16 2 (text "pP") (s.drop 2)).map (Double.nearest negative)
  else (readNumeral isDigit 10 10 (text "eE") s).map (Double.nearest negative)

end Double

/-- `strtod`; `none` where it converts nothing. -/
def strtod (s : List UInt8) : Option Double :=
  let st := Double.readSign (s.dropWhile isCSpace)
  Double.readMagnitude st.1 st.2

/-- `strtol` in base ten; `none` where it converts nothing, and the nearest `long` where it overflows. -/
def strtol (s : List UInt8) : Option ℤ :=
  let st := Double.readSign (s.dropWhile isCSpace)
  let ds := st.2.takeWhile isDigit
  let z : ℤ := if st.1 then -digitsValue ds else digitsValue ds
  if ds = [] then none else some (max (-2 ^ 63) (min z (2 ^ 63 - 1)))

end SimpleSatOps
