import SimpleSatOps.Lib.Double

/-!
# Scanning a text

* `scanD`, `scanLf`, `scanS`, `scanByte` : the conversions `%d`, `%lf`, `%s` and a character of the format, with the
  text that is left.

A conversion that does not match is `none`. Numbers are exact; infinities and NaNs are no such numbers, and are not
read.
-/

namespace SimpleSatOps

/-- `%d`: the nearest `long`, cut to an `int`. -/
def scanD (s : List UInt8) : Option (ℤ × List UInt8) :=
  let st := Double.readSign (s.dropWhile isCSpace)
  let ds := st.2.takeWhile isDigit
  let z : ℤ := if st.1 then -digitsValue ds else digitsValue ds
  if ds = [] then none else some ((max (-2 ^ 63) (min z (2 ^ 63 - 1))).bmod (2 ^ 32), st.2.dropWhile isDigit)

/-- The exponent behind one of the letters; 0 when there is none, and no match when there is only the letter. -/
def scanExpo (letters s : List UInt8) : Option (ℤ × List UInt8) :=
  match s with
  | [] => some (0, [])
  | c :: t =>
      let st := Double.readSign t
      let ds := st.2.takeWhile isDigit
      let x : ℤ := if st.1 then -digitsValue ds else digitsValue ds
      if c ∈ letters then if ds = [] then none else some (x, st.2.dropWhile isDigit) else some (0, s)

/-- Digits with a point among them, and an exponent. -/
def scanNumeral (isD : UInt8 → Bool) (base expoBase : ℕ) (letters s : List UInt8) : Option (ℚ × List UInt8) :=
  let whole := s.takeWhile isD
  let rest := s.dropWhile isD
  let point := rest.head? = some (byte '.')
  let frac := if point then rest.tail.takeWhile isD else []
  let rest := if point then rest.tail.dropWhile isD else rest
  let n : ℕ := (whole ++ frac).foldl (fun n c => base * n + Double.hexValue c) 0
  if whole ++ frac = [] then none
  else (scanExpo letters rest).map fun (x, rest) =>
    (n * (base : ℚ) ^ (-(frac.length : ℤ)) * (expoBase : ℚ) ^ x, rest)

/-- `%lf` -/
def scanLf (s : List UInt8) : Option (ℚ × List UInt8) :=
  let st := Double.readSign (s.dropWhile isCSpace)
  let numeral :=
    if Double.startsWith (text "0x") st.2 then scanNumeral isXdigit 16 2 (text "pP") (st.2.drop 2)
    else scanNumeral isDigit 10 10 (text "eE") st.2
  numeral.map fun (q, rest) => (if st.1 then -q else q, rest)

/-- `%s` with a width. -/
def scanS (width : ℕ) (s : List UInt8) : Option (List UInt8 × List UInt8) :=
  let s := s.dropWhile isCSpace
  let w := (s.takeWhile (!isCSpace ·)).take width
  if w = [] then none else some (w, s.drop w.length)

/-- A character of the format other than white space. -/
def scanByte (c : UInt8) (s : List UInt8) : Option (List UInt8) :=
  if s.head? = some c then some s.tail else none

end SimpleSatOps
