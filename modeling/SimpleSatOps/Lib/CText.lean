import Mathlib.Data.List.TakeWhile
import SimpleSatOps.Basic

/-!
# C texts

* `text` : the bytes of a literal;
* `cstr` : the string in a buffer; `cstr_append_nul` reads it back;
* `snprintf` : a formatted text cut to the size of a buffer;
* `isDigit`, `isAlnum`, `isXdigit`, `isCSpace` : the character classes of the C locale.
-/

namespace SimpleSatOps

/-- The bytes of an ASCII literal. -/
def text (s : String) : List UInt8 := s.toList.map fun c => UInt8.ofNat c.toNat

/-- An ASCII character. -/
def byte (c : Char) : UInt8 := UInt8.ofNat c.toNat

/-- A claim about the bytes of a text is decided on the text, not over all 256 bytes. -/
instance (priority := 1100) decidableForallByte {p : UInt8 → Prop} [DecidablePred p] (s : List UInt8) :
    Decidable (∀ c ∈ s, p c) :=
  List.decidableBAll p s

/-- The string in a buffer: what stands before the first NUL. -/
def cstr (buf : List UInt8) : List UInt8 := buf.takeWhile (· != 0)

/-- `snprintf(out, size, "%s", s)`: the string `out` holds afterwards. -/
def snprintf (size : ℕ) (s : List UInt8) : List UInt8 := s.take (size - 1)

/-- The lower-case hexadecimal digit of `d < 16`. -/
def hexDigit (d : ℕ) : UInt8 := if d < 10 then UInt8.ofNat (0x30 + d) else UInt8.ofNat (0x57 + d)

/-- `"%02x"`. -/
def hexByte (b : UInt8) : List UInt8 := [hexDigit (b.toNat / 16), hexDigit (b.toNat % 16)]

def isDigit (c : UInt8) : Bool := byte '0' ≤ c && c ≤ byte '9'

def isAlnum (c : UInt8) : Bool :=
  isDigit c || byte 'A' ≤ c && c ≤ byte 'Z' || byte 'a' ≤ c && c ≤ byte 'z'

def isXdigit (c : UInt8) : Bool :=
  isDigit c || byte 'A' ≤ c && c ≤ byte 'F' || byte 'a' ≤ c && c ≤ byte 'f'

def isCSpace (c : UInt8) : Bool := c == byte ' ' || byte '\t' ≤ c && c ≤ 0x0d

/-! ## The string in a buffer -/

theorem nul_not_mem_cstr (s : List UInt8) : 0 ∉ cstr s := by
  intro h
  have hne := List.mem_takeWhile_imp h
  exact absurd hne (by decide)

theorem cstr_of_not_mem {s : List UInt8} (h : 0 ∉ s) : cstr s = s := by
  apply List.takeWhile_eq_self_iff.mpr
  intro c hc
  rw [bne_iff_ne]
  rintro rfl
  exact h hc

/-- A NUL ends the string, the first one in the buffer. -/
theorem cstr_append_zero (s t : List UInt8) : cstr (s ++ 0 :: t) = cstr s := by
  unfold cstr
  induction s with
  | nil => rfl
  | cons c s ih =>
    rw [List.cons_append, List.takeWhile_cons, List.takeWhile_cons, ih]

theorem cstr_append_nul {s : List UInt8} (h : 0 ∉ s) (t : List UInt8) : cstr (s ++ 0 :: t) = s := by
  rw [cstr_append_zero, cstr_of_not_mem h]

end SimpleSatOps
