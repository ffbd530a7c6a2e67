import SimpleSatOps.Lib.Double
import SimpleSatOps.Lib.DoubleText
import SimpleSatOps.Lib.Search
import SimpleSatOps.Utils.CamJpeg

/-!
# Magnetic field vectors (`adcs_mag.c`)

* `Kind`, `Vec` : `adcs_mag_vec_t`;
* `findLong`, `adcsMagParse` : a vector in a JSON text;
* `telemBytes`, `adcsMagParseTelemHex` : a vector in a dump of hexadecimal bytes;
* `Token`, `Parted`, `telemBytes_tokens` : the bytes of a dump, and that they are read.
-/

namespace SimpleSatOps.AdcsMag
open Search

/-- `adcs_mag_kind_t` but `ADCS_MAG_NONE`, which goes with the result 0. -/
inductive Kind
  | nt | measurements | raw
deriving DecidableEq

/-- `adcs_mag_vec_t` -/
structure Vec where
  kind : Kind
  xNT : ℤ
  yNT : ℤ
  zNT : ℤ
deriving DecidableEq

/-! ## JSON -/

/-- `find_long` -/
def findLong (s key : List UInt8) : Option ℤ := do
  let p ← strstr key s
  let colon ← strchr (byte ':') (p.drop key.length)
  strtol ((colon.drop 1).dropWhile fun c => c == byte ' ' || c == byte '\t')

/-- The three numbers of one of the shapes. -/
def axes (kind : Kind) (kx ky kz s : List UInt8) : Option Vec := do
  let x ← findLong s kx
  let y ← findLong s ky
  let z ← findLong s kz
  some ⟨kind, x, y, z⟩

/-- `adcs_mag_parse` -/
def adcsMagParse (s : List UInt8) : Option Vec :=
  axes .measurements (text "\"magnetic_field_x_nT\"") (text "\"magnetic_field_y_nT\"")
      (text "\"magnetic_field_z_nT\"") s
    <|> axes .nt (text "\"x_nT\"") (text "\"y_nT\"") (text "\"z_nT\"") s
    <|> axes .raw (text "\"x\"") (text "\"y\"") (text "\"z\"") s

/-! ## Dumps -/

/-- `hexval`; `none` for -1. -/
def hexval (c : UInt8) : Option ℕ := CamJpeg.hexval c

/-- The white space of a dump. -/
def isGap (c : UInt8) : Bool := c == byte ' ' || c == byte '\t' || c == byte '\n' || c == byte '\r'

/-- The digit in front of the text. -/
def digit (s : List UInt8) : Option ℕ := s.head?.bind hexval

/-- The loop of `adcs_mag_parse_telem_hex`, with `n` bytes still to be read. -/
def telemBytes : (n : ℕ) → List UInt8 → Option (List UInt8)
  | 0, _ => some []
  | n + 1, s => do
      let s := s.dropWhile isGap
      let hi ← digit s
      let (val, s) := match digit s.tail with
        | some lo => (hi * 16 + lo, s.tail.tail)
        | none => (hi, s.tail)
      if (digit s).isSome then none
      else
        let b ← telemBytes n s
        some (UInt8.ofNat val :: b)

/-- `(int16_t)((hi << 8) | lo)` -/
def int16 (lo hi : UInt8) : ℤ := (256 * hi.toNat + lo.toNat : ℤ).bmod (2 ^ 16)

/-- The vector in six bytes. -/
def vecOfBytes (ntPerLsb : ℤ) : List UInt8 → Option Vec
  | [b₀, b₁, b₂, b₃, b₄, b₅] => some ⟨.nt, int16 b₀ b₁ * ntPerLsb, int16 b₂ b₃ * ntPerLsb, int16 b₄ b₅ * ntPerLsb⟩
  | _ => none

/-- `adcs_mag_parse_telem_hex` -/
def adcsMagParseTelemHex (body : List UInt8) (ntPerLsb : ℤ) : Option Vec :=
  (telemBytes 6 body).bind (vecOfBytes ntPerLsb)

/-! ## What is read of a dump -/

/-- A byte of a dump, with one digit or two, and the white space behind it. -/
structure Token where
  value : UInt8
  short : Bool
  gap : List UInt8
  short_lt : short = true → value.toNat < 16
  gap_blank : ∀ c ∈ gap, isGap c = true

def Token.digits (t : Token) : List UInt8 := if t.short then [hexDigit t.value.toNat] else hexByte t.value

def Token.text (t : Token) : List UInt8 := t.digits ++ t.gap

theorem hexval_hexDigit : ∀ d < 16, hexval (hexDigit d) = some d := by decide

theorem hexval_of_isGap {c : UInt8} (h : isGap c = true) : hexval c = none := by
  simp only [isGap, Bool.or_eq_true, beq_iff_eq] at h
  rcases h with ((rfl | rfl) | rfl) | rfl <;> decide

theorem isGap_hexDigit : ∀ d < 16, isGap (hexDigit d) = false := by decide

theorem dropWhile_gap {lead : List UInt8} (h : ∀ c ∈ lead, isGap c = true) (s : List UInt8) :
    (lead ++ s).dropWhile isGap = s.dropWhile isGap := List.dropWhile_append_of_pos h

/-- No digit stands behind a byte: there is white space, or the text goes on with something else. -/
theorem digit_gap (t : Token) {s : List UInt8} (h : t.gap ≠ [] ∨ digit s = none) : digit (t.gap ++ s) = none := by
  cases hgap : t.gap with
  | nil => exact h.resolve_left (not_not_intro hgap)
  | cons c gap => exact hexval_of_isGap (t.gap_blank c (hgap ▸ List.mem_cons_self))

theorem digit_take {s : List UInt8} (h : digit s = none) (n : ℕ) : digit (s.take n) = none := by
  cases s with
  | nil => rw [List.take_nil]; rfl
  | cons c s =>
      cases n with
      | zero => rfl
      | succ n => exact h

theorem digit_hexDigit {d : ℕ} (h : d < 16) (s : List UInt8) : digit (hexDigit d :: s) = some d := hexval_hexDigit d h

theorem dropWhile_hexDigit {d : ℕ} (h : d < 16) (s : List UInt8) :
    (hexDigit d :: s).dropWhile isGap = hexDigit d :: s := by
  rw [List.dropWhile_cons, isGap_hexDigit d h, if_neg Bool.false_ne_true]

/-- A token is read, with the white space in front of it. -/
theorem telemBytes_token (t : Token) {lead : List UInt8} (h : ∀ c ∈ lead, isGap c = true) (n : ℕ) {s : List UInt8}
    (hs : t.gap ≠ [] ∨ digit s = none) :
    telemBytes (n + 1) (lead ++ (t.text ++ s)) = (telemBytes n (t.gap ++ s)).map (t.value :: ·) := by
  rw [telemBytes, dropWhile_gap h, Token.text, List.append_assoc]
  unfold Token.digits
  have hend := digit_gap t hs
  by_cases hshort : t.short = true
  · have hlt := t.short_lt hshort
    rw [if_pos hshort, List.singleton_append]
    simp only [dropWhile_hexDigit hlt, digit_hexDigit hlt, List.tail_cons, hend, Option.isSome_none,
      Bool.false_eq_true, if_false, Option.bind_eq_bind, Option.bind_some, UInt8.ofNat_toNat]
    cases telemBytes n (t.gap ++ s) <;> rfl
  · have hbyte := UInt8.toNat_lt t.value
    have hhi : t.value.toNat / 16 < 16 := by omega
    have hlo : t.value.toNat % 16 < 16 := Nat.mod_lt _ (by decide)
    have hval : t.value.toNat / 16 * 16 + t.value.toNat % 16 = t.value.toNat := by omega
    rw [if_neg hshort, hexByte, List.cons_append, List.singleton_append]
    simp only [dropWhile_hexDigit hhi, digit_hexDigit hhi, digit_hexDigit hlo, List.tail_cons, hend,
      Option.isSome_none, Bool.false_eq_true, if_false, Option.bind_eq_bind, Option.bind_some, hval, UInt8.ofNat_toNat]
    cases telemBytes n (t.gap ++ s) <;> rfl

/-- No byte of a dump runs into what stands behind it. -/
def Parted (s : List UInt8) : List Token → Prop
  | [] => True
  | t :: toks => (t.gap ≠ [] ∨ digit (toks.flatMap Token.text ++ s) = none) ∧ Parted s toks

theorem parted_of_gaps {toks : List Token} (h : ∀ t ∈ toks, t.gap ≠ []) (s : List UInt8) : Parted s toks := by
  induction toks with
  | nil => trivial
  | cons t toks ih =>
      rw [List.forall_mem_cons] at h
      exact ⟨Or.inl h.1, ih h.2⟩

theorem parted_of_dropLast {toks : List Token} (h : ∀ t ∈ toks.dropLast, t.gap ≠ []) {s : List UInt8}
    (hs : digit s = none) : Parted s toks := by
  induction toks with
  | nil => trivial
  | cons t toks ih =>
      cases toks with
      | nil => exact ⟨Or.inr hs, trivial⟩
      | cons t' toks =>
          rw [List.dropLast_cons_cons, List.forall_mem_cons] at h
          exact ⟨Or.inl h.1, ih h.2⟩

/-- The first bytes of a dump are read, whatever is behind them. -/
theorem telemBytes_tokens {toks : List Token} {s : List UInt8} (hparted : Parted s toks) {lead : List UInt8}
    (h : ∀ c ∈ lead, isGap c = true) :
    telemBytes toks.length (lead ++ (toks.flatMap Token.text ++ s)) = some (toks.map Token.value) := by
  induction toks generalizing lead with
  | nil => rfl
  | cons t toks ih =>
      rw [List.flatMap_cons, List.append_assoc, List.length_cons, telemBytes_token t h _ hparted.1,
        ih hparted.2 t.gap_blank]
      rfl

/-- Where the digits end before there are enough of them nothing is read. -/
theorem telemBytes_short {toks : List Token} (hparted : Parted [] toks) {lead : List UInt8}
    (h : ∀ c ∈ lead, isGap c = true) {n : ℕ} (hn : toks.length < n) :
    telemBytes n (lead ++ toks.flatMap Token.text) = none := by
  induction toks generalizing lead n with
  | nil =>
      obtain ⟨n, rfl⟩ := Nat.exists_eq_succ_of_ne_zero (Nat.ne_of_gt hn)
      rw [telemBytes, dropWhile_gap h]
      rfl
  | cons t toks ih =>
      obtain ⟨n, rfl⟩ := Nat.exists_eq_succ_of_ne_zero (Nat.ne_of_gt (Nat.zero_lt_of_lt hn))
      have hhead := hparted.1
      rw [List.append_nil] at hhead
      rw [List.flatMap_cons, telemBytes_token t h n hhead, ih hparted.2 t.gap_blank (Nat.lt_of_succ_lt_succ hn)]
      rfl

end SimpleSatOps.AdcsMag
