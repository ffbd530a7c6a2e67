import Mathlib.Data.Nat.Digits.Lemmas
import SimpleSatOps.Lib.CText

/-!
# Decimal numbers

* `decimal`, `decimalInt` : an integer as `%d` prints it;
* `digitsValue` : the number a run of digits stands for;
* `atoi`, `atof` : the number at the start of a text;
* `digitsValue_decimal` : a printed number is read back;
* `head_decimal_ne` : no leading zero;
* `length_decimal_le`, `length_decimalInt_le`, `length_decimal_eq` : how long a printed number gets.
-/

namespace SimpleSatOps

def digitByte (d : ℕ) : UInt8 := UInt8.ofNat (0x30 + d)

/-- `"%u"`. -/
def decimal (n : ℕ) : List UInt8 := if n = 0 then [digitByte 0] else (Nat.digits 10 n).reverse.map digitByte

/-- `"%d"`, `"%ld"`, `"%lld"`. -/
def decimalInt (z : ℤ) : List UInt8 := if z < 0 then byte '-' :: decimal z.natAbs else decimal z.natAbs

/-- The number a run of digits stands for. -/
def digitsValue (s : List UInt8) : ℕ := s.foldl (fun n c => 10 * n + (c.toNat - 0x30)) 0

/-- The text behind an optional minus sign. -/
def afterSign (s : List UInt8) : List UInt8 := if s.head? = some (byte '-') then s.tail else s

/-- `atoi` of a text without white space or plus sign in front. -/
def atoi (s : List UInt8) : ℤ :=
  let n : ℤ := digitsValue ((afterSign s).takeWhile isDigit)
  if s.head? = some (byte '-') then -n else n

/-- `atof` of a text of digits, points and minus signs; exact, where `atof` rounds. -/
def atof (s : List UInt8) : ℚ :=
  let whole := (afterSign s).takeWhile isDigit
  let rest := (afterSign s).dropWhile isDigit
  let frac := if rest.head? = some (byte '.') then rest.tail.takeWhile isDigit else []
  let q : ℚ := digitsValue (whole ++ frac) / 10 ^ frac.length
  if s.head? = some (byte '-') then -q else q

/-! ## Reading back -/

theorem toNat_digitByte {d : ℕ} (h : d < 10) : (digitByte d).toNat = 0x30 + d := by
  unfold digitByte
  rw [UInt8.toNat_ofNat', Nat.mod_eq_of_lt (by omega)]

theorem isDigit_digitByte {d : ℕ} (h : d < 10) : isDigit (digitByte d) = true := by
  interval_cases d <;> rfl

theorem digitsValue_map_digitByte (ds : List ℕ) (h : ∀ d ∈ ds, d < 10) :
    digitsValue (ds.reverse.map digitByte) = Nat.ofDigits 10 ds := by
  unfold digitsValue
  induction ds with
  | nil => rfl
  | cons d ds ih =>
      rw [List.reverse_cons, List.map_append, List.foldl_append, ih fun x hx => h x (List.mem_cons_of_mem d hx),
        Nat.ofDigits_cons]
      simp only [List.map_cons, List.map_nil, List.foldl_cons, List.foldl_nil,
        toNat_digitByte (h d List.mem_cons_self)]
      omega

/-- A printed number is read back. -/
theorem digitsValue_decimal (n : ℕ) : digitsValue (decimal n) = n := by
  unfold decimal
  split_ifs with h
  · rw [h]
    rfl
  · rw [digitsValue_map_digitByte _ fun d hd => Nat.digits_lt_base (by decide) hd, Nat.ofDigits_digits]

theorem isDigit_of_mem_decimal {n : ℕ} {c : UInt8} (h : c ∈ decimal n) : isDigit c = true := by
  unfold decimal at h
  split_ifs at h
  · rw [List.mem_singleton.mp h]
    rfl
  · obtain ⟨d, hd, rfl⟩ := List.mem_map.mp h
    exact isDigit_digitByte (Nat.digits_lt_base (by decide) (List.mem_reverse.mp hd))

theorem decimal_ne_nil (n : ℕ) : decimal n ≠ [] := by
  unfold decimal
  split_ifs with h
  · exact List.cons_ne_nil _ _
  · simpa using Nat.digits_ne_nil_iff_ne_zero.mpr h

theorem digitsValue_append (s t : List UInt8) :
    digitsValue (s ++ t) = digitsValue s * 10 ^ t.length + digitsValue t := by
  unfold digitsValue
  rw [List.foldl_append]
  generalize s.foldl (fun n c => 10 * n + (c.toNat - 0x30)) 0 = k
  induction t using List.reverseRecOn with
  | nil => simp
  | append_singleton t c ih =>
      rw [List.foldl_append, List.foldl_append, ih, List.length_append]
      simp only [List.foldl_cons, List.foldl_nil, List.length_singleton, pow_succ]
      ring

theorem digitsValue_replicate_zero (k : ℕ) : digitsValue (List.replicate k (byte '0')) = 0 := by
  induction k with
  | zero => rfl
  | succ k ih =>
      rw [List.replicate_succ', digitsValue_append, ih, Nat.zero_mul]
      rfl

/-- A number that is not zero has no leading zero. -/
theorem head_decimal_ne {n : ℕ} (hn : n ≠ 0) : (decimal n).head? ≠ some (byte '0') := by
  rw [decimal, if_neg hn, List.head?_map, List.head?_reverse]
  have hne : Nat.digits 10 n ≠ [] := Nat.digits_ne_nil_iff_ne_zero.mpr hn
  rw [List.getLast?_eq_getLast_of_ne_nil hne]
  intro h
  have hlast := Nat.getLast_digit_ne_zero 10 hn
  have hlt : (Nat.digits 10 n).getLast hne < 10 := Nat.digits_lt_base (by decide) (List.getLast_mem hne)
  have hbyte := congrArg UInt8.toNat (Option.some.inj h)
  rw [toNat_digitByte hlt] at hbyte
  exact hlast (Nat.add_left_cancel hbyte)

/-! ## Length -/

theorem length_decimal_eq {n k : ℕ} (hlo : 10 ^ k ≤ n) (hhi : n < 10 ^ (k + 1)) : (decimal n).length = k + 1 := by
  have hn : n ≠ 0 := (Nat.lt_of_lt_of_le (Nat.pow_pos (by decide)) hlo).ne'
  rw [decimal, if_neg hn, List.length_map, List.length_reverse]
  apply le_antisymm
  · exact (Nat.digits_length_le_iff (by decide) n).mpr hhi
  · exact (Nat.lt_digits_length_iff (by decide) n).mpr hlo

theorem length_decimal_le {n k : ℕ} (h : n < 10 ^ (k + 1)) : (decimal n).length ≤ k + 1 := by
  unfold decimal
  split_ifs
  · exact Nat.succ_le_succ (Nat.zero_le k)
  · rw [List.length_map, List.length_reverse]
    exact (Nat.digits_length_le_iff (by decide) n).mpr h

theorem length_decimalInt_le {z : ℤ} {k : ℕ} (h : z.natAbs < 10 ^ (k + 1)) : (decimalInt z).length ≤ k + 2 := by
  have hlen := length_decimal_le h
  unfold decimalInt
  split_ifs
  · rw [List.length_cons]
    omega
  · omega

/-- A `long long` takes at most twenty characters. -/
theorem length_decimalInt_int64_le (z : Int64) : (decimalInt z.toInt).length ≤ 20 := by
  apply length_decimalInt_le (k := 18)
  have hlo := z.le_toInt
  have hhi := z.toInt_lt
  omega

end SimpleSatOps
