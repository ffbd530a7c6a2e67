import Mathlib.Data.List.GetD
import SimpleSatOps.Lib.Strtod
import SimpleSatOps.Orbit.TleCsv

/-!
# The columns of an element set

For every formatter: how wide its column is, and what is read from it.

* `intValue_intColumn`, `intValue_noradColumn` : integers that are not too wide;
* `fixedColumn_spec`, `fixedColumn_wide` : numbers with a point;
* `printZeroFixed_spec`, `formatMdot_spec`, `formatEcc_spec` : the epoch and the two numbers without a whole part;
* `readDecexp`, `formatDecexp_spec` : numbers with an exponent.
-/

namespace SimpleSatOps.TleCsv

/-! ## Integers -/

theorem le_length_zeroPad (w n : ℕ) : w ≤ (zeroPad w n).length := by
  rw [zeroPad, List.length_append, List.length_replicate]
  omega

theorem length_padLeft (w : ℕ) (s : List UInt8) : (padLeft w s).length = max w s.length := by
  rw [padLeft, List.length_append, List.length_replicate]
  omega

theorem length_intColumn (w : ℕ) (z : ℤ) : (intColumn w z).length = w := by
  rw [intColumn, List.length_take, length_padLeft]
  omega

theorem decimalInt_of_nonneg {z : ℤ} (h : 0 ≤ z) : decimalInt z = decimal z.toNat := by
  have habs : z.natAbs = z.toNat := by omega
  rw [decimalInt, if_neg (Int.not_lt.mpr h), habs]

theorem intValue_intColumn {w : ℕ} {z : ℤ} (hz : 0 ≤ z) (hlt : z < 10 ^ (w + 1)) :
    intValue (intColumn (w + 1) z) = z := by
  have hnat : z.toNat < 10 ^ (w + 1) := by
    zify
    rwa [Int.toNat_of_nonneg hz]
  have hlen := length_decimal_le hnat
  have hall : (padLeft (w + 1) (decimal z.toNat)).length ≤ w + 1 := by
    rw [length_padLeft]
    omega
  rw [intColumn, decimalInt_of_nonneg hz, List.take_of_length_le hall, intValue_padLeft,
    intValue_digits (digits_decimal _), digitsValue_decimal, Int.toNat_of_nonneg hz]

theorem length_noradColumn (z : ℤ) : (noradColumn z).length = 5 := by
  have hlen : 5 ≤ (zeroPadInt 5 (z.tmod 100000)).length := by
    unfold zeroPadInt
    split_ifs
    · rw [List.length_cons]
      exact Nat.succ_le_succ (le_length_zeroPad 4 _)
    · exact le_length_zeroPad 5 _
  rw [noradColumn, List.length_take]
  omega

theorem intValue_noradColumn {z : ℤ} (hz : 0 ≤ z) (hlt : z < 100000) : intValue (noradColumn z) = z := by
  have hdigits : Json.Digits (zeroPad 5 z.natAbs) := by
    refine ⟨?_, fun _ => isDigit_of_mem_zeroPad⟩
    rw [zeroPad]
    exact List.append_ne_nil_of_right_ne_nil _ (decimal_ne_nil _)
  have hlen : (zeroPad 5 z.natAbs).length ≤ 5 := length_zeroPad_le (by omega) (by omega)
  rw [noradColumn, Int.tmod_eq_of_lt hz hlt, zeroPadInt, if_neg (by omega), List.take_of_length_le hlen,
    intValue_digits hdigits, digitsValue_zeroPad]
  omega

/-! ## Numbers with a point -/

/-- The digits of a number over a power of ten. -/
theorem digitsValue_fixedDigits {k : ℕ} (hk : 0 < k) (r : ℕ) :
    digitsValue (decimal (r / 10 ^ k) ++ zeroPad k (r % 10 ^ k)) = r ∧ (zeroPad k (r % 10 ^ k)).length = k := by
  have hlen := length_zeroPad hk (Nat.mod_lt r (Nat.pow_pos (n := k) (by decide : 0 < 10)))
  rw [digitsValue_fixed, hlen, Nat.div_add_mod']
  exact ⟨rfl, rfl⟩

theorem magnitudeValue_zeros {k : ℕ} (hk : 0 < k) (n r : ℕ) :
    magnitudeValue (List.replicate n (byte '0') ++ fixedDigits k r) = (r : ℚ) / 10 ^ k := by
  obtain ⟨hvalue, hlen⟩ := digitsValue_fixedDigits hk r
  have hzero : isDigit (byte '0') = true := by decide
  have hwhole : ∀ c ∈ List.replicate n (byte '0') ++ decimal (r / 10 ^ k), isDigit c = true := by
    rw [List.forall_mem_append]
    exact ⟨fun c hc => List.eq_of_mem_replicate hc ▸ hzero, fun c => isDigit_of_mem_decimal⟩
  have hne : List.replicate n (byte '0') ++ decimal (r / 10 ^ k) ++ zeroPad k (r % 10 ^ k) ≠ [] := by
    simp [decimal_ne_nil]
  rw [fixedDigits, ← List.append_assoc,
    magnitudeValue_point hwhole (fun c => isDigit_of_mem_zeroPad) hne, hlen, List.append_assoc, digitsValue_append,
    digitsValue_replicate_zero, Nat.zero_mul, Nat.zero_add, hvalue]

theorem realValue_zeros {k : ℕ} (hk : 0 < k) (n r : ℕ) :
    realValue (List.replicate n (byte '0') ++ fixedDigits k r) = (r : ℚ) / 10 ^ k := by
  rw [← magnitudeValue_zeros hk n r]
  cases n with
  | zero =>
      obtain ⟨c, t, heq⟩ := List.exists_cons_of_ne_nil (decimal_ne_nil (r / 10 ^ k))
      have hc : isDigit c = true := isDigit_of_mem_decimal (heq ▸ List.mem_cons_self)
      rw [List.replicate_zero, List.nil_append, fixedDigits, heq]
      exact realValue_unsigned (isCSpace_of_isDigit hc) (ne_of_isDigit hc (by decide)) (ne_of_isDigit hc (by decide)) _
  | succ n =>
      rw [List.replicate_succ, List.cons_append]
      exact realValue_unsigned (by decide) (by decide) (by decide) _

/-- Half a unit of the last digit. -/
theorem abs_div_sub_le {x : ℚ} {k r : ℕ} (h : |(r : ℚ) - x * 10 ^ k| ≤ 1 / 2) :
    |(r : ℚ) / 10 ^ k - x| ≤ 1 / 2 / 10 ^ k := by
  have hpow : (0 : ℚ) < 10 ^ k := by positivity
  have hsub : (r : ℚ) / 10 ^ k - x = (r - x * 10 ^ k) / 10 ^ k := by field_simp
  rw [hsub, abs_div, abs_of_pos hpow]
  exact div_le_div_of_nonneg_right h hpow.le

/-- A number whose whole part fits into its columns. -/
theorem fixedColumn_spec {m k : ℕ} (hk : 0 < k) {x : ℚ} (hx : 0 ≤ x)
    (hfit : roundEven (x * 10 ^ k) / 10 ^ k < 10 ^ (m + 1)) :
    (fixedColumn (m + 1 + (1 + k)) k x).length = m + 1 + (1 + k) ∧
      (fixedColumn (m + 1 + (1 + k)) k x).getD (m + 1) 0 = byte '.' ∧
      |realValue (fixedColumn (m + 1 + (1 + k)) k x) - x| ≤ 1 / 2 / 10 ^ k := by
  set r := roundEven (x * 10 ^ k) with hr
  have hlen := length_decimal_le hfit
  obtain ⟨-, hfrac⟩ := digitsValue_fixedDigits hk r
  have hprint : printFixedExact k x = fixedDigits k r := by
    rw [printFixedExact, minusText, if_neg (not_lt.mpr hx), abs_of_nonneg hx, List.nil_append]
  have hdigits : (fixedDigits k r).length = (decimal (r / 10 ^ k)).length + (1 + k) := by
    rw [fixedDigits, List.length_append, List.length_cons, hfrac]
    omega
  have hcolumn : fixedColumn (m + 1 + (1 + k)) k x = padLeft (m + 1 + (1 + k)) (fixedDigits k r) := by
    rw [fixedColumn, hprint]
    refine List.take_of_length_le ?_
    rw [length_padLeft]
    omega
  have hsplit : padLeft (m + 1 + (1 + k)) (fixedDigits k r) =
      padLeft (m + 1) (decimal (r / 10 ^ k)) ++ byte '.' :: zeroPad k (r % 10 ^ k) := by
    have hspaces : m + 1 + (1 + k) - (fixedDigits k r).length = m + 1 - (decimal (r / 10 ^ k)).length := by omega
    rw [padLeft, hspaces, fixedDigits, padLeft, List.append_assoc]
  have hfront : (padLeft (m + 1) (decimal (r / 10 ^ k))).length = m + 1 := by
    rw [length_padLeft]
    omega
  refine ⟨?_, ?_, ?_⟩
  · rw [hcolumn, length_padLeft]
    omega
  · rw [hcolumn, hsplit, List.getD_append_right _ _ _ _ hfront.le, hfront, Nat.sub_self]
    rfl
  · have hmul : 0 ≤ x * 10 ^ k := by positivity
    have hread := realValue_zeros hk 0 r
    rw [List.replicate_zero, List.nil_append] at hread
    rw [hcolumn, realValue_padLeft, hread]
    exact abs_div_sub_le (abs_roundEven_sub_le hmul)

theorem le_length_decimal {n k : ℕ} (h : 10 ^ k ≤ n) : k + 1 ≤ (decimal n).length := by
  have hlt := digitsValue_lt (decimal n) fun c => isDigit_of_mem_decimal
  rw [digitsValue_decimal] at hlt
  exact (Nat.pow_lt_pow_iff_right (by decide)).mp (h.trans_lt hlt)

/-- A number whose whole part does not fit shows a digit in the column of the point. -/
theorem fixedColumn_wide {m k : ℕ} (hk : 0 < k) {x : ℚ} (hx : 0 ≤ x)
    (hwide : 10 ^ m ≤ roundEven (x * 10 ^ k) / 10 ^ k) : (fixedColumn (m + (1 + k)) k x).getD m 0 ≠ byte '.' := by
  set r := roundEven (x * 10 ^ k) with hr
  have hlen := le_length_decimal hwide
  obtain ⟨-, hfrac⟩ := digitsValue_fixedDigits hk r
  have hprint : printFixedExact k x = fixedDigits k r := by
    rw [printFixedExact, minusText, if_neg (not_lt.mpr hx), abs_of_nonneg hx, List.nil_append]
  have hspaces : m + (1 + k) - (fixedDigits k r).length = 0 := by
    rw [fixedDigits, List.length_append, List.length_cons, hfrac]
    omega
  have hget : (fixedColumn (m + (1 + k)) k x).getD m 0 = (decimal (r / 10 ^ k)).getD m 0 := by
    rw [fixedColumn, hprint, padLeft, hspaces, List.replicate_zero, List.nil_append, List.getD_eq_getElem?_getD,
      List.getElem?_take_of_lt (by omega), fixedDigits, List.getElem?_append_left (by omega),
      List.getD_eq_getElem?_getD]
  rw [hget, List.getD_eq_getElem _ _ (by omega)]
  exact ne_of_isDigit (isDigit_of_mem_decimal (List.getElem_mem _)) (by decide)

/-! ## The epoch -/

/-- A number that is rounded at some digit behind the point, as an integer. -/
def rounded (k : ℕ) (x : ℚ) : ℤ := if x < 0 then -roundEven (|x| * 10 ^ k) else roundEven (|x| * 10 ^ k)

theorem abs_rounded_sub_le (k : ℕ) (x : ℚ) : |(rounded k x : ℚ) - x * 10 ^ k| ≤ 1 / 2 := by
  have hmul : 0 ≤ |x| * 10 ^ k := by positivity
  have herr := abs_roundEven_sub_le hmul
  unfold rounded
  split_ifs with hx
  · rw [abs_of_neg hx] at herr ⊢
    rw [← abs_neg]
    push_cast
    convert herr using 2
    ring
  · rw [abs_of_nonneg (not_lt.mp hx)] at herr ⊢
    exact_mod_cast herr

/-- The whole part and its sign fit into some columns. -/
def Fits (m k : ℕ) (x : ℚ) : Prop :=
  (minusText x).length + (decimal (roundEven (|x| * 10 ^ k) / 10 ^ k)).length ≤ m

instance (m k : ℕ) (x : ℚ) : Decidable (Fits m k x) := inferInstanceAs (Decidable (_ ≤ _))

section
variable {m k : ℕ} (hk : 0 < k) {x : ℚ}
include hk

theorem length_printZeroFixed_iff :
    (printZeroFixed (m + (1 + k)) k x).length = m + (1 + k) ↔ Fits m k x := by
  obtain ⟨-, hfrac⟩ := digitsValue_fixedDigits hk (roundEven (|x| * 10 ^ k))
  have hbody : (fixedDigits k (roundEven (|x| * 10 ^ k))).length =
      (decimal (roundEven (|x| * 10 ^ k) / 10 ^ k)).length + (1 + k) := by
    rw [fixedDigits, List.length_append, List.length_cons, hfrac]
    omega
  unfold printZeroFixed Fits
  dsimp only
  rw [List.length_append, List.length_append, List.length_replicate, hbody]
  omega

theorem printZeroFixed_spec (hfit : Fits m k x) :
    (printZeroFixed (m + (1 + k)) k x).getD m 0 = byte '.' ∧
      realValue (printZeroFixed (m + (1 + k)) k x) = (rounded k x : ℚ) / 10 ^ k := by
  obtain ⟨-, hfrac⟩ := digitsValue_fixedDigits hk (roundEven (|x| * 10 ^ k))
  have hbody : (fixedDigits k (roundEven (|x| * 10 ^ k))).length =
      (decimal (roundEven (|x| * 10 ^ k) / 10 ^ k)).length + (1 + k) := by
    rw [fixedDigits, List.length_append, List.length_cons, hfrac]
    omega
  unfold Fits at hfit
  constructor
  · have hzeros : m + (1 + k) - (minusText x).length - (fixedDigits k (roundEven (|x| * 10 ^ k))).length =
        m - (minusText x).length - (decimal (roundEven (|x| * 10 ^ k) / 10 ^ k)).length := by omega
    have hfront : (minusText x ++ (List.replicate (m - (minusText x).length -
        (decimal (roundEven (|x| * 10 ^ k) / 10 ^ k)).length) (byte '0') ++
          decimal (roundEven (|x| * 10 ^ k) / 10 ^ k))).length = m := by
      rw [List.length_append, List.length_append, List.length_replicate]
      omega
    unfold printZeroFixed
    dsimp only
    rw [hzeros, fixedDigits, ← List.append_assoc, ← List.append_assoc, List.append_assoc (minusText x),
      List.getD_append_right _ _ _ _ hfront.le, hfront, Nat.sub_self]
    rfl
  · unfold printZeroFixed rounded minusText
    dsimp only
    split_ifs
    · rw [List.singleton_append, realValue_minus, magnitudeValue_zeros hk]
      push_cast
      ring
    · rw [List.nil_append, realValue_zeros hk]
      push_cast
      rfl

end

/-! ## Numbers without a whole part -/

theorem formatMdot_spec {v : ℚ} (h : |v| < 9 / 10) :
    (formatMdot v).length = 10 ∧ (formatMdot v).getD 1 0 = byte '.' ∧
      |realValue (formatMdot v) - v| ≤ 1 / 2 / 10 ^ 8 := by
  have hmul : 0 ≤ |v| * 10 ^ 8 := by positivity
  have hround : roundAway (|v| * 10 ^ 8) ≤ 99999999 := roundAway_le (by push_cast; linarith)
  have hlen := length_zeroPad (k := 8) (n := roundAway (|v| * 10 ^ 8)) (by decide) (by omega)
  have hmagnitude : magnitudeValue (byte '.' :: zeroPad 8 (roundAway (|v| * 10 ^ 8))) =
      (roundAway (|v| * 10 ^ 8) : ℚ) / 10 ^ 8 := by
    have hne : [] ++ zeroPad 8 (roundAway (|v| * 10 ^ 8)) ≠ [] := by
      intro hnil
      rw [List.nil_append] at hnil
      rw [hnil] at hlen
      exact absurd hlen (by decide)
    have hnone : ∀ c ∈ ([] : List UInt8), isDigit c = true := fun c hc => absurd hc List.not_mem_nil
    have hpoint := magnitudeValue_point hnone (fun c => isDigit_of_mem_zeroPad) hne
    rw [List.nil_append, List.nil_append, digitsValue_zeroPad, hlen] at hpoint
    exact hpoint
  have herr := abs_div_sub_le (abs_roundAway_sub_le hmul)
  rw [formatMdot, min_eq_left hround]
  refine ⟨by rw [List.length_cons, List.length_cons, hlen], rfl, ?_⟩
  split_ifs with hv
  · rw [realValue_minus, hmagnitude, ← abs_neg]
    rw [abs_of_neg hv] at herr ⊢
    convert herr using 2
    ring
  · rw [abs_of_nonneg (not_lt.mp hv)] at herr hmagnitude ⊢
    rw [realValue_space, realValue_unsigned (by decide) (by decide) (by decide), hmagnitude]
    exact herr

/-- What stands in the columns of the eccentricity. -/
def readEcc (column : List UInt8) : ℚ := (intValue column : ℚ) / 10 ^ 7

theorem length_formatEcc (e : ℚ) : (formatEcc e).length = 7 := by
  rw [formatEcc, List.length_take]
  have hlen := le_length_zeroPad 7 (if e < 0 then 0 else min (roundAway (e * 10 ^ 7)) 9999999)
  omega

theorem formatEcc_spec {e : ℚ} (h : 0 ≤ e) (hlt : e ≤ 9999999 / 10 ^ 7) :
    |readEcc (formatEcc e) - e| ≤ 1 / 2 / 10 ^ 7 := by
  have hmul : 0 ≤ e * 10 ^ 7 := by positivity
  have hround : roundAway (e * 10 ^ 7) ≤ 9999999 := roundAway_le (by push_cast; linarith)
  have hlen := length_zeroPad (k := 7) (n := roundAway (e * 10 ^ 7)) (by decide) (by omega)
  have hdigits : Json.Digits (zeroPad 7 (roundAway (e * 10 ^ 7))) := by
    refine ⟨?_, fun _ => isDigit_of_mem_zeroPad⟩
    rw [zeroPad]
    exact List.append_ne_nil_of_right_ne_nil _ (decimal_ne_nil _)
  rw [formatEcc, if_neg (not_lt.mpr h), min_eq_left hround, List.take_of_length_le hlen.le, readEcc,
    intValue_digits hdigits, digitsValue_zeroPad, Int.cast_natCast]
  exact abs_div_sub_le (abs_roundAway_sub_le hmul)

/-! ## Numbers with an exponent -/

/-- What stands in the columns of a number with an exponent, and the unit of its last digit. -/
def readDecexp (column : List UInt8) : ℚ × ℚ :=
  let mantissa : ℚ := intValue (slice column 1 5)
  let exp : ℤ := intValue (slice column 7 1)
  let unit : ℚ := 10 ^ ((if column.getD 6 0 = byte '-' then -exp else exp) - 5)
  ((if column.getD 0 0 = byte '-' then -mantissa else mantissa) * unit, unit)

/-- What stays the same while a number is scaled. -/
def scaled (r : ℚ × ℤ) : ℚ := r.1 * 10 ^ r.2

theorem scaleUp_spec {n : ℕ} {a : ℚ} (h : 10 ^ (-(n : ℤ) - 1) ≤ a) (exp : ℤ) :
    scaled (scaleUp n a exp) = scaled (a, exp) ∧ 1 / 10 ≤ (scaleUp n a exp).1 ∧
      (scaleUp n a exp).1 ≤ max a 1 := by
  induction n generalizing a exp with
  | zero =>
      refine ⟨rfl, ?_, le_max_left _ _⟩
      norm_num at h
      show 1 / 10 ≤ a
      linarith
  | succ n ih =>
      rw [scaleUp]
      split_ifs with ha
      · have hten : (10 : ℚ) ^ (-(n : ℤ) - 1) ≤ a * 10 := by
          have hpow : (10 : ℚ) ^ (-(n : ℤ) - 1) = 10 ^ (-((n + 1 : ℕ) : ℤ) - 1) * 10 := by
            rw [← zpow_add_one₀ (by norm_num)]
            congr 1
            push_cast
            ring
          rw [hpow]
          exact mul_le_mul_of_nonneg_right h (by norm_num)
        obtain ⟨hsame, hlo, hhi⟩ := ih hten (exp - 1)
        refine ⟨?_, hlo, hhi.trans (max_le ?_ (le_max_right _ _))⟩
        · rw [hsame, scaled, scaled, zpow_sub_one₀ (by norm_num)]
          dsimp only
          ring
        · exact le_max_of_le_right (by linarith)
      · exact ⟨rfl, not_lt.mp ha, le_max_left _ _⟩

theorem scaleDown_spec {n : ℕ} {a : ℚ} (hlo : 1 / 10 ≤ a) (h : a < 10 ^ n) (exp : ℤ) :
    scaled (scaleDown n a exp) = scaled (a, exp) ∧ 1 / 10 ≤ (scaleDown n a exp).1 ∧ (scaleDown n a exp).1 < 1 := by
  induction n generalizing a exp with
  | zero =>
      rw [pow_zero] at h
      exact ⟨rfl, hlo, h⟩
  | succ n ih =>
      rw [scaleDown]
      split_ifs with ha
      · have hten : a / 10 < 10 ^ n := by
          rw [pow_succ] at h
          linarith
        obtain ⟨hsame, hlo', hhi⟩ := ih (by linarith) hten (exp + 1)
        refine ⟨?_, hlo', hhi⟩
        rw [hsame, scaled, scaled, zpow_add_one₀ (by norm_num)]
        dsimp only
        ring
      · exact ⟨rfl, hlo, not_le.mp ha⟩

/-- A number between 1e-9 and 1e8 with its point in front of its first digit. -/
theorem scale_spec {a : ℚ} (hlo : 1 / 10 ^ 9 ≤ a) (hhi : a ≤ 10 ^ 8) :
    let r := scaleDown 21 (scaleUp 21 a 0).1 (scaleUp 21 a 0).2
    r.1 * 10 ^ r.2 = a ∧ 1 / 10 ≤ r.1 ∧ r.1 < 1 ∧ -8 ≤ r.2 ∧ r.2 ≤ 9 ∧ (r.2 = 9 → r.1 = 1 / 10) := by
  intro r
  have hsmall : (10 : ℚ) ^ (-((21 : ℕ) : ℤ) - 1) ≤ a := by
    refine le_trans ?_ hlo
    norm_num
  obtain ⟨hup, hup₁, hup₂⟩ := scaleUp_spec hsmall 0
  have hlarge : (scaleUp 21 a 0).1 < 10 ^ 21 := by
    refine hup₂.trans_lt (max_lt (hhi.trans_lt ?_) ?_)
    · norm_num
    · norm_num
  obtain ⟨hdown, hdown₁, hdown₂⟩ := scaleDown_spec hup₁ hlarge (scaleUp 21 a 0).2
  have hvalue : r.1 * 10 ^ r.2 = a := by
    have hsame := hdown.trans hup
    rw [scaled, scaled, zpow_zero, mul_one] at hsame
    exact hsame
  have hpow : (0 : ℚ) < 10 ^ r.2 := by positivity
  have hlow : (10 : ℚ) ^ (-9 : ℤ) < 10 ^ r.2 := by
    have hlt : r.1 * 10 ^ r.2 < 1 * 10 ^ r.2 := mul_lt_mul_of_pos_right hdown₂ hpow
    rw [hvalue, one_mul] at hlt
    refine lt_of_le_of_lt ?_ hlt
    norm_num
    norm_num at hlo
    exact hlo
  have hhigh : (10 : ℚ) ^ r.2 ≤ 10 ^ (9 : ℤ) := by
    have hle : 1 / 10 * 10 ^ r.2 ≤ r.1 * 10 ^ r.2 := mul_le_mul_of_nonneg_right hdown₁ hpow.le
    rw [hvalue] at hle
    have hnine : (10 : ℚ) ^ (9 : ℤ) = 10 * 10 ^ 8 := by norm_num
    rw [hnine]
    linarith
  have hlo' := (zpow_lt_zpow_iff_right₀ (by norm_num : (1 : ℚ) < 10)).mp hlow
  have hhi' := (zpow_le_zpow_iff_right₀ (by norm_num : (1 : ℚ) < 10)).mp hhigh
  refine ⟨hvalue, hdown₁, hdown₂, by omega, hhi', fun hnine => ?_⟩
  rw [hnine] at hvalue
  have hle : r.1 ≤ 1 / 10 := by
    norm_num at hvalue
    linarith
  exact le_antisymm hle hdown₁

theorem decexp_text {sign esign : UInt8} {m d : ℕ} (hm : m < 10 ^ 5) (hd : d < 10) :
    (sign :: (zeroPad 5 m ++ esign :: decimal d)).length = 8 ∧
      slice (sign :: (zeroPad 5 m ++ esign :: decimal d)) 1 5 = zeroPad 5 m ∧
      slice (sign :: (zeroPad 5 m ++ esign :: decimal d)) 7 1 = decimal d ∧
      (sign :: (zeroPad 5 m ++ esign :: decimal d)).getD 6 0 = esign := by
  have hfive := length_zeroPad (by decide) hm
  have hone : (decimal d).length = 1 := by
    have hle : (decimal d).length ≤ 1 := length_decimal_le hd
    have hpos := List.length_pos_of_ne_nil (decimal_ne_nil d)
    omega
  obtain ⟨b, hb⟩ := List.length_eq_one_iff.mp hone
  rw [hb]
  match hz : zeroPad 5 m, hfive with
  | [_, _, _, _, _], _ => exact ⟨rfl, rfl, rfl, rfl⟩

/-- A mantissa of five digits and an exponent of one. -/
theorem readDecexp_text (v : ℚ) {m : ℕ} (hm : m < 10 ^ 5) {e : ℤ} (he : e.natAbs < 10) :
    readDecexp ((if v < 0 then byte '-' else byte ' ') ::
        (zeroPad 5 m ++ (if e < 0 then byte '-' else byte '+') :: decimal e.natAbs)) =
      ((if v < 0 then -(m : ℚ) else m) * 10 ^ (e - 5), 10 ^ (e - 5)) := by
  have hdigits : Json.Digits (zeroPad 5 m) := by
    refine ⟨?_, fun _ => isDigit_of_mem_zeroPad⟩
    rw [zeroPad]
    exact List.append_ne_nil_of_right_ne_nil _ (decimal_ne_nil _)
  obtain ⟨-, hmantissa, hexp, hesign⟩ :=
    @decexp_text (if v < 0 then byte '-' else byte ' ') (if e < 0 then byte '-' else byte '+') _ _ hm he
  have hminus : ∀ (p : Prop) [Decidable p] (b : UInt8), b ≠ byte '-' →
      ((if p then byte '-' else b) = byte '-' ↔ p) := by
    intro p _ b hb
    split_ifs with h
    · exact iff_of_true rfl h
    · exact iff_of_false hb h
  have hsign : (if e < 0 then -((e.natAbs : ℕ) : ℤ) else (e.natAbs : ℕ)) = e := by
    split_ifs <;> omega
  unfold readDecexp
  dsimp only
  rw [hmantissa, hexp, hesign, List.getD_cons_zero, intValue_digits hdigits, intValue_digits (digits_decimal _),
    digitsValue_zeroPad, digitsValue_decimal]
  simp only [hminus _ _ (by decide : byte ' ' ≠ byte '-'), hminus _ _ (by decide : byte '+' ≠ byte '-'), hsign,
    Int.cast_natCast]

/-- The error of a mantissa, in units of its last digit. -/
theorem abs_signed_sub_le {v a : ℚ} {m : ℕ} {e : ℤ} (hvalue : a * 10 ^ e = |v|)
    (herr : |(m : ℚ) - a * 100000| ≤ 1 / 2) :
    |(if v < 0 then (-m : ℚ) else m) * 10 ^ (e - 5) - v| ≤ 10 ^ (e - 5) / 2 := by
  have hpow : (0 : ℚ) < 10 ^ (e - 5) := by positivity
  have hsplit : |v| = a * 100000 * 10 ^ (e - 5) := by
    rw [← hvalue, zpow_sub₀ (by norm_num)]
    norm_num
    ring
  have hdiff : |(m : ℚ) * 10 ^ (e - 5) - (|v|)| ≤ 10 ^ (e - 5) / 2 := by
    rw [hsplit, ← sub_mul, abs_mul, abs_of_pos hpow]
    calc |(m : ℚ) - a * 100000| * 10 ^ (e - 5) ≤ 1 / 2 * 10 ^ (e - 5) := mul_le_mul_of_nonneg_right herr hpow.le
      _ = 10 ^ (e - 5) / 2 := by ring
  split_ifs with hv
  · rw [abs_of_neg hv] at hdiff
    rw [← abs_neg]
    convert hdiff using 2
    ring
  · rwa [abs_of_nonneg (not_lt.mp hv)] at hdiff

theorem decexp_column {v a : ℚ} {m : ℕ} {e : ℤ} (hm : m < 10 ^ 5) (he : e.natAbs < 10) (hvalue : a * 10 ^ e = |v|)
    (herr : |(m : ℚ) - a * 100000| ≤ 1 / 2) {column : List UInt8}
    (h : column = ((if v < 0 then byte '-' else byte ' ') ::
      (zeroPad 5 m ++ (if e < 0 then byte '-' else byte '+') :: decimal e.natAbs)).take 8) :
    column.length = 8 ∧ |(readDecexp column).1 - v| ≤ (readDecexp column).2 / 2 := by
  have hlen := (@decexp_text (if v < 0 then byte '-' else byte ' ') (if e < 0 then byte '-' else byte '+') _ _ hm he).1
  rw [List.take_of_length_le hlen.le] at h
  rw [h, hlen, readDecexp_text v hm he]
  exact ⟨rfl, abs_signed_sub_le hvalue herr⟩

/-- A number that is zero or of a magnitude with an exponent of one digit is read back to half a unit. -/
theorem formatDecexp_spec {v : ℚ} (h : v = 0 ∨ 1 / 10 ^ 9 ≤ |v| ∧ |v| ≤ 10 ^ 8) :
    (formatDecexp v).length = 8 ∧ |(readDecexp (formatDecexp v)).1 - v| ≤ (readDecexp (formatDecexp v)).2 / 2 := by
  by_cases hv : v = 0
  · rw [hv, formatDecexp, if_pos rfl]
    refine ⟨by decide, ?_⟩
    have hread : readDecexp (text " 00000+0") = (0, 10 ^ (-5 : ℤ)) := by
      have hmantissa : intValue (slice (text " 00000+0") 1 5) = 0 := by decide
      have hexp : intValue (slice (text " 00000+0") 7 1) = 0 := by decide
      have hesign : ¬ (text " 00000+0").getD 6 0 = byte '-' := by decide
      unfold readDecexp
      dsimp only
      rw [hmantissa, hexp, if_neg hesign]
      simp
    rw [hread]
    norm_num
  · obtain ⟨hlo, hhi⟩ := h.resolve_left hv
    obtain ⟨hvalue, h₁, h₂, hexp₁, hexp₂, hnine⟩ := scale_spec hlo hhi
    generalize hr : scaleDown 21 (scaleUp 21 |v| 0).1 (scaleUp 21 |v| 0).2 = r at *
    obtain ⟨a, exp⟩ := r
    dsimp only at hvalue h₁ h₂ hexp₁ hexp₂ hnine
    have herr := abs_roundAway_sub_le (q := a * 100000) (by positivity)
    have hround : roundAway (a * 100000) ≤ 100000 := roundAway_le (by push_cast; linarith)
    rcases hround.lt_or_eq with hm | hm
    · refine decexp_column hm (by omega) hvalue herr ?_
      unfold formatDecexp
      dsimp only
      rw [hr, if_neg hv]
      dsimp only
      rw [if_neg (Nat.not_le.mpr hm)]
      dsimp only
      rw [if_neg (Int.not_lt.mpr hexp₂)]
      dsimp only
      rw [if_neg (by omega)]
    · -- The mantissa is rounded up to six digits, of which the last one is a zero.
      have hlt : exp < 9 := by
        refine hexp₂.lt_of_ne fun heq => ?_
        rw [hm, hnine heq] at herr
        norm_num at herr
      have hvalue' : a / 10 * 10 ^ (exp + 1) = |v| := by
        rw [← hvalue, zpow_add_one₀ (by norm_num)]
        ring
      have herr' : |((10000 : ℕ) : ℚ) - a / 10 * 100000| ≤ 1 / 2 := by
        rw [hm, abs_le] at herr
        push_cast at herr ⊢
        rw [abs_le]
        constructor <;> linarith
      refine decexp_column (by decide) (by omega) hvalue' herr' ?_
      unfold formatDecexp
      dsimp only
      rw [hr, if_neg hv]
      dsimp only
      rw [hm, if_pos (Nat.le_refl _)]
      dsimp only
      rw [if_neg (show ¬ 9 < exp + 1 by omega)]
      dsimp only
      rw [if_neg (by omega)]

end SimpleSatOps.TleCsv
