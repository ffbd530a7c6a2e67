import SimpleSatOps.Lib.Printf

/-!
# Exact decimals

Numbers are rationals, as they are written, without the rounding of a machine.

* `intValue`, `atoiInt` : the integer at the start of a text, and what `atoi` makes of it;
* `realValue` : the finite number at the start of a text;
* `roundAway` : `llround`;
* `padLeft`, `printFixedExact`, `printZeroFixed` : `"%wd"`, `"%.kf"` and `"%0w.kf"`;
* `realValue_point`, `intValue_digits` : numerals are read back.
-/

namespace SimpleSatOps

/-! ## Reading -/

/-- The integer at the start of a text. -/
def intValue (s : List UInt8) : ℤ :=
  let st := Double.readSign (s.dropWhile isCSpace)
  let n : ℤ := digitsValue (st.2.takeWhile isDigit)
  if st.1 then -n else n

/-- `atoi`: the nearest `long`, cut to an `int`. -/
def atoiInt (s : List UInt8) : ℤ := ((strtol s).getD 0).bmod (2 ^ 32)

/-- A number without its sign; decimal, or hexadecimal behind `0x`. -/
def magnitudeValue (s : List UInt8) : ℚ :=
  if Double.startsWith (text "0x") s ∧ (Double.readNumeral isXdigit 16 2 (text "pP") (s.drop 2)).isSome then
    (Double.readNumeral isXdigit 16 2 (text "pP") (s.drop 2)).getD 0
  else (Double.readNumeral isDigit 10 10 (text "eE") s).getD 0

/-- `atof` of a number that is finite; 0 where there is none. -/
def realValue (s : List UInt8) : ℚ :=
  let st := Double.readSign (s.dropWhile isCSpace)
  if st.1 then -magnitudeValue st.2 else magnitudeValue st.2

/-- No infinity, and not "not a number". -/
def FiniteText (s : List UInt8) : Prop :=
  let st := Double.readSign (s.dropWhile isCSpace)
  Double.startsWith (text "inf") st.2 = false ∧ Double.startsWith (text "nan") st.2 = false

instance (s : List UInt8) : Decidable (FiniteText s) := inferInstanceAs (Decidable (_ ∧ _))

/-! ## Printing -/

/-- `q ≥ 0` to the nearest integer, a half upwards. -/
def roundAway (q : ℚ) : ℕ := ⌊q + 1 / 2⌋₊

/-- Spaces in front, up to a width. -/
def padLeft (w : ℕ) (s : List UInt8) : List UInt8 := List.replicate (w - s.length) (byte ' ') ++ s

/-- Spaces behind, up to a width. -/
def padRight (w : ℕ) (s : List UInt8) : List UInt8 := s ++ List.replicate (w - s.length) (byte ' ')

/-- The minus of a negative number. -/
def minusText (q : ℚ) : List UInt8 := if q < 0 then [byte '-'] else []

/-- `"%.kf"` for `k > 0`. -/
def printFixedExact (k : ℕ) (q : ℚ) : List UInt8 := minusText q ++ fixedDigits k (roundEven (|q| * 10 ^ k))

/-- `"%0w.kf"` for `k > 0`. -/
def printZeroFixed (w k : ℕ) (q : ℚ) : List UInt8 :=
  let body := fixedDigits k (roundEven (|q| * 10 ^ k))
  minusText q ++ (List.replicate (w - (minusText q).length - body.length) (byte '0') ++ body)

/-! ## Rounding -/

theorem abs_roundEven_sub_le {q : ℚ} (hq : 0 ≤ q) : |(roundEven q : ℚ) - q| ≤ 1 / 2 := by
  obtain ⟨hlo, hhi⟩ := roundEven_bounds hq
  rw [abs_le]
  constructor <;> linarith

theorem abs_roundAway_sub_le {q : ℚ} (hq : 0 ≤ q) : |(roundAway q : ℚ) - q| ≤ 1 / 2 := by
  have hlo : (⌊q + 1 / 2⌋₊ : ℚ) ≤ q + 1 / 2 := Nat.floor_le (by linarith)
  have hhi : q + 1 / 2 < ⌊q + 1 / 2⌋₊ + 1 := Nat.lt_floor_add_one _
  rw [roundAway, abs_le]
  constructor <;> linarith

theorem roundAway_le {q : ℚ} {n : ℕ} (h : q < n + 1 / 2) : roundAway q ≤ n := by
  have hlt : q + 1 / 2 < ((n + 1 : ℕ) : ℚ) := by
    push_cast
    linarith
  exact Nat.lt_succ_iff.mp (Nat.floor_lt' (Nat.succ_ne_zero n) |>.mpr hlt)

/-! ## Reading back -/

theorem dropWhile_isCSpace_replicate (n : ℕ) (s : List UInt8) :
    (List.replicate n (byte ' ') ++ s).dropWhile isCSpace = s.dropWhile isCSpace := by
  have hspace : isCSpace (byte ' ') = true := by decide
  exact List.dropWhile_append_of_pos fun c hc => by rw [List.eq_of_mem_replicate hc]; exact hspace

/-- Spaces in front of a number are passed over. -/
theorem intValue_padLeft (w : ℕ) (s : List UInt8) : intValue (padLeft w s) = intValue s := by
  unfold intValue padLeft
  rw [dropWhile_isCSpace_replicate]

theorem realValue_padLeft (w : ℕ) (s : List UInt8) : realValue (padLeft w s) = realValue s := by
  unfold realValue padLeft
  rw [dropWhile_isCSpace_replicate]

theorem realValue_minus (s : List UInt8) : realValue (byte '-' :: s) = -magnitudeValue s := by
  unfold realValue
  rw [dropWhile_isCSpace_cons (by decide)]
  rfl

theorem realValue_space (s : List UInt8) : realValue (byte ' ' :: s) = realValue s := by
  unfold realValue
  rw [List.dropWhile_cons_of_pos (by decide)]

/-- A character that starts a number without a sign. -/
theorem realValue_unsigned {c : UInt8} (hspace : isCSpace c = false) (hminus : c ≠ byte '-') (hplus : c ≠ byte '+')
    (s : List UInt8) : realValue (c :: s) = magnitudeValue (c :: s) := by
  unfold realValue
  rw [dropWhile_isCSpace_cons hspace, Double.readSign, if_neg hminus, if_neg hplus]
  rfl

/-- Digits with a point among them. -/
theorem magnitudeValue_point {whole frac : List UInt8} (hw : ∀ c ∈ whole, isDigit c = true)
    (hf : ∀ c ∈ frac, isDigit c = true) (hne : whole ++ frac ≠ []) :
    magnitudeValue (whole ++ byte '.' :: frac) = digitsValue (whole ++ frac) / 10 ^ frac.length := by
  have hnumeral : ∀ c ∈ whole ++ byte '.' :: frac, IsNumeral c := by
    simp only [List.forall_mem_append, List.forall_mem_cons]
    exact ⟨fun c hc => .inl (hw c hc), .inr (by decide), fun c hc => .inl (hf c hc)⟩
  have hx : ¬ IsNumeral (byte 'x') := by
    unfold IsNumeral
    decide
  have hhex := startsWith_numeral (w := text "0x") (b := byte 'x') (by decide) hx hnumeral
  have hdot : NoDigit (byte '.' :: frac) := .cons (by decide) frac
  have hfrac : frac.takeWhile isDigit = frac ∧ frac.dropWhile isDigit = [] := by
    have htake := takeWhile_digits hf NoDigit.nil
    have hdrop := dropWhile_digits hf NoDigit.nil
    rw [List.append_nil] at htake hdrop
    exact ⟨htake, hdrop⟩
  unfold magnitudeValue Double.readNumeral
  rw [hhex, if_neg fun h => Bool.false_ne_true h.1, takeWhile_digits hw hdot, dropWhile_digits hw hdot]
  simp only [List.head?_cons, if_true, List.tail_cons, hfrac.1, hfrac.2]
  rw [if_neg hne, foldl_hexValue fun c hc => (List.mem_append.mp hc).elim (hw c) (hf c)]
  simp [Double.readExpo, zpow_neg, div_eq_mul_inv]

theorem digitsValue_lt (s : List UInt8) (h : ∀ c ∈ s, isDigit c = true) : digitsValue s < 10 ^ s.length := by
  induction s using List.reverseRecOn with
  | nil => decide
  | append_singleton s c ih =>
      rw [List.forall_mem_append] at h
      have hs := ih h.1
      have hc := h.2 c (List.mem_singleton.mpr rfl)
      simp only [isDigit, Bool.and_eq_true, decide_eq_true_eq, UInt8.le_iff_toNat_le] at hc
      have hnine : (byte '9').toNat = 0x39 := by decide
      have hvalue : digitsValue [c] = c.toNat - 0x30 := by simp [digitsValue]
      rw [digitsValue_append, hvalue, List.length_singleton, List.length_append, List.length_singleton, pow_succ]
      omega

/-- A column is too narrow for a number with more digits. -/
theorem intValue_lt (s : List UInt8) : intValue s < 10 ^ s.length := by
  have hdrop : (s.dropWhile isCSpace).length ≤ s.length := (List.dropWhile_sublist _).length_le
  have hsign : (Double.readSign (s.dropWhile isCSpace)).2.length ≤ (s.dropWhile isCSpace).length := by
    cases s.dropWhile isCSpace with
    | nil => exact Nat.le_refl 0
    | cons c t =>
        rw [Double.readSign]
        split_ifs <;> simp
  have htake := (List.takeWhile_prefix isDigit (l := (Double.readSign (s.dropWhile isCSpace)).2)).length_le
  have hlt := digitsValue_lt _ fun c hc =>
    List.mem_takeWhile_imp (p := isDigit) (l := (Double.readSign (s.dropWhile isCSpace)).2) hc
  have hpow := Nat.pow_le_pow_right (n := 10) (by decide) (htake.trans (hsign.trans hdrop))
  have hn : (digitsValue ((Double.readSign (s.dropWhile isCSpace)).2.takeWhile isDigit) : ℤ) < 10 ^ s.length := by
    exact_mod_cast hlt.trans_le hpow
  unfold intValue
  dsimp only
  split_ifs
  · omega
  · exact hn

theorem intValue_digits {s : List UInt8} (h : Json.Digits s) : intValue s = digitsValue s := by
  have hspace := dropWhile_isCSpace_digits h []
  have hsign := readSign_digits h []
  have htake := takeWhile_digits h.2 NoDigit.nil
  rw [List.append_nil] at hspace hsign htake
  unfold intValue
  rw [hspace, hsign]
  dsimp only
  rw [htake, if_neg Bool.false_ne_true]

theorem getD_strtol (s : List UInt8) :
    (strtol s).getD 0 = max (-2 ^ 63) (min (intValue s) (2 ^ 63 - 1)) := by
  by_cases hnil : (Double.readSign (s.dropWhile isCSpace)).2.takeWhile isDigit = []
  · have hzero : intValue s = 0 := by
      unfold intValue
      dsimp only
      rw [hnil]
      split_ifs <;> rfl
    have hnone : strtol s = none := if_pos hnil
    rw [hzero, hnone]
    rfl
  · have hsome : strtol s = some (max (-2 ^ 63) (min (intValue s) (2 ^ 63 - 1))) := if_neg hnil
    rw [hsome]
    rfl

/-- `atoi` of an integer in range. -/
theorem atoiInt_eq {s : List UInt8} (h : 0 ≤ intValue s) (hlt : intValue s < 2 ^ 31) : atoiInt s = intValue s := by
  have hclamp : max (-2 ^ 63) (min (intValue s) (2 ^ 63 - 1)) = intValue s := by omega
  rw [atoiInt, getD_strtol, hclamp]
  exact Int.bmod_eq_of_le (by omega) (by omega)

end SimpleSatOps
