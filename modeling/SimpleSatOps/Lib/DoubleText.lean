import SimpleSatOps.Lib.Double
import SimpleSatOps.Lib.Json

/-!
# Printed numbers

* `mem_print`, `length_print_le` : the bytes of a printed number, and how many;
* `number_decimalInt`, `value_print_iff` : which printed numbers are JSON numbers;
* `strtod_print` : what a printed number is read as;
* `strtol_decimalInt` : a printed integer is read back.
-/

namespace SimpleSatOps

/-! ## Digits -/

theorem digits_decimal (n : ℕ) : Json.Digits (decimal n) :=
  ⟨decimal_ne_nil n, fun _ hc => isDigit_of_mem_decimal hc⟩

theorem whole_decimal (n : ℕ) : Json.Whole (decimal n) := by
  by_cases hn : n = 0
  · subst hn
    exact .inl rfl
  · exact .inr ⟨digits_decimal n, head_decimal_ne hn⟩

/-- A text that starts with no digit. -/
def NoDigit (s : List UInt8) : Prop := ∀ c ∈ s.head?, isDigit c = false

theorem NoDigit.nil : NoDigit [] := nofun

theorem NoDigit.cons {c : UInt8} (hc : isDigit c = false) (s : List UInt8) : NoDigit (c :: s) := by
  rintro _ ⟨⟩
  exact hc

theorem takeWhile_digits {ds s : List UInt8} (hds : ∀ c ∈ ds, isDigit c = true) (hs : NoDigit s) :
    (ds ++ s).takeWhile isDigit = ds := by
  rw [List.takeWhile_append_of_pos hds]
  cases s with
  | nil => exact List.append_nil ds
  | cons c s => rw [List.takeWhile_cons_of_neg (by simp [hs c rfl]), List.append_nil]

theorem dropWhile_digits {ds s : List UInt8} (hds : ∀ c ∈ ds, isDigit c = true) (hs : NoDigit s) :
    (ds ++ s).dropWhile isDigit = s := by
  rw [List.dropWhile_append_of_pos hds]
  cases s with
  | nil => rfl
  | cons c s => rw [List.dropWhile_cons_of_neg (by simp [hs c rfl])]

theorem isCSpace_of_isDigit {c : UInt8} (h : isDigit c = true) : isCSpace c = false := by
  by_contra hs
  simp only [isCSpace, isDigit, byte, Bool.not_eq_false, Bool.or_eq_true, Bool.and_eq_true, beq_iff_eq,
    decide_eq_true_eq, UInt8.le_iff_toNat_le] at hs h
  rcases hs with rfl | hs
  · exact absurd h.1 (by decide)
  · exact absurd (h.1.trans hs.2) (by decide)

theorem ne_of_isDigit {c b : UInt8} (h : isDigit c = true) (hb : isDigit b = false) : c ≠ b := by
  rintro rfl
  exact Bool.false_ne_true (hb.symm.trans h)

/-! ## Integers -/

theorem readSign_digits {s : List UInt8} (h : Json.Digits s) (t : List UInt8) :
    Double.readSign (s ++ t) = (false, s ++ t) := by
  obtain ⟨hne, hd⟩ := h
  cases s with
  | nil => exact absurd rfl hne
  | cons c s =>
      have hc := hd c List.mem_cons_self
      rw [List.cons_append, Double.readSign, if_neg (ne_of_isDigit hc (by decide)),
        if_neg (ne_of_isDigit hc (by decide))]

theorem dropWhile_isCSpace_cons {c : UInt8} (h : isCSpace c = false) (s : List UInt8) :
    (c :: s).dropWhile isCSpace = c :: s :=
  List.dropWhile_cons_of_neg (by simp [h])

theorem dropWhile_isCSpace_digits {s : List UInt8} (h : Json.Digits s) (t : List UInt8) :
    (s ++ t).dropWhile isCSpace = s ++ t := by
  obtain ⟨hne, hd⟩ := h
  cases s with
  | nil => exact absurd rfl hne
  | cons c s => exact dropWhile_isCSpace_cons (isCSpace_of_isDigit (hd c List.mem_cons_self)) _

/-- A printed `long` is read back. -/
theorem strtol_decimalInt {z : ℤ} (hlo : -2 ^ 63 ≤ z) (hhi : z ≤ 2 ^ 63 - 1) : strtol (decimalInt z) = some z := by
  have hds := digits_decimal z.natAbs
  have htake : (decimal z.natAbs).takeWhile isDigit = decimal z.natAbs := by
    have h := takeWhile_digits hds.2 NoDigit.nil
    rwa [List.append_nil] at h
  unfold strtol decimalInt
  split_ifs with hneg
  · rw [dropWhile_isCSpace_cons (by decide)]
    show ite _ _ _ = _
    simp only [Double.readSign, if_true]
    rw [htake, if_neg hds.1, digitsValue_decimal]
    congr 1
    omega
  · have hspace := dropWhile_isCSpace_digits hds []
    have hsign := readSign_digits hds []
    rw [List.append_nil] at hspace hsign
    simp only [hspace, hsign]
    rw [htake, if_neg hds.1, digitsValue_decimal]
    simp only [Bool.false_eq_true, if_false]
    congr 1
    omega

theorem number_decimalInt (z : ℤ) : Json.Number (decimalInt z) := by
  have hmk : ∀ sign : List UInt8, sign ∈ [[], [byte '-']] → Json.Number (sign ++ decimal z.natAbs) := by
    intro sign hsign
    have h := Json.Number.mk hsign (whole_decimal z.natAbs) (.inl rfl) (.inl rfl)
    rwa [List.append_nil, List.append_nil] at h
  unfold decimalInt
  split_ifs
  · exact hmk [byte '-'] (by simp)
  · exact hmk [] (by simp)

/-! ## A fraction without the zeros at its end -/

theorem exists_zeros (frac : List UInt8) :
    ∃ z, frac = frac.rdropWhile (· == byte '0') ++ List.replicate z (byte '0') := by
  refine ⟨(frac.rtakeWhile (· == byte '0')).length, ?_⟩
  rw [← List.eq_replicate_iff.mpr ⟨rfl, fun c hc => by simpa using List.mem_rtakeWhile_imp hc⟩]
  exact List.rdropWhile_append_rtakeWhile.symm

theorem withFraction_eq (whole frac : List UInt8) :
    Double.withFraction whole frac =
      if frac.rdropWhile (· == byte '0') = [] then whole
      else whole ++ byte '.' :: frac.rdropWhile (· == byte '0') := rfl

theorem mem_withFraction {whole frac : List UInt8} {c : UInt8} (h : c ∈ Double.withFraction whole frac) :
    c ∈ whole ∨ c ∈ frac ∨ c = byte '.' := by
  rw [withFraction_eq] at h
  split_ifs at h
  · exact .inl h
  · rcases List.mem_append.mp h with h | h
    · exact .inl h
    · rcases List.mem_cons.mp h with h | h
      · exact .inr (.inr h)
      · exact .inr (.inl ((List.rdropWhile_prefix _ _).mem h))

theorem length_withFraction_le (whole frac : List UInt8) :
    (Double.withFraction whole frac).length ≤ whole.length + frac.length + 1 := by
  have hle := (List.rdropWhile_prefix (· == byte '0') frac).length_le
  rw [withFraction_eq]
  split_ifs
  · omega
  · rw [List.length_append, List.length_cons]
    omega

theorem foldl_hexValue {ds : List UInt8} (h : ∀ c ∈ ds, isDigit c = true) :
    ds.foldl (fun n c => 10 * n + Double.hexValue c) 0 = digitsValue ds := by
  unfold digitsValue
  apply List.foldl_ext
  intro n c hc
  rw [Double.hexValue, if_pos (h c hc)]

theorem readNumeral_whole {whole rest : List UInt8} (hw : Json.Digits whole) (hrest : NoDigit rest)
    (hpoint : rest.head? ≠ some (byte '.')) :
    Double.readNumeral isDigit 10 10 (text "eE") (whole ++ rest) =
      some (digitsValue whole * (10 : ℚ) ^ Double.readExpo (text "eE") rest) := by
  unfold Double.readNumeral
  simp only [takeWhile_digits hw.2 hrest, dropWhile_digits hw.2 hrest, if_neg hpoint, List.append_nil]
  rw [if_neg hw.1, foldl_hexValue hw.2]
  simp

theorem readNumeral_point {whole frac rest : List UInt8} (hw : Json.Digits whole)
    (hf : ∀ c ∈ frac, isDigit c = true) (hrest : NoDigit rest) :
    Double.readNumeral isDigit 10 10 (text "eE") (whole ++ byte '.' :: (frac ++ rest)) =
      some (digitsValue (whole ++ frac) * (10 : ℚ) ^ (-(frac.length : ℤ)) *
        (10 : ℚ) ^ Double.readExpo (text "eE") rest) := by
  have hdot : NoDigit (byte '.' :: (frac ++ rest)) := .cons (by decide) _
  unfold Double.readNumeral
  simp only [takeWhile_digits hw.2 hdot, dropWhile_digits hw.2 hdot, List.head?_cons, if_true, List.tail_cons,
    takeWhile_digits hf hrest, dropWhile_digits hf hrest]
  rw [if_neg fun h => hw.1 (List.append_eq_nil_iff.mp h).1,
    foldl_hexValue (List.forall_mem_append.mpr ⟨hw.2, hf⟩)]
  simp

/-- Digits read in front of `rest`, which continues no number. -/
theorem readNumeral_withFraction {whole frac rest : List UInt8} (hw : Json.Digits whole)
    (hf : ∀ c ∈ frac, isDigit c = true) (hrest : NoDigit rest) (hpoint : rest.head? ≠ some (byte '.')) :
    Double.readNumeral isDigit 10 10 (text "eE") (Double.withFraction whole frac ++ rest) =
      some (digitsValue (whole ++ frac) * (10 : ℚ) ^ (-(frac.length : ℤ)) *
        (10 : ℚ) ^ Double.readExpo (text "eE") rest) := by
  obtain ⟨z, hz⟩ := exists_zeros frac
  have hlen : frac.length = (frac.rdropWhile (· == byte '0')).length + z := by
    have h := congrArg List.length hz
    rwa [List.length_append, List.length_replicate] at h
  have hscale : (digitsValue (whole ++ frac) : ℚ) * (10 : ℚ) ^ (-(frac.length : ℤ)) =
      digitsValue (whole ++ frac.rdropWhile (· == byte '0')) *
        (10 : ℚ) ^ (-((frac.rdropWhile (· == byte '0')).length : ℤ)) := by
    have hv : digitsValue (whole ++ frac) =
        digitsValue (whole ++ frac.rdropWhile (· == byte '0')) * 10 ^ z := by
      conv_lhs => rw [hz, ← List.append_assoc, digitsValue_append, digitsValue_replicate_zero, List.length_replicate,
        Nat.add_zero]
    rw [hv, hlen]
    push_cast
    rw [neg_add, zpow_add₀ (by norm_num), zpow_neg _ (z : ℤ), zpow_natCast]
    field_simp
  rw [hscale, withFraction_eq]
  split_ifs with hnil
  · rw [hnil, List.append_nil, readNumeral_whole hw hrest hpoint]
    simp
  · rw [List.append_assoc, List.cons_append]
    exact readNumeral_point hw (fun c hc => hf c ((List.rdropWhile_prefix _ _).mem hc)) hrest

/-! ## The printed digits -/

/-- The exponent behind the letter is read back. -/
theorem readExpo_printExpo (x : ℤ) : Double.readExpo (text "eE") (byte 'e' :: Double.printExpo x) = x := by
  have hds : ∀ c ∈ (if x.natAbs < 10 then byte '0' :: decimal x.natAbs else decimal x.natAbs),
      isDigit c = true := by
    split_ifs
    · rw [List.forall_mem_cons]
      exact ⟨by decide, (digits_decimal _).2⟩
    · exact (digits_decimal _).2
  have hvalue : digitsValue (if x.natAbs < 10 then byte '0' :: decimal x.natAbs else decimal x.natAbs) = x.natAbs := by
    split_ifs
    · rw [← List.singleton_append, digitsValue_append, digitsValue_decimal,
        show digitsValue [byte '0'] = 0 by decide, Nat.zero_mul, Nat.zero_add]
    · exact digitsValue_decimal _
  have htake : ∀ ds : List UInt8, (∀ c ∈ ds, isDigit c = true) → ds.takeWhile isDigit = ds := by
    intro ds h
    have := takeWhile_digits h NoDigit.nil
    rwa [List.append_nil] at this
  have hletter : byte 'e' ∈ text "eE" := by decide
  have hplus : byte '+' ≠ byte '-' := by decide
  unfold Double.readExpo Double.printExpo
  simp only [if_pos hletter]
  by_cases hneg : x < 0
  · simp only [if_pos hneg, Double.readSign, if_true, htake _ hds, hvalue]
    omega
  · simp only [if_neg hneg, Double.readSign, if_neg hplus, if_true, htake _ hds, hvalue, Bool.false_eq_true, if_false]
    omega

theorem noDigit_expo (x : ℤ) : NoDigit (byte 'e' :: Double.printExpo x) := .cons (by decide) _

/-- A number of six digits. -/
def SixDigits (n : ℕ) : Prop := 10 ^ 5 ≤ n ∧ n < 10 ^ 6

theorem SixDigits.length {n : ℕ} (h : SixDigits n) : (decimal n).length = 6 := length_decimal_eq h.1 h.2

/-- The digits in front of the point. -/
theorem SixDigits.digits_take {n k : ℕ} (h : SixDigits n) (hk : 0 < k) : Json.Digits ((decimal n).take k) := by
  refine ⟨?_, fun c hc => isDigit_of_mem_decimal (List.mem_of_mem_take hc)⟩
  rw [← List.length_pos_iff, List.length_take, h.length]
  omega

theorem isDigit_of_mem_drop {n k : ℕ} : ∀ c ∈ (decimal n).drop k, isDigit c = true :=
  fun _ hc => isDigit_of_mem_decimal (List.mem_of_mem_drop hc)

theorem isDigit_of_mem_zeros {n k : ℕ} : ∀ c ∈ List.replicate k (byte '0') ++ decimal n, isDigit c = true := by
  rw [List.forall_mem_append]
  refine ⟨fun c hc => ?_, fun c hc => isDigit_of_mem_decimal hc⟩
  rw [List.eq_of_mem_replicate hc]
  decide

theorem readNumeral_printDigits {n : ℕ} (h : SixDigits n) (x : ℤ) :
    Double.readNumeral isDigit 10 10 (text "eE") (Double.printDigits n x) = some (n * (10 : ℚ) ^ (x - 5)) := by
  have hlen := h.length
  unfold Double.printDigits
  simp only
  split_ifs with hsci hpos
  · rw [readNumeral_withFraction (h.digits_take Nat.one_pos) isDigit_of_mem_drop (noDigit_expo x) (by simp; decide),
      readExpo_printExpo, List.take_append_drop, digitsValue_decimal, List.length_drop, hlen, mul_assoc,
      ← zpow_add₀ (by norm_num)]
    congr 3
    ring
  · have hr := readNumeral_withFraction (h.digits_take (Nat.succ_pos x.toNat))
      (isDigit_of_mem_drop (n := n) (k := x.toNat + 1)) NoDigit.nil (by simp)
    rw [List.append_nil] at hr
    rw [hr, List.take_append_drop, digitsValue_decimal, List.length_drop, hlen]
    simp only [Double.readExpo, zpow_zero, mul_one]
    congr 3
    omega
  · have hzero : Json.Digits [byte '0'] := ⟨List.cons_ne_nil _ _, by decide⟩
    have hr := readNumeral_withFraction hzero (isDigit_of_mem_zeros (n := n) (k := (-x - 1).toNat)) NoDigit.nil
      (by simp)
    rw [List.append_nil] at hr
    rw [hr, ← List.append_assoc, digitsValue_append, digitsValue_decimal, List.length_append, List.length_replicate,
      hlen, ← List.replicate_one, ← List.replicate_add, digitsValue_replicate_zero, Nat.zero_mul, Nat.zero_add]
    simp only [Double.readExpo, zpow_zero, mul_one]
    congr 3
    omega

/-! ## Rounding -/

theorem roundEven_bounds {q : ℚ} (hq : 0 ≤ q) : q - 1 / 2 ≤ roundEven q ∧ (roundEven q : ℚ) ≤ q + 1 / 2 := by
  have hlo : (⌊q⌋₊ : ℚ) ≤ q := Nat.floor_le hq
  have hhi : q < ⌊q⌋₊ + 1 := Nat.lt_floor_add_one q
  unfold roundEven
  simp only
  split_ifs with h
  · constructor
    · rcases h with h | h
      · linarith
      · linarith [h.1]
    · linarith
  · rw [not_or] at h
    push_cast
    constructor
    · linarith
    · linarith [not_lt.mp h.1]

/-- An integer closer than a half is the nearest. -/
theorem roundEven_eq {q : ℚ} (hq : 0 ≤ q) {n : ℕ} (hlo : n - 1 / 2 < q) (hhi : q < n + 1 / 2) : roundEven q = n := by
  obtain ⟨h₁, h₂⟩ := roundEven_bounds hq
  have hle : roundEven q < n + 1 := by
    have : (roundEven q : ℚ) < (n + 1 : ℕ) := by push_cast; linarith
    exact_mod_cast this
  have hge : n < roundEven q + 1 := by
    have : (n : ℚ) < (roundEven q + 1 : ℕ) := by push_cast; linarith
    exact_mod_cast this
  omega

/-- The leading digits before rounding. -/
theorem leading_bounds {q : ℚ} (hq : 0 < q) :
    (10 : ℚ) ^ 5 ≤ q / 10 ^ (Int.log 10 q - 5) ∧ q / 10 ^ (Int.log 10 q - 5) < (10 : ℚ) ^ 6 := by
  have hlo := Int.zpow_log_le_self (b := 10) (by decide) hq
  have hhi := Int.lt_zpow_succ_log_self (b := 10) (by decide) q
  push_cast at hlo hhi
  have hpos : (0 : ℚ) < 10 ^ (Int.log 10 q - 5) := zpow_pos (by norm_num) _
  constructor
  · rw [le_div_iff₀ hpos, ← zpow_natCast, ← zpow_add₀ (by norm_num)]
    simpa using hlo
  · rw [div_lt_iff₀ hpos, ← zpow_natCast, ← zpow_add₀ (by norm_num)]
    refine hhi.trans_eq ?_
    congr 1
    push_cast
    ring

theorem sixDigits_fst {q : ℚ} (hq : 0 < q) : SixDigits (Double.sixDigits q).1 := by
  obtain ⟨hlo, hhi⟩ := leading_bounds hq
  obtain ⟨h₁, h₂⟩ := roundEven_bounds (q := q / 10 ^ (Int.log 10 q - 5)) (by linarith)
  have hge : 10 ^ 5 < roundEven (q / 10 ^ (Int.log 10 q - 5)) + 1 := by
    have : ((10 ^ 5 : ℕ) : ℚ) < (roundEven (q / 10 ^ (Int.log 10 q - 5)) + 1 : ℕ) := by push_cast; linarith
    exact_mod_cast this
  have hle : roundEven (q / 10 ^ (Int.log 10 q - 5)) < 10 ^ 6 + 1 := by
    have : (roundEven (q / 10 ^ (Int.log 10 q - 5)) : ℚ) < (10 ^ 6 + 1 : ℕ) := by push_cast; linarith
    exact_mod_cast this
  unfold Double.sixDigits SixDigits
  simp only
  split_ifs with h
  · exact ⟨le_rfl, by norm_num⟩
  · exact ⟨by omega, by omega⟩

/-! ## Printed numbers -/

/-- The bytes of a printed finite number. -/
def IsNumeral (c : UInt8) : Prop := isDigit c = true ∨ c ∈ text ".e+-"

theorem isNumeral_printExpo {x : ℤ} : ∀ c ∈ Double.printExpo x, IsNumeral c := by
  unfold Double.printExpo
  rw [List.forall_mem_cons]
  constructor
  · split_ifs <;> exact .inr (by decide)
  · intro c hc
    left
    split_ifs at hc
    · rcases List.mem_cons.mp hc with rfl | hc
      · decide
      · exact isDigit_of_mem_decimal hc
    · exact isDigit_of_mem_decimal hc

theorem isNumeral_withFraction {whole frac : List UInt8} (hw : ∀ c ∈ whole, isDigit c = true)
    (hf : ∀ c ∈ frac, isDigit c = true) : ∀ c ∈ Double.withFraction whole frac, IsNumeral c := by
  intro c hc
  rcases mem_withFraction hc with h | h | rfl
  · exact .inl (hw c h)
  · exact .inl (hf c h)
  · exact .inr (by decide)

theorem isNumeral_printDigits {n : ℕ} {x : ℤ} : ∀ c ∈ Double.printDigits n x, IsNumeral c := by
  have htake : ∀ k, ∀ c ∈ (decimal n).take k, isDigit c = true :=
    fun k c hc => isDigit_of_mem_decimal (List.mem_of_mem_take hc)
  unfold Double.printDigits
  simp only
  split_ifs
  · rw [List.forall_mem_append, List.forall_mem_cons]
    exact ⟨isNumeral_withFraction (htake 1) isDigit_of_mem_drop, .inr (by decide), isNumeral_printExpo⟩
  · exact isNumeral_withFraction (htake _) isDigit_of_mem_drop
  · exact isNumeral_withFraction (by decide) isDigit_of_mem_zeros

/-- The first byte is a digit. -/
theorem head_withFraction {whole : List UInt8} (hw : Json.Digits whole) (frac t : List UInt8) :
    ∃ c r, Double.withFraction whole frac ++ t = c :: r ∧ isDigit c = true := by
  obtain ⟨hne, hd⟩ := hw
  cases whole with
  | nil => exact absurd rfl hne
  | cons c w =>
      have hc := hd c List.mem_cons_self
      rw [withFraction_eq]
      split_ifs
      · exact ⟨c, _, rfl, hc⟩
      · exact ⟨c, _, rfl, hc⟩

theorem head_printDigits {n : ℕ} (h : SixDigits n) (x : ℤ) :
    ∃ c r, Double.printDigits n x = c :: r ∧ isDigit c = true := by
  unfold Double.printDigits
  simp only
  split_ifs
  · exact head_withFraction (h.digits_take Nat.one_pos) _ _
  · have hhead := head_withFraction (h.digits_take (Nat.succ_pos x.toNat)) ((decimal n).drop (x.toNat + 1)) []
    rwa [List.append_nil] at hhead
  · have hzero : Json.Digits [byte '0'] := ⟨List.cons_ne_nil _ _, by decide⟩
    have hhead := head_withFraction hzero (List.replicate (-x - 1).toNat (byte '0') ++ decimal n) []
    rwa [List.append_nil] at hhead

theorem IsNumeral.toLower_eq {c : UInt8} (h : IsNumeral c) : Double.toLower c = c := by
  apply if_neg
  rintro ⟨hlo, hhi⟩
  rcases h with h | h
  · simp only [isDigit, Bool.and_eq_true, decide_eq_true_eq, UInt8.le_iff_toNat_le] at h hlo hhi
    exact absurd (hlo.trans h.2) (by decide)
  · have htext : text ".e+-" = [byte '.', byte 'e', byte '+', byte '-'] := by decide
    simp only [htext, List.mem_cons, List.not_mem_nil, or_false] at h
    rcases h with rfl | rfl | rfl | rfl <;> revert hlo hhi <;> decide

/-- A numeral starts with no word that has a letter of its own. -/
theorem startsWith_numeral {w s : List UInt8} {b : UInt8} (hb : b ∈ w) (hnum : ¬ IsNumeral b)
    (hs : ∀ c ∈ s, IsNumeral c) : Double.startsWith w s = false := by
  by_contra h
  have heq : (s.take w.length).map Double.toLower = w := by
    simpa [Double.startsWith] using h
  rw [← heq] at hb
  obtain ⟨c, hc, rfl⟩ := List.mem_map.mp hb
  have hcn := hs c (List.mem_of_mem_take hc)
  rw [hcn.toLower_eq] at hnum
  exact hnum hcn

theorem readMagnitude_numeral {s : List UInt8} (hs : ∀ c ∈ s, IsNumeral c) (negative : Bool) :
    Double.readMagnitude negative s =
      (Double.readNumeral isDigit 10 10 (text "eE") s).map (Double.nearest negative) := by
  have hletter : ∀ b ∈ text "nx", ¬ IsNumeral b := by
    have htext : text "nx" = [byte 'n', byte 'x'] := by decide
    unfold IsNumeral
    rw [htext]
    decide
  have hinf := startsWith_numeral (w := text "inf") (b := byte 'n') (by decide) (hletter _ (by decide)) hs
  have hnan := startsWith_numeral (w := text "nan") (b := byte 'n') (by decide) (hletter _ (by decide)) hs
  have hhex := startsWith_numeral (w := text "0x") (b := byte 'x') (by decide) (hletter _ (by decide)) hs
  unfold Double.readMagnitude
  simp [hinf, hnan, hhex]

namespace Double

theorem magnitude_pos {x : Double} (h : x.nonzero = true) : 0 < x.magnitude := by
  unfold magnitude
  simp only [nonzero, Bool.or_eq_true, bne_iff_ne] at h
  split_ifs with he
  · have hf : 0 < x.frac.val := by
      rw [Nat.pos_iff_ne_zero]
      intro hz
      exact (h.resolve_left (not_not_intro he)) (Fin.ext hz)
    have hcast : (0 : ℚ) < (x.frac.val : ℚ) := by exact_mod_cast hf
    positivity
  · have hf : (0 : ℚ) ≤ (x.frac.val : ℚ) := Nat.cast_nonneg _
    positivity

/-- What a printed number is read as. -/
def reread (x : Double) : Double :=
  if x.isNan then ⟨x.negative, 2047, 2 ^ 51⟩
  else if !x.isFinite then ⟨x.negative, 2047, 0⟩
  else if !x.nonzero then ⟨x.negative, 0, 0⟩
  else nearest x.negative ((sixDigits x.magnitude).1 * (10 : ℚ) ^ ((sixDigits x.magnitude).2 - 5))

theorem readMagnitude_printMagnitude (x : Double) : readMagnitude x.negative x.printMagnitude = some x.reread := by
  unfold printMagnitude reread
  split_ifs with hnan hinf hzero
  · cases x.negative <;> decide
  · cases x.negative <;> decide
  · have hnum : ∀ c ∈ text "0", IsNumeral c := by
      have htext : text "0" = [byte '0'] := by decide
      rw [htext]
      exact List.forall_mem_singleton.mpr (.inl (by decide))
    have hread : readNumeral isDigit 10 10 (text "eE") (text "0") = some 0 := by
      have hzero : Json.Digits (text "0") := ⟨by decide, by decide⟩
      have h := readNumeral_whole hzero NoDigit.nil (by simp)
      rw [List.append_nil] at h
      rw [h]
      simp [show digitsValue (text "0") = 0 by decide]
    rw [readMagnitude_numeral hnum, hread]
    rfl
  · have hsix := sixDigits_fst (magnitude_pos (by simpa using hzero))
    rw [readMagnitude_numeral isNumeral_printDigits, readNumeral_printDigits hsix]
    rfl

/-- Neither white space nor a sign. -/
theorem head_printMagnitude (x : Double) :
    ∃ c t, x.printMagnitude = c :: t ∧ isCSpace c = false ∧ c ≠ byte '-' ∧ c ≠ byte '+' := by
  unfold printMagnitude
  split_ifs with hnan hinf hzero
  · exact ⟨byte 'n', text "an", by decide, by decide, by decide, by decide⟩
  · exact ⟨byte 'i', text "nf", by decide, by decide, by decide, by decide⟩
  · exact ⟨byte '0', [], by decide, by decide, by decide, by decide⟩
  · obtain ⟨c, t, heq, hc⟩ := head_printDigits (sixDigits_fst (magnitude_pos (by simpa using hzero))) _
    exact ⟨c, t, heq, isCSpace_of_isDigit hc, ne_of_isDigit hc (by decide), ne_of_isDigit hc (by decide)⟩

theorem strtod_print (x : Double) : strtod x.print = some x.reread := by
  have hread := readMagnitude_printMagnitude x
  unfold strtod print
  cases hneg : x.negative with
  | true =>
      rw [hneg] at hread
      simp only [if_true, dropWhile_isCSpace_cons (c := byte '-') (by decide), readSign]
      exact hread
  | false =>
      rw [hneg] at hread
      obtain ⟨c, t, heq, hspace, hminus, hplus⟩ := head_printMagnitude x
      simp only [Bool.false_eq_true, if_false]
      rw [heq] at hread ⊢
      simp only [dropWhile_isCSpace_cons hspace, readSign, if_neg hminus, if_neg hplus]
      exact hread

/-- The bytes of a printed number. -/
theorem mem_print {x : Double} {c : UInt8} (h : c ∈ x.print) : IsNumeral c ∨ c ∈ text "infa" := by
  have hmag : ∀ c ∈ x.printMagnitude, IsNumeral c ∨ c ∈ text "infa" := by
    unfold printMagnitude
    split_ifs
    · exact fun c hc => .inr (by revert hc; revert c; decide)
    · exact fun c hc => .inr (by revert hc; revert c; decide)
    · exact fun c hc => .inl (.inl (by revert hc; revert c; decide))
    · exact fun c hc => .inl (isNumeral_printDigits c hc)
  unfold print at h
  split_ifs at h
  · rcases List.mem_cons.mp h with rfl | h
    · exact .inl (.inr (by decide))
    · exact hmag c h
  · exact hmag c h

theorem print_ne_nil (x : Double) : x.print ≠ [] := by
  obtain ⟨c, t, heq, -⟩ := head_printMagnitude x
  unfold print
  rw [heq]
  split_ifs <;> exact List.cons_ne_nil _ _

/-! ## How long a printed number is -/

theorem magnitude_bounds {x : Double} (hfin : x.isFinite = true) (h : x.nonzero = true) :
    (2 : ℚ) ^ (-1074 : ℤ) ≤ x.magnitude ∧ x.magnitude < (2 : ℚ) ^ (1024 : ℤ) := by
  have hf : (x.frac.val : ℚ) < 2 ^ 52 := by exact_mod_cast x.frac.isLt
  have hf₀ : (0 : ℚ) ≤ x.frac.val := Nat.cast_nonneg _
  unfold magnitude
  split_ifs with he
  · have hone : (1 : ℚ) ≤ x.frac.val := by
      have hpos := magnitude_pos h
      rw [magnitude, if_pos he] at hpos
      have : 0 < x.frac.val := by
        by_contra hz
        rw [Nat.eq_zero_of_not_pos hz] at hpos
        simp at hpos
      exact_mod_cast this
    have hp : (0 : ℚ) < 2 ^ (-1074 : ℤ) := by positivity
    constructor
    · exact le_mul_of_one_le_left hp.le hone
    · calc (x.frac.val : ℚ) * 2 ^ (-1074 : ℤ) < 2 ^ 52 * 2 ^ (-1074 : ℤ) := mul_lt_mul_of_pos_right hf hp
        _ ≤ 2 ^ (1024 : ℤ) := by
            rw [← zpow_natCast, ← zpow_add₀ (by norm_num)]
            exact zpow_le_zpow_right₀ (by norm_num) (by norm_num)
  · have hlt : x.expo.val < 2047 := by
      have hne : x.expo ≠ 2047 := by simpa [isFinite] using hfin
      have := x.expo.isLt
      have hval : x.expo.val ≠ 2047 := fun hv => hne (Fin.ext hv)
      omega
    have hge : 1 ≤ x.expo.val := Nat.one_le_iff_ne_zero.mpr fun hv => he (Fin.ext hv)
    have hp : (0 : ℚ) < 2 ^ ((x.expo.val : ℤ) - 1075) := by positivity
    have h53 : (2 : ℚ) ^ 52 + x.frac.val < 2 ^ (53 : ℤ) := by
      have htwo : (2 : ℚ) ^ (53 : ℤ) = 2 ^ 52 + 2 ^ 52 := by norm_num
      rw [htwo]
      linarith
    constructor
    · calc (2 : ℚ) ^ (-1074 : ℤ) ≤ 2 ^ ((52 : ℤ) + ((x.expo.val : ℤ) - 1075)) :=
            zpow_le_zpow_right₀ (by norm_num) (by omega)
        _ = 2 ^ (52 : ℕ) * 2 ^ ((x.expo.val : ℤ) - 1075) := by rw [zpow_add₀ (by norm_num)]; norm_num
        _ ≤ _ := mul_le_mul_of_nonneg_right (by linarith) hp.le
    · calc ((2 : ℚ) ^ 52 + x.frac.val) * 2 ^ ((x.expo.val : ℤ) - 1075)
          < 2 ^ (53 : ℤ) * 2 ^ ((x.expo.val : ℤ) - 1075) :=
            mul_lt_mul_of_pos_right h53 hp
        _ = 2 ^ ((53 : ℤ) + ((x.expo.val : ℤ) - 1075)) := by rw [zpow_add₀ (by norm_num)]
        _ ≤ 2 ^ (1024 : ℤ) := zpow_le_zpow_right₀ (by norm_num) (by omega)

theorem natAbs_sixDigits_snd {x : Double} (hfin : x.isFinite = true) (h : x.nonzero = true) :
    (sixDigits x.magnitude).2.natAbs < 10 ^ 4 := by
  obtain ⟨hlo, hhi⟩ := magnitude_bounds hfin h
  have hpos := magnitude_pos h
  have hlo' : -1074 ≤ Int.log 10 x.magnitude := by
    rw [← Int.zpow_le_iff_le_log (by decide) hpos]
    refine le_trans ?_ hlo
    rw [zpow_neg, zpow_neg]
    exact inv_anti₀ (by positivity) (zpow_le_zpow_left₀ (by norm_num) (by norm_num) (by norm_num))
  have hhi' : Int.log 10 x.magnitude < 1024 := by
    rw [← Int.lt_zpow_iff_log_lt (by decide) hpos]
    exact hhi.trans_le (zpow_le_zpow_left₀ (by norm_num) (by norm_num) (by norm_num))
  unfold sixDigits
  simp only
  split_ifs
  · show (Int.log 10 x.magnitude + 1).natAbs < _
    omega
  · show (Int.log 10 x.magnitude).natAbs < _
    omega

theorem length_printExpo_le {x : ℤ} (h : x.natAbs < 10 ^ 4) : (printExpo x).length ≤ 5 := by
  unfold printExpo
  rw [List.length_cons]
  split_ifs with h10
  · have := length_decimal_le (k := 0) h10
    rw [List.length_cons]
    omega
  · have := length_decimal_le (k := 3) h
    omega

theorem length_printDigits_le {n : ℕ} (hn : SixDigits n) {x : ℤ} (hx : x.natAbs < 10 ^ 4) :
    (printDigits n x).length ≤ 13 := by
  have hlen := hn.length
  unfold printDigits
  simp only
  split_ifs
  · have h₁ := length_withFraction_le ((decimal n).take 1) ((decimal n).drop 1)
    have h₂ := length_printExpo_le hx
    rw [List.length_take, List.length_drop, hlen] at h₁
    rw [List.length_append, List.length_cons]
    omega
  · have h₁ := length_withFraction_le ((decimal n).take (x.toNat + 1)) ((decimal n).drop (x.toNat + 1))
    rw [List.length_take, List.length_drop, hlen] at h₁
    omega
  · have h₁ := length_withFraction_le [byte '0'] (List.replicate (-x - 1).toNat (byte '0') ++ decimal n)
    rw [List.length_append, List.length_replicate, List.length_singleton, hlen] at h₁
    omega

theorem length_print_le (x : Double) : x.print.length ≤ 14 := by
  have hmag : x.printMagnitude.length ≤ 13 := by
    unfold printMagnitude
    split_ifs with hnan hinf hzero
    · decide
    · decide
    · decide
    · have hnz : x.nonzero = true := by simpa using hzero
      exact length_printDigits_le (sixDigits_fst (magnitude_pos hnz))
        (natAbs_sixDigits_snd (by simpa using hinf) hnz)
  unfold print
  split_ifs
  · rw [List.length_cons]
    omega
  · omega

/-! ## JSON numbers -/

theorem fraction_rdropWhile {frac : List UInt8} (hf : ∀ c ∈ frac, isDigit c = true) :
    ∃ f, Json.Fraction f ∧ ∀ whole, withFraction whole frac = whole ++ f := by
  by_cases hnil : frac.rdropWhile (· == byte '0') = []
  · refine ⟨[], .inl rfl, fun whole => ?_⟩
    rw [withFraction_eq, if_pos hnil, List.append_nil]
  · refine ⟨_, .inr ⟨_, ⟨hnil, fun c hc => hf c ((List.rdropWhile_prefix _ _).mem hc)⟩, rfl⟩, fun whole => ?_⟩
    rw [withFraction_eq, if_neg hnil]

theorem exponent_printExpo (x : ℤ) : Json.Exponent (byte 'e' :: printExpo x) := by
  have hds : Json.Digits (if x.natAbs < 10 then byte '0' :: decimal x.natAbs else decimal x.natAbs) := by
    split_ifs
    · refine ⟨List.cons_ne_nil _ _, ?_⟩
      rw [List.forall_mem_cons]
      exact ⟨by decide, (digits_decimal _).2⟩
    · exact digits_decimal _
  refine .inr ⟨byte 'e', [if x < 0 then byte '-' else byte '+'], _, .inl rfl, ?_, hds, rfl⟩
  split_ifs <;> simp

theorem whole_take {n k : ℕ} (h : SixDigits n) (hk : 0 < k) : Json.Whole ((decimal n).take k) := by
  refine .inr ⟨h.digits_take hk, ?_⟩
  rw [List.head?_take, if_neg hk.ne']
  exact head_decimal_ne (Nat.lt_of_lt_of_le (by decide) h.1).ne'

theorem number_printDigits {n : ℕ} (h : SixDigits n) (x : ℤ) {sign : List UInt8} (hs : sign ∈ [[], [byte '-']]) :
    Json.Number (sign ++ printDigits n x) := by
  unfold printDigits
  simp only
  split_ifs
  · obtain ⟨f, hf, heq⟩ := fraction_rdropWhile (isDigit_of_mem_drop (n := n) (k := 1))
    rw [heq, List.append_assoc]
    exact .mk hs (whole_take h Nat.one_pos) hf (exponent_printExpo x)
  · obtain ⟨f, hf, heq⟩ := fraction_rdropWhile (isDigit_of_mem_drop (n := n) (k := x.toNat + 1))
    rw [heq, ← List.append_nil f]
    exact .mk hs (whole_take h (Nat.succ_pos _)) hf (.inl rfl)
  · obtain ⟨f, hf, heq⟩ := fraction_rdropWhile (isDigit_of_mem_zeros (n := n) (k := (-x - 1).toNat))
    rw [heq, ← List.append_nil f]
    exact .mk hs (.inl rfl) hf (.inl rfl)

/-- A finite number prints as a JSON number. -/
theorem number_print {x : Double} (hfin : x.isFinite = true) : Json.Number x.print := by
  have hmag : ∀ sign : List UInt8, sign ∈ [[], [byte '-']] → Json.Number (sign ++ x.printMagnitude) := by
    intro sign hs
    have hnan : x.isNan = false := by
      simp only [isFinite, bne_iff_ne] at hfin
      simp [isNan, hfin]
    unfold printMagnitude
    simp only [hnan, hfin, Bool.not_true, Bool.false_eq_true, if_false]
    split_ifs with hzero
    · have h := Json.Number.mk hs (.inl rfl) (.inl rfl) (.inl rfl)
      rwa [List.append_nil, List.append_nil] at h
    · exact number_printDigits (sixDigits_fst (magnitude_pos (by simpa using hzero))) _ hs
  unfold print
  split_ifs
  · exact hmag [byte '-'] (by simp)
  · exact hmag [] (by simp)

/-- A number has a digit. -/
theorem exists_digit {s : List UInt8} (h : Json.Number s) : ∃ c ∈ s, isDigit c = true := by
  obtain ⟨-, hwhole, -, -⟩ := h
  have hdigit : ∀ {whole : List UInt8}, Json.Whole whole → ∃ c ∈ whole, isDigit c = true := by
    rintro whole (rfl | ⟨⟨hne, hds⟩, -⟩)
    · exact ⟨_, List.mem_cons_self, by decide⟩
    · obtain ⟨c, t, rfl⟩ := List.exists_cons_of_ne_nil hne
      exact ⟨c, List.mem_cons_self, hds c List.mem_cons_self⟩
  obtain ⟨c, hc, hd⟩ := hdigit hwhole
  exact ⟨c, List.mem_append_right _ (List.mem_append_left _ hc), hd⟩

theorem not_value_name {s : List UInt8} (hs : s ∈ [text "nan", text "-nan", text "inf", text "-inf"]) :
    ¬ Json.Value s := by
  have hhead : s.head? ≠ some (byte '"') ∧ s.head? ≠ some (byte '[') ∧ s.head? ≠ some (byte '{') := by
    revert s
    decide
  intro h
  cases h with
  | string => exact hhead.1 rfl
  | number h =>
      have hno : ∀ c ∈ s, isDigit c = false := by
        clear h hhead
        revert s
        decide
      obtain ⟨c, hc, hd⟩ := exists_digit h
      rw [hno c hc] at hd
      cases hd
  | literal h =>
      revert s
      decide
  | emptyArray => exact hhead.2.1 rfl
  | array => exact hhead.2.1 rfl
  | emptyObject => exact hhead.2.2 rfl
  | object => exact hhead.2.2 rfl

/-- A number prints as a JSON value where it is finite. -/
theorem value_print_iff (x : Double) : Json.Value x.print ↔ x.isFinite = true := by
  constructor
  · intro h
    by_contra hfin
    rw [Bool.not_eq_true] at hfin
    refine not_value_name ?_ h
    unfold print printMagnitude
    simp only [hfin, Bool.not_false, if_true]
    split_ifs <;> decide
  · exact fun hfin => .number (number_print hfin)

end Double

end SimpleSatOps
