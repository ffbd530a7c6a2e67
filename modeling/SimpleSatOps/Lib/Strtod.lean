import SimpleSatOps.Lib.Printf

/-!
# Where `strtod` stops

* `strtodEnd` : the text behind the number, at which `strtod` points when it converts one;
* `strtod_append`, `strtodEnd_append` : nothing is read across a delimiter;
* `strtod_whole`, `strtod_point` : the numerals of `"%.0f"` and `"%.kf"`, and their beginnings;
* `nearest_magnitude` : a number is the nearest one to its own value;
* `Double.printWhole` : `"%.0f"`;
* `strtod_printWhole`, `strtod_printFixed` : printed numbers are read back.
-/

namespace SimpleSatOps

namespace Double

/-- The text behind an exponent; without digits there is none. -/
def expoEnd (letters s : List UInt8) : List UInt8 :=
  match s with
  | [] => []
  | c :: t => if c ∈ letters ∧ (readSign t).2.takeWhile isDigit ≠ [] then (readSign t).2.dropWhile isDigit else c :: t

def numeralEnd (isD : UInt8 → Bool) (letters s : List UInt8) : List UInt8 :=
  let rest := s.dropWhile isD
  expoEnd letters (if rest.head? = some (byte '.') then rest.tail.dropWhile isD else rest)

/-- The text behind `nan`, and a word in parentheses. -/
def nanEnd (s : List UInt8) : List UInt8 :=
  match s with
  | [] => []
  | c :: t =>
      let rest := t.dropWhile fun c => isAlnum c || c == byte '_'
      if c = byte '(' ∧ rest.head? = some (byte ')') then rest.tail else c :: t

/-- The text behind what `readMagnitude` reads. -/
def magnitudeEnd (s : List UInt8) : List UInt8 :=
  if startsWith (text "infinity") s then s.drop 8
  else if startsWith (text "inf") s then s.drop 3
  else if startsWith (text "nan") s then nanEnd (s.drop 3)
  else if startsWith (text "0x") s ∧ (readNumeral isXdigit 16 2 (text "pP") (s.drop 2)).isSome then
    numeralEnd isXdigit (text "pP") (s.drop 2)
  else numeralEnd isDigit (text "eE") s

end Double

/-- `*endptr` of a `strtod` that converts a number. -/
def strtodEnd (s : List UInt8) : List UInt8 := Double.magnitudeEnd (Double.readSign (s.dropWhile isCSpace)).2

/-! ## Delimiters -/

theorem takeWhile_delimiter {p : UInt8 → Bool} {c : UInt8} (hc : p c = false) (s r : List UInt8) :
    (s ++ c :: r).takeWhile p = s.takeWhile p := by
  induction s with
  | nil => exact List.takeWhile_cons_of_neg (by rw [hc]; decide)
  | cons d s ih => rw [List.cons_append, List.takeWhile_cons, List.takeWhile_cons, ih]

theorem dropWhile_delimiter {p : UInt8 → Bool} {c : UInt8} (hc : p c = false) (s r : List UInt8) :
    (s ++ c :: r).dropWhile p = s.dropWhile p ++ c :: r := by
  induction s with
  | nil => exact List.dropWhile_cons_of_neg (by rw [hc]; decide)
  | cons d s ih =>
      rw [List.cons_append, List.dropWhile_cons, List.dropWhile_cons, ih]
      split_ifs <;> rfl

namespace Double

theorem startsWith_append {w : List UInt8} {c : UInt8} (hc : toLower c ∉ w) (s r : List UInt8) :
    startsWith w (s ++ c :: r) = startsWith w s := by
  unfold startsWith
  by_cases hlen : w.length ≤ s.length
  · rw [List.take_append_of_le_length hlen]
  · have hshort : ((s.take w.length).map toLower == w) = false := by
      rw [beq_eq_false_iff_ne]
      intro h
      have hl := congrArg List.length h
      rw [List.length_map, List.length_take] at hl
      omega
    rw [hshort, beq_eq_false_iff_ne]
    intro h
    apply hc
    rw [← h, List.mem_map]
    refine ⟨c, ?_, rfl⟩
    have hpos : w.length - s.length = (w.length - s.length - 1) + 1 := by omega
    rw [List.take_append, hpos, List.take_succ_cons]
    exact List.mem_append_right _ List.mem_cons_self

theorem le_length_of_startsWith {w s : List UInt8} (h : startsWith w s = true) : w.length ≤ s.length := by
  have hl := congrArg List.length (beq_iff_eq.mp h)
  rw [List.length_map, List.length_take] at hl
  omega

theorem readSign_append {c : UInt8} (hc : c ≠ byte '-' ∧ c ≠ byte '+') (s r : List UInt8) :
    readSign (s ++ c :: r) = ((readSign s).1, (readSign s).2 ++ c :: r) := by
  cases s with
  | nil =>
      show (if c = byte '-' then (true, r) else if c = byte '+' then (false, r) else (false, c :: r)) = _
      rw [if_neg hc.1, if_neg hc.2]
      rfl
  | cons d s =>
      rw [List.cons_append, readSign, readSign]
      split_ifs <;> rfl

theorem readExpo_append {letters : List UInt8} {c : UInt8} (hl : c ∉ letters) (hsign : c ≠ byte '-' ∧ c ≠ byte '+')
    (hdigit : isDigit c = false) (s r : List UInt8) : readExpo letters (s ++ c :: r) = readExpo letters s := by
  cases s with
  | nil => exact if_neg hl
  | cons d s =>
      rw [List.cons_append, readExpo, readExpo, readSign_append hsign, takeWhile_delimiter hdigit]

theorem expoEnd_append {letters : List UInt8} {c : UInt8} (hl : c ∉ letters) (hsign : c ≠ byte '-' ∧ c ≠ byte '+')
    (hdigit : isDigit c = false) (s r : List UInt8) :
    expoEnd letters (s ++ c :: r) = expoEnd letters s ++ c :: r := by
  cases s with
  | nil => exact if_neg fun h => hl h.1
  | cons d s =>
      rw [List.cons_append, expoEnd, expoEnd, readSign_append hsign, takeWhile_delimiter hdigit,
        dropWhile_delimiter hdigit]
      split_ifs <;> rfl

section
variable {isD : UInt8 → Bool} {letters : List UInt8} {c : UInt8} (hD : isD c = false) (hl : c ∉ letters)
  (hsign : c ≠ byte '-' ∧ c ≠ byte '+') (hdigit : isDigit c = false) (hpoint : c ≠ byte '.')
include hD hl hsign hdigit hpoint

theorem readNumeral_append (base expoBase : ℕ) (s r : List UInt8) :
    readNumeral isD base expoBase letters (s ++ c :: r) = readNumeral isD base expoBase letters s := by
  unfold readNumeral
  rw [takeWhile_delimiter hD, dropWhile_delimiter hD]
  cases s.dropWhile isD with
  | nil =>
      have hhead : ¬ (c :: r).head? = some (byte '.') := fun h => hpoint (Option.some.inj h)
      have hnil : ¬ ([] : List UInt8).head? = some (byte '.') := fun h => Option.some_ne_none _ h.symm
      have hexpo := readExpo_append hl hsign hdigit [] r
      rw [List.nil_append] at hexpo ⊢
      simp only [if_neg hhead, if_neg hnil, hexpo]
  | cons d t =>
      have hexpo := readExpo_append hl hsign hdigit
      by_cases hd : d = byte '.'
      · subst hd
        simp only [List.cons_append, List.head?_cons, if_true, List.tail_cons, takeWhile_delimiter hD,
          dropWhile_delimiter hD, hexpo]
      · have hhead : ∀ t : List UInt8, ¬ (d :: t).head? = some (byte '.') := fun t h => hd (Option.some.inj h)
        have hexpo' := hexpo (d :: t) r
        rw [List.cons_append] at hexpo' ⊢
        simp only [if_neg (hhead _), hexpo']

theorem numeralEnd_append (s r : List UInt8) :
    numeralEnd isD letters (s ++ c :: r) = numeralEnd isD letters s ++ c :: r := by
  unfold numeralEnd
  rw [dropWhile_delimiter hD]
  cases s.dropWhile isD with
  | nil =>
      have hhead : ¬ (c :: r).head? = some (byte '.') := fun h => hpoint (Option.some.inj h)
      have hnil : ¬ ([] : List UInt8).head? = some (byte '.') := fun h => Option.some_ne_none _ h.symm
      have hexpo := expoEnd_append hl hsign hdigit [] r
      rw [List.nil_append] at hexpo ⊢
      simp only [if_neg hhead, if_neg hnil, hexpo]
  | cons d t =>
      have hexpo := expoEnd_append hl hsign hdigit
      by_cases hd : d = byte '.'
      · subst hd
        simp only [List.cons_append, List.head?_cons, if_true, List.tail_cons, dropWhile_delimiter hD, hexpo]
      · have hhead : ∀ t : List UInt8, ¬ (d :: t).head? = some (byte '.') := fun t h => hd (Option.some.inj h)
        have hexpo' := hexpo (d :: t) r
        rw [List.cons_append] at hexpo' ⊢
        simp only [if_neg (hhead _), hexpo']

end

theorem nanEnd_append {c : UInt8} (hword : (isAlnum c || c == byte '_') = false) (hopen : c ≠ byte '(')
    (hclose : c ≠ byte ')') (s r : List UInt8) : nanEnd (s ++ c :: r) = nanEnd s ++ c :: r := by
  cases s with
  | nil => exact if_neg fun h => hopen h.1
  | cons d s =>
      rw [List.cons_append, nanEnd, nanEnd, dropWhile_delimiter (p := fun c => isAlnum c || c == byte '_') hword]
      cases s.dropWhile fun c => isAlnum c || c == byte '_' with
      | nil =>
          rw [List.nil_append, if_neg fun h => hclose (Option.some.inj h.2),
            if_neg fun h => Option.some_ne_none _ h.2.symm]
          rfl
      | cons e t =>
          rw [List.cons_append, List.head?_cons, List.head?_cons, List.tail_cons, List.tail_cons]
          split_ifs <;> rfl

/-- A character that is part of no number. -/
structure Delimits (c : UInt8) : Prop where
  space : isCSpace c = false
  sign : c ≠ byte '-' ∧ c ≠ byte '+'
  digit : isDigit c = false
  xdigit : isXdigit c = false
  point : c ≠ byte '.'
  expo : c ∉ text "eE" ∧ c ∉ text "pP"
  word : toLower c ∉ text "infinity" ∧ toLower c ∉ text "inf" ∧ toLower c ∉ text "nan" ∧ toLower c ∉ text "0x"
  nan : (isAlnum c || c == byte '_') = false ∧ c ≠ byte '(' ∧ c ≠ byte ')'

theorem delimits_comma : Delimits (byte ',') where
  space := by decide
  sign := by decide
  digit := by decide
  xdigit := by decide
  point := by decide
  expo := by decide
  word := by decide
  nan := by decide

theorem delimits_bracket : Delimits (byte ']') where
  space := by decide
  sign := by decide
  digit := by decide
  xdigit := by decide
  point := by decide
  expo := by decide
  word := by decide
  nan := by decide

section
variable {c : UInt8} (hc : Delimits c)
include hc

theorem readMagnitude_append (negative : Bool) (s r : List UInt8) :
    readMagnitude negative (s ++ c :: r) = readMagnitude negative s := by
  have hnumeral := readNumeral_append hc.digit hc.expo.1 hc.sign hc.digit hc.point
  have hhex := readNumeral_append hc.xdigit hc.expo.2 hc.sign hc.digit hc.point
  unfold readMagnitude
  rw [startsWith_append hc.word.2.1, startsWith_append hc.word.2.2.1, startsWith_append hc.word.2.2.2, hnumeral]
  cases hx : startsWith (text "0x") s with
  | false => simp only [Bool.false_eq_true, false_and, if_false]
  | true =>
      have hlen : 2 ≤ s.length := le_length_of_startsWith hx
      rw [List.drop_append_of_le_length hlen, hhex]

theorem magnitudeEnd_append (s r : List UInt8) : magnitudeEnd (s ++ c :: r) = magnitudeEnd s ++ c :: r := by
  have hnumeral := numeralEnd_append hc.digit hc.expo.1 hc.sign hc.digit hc.point
  have hhex := numeralEnd_append hc.xdigit hc.expo.2 hc.sign hc.digit hc.point
  have hread := readNumeral_append hc.xdigit hc.expo.2 hc.sign hc.digit hc.point 16 2
  have hdrop : ∀ w, startsWith w s = true → ∀ n ≤ w.length, (s ++ c :: r).drop n = s.drop n ++ c :: r :=
    fun w hw n hn => List.drop_append_of_le_length (hn.trans (le_length_of_startsWith hw))
  unfold magnitudeEnd
  rw [startsWith_append hc.word.1, startsWith_append hc.word.2.1, startsWith_append hc.word.2.2.1,
    startsWith_append hc.word.2.2.2, hnumeral]
  by_cases hinfinity : startsWith (text "infinity") s = true
  · rw [if_pos hinfinity, if_pos hinfinity, hdrop _ hinfinity 8 (by decide)]
  rw [if_neg hinfinity, if_neg hinfinity]
  by_cases hinf : startsWith (text "inf") s = true
  · rw [if_pos hinf, if_pos hinf, hdrop _ hinf 3 (by decide)]
  rw [if_neg hinf, if_neg hinf]
  by_cases hnan : startsWith (text "nan") s = true
  · rw [if_pos hnan, if_pos hnan, hdrop _ hnan 3 (by decide), nanEnd_append hc.nan.1 hc.nan.2.1 hc.nan.2.2]
  rw [if_neg hnan, if_neg hnan]
  by_cases hx : startsWith (text "0x") s = true
  · rw [hdrop _ hx 2 (by decide), hread, hhex]
    split_ifs <;> rfl
  · rw [if_neg fun h => hx h.1, if_neg fun h => hx h.1]

end

end Double

section
variable {c : UInt8} (hc : Double.Delimits c) (s r : List UInt8)
include hc

/-- Nothing is read across a delimiter. -/
theorem strtod_append : strtod (s ++ c :: r) = strtod s := by
  unfold strtod
  rw [dropWhile_delimiter hc.space, Double.readSign_append hc.sign]
  exact Double.readMagnitude_append hc _ _ r

theorem strtodEnd_append : strtodEnd (s ++ c :: r) = strtodEnd s ++ c :: r := by
  unfold strtodEnd
  rw [dropWhile_delimiter hc.space, Double.readSign_append hc.sign]
  exact Double.magnitudeEnd_append hc _ r

end

/-! ## Numerals -/

/-- The sign in front of a number. -/
def signText (negative : Bool) : List UInt8 := if negative then [byte '-'] else []

theorem readSign_signText (negative : Bool) {s : List UInt8} (h : Json.Digits s) (t : List UInt8) :
    Double.readSign ((signText negative ++ (s ++ t)).dropWhile isCSpace) = (negative, s ++ t) := by
  cases negative with
  | false => rw [signText, if_neg Bool.false_ne_true, List.nil_append, dropWhile_isCSpace_digits h, readSign_digits h]
  | true =>
      rw [signText, if_pos rfl, List.singleton_append, dropWhile_isCSpace_cons (by decide), Double.readSign, if_pos rfl]

theorem magnitudeEnd_numeral {s : List UInt8} (hs : ∀ c ∈ s, IsNumeral c) :
    Double.magnitudeEnd s = Double.numeralEnd isDigit (text "eE") s := by
  have hletter : ∀ b ∈ text "nx", ¬ IsNumeral b := by
    have htext : text "nx" = [byte 'n', byte 'x'] := by decide
    unfold IsNumeral
    rw [htext]
    decide
  have hinfinity := startsWith_numeral (w := text "infinity") (b := byte 'n') (by decide) (hletter _ (by decide)) hs
  have hinf := startsWith_numeral (w := text "inf") (b := byte 'n') (by decide) (hletter _ (by decide)) hs
  have hnan := startsWith_numeral (w := text "nan") (b := byte 'n') (by decide) (hletter _ (by decide)) hs
  have hhex := startsWith_numeral (w := text "0x") (b := byte 'x') (by decide) (hletter _ (by decide)) hs
  unfold Double.magnitudeEnd
  simp [hinfinity, hinf, hnan, hhex]

/-- Digits without a point are read whole. -/
theorem strtod_whole (negative : Bool) {s : List UInt8} (h : Json.Digits s) :
    strtod (signText negative ++ s) = some (Double.nearest negative (digitsValue s)) ∧
      strtodEnd (signText negative ++ s) = [] := by
  have hnumeral : ∀ c ∈ s, IsNumeral c := fun c hc => .inl (h.2 c hc)
  have hsign := readSign_signText negative h []
  have hread := readNumeral_whole h NoDigit.nil (by simp)
  rw [List.append_nil] at hsign hread
  unfold strtod strtodEnd
  rw [hsign, readMagnitude_numeral hnumeral, hread, magnitudeEnd_numeral hnumeral]
  have hend : s.dropWhile isDigit = [] := by
    have hdrop := dropWhile_digits h.2 NoDigit.nil
    rwa [List.append_nil] at hdrop
  refine ⟨?_, ?_⟩
  · simp [Double.readExpo]
  · unfold Double.numeralEnd
    rw [hend]
    rfl

/-- Digits with a point among them are read whole. -/
theorem strtod_point (negative : Bool) {whole frac : List UInt8} (hw : Json.Digits whole)
    (hf : ∀ c ∈ frac, isDigit c = true) :
    strtod (signText negative ++ (whole ++ byte '.' :: frac)) =
        some (Double.nearest negative (digitsValue (whole ++ frac) / 10 ^ frac.length)) ∧
      strtodEnd (signText negative ++ (whole ++ byte '.' :: frac)) = [] := by
  have hnumeral : ∀ c ∈ whole ++ byte '.' :: frac, IsNumeral c := by
    simp only [List.forall_mem_append, List.forall_mem_cons]
    exact ⟨fun c hc => .inl (hw.2 c hc), .inr (by decide), fun c hc => .inl (hf c hc)⟩
  have hread := readNumeral_point hw hf NoDigit.nil
  rw [List.append_nil] at hread
  unfold strtod strtodEnd
  rw [readSign_signText negative hw, readMagnitude_numeral hnumeral, hread, magnitudeEnd_numeral hnumeral]
  have hend : frac.dropWhile isDigit = [] := by
    have hdrop := dropWhile_digits hf NoDigit.nil
    rwa [List.append_nil] at hdrop
  refine ⟨?_, ?_⟩
  · simp [Double.readExpo, zpow_neg, div_eq_mul_inv]
  · unfold Double.numeralEnd
    rw [dropWhile_digits hw.2 (.cons (by decide) frac)]
    dsimp only
    rw [List.head?_cons, if_pos rfl, List.tail_cons, hend]
    rfl

/-! ## Printed numbers -/

namespace Double

/-- `"%.0f"`. -/
def printWhole (x : Double) : List UInt8 :=
  signText x.negative ++
    if x.isNan then text "nan" else if !x.isFinite then text "inf" else decimal (roundEven x.magnitude)

theorem roundEven_natCast (n : ℕ) : roundEven n = n := by
  apply roundEven_eq (Nat.cast_nonneg n)
  · linarith
  · linarith

/-- **A number is the nearest one to its value.** -/
theorem nearest_magnitude {x : Double} (hfin : x.isFinite = true) : nearest x.negative x.magnitude = x := by
  obtain ⟨neg, e, f⟩ := x
  have he : e.val ≠ 2047 := fun h => bne_iff_ne.mp hfin (Fin.ext h)
  have he' := e.isLt
  by_cases hexpo : e = 0
  · subst hexpo
    have hmag : magnitude ⟨neg, 0, f⟩ = f.val * (2 : ℚ) ^ (-1074 : ℤ) := if_pos rfl
    rw [hmag]
    by_cases hf : f.val = 0
    · have hfrac : f = 0 := Fin.ext hf
      rw [hf, nearest, Nat.cast_zero, zero_mul, if_pos rfl, hfrac]
    · have hpos : (0 : ℚ) < f.val * (2 : ℚ) ^ (-1074 : ℤ) := by
        have hfpos : (0 : ℚ) < f.val := by exact_mod_cast Nat.pos_of_ne_zero hf
        positivity
      have hulp : ulp (f.val * (2 : ℚ) ^ (-1074 : ℤ)) = -1074 := by
        have hlt : (f.val : ℚ) * (2 : ℚ) ^ (-1074 : ℤ) < (2 : ℚ) ^ (-1022 : ℤ) := by
          have hbound : (f.val : ℚ) < 2 ^ 52 := by exact_mod_cast f.isLt
          calc (f.val : ℚ) * (2 : ℚ) ^ (-1074 : ℤ) < 2 ^ 52 * (2 : ℚ) ^ (-1074 : ℤ) :=
                mul_lt_mul_of_pos_right hbound (by positivity)
            _ = (2 : ℚ) ^ (-1022 : ℤ) := by rw [← zpow_natCast, ← zpow_add₀ (by norm_num)]; norm_num
        have hlog := (Int.lt_zpow_iff_log_lt (b := 2) (by decide) hpos).mp (by exact_mod_cast hlt)
        exact max_eq_right (by omega)
      have hquot : (f.val : ℚ) * (2 : ℚ) ^ (-1074 : ℤ) / 2 ^ (-1074 : ℤ) = f.val := by field_simp
      have hlt : f.val < 2 ^ 52 := f.isLt
      rw [nearest, if_neg hpos.ne', hulp, hquot, roundEven_natCast]
      have hzero : ((-1074 : ℤ) + 1074).toNat * 2 ^ 52 + f.val = f.val := by norm_num
      have hdiv : f.val / 2 ^ 52 = 0 := Nat.div_eq_of_lt hlt
      rw [hzero, ofFields, dif_pos (by omega)]
      simp only [hdiv, Nat.mod_eq_of_lt hlt]
      rfl
  · have hepos : 0 < e.val := Nat.pos_of_ne_zero fun h => hexpo (Fin.ext h)
    have hmag : magnitude ⟨neg, e, f⟩ = (2 ^ 52 + f.val) * (2 : ℚ) ^ ((e.val : ℤ) - 1075) := if_neg hexpo
    have hflt : f.val < 2 ^ 52 := f.isLt
    have hfcast : (f.val : ℚ) < 2 ^ 52 := by exact_mod_cast hflt
    have hfnonneg : (0 : ℚ) ≤ f.val := Nat.cast_nonneg _
    have hp : (0 : ℚ) < (2 : ℚ) ^ ((e.val : ℤ) - 1075) := by positivity
    have hpos : (0 : ℚ) < (2 ^ 52 + f.val) * (2 : ℚ) ^ ((e.val : ℤ) - 1075) := by positivity
    have hlog : Int.log 2 ((2 ^ 52 + f.val) * (2 : ℚ) ^ ((e.val : ℤ) - 1075)) = e.val - 1023 := by
      have hlo : ((2 : ℕ) : ℚ) ^ ((e.val : ℤ) - 1023) ≤ (2 ^ 52 + f.val) * (2 : ℚ) ^ ((e.val : ℤ) - 1075) := by
        rw [Nat.cast_ofNat, show (e.val : ℤ) - 1023 = 52 + ((e.val : ℤ) - 1075) by ring, zpow_add₀ (by norm_num)]
        refine mul_le_mul_of_nonneg_right ?_ hp.le
        norm_num
      have hhi : (2 ^ 52 + f.val) * (2 : ℚ) ^ ((e.val : ℤ) - 1075) < ((2 : ℕ) : ℚ) ^ ((e.val : ℤ) - 1022) := by
        rw [Nat.cast_ofNat, show (e.val : ℤ) - 1022 = 53 + ((e.val : ℤ) - 1075) by ring, zpow_add₀ (by norm_num)]
        refine mul_lt_mul_of_pos_right ?_ hp
        norm_num
        linarith
      have h₁ := (Int.zpow_le_iff_le_log (b := 2) (by decide) hpos).mp hlo
      have h₂ := (Int.lt_zpow_iff_log_lt (b := 2) (by decide) hpos).mp hhi
      omega
    have hulp : ulp ((2 ^ 52 + f.val) * (2 : ℚ) ^ ((e.val : ℤ) - 1075)) = e.val - 1075 := by
      rw [ulp, hlog, max_eq_left (by omega)]
      omega
    have hquot : (2 ^ 52 + f.val) * (2 : ℚ) ^ ((e.val : ℤ) - 1075) / 2 ^ ((e.val : ℤ) - 1075) =
        ((2 ^ 52 + f.val : ℕ) : ℚ) := by
      rw [mul_div_assoc, div_self hp.ne', mul_one]
      push_cast
      rfl
    have hplace : ((e.val : ℤ) - 1075 + 1074).toNat = e.val - 1 := by omega
    rw [hmag, nearest, if_neg hpos.ne', hulp, hquot, roundEven_natCast, hplace]
    have hsum : (e.val - 1) * 2 ^ 52 + (2 ^ 52 + f.val) = e.val * 2 ^ 52 + f.val := by omega
    have hdiv : (e.val * 2 ^ 52 + f.val) / 2 ^ 52 = e.val := by omega
    have hmod : (e.val * 2 ^ 52 + f.val) % 2 ^ 52 = f.val := by omega
    rw [hsum, ofFields, dif_pos (by omega)]
    simp only [hdiv, hmod]

/-- The integers of 53 bits are numbers. -/
theorem nearest_natCast {n : ℕ} (hn : n < 2 ^ 53) (neg : Bool) :
    (nearest neg n).negative = neg ∧ (nearest neg n).isFinite = true ∧ (nearest neg n).magnitude = n := by
  rcases Nat.eq_zero_or_pos n with rfl | hpos
  · rw [nearest, Nat.cast_zero, if_pos rfl]
    exact ⟨rfl, rfl, by simp [magnitude]⟩
  · have hq : (0 : ℚ) < n := by exact_mod_cast hpos
    have hlog : Int.log 2 (n : ℚ) = Nat.log 2 n := Int.log_natCast 2 n
    have hlt : Nat.log 2 n < 53 := Nat.log_lt_of_lt_pow hpos.ne' hn
    have hulp : ulp n = (Nat.log 2 n : ℤ) - 52 := by
      rw [ulp, hlog]
      exact max_eq_left (by omega)
    have hquot : (n : ℚ) / 2 ^ ((Nat.log 2 n : ℤ) - 52) = ((n * 2 ^ (52 - Nat.log 2 n) : ℕ) : ℚ) := by
      rw [show (Nat.log 2 n : ℤ) - 52 = -((52 - Nat.log 2 n : ℕ) : ℤ) by omega, zpow_neg, div_inv_eq_mul, zpow_natCast]
      push_cast
      rfl
    have hlo : 2 ^ 52 ≤ n * 2 ^ (52 - Nat.log 2 n) := by
      calc 2 ^ 52 = 2 ^ Nat.log 2 n * 2 ^ (52 - Nat.log 2 n) := by
            rw [← pow_add, Nat.add_sub_cancel' (by omega)]
        _ ≤ n * 2 ^ (52 - Nat.log 2 n) := Nat.mul_le_mul_right _ (Nat.pow_log_le_self 2 hpos.ne')
    have hhi : n * 2 ^ (52 - Nat.log 2 n) ≤ 2 ^ 53 := by
      have hnext : n ≤ 2 ^ (Nat.log 2 n + 1) := (Nat.lt_pow_succ_log_self (by decide) n).le
      calc n * 2 ^ (52 - Nat.log 2 n) ≤ 2 ^ (Nat.log 2 n + 1) * 2 ^ (52 - Nat.log 2 n) :=
            Nat.mul_le_mul_right _ hnext
        _ = 2 ^ 53 := by
            rw [← pow_add]
            congr 1
            omega
    rw [nearest, if_neg hq.ne', hulp, hquot, roundEven_natCast]
    obtain ⟨hneg, hfin, hmag⟩ :=
      ofFields_magnitude (e := (Nat.log 2 n : ℤ) - 52) (by omega) hhi (.inr hlo) (by omega) neg
    refine ⟨hneg, hfin, hmag.trans ?_⟩
    rw [← hquot, div_mul_cancel₀]
    positivity

theorem isNan_eq_false {x : Double} (hfin : x.isFinite = true) : x.isNan = false := by
  unfold isFinite at hfin
  rw [isNan, Bool.and_eq_false_iff]
  exact .inl (by simpa using hfin)

theorem printWhole_eq {x : Double} (hfin : x.isFinite = true) {n : ℕ} (hn : x.magnitude = n) :
    x.printWhole = signText x.negative ++ decimal n := by
  simp only [printWhole, isNan_eq_false hfin, hfin, hn, roundEven_natCast, Bool.false_eq_true, if_false, Bool.not_true]

end Double

/-- An integer is read back. -/
theorem strtod_printWhole {x : Double} (hfin : x.isFinite = true) {n : ℕ} (hn : x.magnitude = n) :
    strtod x.printWhole = some x ∧ strtodEnd x.printWhole = [] := by
  rw [Double.printWhole_eq hfin hn]
  obtain ⟨hread, hend⟩ := strtod_whole x.negative (digits_decimal n)
  rw [digitsValue_decimal, ← hn, Double.nearest_magnitude hfin] at hread
  exact ⟨hread, hend⟩

theorem length_zeroPad {k n : ℕ} (hk : 0 < k) (hn : n < 10 ^ k) : (zeroPad k n).length = k := by
  obtain ⟨j, rfl⟩ : ∃ j, k = j + 1 := ⟨k - 1, by omega⟩
  have hlen := length_decimal_le hn
  rw [zeroPad, List.length_append, List.length_replicate]
  omega

theorem digitsValue_fixed {k n : ℕ} : digitsValue (decimal (n / 10 ^ k) ++ zeroPad k (n % 10 ^ k)) =
    n / 10 ^ k * 10 ^ (zeroPad k (n % 10 ^ k)).length + n % 10 ^ k := by
  rw [digitsValue_append, digitsValue_decimal, digitsValue_zeroPad]

/-- A quotient by `10 ^ k` is read back. -/
theorem strtod_printFixed {n k : ℕ} (hn : n < 2 ^ 52) (hpos : 0 < k) (hk : k ≤ 255) (negative : Bool) :
    strtod (Double.printFixed k (Double.nearest negative (n / 10 ^ k))) =
        some (Double.nearest negative (n / 10 ^ k)) ∧
      strtodEnd (Double.printFixed k (Double.nearest negative (n / 10 ^ k))) = [] := by
  have hlen := length_zeroPad hpos (Nat.mod_lt n (Nat.pow_pos (n := k) (by decide : 0 < 10)))
  have hdigits : ∀ c ∈ zeroPad k (n % 10 ^ k), isDigit c = true := fun _ => isDigit_of_mem_zeroPad
  obtain ⟨hread, hend⟩ := strtod_point negative (digits_decimal (n / 10 ^ k)) hdigits
  have hvalue : digitsValue (decimal (n / 10 ^ k) ++ zeroPad k (n % 10 ^ k)) = n := by
    rw [digitsValue_fixed, hlen, Nat.div_add_mod']
  rw [hvalue, hlen] at hread
  rw [printFixed_nearest_div hn hk]
  exact ⟨hread, hend⟩

end SimpleSatOps
