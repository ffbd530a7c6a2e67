import SimpleSatOps.Lib.DoubleReread

/-!
# Formatted texts

* `zeroPad` : `"%0wu"`;
* `fixedDigits`, `Double.printFixed` : `"%.kf"`;
* `delimited` : fields with a literal behind each;
* `delimited_inj` : the fields are read back when none holds the first byte of its literal;
* `printFixed_nearest_div` : an integer over `10 ^ k` prints as the integer with a point in it.
-/

namespace SimpleSatOps

/-- `"%0wu"`. -/
def zeroPad (w n : ℕ) : List UInt8 := List.replicate (w - (decimal n).length) (byte '0') ++ decimal n

/-- `n / 10 ^ k` with `k > 0` digits behind the point. -/
def fixedDigits (k n : ℕ) : List UInt8 := decimal (n / 10 ^ k) ++ byte '.' :: zeroPad k (n % 10 ^ k)

/-- `"%.kf"` for `k > 0`; the exact value is rounded, a tie to the even digit. -/
def Double.printFixed (k : ℕ) (x : Double) : List UInt8 :=
  let magnitude :=
    if x.isNan then text "nan"
    else if !x.isFinite then text "inf"
    else fixedDigits k (roundEven (x.magnitude * 10 ^ k))
  if x.negative then byte '-' :: magnitude else magnitude

/-- The fields one after the other, each with its literal behind it. -/
def delimited : List (List UInt8) → List (List UInt8) → List UInt8
  | f :: fs, w :: ws => f ++ w ++ delimited fs ws
  | _, _ => []

/-- No field holds the first byte of the literal behind it. -/
def Delimited (fs ws : List (List UInt8)) : Prop := List.Forall₂ (fun f w => ∃ c ∈ w.head?, c ∉ f) fs ws

/-! ## Reading fields back -/

theorem append_cons_inj {c : UInt8} {a b r s : List UInt8} (ha : c ∉ a) (hb : c ∉ b)
    (h : a ++ c :: r = b ++ c :: s) : a = b ∧ r = s := by
  have hspan : ∀ {x t : List UInt8}, c ∉ x → (x ++ c :: t).takeWhile (· != c) = x := by
    intro x t hx
    rw [List.takeWhile_append_of_pos fun y hy => by simpa using fun e : y = c => hx (e ▸ hy)]
    simp
  have hab : a = b := by rw [← hspan ha, h, hspan hb]
  subst hab
  exact ⟨rfl, List.cons_injective (List.append_cancel_left h)⟩

theorem delimited_inj {ws fs gs : List (List UInt8)} {r s : List UInt8} (hf : Delimited fs ws) (hg : Delimited gs ws)
    (h : delimited fs ws ++ r = delimited gs ws ++ s) : fs = gs ∧ r = s := by
  unfold Delimited at hf hg
  induction hf generalizing gs with
  | nil =>
      cases hg
      exact ⟨rfl, h⟩
  | @cons f w fs ws hw _ ih =>
      cases hg with
      | @cons g _ gs _ hw' hrest =>
          obtain ⟨c, hc, hcf⟩ := hw
          obtain ⟨c', hc', hcg⟩ := hw'
          obtain rfl : c = c' := Option.some.inj (hc.symm.trans hc')
          obtain ⟨w, rfl⟩ : ∃ t, w = c :: t := by
            cases w with
            | nil => cases hc
            | cons b t => exact ⟨t, by rw [Option.some.inj hc]⟩
          simp only [delimited, List.append_assoc, List.cons_append] at h
          obtain ⟨rfl, hrest'⟩ := append_cons_inj hcf hcg h
          obtain ⟨rfl, rfl⟩ := ih hrest (List.append_cancel_left hrest')
          exact ⟨rfl, rfl⟩

/-! ## Numbers -/

theorem decimal_inj {m n : ℕ} (h : decimal m = decimal n) : m = n := by
  rw [← digitsValue_decimal m, h, digitsValue_decimal]

theorem isDigit_of_mem_zeroPad {w n : ℕ} {c : UInt8} (h : c ∈ zeroPad w n) : isDigit c = true := by
  rcases List.mem_append.mp h with h | h
  · rw [List.eq_of_mem_replicate h]
    rfl
  · exact isDigit_of_mem_decimal h

theorem digitsValue_zeroPad (w n : ℕ) : digitsValue (zeroPad w n) = n := by
  unfold zeroPad
  rw [digitsValue_append, digitsValue_replicate_zero, digitsValue_decimal, Nat.zero_mul, Nat.zero_add]

theorem zeroPad_inj {w m n : ℕ} (h : zeroPad w m = zeroPad w n) : m = n := by
  rw [← digitsValue_zeroPad w m, h, digitsValue_zeroPad]

theorem length_zeroPad_le {w n k : ℕ} (h : n < 10 ^ (k + 1)) (hw : w ≤ k + 1) : (zeroPad w n).length ≤ k + 1 := by
  have hlen := length_decimal_le h
  unfold zeroPad
  rw [List.length_append, List.length_replicate]
  omega

theorem not_mem_of_isDigit {s : List UInt8} (hs : ∀ c ∈ s, isDigit c = true) {b : UInt8} (hb : isDigit b = false) :
    b ∉ s := by
  intro h
  rw [hs b h] at hb
  exact Bool.noConfusion hb

theorem not_mem_decimal {b : UInt8} (hb : isDigit b = false) (n : ℕ) : b ∉ decimal n :=
  not_mem_of_isDigit (fun _ => isDigit_of_mem_decimal) hb

theorem not_mem_zeroPad {b : UInt8} (hb : isDigit b = false) (w n : ℕ) : b ∉ zeroPad w n :=
  not_mem_of_isDigit (fun _ => isDigit_of_mem_zeroPad) hb

theorem fixedDigits_inj {k m n : ℕ} (h : fixedDigits k m = fixedDigits k n) : m = n := by
  obtain ⟨hwhole, hfrac⟩ := append_cons_inj (not_mem_decimal (by decide) _) (not_mem_decimal (by decide) _) h
  rw [← Nat.div_add_mod m (10 ^ k), decimal_inj hwhole, zeroPad_inj hfrac, Nat.div_add_mod]

theorem not_mem_fixedDigits {b : UInt8} (hb : isDigit b = false) (hpoint : b ≠ byte '.') (k n : ℕ) :
    b ∉ fixedDigits k n := by
  unfold fixedDigits
  simp only [List.mem_append, List.mem_cons, not_or]
  exact ⟨not_mem_decimal hb _, hpoint, not_mem_zeroPad hb _ _⟩

theorem length_fixedDigits_le {k j n : ℕ} (h : n < 10 ^ (k + 1 + (j + 1))) :
    (fixedDigits (k + 1) n).length ≤ j + k + 3 := by
  have hwhole : (decimal (n / 10 ^ (k + 1))).length ≤ j + 1 := by
    apply length_decimal_le
    rw [Nat.div_lt_iff_lt_mul (by positivity), ← pow_add]
    rwa [Nat.add_comm (j + 1)]
  have hfrac : (zeroPad (k + 1) (n % 10 ^ (k + 1))).length ≤ k + 1 :=
    length_zeroPad_le (Nat.mod_lt _ (by positivity)) le_rfl
  unfold fixedDigits
  rw [List.length_append, List.length_cons]
  omega

/-! ## Quotients -/

theorem two_pow_ulp_le {q : ℚ} (hq : (2 : ℚ) ^ (-1022 : ℤ) ≤ q) : (2 : ℚ) ^ Double.ulp q ≤ q / 2 ^ 52 := by
  have hpos : 0 < q := lt_of_lt_of_le (by positivity) hq
  have hlog : -1022 ≤ Int.log 2 q := (Int.zpow_le_iff_le_log (by decide) hpos).mp (by exact_mod_cast hq)
  have hulp : Double.ulp q = Int.log 2 q - 52 := max_eq_left (by omega)
  rw [hulp, zpow_sub₀ (by norm_num)]
  exact div_le_div_of_nonneg_right (Double.two_log_bounds hpos).1 (by positivity)

/-- The relative error of the nearest number, above the subnormal ones. -/
theorem nearest_error {q : ℚ} (hq : q = 0 ∨ (2 : ℚ) ^ (-1022 : ℤ) ≤ q) (hfin : q < 2 ^ 64) (neg : Bool) :
    (Double.nearest neg q).negative = neg ∧ (Double.nearest neg q).isFinite = true ∧
      |(Double.nearest neg q).magnitude - q| ≤ q / 2 ^ 53 := by
  rcases hq with rfl | hq
  · unfold Double.nearest
    rw [if_pos rfl]
    exact ⟨rfl, rfl, by simp [Double.magnitude]⟩
  · have hpos : 0 < q := lt_of_lt_of_le (by positivity) hq
    have hbig : (2 : ℚ) ^ 64 < 2 ^ (1024 : ℤ) - 2 ^ (970 : ℤ) := by
      have hlo : (2 : ℚ) ^ (64 : ℤ) < 2 ^ (970 : ℤ) := zpow_lt_zpow_right₀ (by norm_num) (by norm_num)
      have hhi : (2 : ℚ) ^ (970 + 1 : ℤ) ≤ 2 ^ (1024 : ℤ) := zpow_le_zpow_right₀ (by norm_num) (by norm_num)
      rw [zpow_add_one₀ (by norm_num), mul_two] at hhi
      rw [← zpow_natCast, Nat.cast_ofNat]
      exact hlo.trans_le (le_sub_iff_add_le.mpr hhi)
    obtain ⟨hneg, hfinite, herr⟩ := Double.magnitude_nearest hpos (hfin.trans hbig) neg
    refine ⟨hneg, hfinite, herr.trans ?_⟩
    calc (2 : ℚ) ^ Double.ulp q / 2 ≤ q / 2 ^ 52 / 2 := by
          exact div_le_div_of_nonneg_right (two_pow_ulp_le hq) (by norm_num)
      _ = q / 2 ^ 53 := by ring

theorem printFixed_nearest {q : ℚ} (hq : q = 0 ∨ (2 : ℚ) ^ (-1022 : ℤ) ≤ q) (hfin : q < 2 ^ 64) (neg : Bool) (k : ℕ) :
    Double.printFixed k (Double.nearest neg q) =
      (if neg then [byte '-'] else []) ++ fixedDigits k (roundEven ((Double.nearest neg q).magnitude * 10 ^ k)) := by
  obtain ⟨hneg, hfinite, -⟩ := nearest_error hq hfin neg
  have hnan : (Double.nearest neg q).isNan = false := by
    unfold Double.isFinite at hfinite
    unfold Double.isNan
    rw [Bool.and_eq_false_iff]
    left
    simpa using hfinite
  unfold Double.printFixed
  simp only [hneg, hfinite, hnan, Bool.false_eq_true, if_false, Bool.not_true]
  cases neg <;> rfl

/-- A quotient by `10 ^ k` is no subnormal number. -/
theorem normal_div {n k : ℕ} (hn : n < 2 ^ 52) (hk : k ≤ 255) :
    ((n : ℚ) / 10 ^ k = 0 ∨ (2 : ℚ) ^ (-1022 : ℤ) ≤ n / 10 ^ k) ∧ (n : ℚ) / 10 ^ k < 2 ^ 64 := by
  have hp : (0 : ℚ) < 10 ^ k := by positivity
  constructor
  · rcases Nat.eq_zero_or_pos n with rfl | hpos
    · left
      simp
    · right
      have hone : (1 : ℚ) ≤ n := by exact_mod_cast hpos
      have hle : (10 : ℚ) ^ k ≤ 2 ^ 1022 :=
        calc (10 : ℚ) ^ k ≤ (2 ^ 4) ^ k := pow_le_pow_left₀ (by norm_num) (by norm_num) k
          _ = 2 ^ (4 * k) := (pow_mul 2 4 k).symm
          _ ≤ 2 ^ 1022 := pow_le_pow_right₀ (by norm_num) (by omega)
      calc (2 : ℚ) ^ (-1022 : ℤ) = 1 / 2 ^ 1022 := by rw [zpow_neg, one_div]; rfl
        _ ≤ 1 / 10 ^ k := one_div_le_one_div_of_le hp hle
        _ ≤ n / 10 ^ k := div_le_div_of_nonneg_right hone hp.le
  · have hle : (n : ℚ) / 10 ^ k ≤ n := div_le_self (Nat.cast_nonneg n) (one_le_pow₀ (by norm_num))
    have hn' : (n : ℚ) < 2 ^ 52 := by exact_mod_cast hn
    linarith

/-- Rounding to `k` places undoes a division by `10 ^ k`. -/
theorem roundEven_nearest_div {n k : ℕ} (hn : n < 2 ^ 52) (hk : k ≤ 255) (neg : Bool) :
    roundEven ((Double.nearest neg (n / 10 ^ k)).magnitude * 10 ^ k) = n := by
  have hp : (0 : ℚ) < 10 ^ k := by positivity
  obtain ⟨hq, hfin⟩ := normal_div hn hk
  obtain ⟨-, -, herr⟩ := nearest_error hq hfin neg
  obtain ⟨hlo, hhi⟩ := abs_le.mp herr
  generalize (Double.nearest neg (n / 10 ^ k)).magnitude = m at hlo hhi
  have hmul : (n : ℚ) / 10 ^ k * 10 ^ k = n := div_mul_cancel₀ _ hp.ne'
  have hlo' : -((n : ℚ) / 2 ^ 53) ≤ m * 10 ^ k - n := by
    have := mul_le_mul_of_nonneg_right hlo hp.le
    linarith
  have hhi' : m * 10 ^ k - n ≤ (n : ℚ) / 2 ^ 53 := by
    have := mul_le_mul_of_nonneg_right hhi hp.le
    linarith
  have hn' : (n : ℚ) < 2 ^ 52 := by exact_mod_cast hn
  rcases Nat.eq_zero_or_pos n with rfl | hpos
  · have hzero : m * 10 ^ k = 0 := by
      simp only [Nat.cast_zero, zero_div, neg_zero, sub_zero] at hlo' hhi'
      linarith
    rw [hzero]
    apply roundEven_eq <;> norm_num
  · have hone : (1 : ℚ) ≤ n := by exact_mod_cast hpos
    apply roundEven_eq
    · linarith
    · linarith
    · linarith

/-- An integer over `10 ^ k` prints as the integer with a point in it. -/
theorem printFixed_nearest_div {n k : ℕ} (hn : n < 2 ^ 52) (hk : k ≤ 255) (neg : Bool) :
    Double.printFixed k (Double.nearest neg (n / 10 ^ k)) = (if neg then [byte '-'] else []) ++ fixedDigits k n := by
  obtain ⟨hq, hfin⟩ := normal_div hn hk
  rw [printFixed_nearest hq hfin, roundEven_nearest_div hn hk]

end SimpleSatOps
