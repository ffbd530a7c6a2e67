import SimpleSatOps.Lib.DoubleText

/-!
# Printing what was read

A number that is not subnormal prints the same after its text was read; among the subnormal numbers one does not.

* `sixDigits_of_near` : numbers close to a number of six digits print as it;
* `magnitude_nearest` : the number nearest to a rational is within half of its last bit;
* `print_reread` : the text of a number that is not subnormal is printed again;
* `print_reread_subnormal` : the text of `202403 * 2 ^ (-1074)` is not.
-/

namespace SimpleSatOps.Double

/-- A number below the normal range that is not zero. -/
def IsSubnormal (x : Double) : Prop := x.expo = 0 ∧ x.frac ≠ 0

instance (x : Double) : Decidable x.IsSubnormal := inferInstanceAs (Decidable (_ ∧ _))

/-! ## Decimal digits -/

/-- What the six digits stand for. -/
def digitsMagnitude (q : ℚ) : ℚ := (sixDigits q).1 * (10 : ℚ) ^ ((sixDigits q).2 - 5)

theorem digitsMagnitude_eq (q : ℚ) :
    digitsMagnitude q = roundEven (q / 10 ^ (Int.log 10 q - 5)) * (10 : ℚ) ^ (Int.log 10 q - 5) := by
  unfold digitsMagnitude sixDigits
  simp only
  split_ifs with h
  · rw [h, show Int.log 10 q + 1 - 5 = (Int.log 10 q - 5) + 1 by ring, zpow_add_one₀ (by norm_num)]
    push_cast
    ring
  · rfl

/-- Within half a unit of the sixth digit. -/
theorem abs_digitsMagnitude_sub_le {q : ℚ} (hq : 0 < q) :
    |digitsMagnitude q - q| ≤ (10 : ℚ) ^ (Int.log 10 q - 5) / 2 := by
  have hp : (0 : ℚ) < 10 ^ (Int.log 10 q - 5) := by positivity
  obtain ⟨hlo, hhi⟩ := roundEven_bounds (q := q / 10 ^ (Int.log 10 q - 5)) (by positivity)
  have hqe : q = q / 10 ^ (Int.log 10 q - 5) * 10 ^ (Int.log 10 q - 5) := by field_simp
  rw [digitsMagnitude_eq, abs_le]
  generalize hr : (roundEven (q / 10 ^ (Int.log 10 q - 5)) : ℚ) = r at hlo hhi ⊢
  generalize hs : q / 10 ^ (Int.log 10 q - 5) = s at hlo hhi hqe
  generalize (10 : ℚ) ^ (Int.log 10 q - 5) = p at hp hqe ⊢
  constructor
  · nlinarith
  · nlinarith

theorem log_eq {m : ℚ} {x : ℤ} (hlo : (10 : ℚ) ^ x ≤ m) (hhi : m < (10 : ℚ) ^ (x + 1)) : Int.log 10 m = x := by
  have hm : 0 < m := lt_of_lt_of_le (by positivity) hlo
  apply le_antisymm
  · rw [← Int.lt_add_one_iff, ← Int.lt_zpow_iff_log_lt (by decide) hm]
    exact_mod_cast hhi
  · rw [← Int.zpow_le_iff_le_log (by decide) hm]
    exact_mod_cast hlo

/-- Numbers close to a number of six digits have these digits. -/
theorem sixDigits_of_near {n : ℕ} (hn : SixDigits n) {x : ℤ} {m : ℚ}
    (hnear : |m - n * (10 : ℚ) ^ (x - 5)| ≤ (10 : ℚ) ^ (x - 5) / 100) : sixDigits m = (n, x) := by
  have hp : (0 : ℚ) < 10 ^ (x - 5) := by positivity
  have hn₁ : (10 : ℚ) ^ 5 ≤ n := by exact_mod_cast hn.1
  have hn₂ : (n : ℚ) + 1 ≤ 10 ^ 6 := by exact_mod_cast hn.2
  obtain ⟨hlo, hhi⟩ := abs_le.mp hnear
  have hx : (10 : ℚ) ^ x = 10 ^ 5 * 10 ^ (x - 5) := by
    rw [← zpow_natCast, ← zpow_add₀ (by norm_num)]
    congr 1
    push_cast
    ring
  have hx₁ : (10 : ℚ) ^ (x + 1) = 10 ^ 6 * 10 ^ (x - 5) := by
    rw [← zpow_natCast, ← zpow_add₀ (by norm_num)]
    congr 1
    push_cast
    ring
  have hup : m < (10 : ℚ) ^ (x + 1) := by
    rw [hx₁]
    nlinarith
  by_cases hbelow : (10 : ℚ) ^ x ≤ m
  · have hlog := log_eq hbelow hup
    have hround : roundEven (m / 10 ^ (x - 5)) = n := by
      have hmp : 0 < m := lt_of_lt_of_le (by positivity) hbelow
      apply roundEven_eq (by positivity)
      · rw [lt_div_iff₀ hp]
        linarith
      · rw [div_lt_iff₀ hp]
        linarith
    unfold sixDigits
    simp only [hlog, hround]
    rw [if_neg (by have := hn.2; omega)]
  · -- just below a power of ten the digits are one finer, and are rounded up to it
    rw [not_le] at hbelow
    have hfive : n = 10 ^ 5 := by
      by_contra hne
      have hgt : 10 ^ 5 + 1 ≤ n := by have := hn.1; omega
      have hgt' : (10 : ℚ) ^ 5 + 1 ≤ n := by exact_mod_cast hgt
      rw [hx] at hbelow
      nlinarith
    subst hfive
    push_cast at hlo hhi
    have hten : (10 : ℚ) ^ (x - 5) = 10 * 10 ^ (x - 1 - 5) := by
      rw [show x - 5 = (x - 1 - 5) + 1 by ring, zpow_add_one₀ (by norm_num)]
      ring
    have hq : (0 : ℚ) < 10 ^ (x - 1 - 5) := by positivity
    have hlog : Int.log 10 m = x - 1 := by
      apply log_eq
      · have hprev : (10 : ℚ) ^ (x - 1) = 10 ^ 5 * 10 ^ (x - 1 - 5) := by
          rw [← zpow_natCast, ← zpow_add₀ (by norm_num)]
          congr 1
          push_cast
          ring
        rw [hprev]
        rw [hten] at hlo
        nlinarith
      · rw [sub_add_cancel]
        exact hbelow
    have hround : roundEven (m / 10 ^ (x - 1 - 5)) = 10 ^ 6 := by
      have hm : 0 < m := by nlinarith
      rw [hten] at hlo
      rw [hx, hten] at hbelow
      apply roundEven_eq (by positivity)
      · rw [lt_div_iff₀ hq]
        push_cast
        nlinarith
      · rw [div_lt_iff₀ hq]
        push_cast
        nlinarith
    unfold sixDigits
    simp only [hlog, hround]
    rw [if_pos trivial, sub_add_cancel]

/-! ## The nearest number -/

/-- The fields of a number that was rounded to `r` units of `2 ^ e`. -/
theorem ofFields_magnitude {e : ℤ} {r : ℕ} (he : -1074 ≤ e) (hr : r ≤ 2 ^ 53) (hnorm : e = -1074 ∨ 2 ^ 52 ≤ r)
    (hfin : (e + 1074).toNat * 2 ^ 52 + r < 2047 * 2 ^ 52) (neg : Bool) :
    (ofFields neg ((e + 1074).toNat * 2 ^ 52 + r)).negative = neg ∧
      (ofFields neg ((e + 1074).toNat * 2 ^ 52 + r)).isFinite = true ∧
      (ofFields neg ((e + 1074).toNat * 2 ^ 52 + r)).magnitude = r * (2 : ℚ) ^ e := by
  obtain ⟨k, rfl⟩ : ∃ k : ℕ, e = k - 1074 := ⟨(e + 1074).toNat, by omega⟩
  have hk : ((k : ℤ) - 1074 + 1074).toNat = k := by omega
  rw [hk] at hfin ⊢
  have hlt : (k * 2 ^ 52 + r) / 2 ^ 52 < 2047 := by omega
  have hof : ofFields neg (k * 2 ^ 52 + r) =
      ⟨neg, ⟨(k * 2 ^ 52 + r) / 2 ^ 52, by omega⟩, ⟨(k * 2 ^ 52 + r) % 2 ^ 52, by omega⟩⟩ := dif_pos hlt
  rw [hof]
  refine ⟨rfl, ?_, ?_⟩
  · apply bne_iff_ne.mpr
    intro h
    have hval : (k * 2 ^ 52 + r) / 2 ^ 52 = 2047 := congrArg Fin.val h
    omega
  · unfold magnitude
    split_ifs with hzero
    · -- no leading one: the exponent is the least one
      have hdiv : (k * 2 ^ 52 + r) / 2 ^ 52 = 0 := congrArg Fin.val hzero
      have hk₀ : k = 0 := by omega
      subst hk₀
      have hmod : (0 * 2 ^ 52 + r) % 2 ^ 52 = r := by omega
      simp only [hmod]
      norm_num
    · have hdiv : (k * 2 ^ 52 + r) / 2 ^ 52 ≠ 0 := fun h => hzero (Fin.ext h)
      have hone : 2 ^ 52 ≤ r := by
        rcases hnorm with h | h
        · omega
        · exact h
      by_cases hfull : r = 2 ^ 53
      · subst hfull
        have h₁ : (k * 2 ^ 52 + 2 ^ 53) / 2 ^ 52 = k + 2 := by omega
        have h₂ : (k * 2 ^ 52 + 2 ^ 53) % 2 ^ 52 = 0 := by omega
        simp only [h₁, h₂]
        push_cast
        rw [show (k : ℤ) + 2 - 1075 = (k - 1074) + 1 by ring, zpow_add_one₀ (by norm_num)]
        ring
      · have h₁ : (k * 2 ^ 52 + r) / 2 ^ 52 = k + 1 := by omega
        have h₂ : (k * 2 ^ 52 + r) % 2 ^ 52 = r - 2 ^ 52 := by omega
        simp only [h₁, h₂]
        rw [Nat.cast_sub hone]
        push_cast
        rw [show (k : ℤ) + 1 - 1075 = k - 1074 by ring]
        ring

theorem two_log_bounds {q : ℚ} (hq : 0 < q) :
    (2 : ℚ) ^ Int.log 2 q ≤ q ∧ q < (2 : ℚ) ^ (Int.log 2 q + 1) := by
  constructor
  · exact_mod_cast Int.zpow_log_le_self (b := 2) (by decide) hq
  · exact_mod_cast Int.lt_zpow_succ_log_self (b := 2) (by decide) q

/-- How far the nearest number is, unless it is infinity. -/
theorem magnitude_nearest {q : ℚ} (hq : 0 < q) (hfin : q < (2 : ℚ) ^ (1024 : ℤ) - (2 : ℚ) ^ (970 : ℤ)) (neg : Bool) :
    (nearest neg q).negative = neg ∧ (nearest neg q).isFinite = true ∧
      |(nearest neg q).magnitude - q| ≤ (2 : ℚ) ^ ulp q / 2 := by
  obtain ⟨hlo, hhi⟩ := two_log_bounds hq
  have hp : (0 : ℚ) < 2 ^ ulp q := by positivity
  obtain ⟨hr₁, hr₂⟩ := roundEven_bounds (q := q / 2 ^ ulp q) (by positivity)
  have hulp : -1074 ≤ ulp q := le_max_right _ _
  have hlog : Int.log 2 q - 52 ≤ ulp q := le_max_left _ _
  -- 53 bits, and the first of them is one above the subnormal range
  have hbits : roundEven (q / 2 ^ ulp q) ≤ 2 ^ 53 := by
    have hlt : q / 2 ^ ulp q < 2 ^ (53 : ℤ) := by
      rw [div_lt_iff₀ hp, ← zpow_add₀ (by norm_num)]
      exact hhi.trans_le (zpow_le_zpow_right₀ (by norm_num) (by omega))
    have hcast : (roundEven (q / 2 ^ ulp q) : ℚ) < (2 ^ 53 + 1 : ℕ) := by
      rw [show (2 : ℚ) ^ (53 : ℤ) = 2 ^ 53 by norm_num] at hlt
      push_cast
      linarith
    have := (Nat.cast_lt (α := ℚ)).mp hcast
    omega
  have hnorm : ulp q = -1074 ∨ 2 ^ 52 ≤ roundEven (q / 2 ^ ulp q) := by
    rcases le_total (Int.log 2 q - 52) (-1074) with h | h
    · exact .inl (max_eq_right h)
    · right
      have hulp' : ulp q = Int.log 2 q - 52 := max_eq_left h
      have hge : (2 : ℚ) ^ (52 : ℤ) ≤ q / 2 ^ ulp q := by
        rw [le_div_iff₀ hp, ← zpow_add₀ (by norm_num), hulp']
        simpa using hlo
      have hcast : ((2 ^ 52 : ℕ) : ℚ) < (roundEven (q / 2 ^ ulp q) + 1 : ℕ) := by
        rw [show (2 : ℚ) ^ (52 : ℤ) = 2 ^ 52 by norm_num] at hge
        push_cast
        linarith
      have := (Nat.cast_lt (α := ℚ)).mp hcast
      omega
  have hlt : (ulp q + 1074).toNat * 2 ^ 52 + roundEven (q / 2 ^ ulp q) < 2047 * 2 ^ 52 := by
    have hlog₁ : Int.log 2 q < 1024 := by
      rw [← Int.lt_zpow_iff_log_lt (by decide) hq]
      have h970 : (0 : ℚ) < 2 ^ (970 : ℤ) := by positivity
      rw [Nat.cast_ofNat]
      exact hfin.trans (sub_lt_self _ h970)
    have hle : ulp q ≤ 971 := max_le (by omega) (by norm_num)
    rcases hle.lt_or_eq with h | h
    · omega
    · -- the last exponent: the last of its numbers is not passed
      have hcast : (roundEven (q / 2 ^ ulp q) : ℚ) < (2 ^ 53 : ℕ) := by
        have hquot : q / 2 ^ ulp q < 2 ^ 53 - 1 / 2 := by
          rw [div_lt_iff₀ hp, h]
          refine hfin.trans_eq ?_
          rw [show (1024 : ℤ) = 970 + 54 by norm_num, show (971 : ℤ) = 970 + 1 by norm_num,
            zpow_add₀ (by norm_num), zpow_add_one₀ (by norm_num)]
          ring
        push_cast
        linarith
      have := (Nat.cast_lt (α := ℚ)).mp hcast
      have hplace : (ulp q + 1074).toNat = 2045 := by omega
      omega
  have hne : q ≠ 0 := hq.ne'
  rw [nearest, if_neg hne]
  obtain ⟨h₁, h₂, h₃⟩ := ofFields_magnitude hulp hbits hnorm hlt neg
  refine ⟨h₁, h₂, ?_⟩
  rw [h₃]
  have hqe : q = q / 2 ^ ulp q * 2 ^ ulp q := by field_simp
  generalize (roundEven (q / 2 ^ ulp q) : ℚ) = r at hr₁ hr₂ ⊢
  generalize q / 2 ^ ulp q = s at hr₁ hr₂ hqe
  generalize (2 : ℚ) ^ ulp q = p at hp hqe ⊢
  rw [abs_le]
  constructor
  · nlinarith
  · nlinarith

/-! ## Printing again -/

theorem two_pow_bounds :
    (2 : ℚ) ^ (1024 : ℤ) < 359539 / 2 * 10 ^ (303 : ℤ) ∧
      179769 * (10 : ℚ) ^ (303 : ℤ) < 2 ^ (1024 : ℤ) - 2 ^ (970 : ℤ) := by
  have h₁ : 2 * 2 ^ 1024 < 359539 * 10 ^ 303 := by decide +kernel
  have h₂ : 179769 * 10 ^ 303 + 2 ^ 970 < 2 ^ 1024 := by decide +kernel
  have c₁ : (2 : ℚ) * 2 ^ 1024 < 359539 * 10 ^ 303 := by exact_mod_cast h₁
  have c₂ : (179769 : ℚ) * 10 ^ 303 + 2 ^ 970 < 2 ^ 1024 := by exact_mod_cast h₂
  have e₁ : (2 : ℚ) ^ (1024 : ℤ) = 2 ^ 1024 := zpow_natCast 2 1024
  have e₂ : (10 : ℚ) ^ (303 : ℤ) = 10 ^ 303 := zpow_natCast 10 303
  have e₃ : (2 : ℚ) ^ (970 : ℤ) = 2 ^ 970 := zpow_natCast 2 970
  rw [e₁, e₂, e₃]
  generalize (2 : ℚ) ^ 1024 = a at c₁ c₂ ⊢
  generalize (2 : ℚ) ^ 970 = b at c₂ ⊢
  generalize (10 : ℚ) ^ 303 = c at c₁ c₂ ⊢
  constructor
  · linarith only [c₁]
  · linarith only [c₂]

/-- The digits of a finite number do not round up to infinity. -/
theorem digitsMagnitude_lt {q : ℚ} (hq : 0 < q) (hfin : q < (2 : ℚ) ^ (1024 : ℤ)) :
    digitsMagnitude q < (2 : ℚ) ^ (1024 : ℤ) - (2 : ℚ) ^ (970 : ℤ) := by
  obtain ⟨htop, hmax⟩ := two_pow_bounds
  have hunit : (0 : ℚ) < 10 ^ (303 : ℤ) := by positivity
  have hnine : (10 : ℚ) ^ (309 : ℤ) = 10 ^ 6 * 10 ^ (303 : ℤ) := by
    rw [show (309 : ℤ) = 6 + 303 by norm_num, zpow_add₀ (by norm_num)]
    norm_num
  have hlog : Int.log 10 q < 309 := by
    rw [← Int.lt_zpow_iff_log_lt (by decide) hq, Nat.cast_ofNat, hnine]
    refine (hfin.trans htop).trans ?_
    exact mul_lt_mul_of_pos_right (by norm_num) hunit
  rcases (show Int.log 10 q ≤ 308 by omega).lt_or_eq with h | h
  · have hle : (10 : ℚ) ^ (Int.log 10 q - 5) ≤ 10 ^ (302 : ℤ) := zpow_le_zpow_right₀ (by norm_num) (by omega)
    have hhi : q < (10 : ℚ) ^ (308 : ℤ) := by
      have hlt := Int.lt_zpow_succ_log_self (b := 10) (by decide) q
      rw [Nat.cast_ofNat] at hlt
      exact hlt.trans_le (zpow_le_zpow_right₀ (by norm_num) (by omega))
    have habs := (abs_le.mp (abs_digitsMagnitude_sub_le hq)).2
    have height : (10 : ℚ) ^ (308 : ℤ) = 10 ^ 5 * 10 ^ (303 : ℤ) := by
      rw [show (308 : ℤ) = 5 + 303 by norm_num, zpow_add₀ (by norm_num)]
      norm_num
    have htwo : (10 : ℚ) ^ (303 : ℤ) = 10 ^ (302 : ℤ) * 10 := by
      rw [show (303 : ℤ) = 302 + 1 by norm_num, zpow_add_one₀ (by norm_num)]
    rw [height] at hhi
    generalize (10 : ℚ) ^ (303 : ℤ) = c at *
    generalize (10 : ℚ) ^ (302 : ℤ) = c' at *
    generalize (2 : ℚ) ^ (1024 : ℤ) - 2 ^ (970 : ℤ) = a at *
    linarith only [habs, hle, hhi, htwo, hmax, hunit]
  · -- the digits of the last numbers are 179769 at most
    rw [digitsMagnitude_eq, h, show (308 : ℤ) - 5 = 303 by norm_num]
    have hr := (roundEven_bounds (q := q / 10 ^ (303 : ℤ)) (by positivity)).2
    have hquot : q / 10 ^ (303 : ℤ) < 359539 / 2 := by
      rw [div_lt_iff₀ hunit]
      exact hfin.trans htop
    have hcast : (roundEven (q / 10 ^ (303 : ℤ)) : ℚ) < (179770 : ℕ) := by
      generalize q / 10 ^ (303 : ℤ) = s at hr hquot ⊢
      push_cast
      linarith only [hr, hquot]
    have hnat : roundEven (q / 10 ^ (303 : ℤ)) ≤ 179769 := Nat.lt_succ_iff.mp ((Nat.cast_lt (α := ℚ)).mp hcast)
    have hle : (roundEven (q / 10 ^ (303 : ℤ)) : ℚ) ≤ 179769 := by exact_mod_cast hnat
    exact (mul_le_mul_of_nonneg_right hle hunit.le).trans_lt hmax

/-- A number from the normal range on is much finer than its six digits. -/
theorem ulp_digitsMagnitude_le {q : ℚ} (hq : (2 : ℚ) ^ (-1022 : ℤ) ≤ q) :
    (2 : ℚ) ^ ulp (digitsMagnitude q) ≤ digitsMagnitude q * 2 ^ (-51 : ℤ) := by
  have hpos : 0 < q := lt_of_lt_of_le (by positivity) hq
  have habs := (abs_le.mp (abs_digitsMagnitude_sub_le hpos)).1
  have hunit : (10 : ℚ) ^ (Int.log 10 q - 5) ≤ q := by
    have hlog := Int.zpow_log_le_self (b := 10) (by decide) hpos
    rw [Nat.cast_ofNat] at hlog
    exact (zpow_le_zpow_right₀ (by norm_num) (by omega)).trans hlog
  have hhalf : (2 : ℚ) ^ (-1023 : ℤ) ≤ digitsMagnitude q := by
    have htwo : (2 : ℚ) ^ (-1022 : ℤ) = 2 ^ (-1023 : ℤ) * 2 := by
      rw [show (-1022 : ℤ) = -1023 + 1 by norm_num, zpow_add_one₀ (by norm_num)]
    linarith
  have hd : 0 < digitsMagnitude q := lt_of_lt_of_le (by positivity) hhalf
  have h51 : (0 : ℚ) < 2 ^ (-51 : ℤ) := by positivity
  rcases le_total (Int.log 2 (digitsMagnitude q) - 52) (-1074) with h | h
  · have hulp : ulp (digitsMagnitude q) = -1023 + -51 := max_eq_right h
    rw [hulp, zpow_add₀ (by norm_num)]
    exact mul_le_mul_of_nonneg_right hhalf h51.le
  · have hulp : ulp (digitsMagnitude q) = Int.log 2 (digitsMagnitude q) + -52 := max_eq_left h
    have hlog := (two_log_bounds hd).1
    rw [hulp, zpow_add₀ (by norm_num)]
    exact mul_le_mul hlog (zpow_le_zpow_right₀ (by norm_num) (by norm_num)) (by positivity) hd.le

theorem digitsMagnitude_pos {q : ℚ} (hq : 0 < q) : 0 < digitsMagnitude q := by
  have hn := (sixDigits_fst hq).1
  have hpos : (0 : ℚ) < (sixDigits q).1 := by
    have h : 0 < (sixDigits q).1 := Nat.lt_of_lt_of_le (by decide) hn
    exact_mod_cast h
  unfold digitsMagnitude
  positivity

theorem sixDigits_nearest {q : ℚ} (hnormal : (2 : ℚ) ^ (-1022 : ℤ) ≤ q) (hfin : q < (2 : ℚ) ^ (1024 : ℤ)) (neg : Bool) :
    (nearest neg (digitsMagnitude q)).negative = neg ∧ (nearest neg (digitsMagnitude q)).isFinite = true ∧
      (nearest neg (digitsMagnitude q)).nonzero = true ∧
      sixDigits (nearest neg (digitsMagnitude q)).magnitude = sixDigits q := by
  have hq : 0 < q := lt_of_lt_of_le (by positivity) hnormal
  have hd := digitsMagnitude_pos hq
  obtain ⟨h₁, h₂, h₃⟩ := magnitude_nearest hd (digitsMagnitude_lt hq hfin) neg
  have hulp := ulp_digitsMagnitude_le hnormal
  have hsix := sixDigits_fst hq
  have hn : ((sixDigits q).1 : ℚ) < 10 ^ 6 := by exact_mod_cast hsix.2
  have hp : (0 : ℚ) < 10 ^ ((sixDigits q).2 - 5) := by positivity
  have hsmall : digitsMagnitude q * 2 ^ (-51 : ℤ) ≤ (10 : ℚ) ^ ((sixDigits q).2 - 5) / 50 := by
    have hfifty : (2 : ℚ) ^ (-51 : ℤ) ≤ 1 / 10 ^ 6 / 50 := by norm_num
    unfold digitsMagnitude
    nlinarith
  refine ⟨h₁, h₂, ?_, ?_⟩
  · -- a number that is zero is not close to one that is positive
    by_contra hz
    have hzero : (nearest neg (digitsMagnitude q)).magnitude = 0 := by
      simp only [nonzero, Bool.or_eq_true, bne_iff_ne, not_or, not_not] at hz
      rw [magnitude, if_pos hz.1, hz.2]
      norm_num
    rw [hzero, zero_sub, abs_neg, abs_of_pos hd] at h₃
    have hhalf : (2 : ℚ) ^ (-51 : ℤ) < 1 := by norm_num
    nlinarith
  · have hnear : |(nearest neg (digitsMagnitude q)).magnitude - digitsMagnitude q| ≤
        (10 : ℚ) ^ ((sixDigits q).2 - 5) / 100 := by
      have hunit := hulp.trans hsmall
      refine h₃.trans ?_
      generalize (2 : ℚ) ^ ulp (digitsMagnitude q) = u at hunit ⊢
      linarith only [hunit]
    exact sixDigits_of_near hsix hnear

theorem normal_le_magnitude {x : Double} (h : x.expo ≠ 0) : (2 : ℚ) ^ (-1022 : ℤ) ≤ x.magnitude := by
  have hge : 1 ≤ x.expo.val := Nat.one_le_iff_ne_zero.mpr fun hv => h (Fin.ext hv)
  have hf : (0 : ℚ) ≤ x.frac.val := Nat.cast_nonneg _
  rw [magnitude, if_neg h]
  calc (2 : ℚ) ^ (-1022 : ℤ) ≤ 2 ^ ((52 : ℤ) + ((x.expo.val : ℤ) - 1075)) :=
        zpow_le_zpow_right₀ (by norm_num) (by omega)
    _ = 2 ^ (52 : ℕ) * 2 ^ ((x.expo.val : ℤ) - 1075) := by rw [zpow_add₀ (by norm_num)]; norm_num
    _ ≤ _ := mul_le_mul_of_nonneg_right (le_add_of_nonneg_right hf) (by positivity)

theorem print_of_finite {x : Double} (hfin : x.isFinite = true) (h : x.nonzero = true) :
    x.print = (if x.negative then [byte '-'] else []) ++
      printDigits (sixDigits x.magnitude).1 (sixDigits x.magnitude).2 := by
  have hnan : x.isNan = false := by
    simp only [isFinite, bne_iff_ne] at hfin
    simp [isNan, hfin]
  unfold print printMagnitude
  simp only [hnan, hfin, h, Bool.not_true, Bool.false_eq_true, if_false]
  split_ifs <;> rfl

/-- A number that is not subnormal prints the same after its text was read. -/
theorem print_reread {x : Double} (hx : ¬ x.IsSubnormal) : x.reread.print = x.print := by
  unfold reread
  split_ifs with hnan hinf hzero
  · have hnan' : isNan ⟨x.negative, 2047, 2 ^ 51⟩ = true := by
      cases x.negative <;> decide
    unfold print printMagnitude
    rw [if_pos hnan, if_pos hnan']
  · have hnan' : isNan ⟨x.negative, 2047, 0⟩ = false := by cases x.negative <;> decide
    have hinf' : (!isFinite ⟨x.negative, 2047, 0⟩) = true := by cases x.negative <;> decide
    unfold print printMagnitude
    simp only [hnan, hinf, hnan', hinf', Bool.false_eq_true, if_false, if_true]
  · have hparts : x.expo = 0 ∧ x.frac = 0 := by
      simpa [nonzero] using hzero
    obtain ⟨neg, e, f⟩ := x
    obtain ⟨rfl, rfl⟩ := hparts
    rfl
  · have hfin : x.isFinite = true := by simpa using hinf
    have hnz : x.nonzero = true := by simpa using hzero
    have hexpo : x.expo ≠ 0 := by
      intro he
      have hfrac : x.frac ≠ 0 := by
        simpa [nonzero, he] using hnz
      exact hx ⟨he, hfrac⟩
    obtain ⟨h₁, h₂, h₃, h₄⟩ := sixDigits_nearest (normal_le_magnitude hexpo) (magnitude_bounds hfin hnz).2 x.negative
    show (nearest x.negative (digitsMagnitude x.magnitude)).print = x.print
    rw [print_of_finite h₂ h₃, print_of_finite hfin hnz, h₁, h₄]

/-- It prints as `1e-318`; the number nearest to that prints as `9.99999e-319`. -/
theorem print_reread_subnormal : (reread ⟨false, 0, 202403⟩).print ≠ print ⟨false, 0, 202403⟩ := by
  decide +kernel

end SimpleSatOps.Double
