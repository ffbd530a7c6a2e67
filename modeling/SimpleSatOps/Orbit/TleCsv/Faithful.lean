import SimpleSatOps.Orbit.TleCsv.Layout

/-!
# Faithful conversions

* `InRange` : the rows that stand for an orbit, with the numbers of their epoch;
* `Faithful` : reading the columns gives the row back, real numbers to half a unit of the last digit;
* `Skips`, `Good` : the rows that are refused, and those whose numbers fit into the columns;
* `line_faithful_iff` : a row of a file is skipped or written faithfully exactly if it is one of these.
-/

namespace SimpleSatOps.TleCsv

/-! ## Rows and readers -/

/-- A row with an epoch of the years that two digits can tell, and elements of an orbit. -/
structure InRange (row : Column → List UInt8) (e : Epoch) : Prop where
  epoch : scanEpoch (row .epoch) = some e
  year : 1957 ≤ e.year ∧ e.year ≤ 2056
  finite : ∀ c ∈ [Column.inclination, .raOfAscNode, .argOfPericenter, .meanAnomaly, .eccentricity, .meanMotion,
    .meanMotionDot, .meanMotionDdot, .bstar], FiniteText (row c)
  angles : ∀ c ∈ [Column.inclination, .raOfAscNode, .argOfPericenter, .meanAnomaly],
    0 ≤ realValue (row c) ∧ realValue (row c) < 360
  eccentricity : 0 ≤ realValue (row .eccentricity) ∧ realValue (row .eccentricity) ≤ 9999999 / 10 ^ 7
  meanMotion : 0 < realValue (row .meanMotion)
  meanMotionDot : |realValue (row .meanMotionDot)| < 9 / 10
  decexp : ∀ c ∈ [Column.bstar, .meanMotionDdot],
    realValue (row c) = 0 ∨ 1 / 10 ^ 9 ≤ |realValue (row c)| ∧ |realValue (row c)| ≤ 10 ^ 8
  numbers : ∀ c ∈ [Column.noradCatId, .elementSetNo, .revAtEpoch], 0 ≤ intValue (row c)

/-- The instant of an epoch, in days. -/
def Epoch.instant (e : Epoch) : ℚ := e.date + e.seconds e.frac / 86400

/-- The year of two digits. -/
def readYear (yy : ℤ) : ℤ := if yy < 57 then 2000 + yy else 1900 + yy

/-- The instant in the columns of an epoch, in days. -/
def readEpoch (column : List UInt8) : ℚ :=
  daysBefore (readYear (intValue (column.take 2))) + realValue (column.drop 2) - 1

/-- What is read from the columns of the two lines. -/
structure Faithful (row : Column → List UInt8) (e : Epoch) (tle : Tle) : Prop where
  length : tle.line1.length = 69 ∧ tle.line2.length = 69
  checksum1 : tle.line1.getD 68 0 = digitByte (tleChecksum tle.line1)
  checksum2 : tle.line2.getD 68 0 = digitByte (tleChecksum tle.line2)
  catalog : slice tle.line1 2 5 = slice tle.line2 2 5
  norad : intValue (slice tle.line1 2 5) = intValue (row .noradCatId)
  elementSetNo : intValue (slice tle.line1 64 4) = intValue (row .elementSetNo)
  revAtEpoch : intValue (slice tle.line2 63 5) = intValue (row .revAtEpoch)
  epoch : |readEpoch (slice tle.line1 18 14) - e.instant| ≤ 1 / 2 / 10 ^ 8
  meanMotionDot : |realValue (slice tle.line1 33 10) - realValue (row .meanMotionDot)| ≤ 1 / 2 / 10 ^ 8
  meanMotionDdot : |(readDecexp (slice tle.line1 44 8)).1 - realValue (row .meanMotionDdot)| ≤
    (readDecexp (slice tle.line1 44 8)).2 / 2
  bstar : |(readDecexp (slice tle.line1 53 8)).1 - realValue (row .bstar)| ≤ (readDecexp (slice tle.line1 53 8)).2 / 2
  inclination : |realValue (slice tle.line2 8 8) - realValue (row .inclination)| ≤ 1 / 2 / 10 ^ 4
  raOfAscNode : |realValue (slice tle.line2 17 8) - realValue (row .raOfAscNode)| ≤ 1 / 2 / 10 ^ 4
  eccentricity : |readEcc (slice tle.line2 26 7) - realValue (row .eccentricity)| ≤ 1 / 2 / 10 ^ 7
  argOfPericenter : |realValue (slice tle.line2 34 8) - realValue (row .argOfPericenter)| ≤ 1 / 2 / 10 ^ 4
  meanAnomaly : |realValue (slice tle.line2 43 8) - realValue (row .meanAnomaly)| ≤ 1 / 2 / 10 ^ 4
  meanMotion : |realValue (slice tle.line2 52 11) - realValue (row .meanMotion)| ≤ 1 / 2 / 10 ^ 8

/-- The day of the year or the mean motion is too wide for its columns. -/
def Skips (row : Column → List UInt8) (e : Epoch) : Prop :=
  ¬ Fits 3 8 e.full ∨ 10 ^ 2 ≤ roundEven (realValue (row .meanMotion) * 10 ^ 8) / 10 ^ 8

/-- Digits behind the fifteenth decide a tie. -/
def Epoch.Cut (e : Epoch) : Prop := digitsValue (e.frac.drop 15) ≠ 0 ∧ e.full * 10 ^ 8 - rounded 8 e.full = 1 / 2

/-- Integers as wide as their columns, and a date that is one of its year. -/
def Good (row : Column → List UInt8) (e : Epoch) : Prop :=
  intValue (row .noradCatId) < 100000 ∧ intValue (row .elementSetNo) < 10000 ∧ intValue (row .revAtEpoch) < 100000 ∧
    yearOf e.date = e.year ∧ ¬ e.Cut

/-! ## The epoch -/

/-- Fifteen digits and the ones behind them. -/
theorem Epoch.seconds_frac (e : Epoch) :
    e.seconds e.frac = e.seconds (e.frac.take 15) + digitsValue (e.frac.drop 15) / 10 ^ e.frac.length := by
  have hsplit : digitsValue e.frac =
      digitsValue (e.frac.take 15) * 10 ^ (e.frac.drop 15).length + digitsValue (e.frac.drop 15) := by
    rw [← digitsValue_append, List.take_append_drop]
  have hlen : e.frac.length = (e.frac.take 15).length + (e.frac.drop 15).length := by
    rw [← List.length_append, List.take_append_drop]
  have hpow : (10 : ℚ) ^ (e.frac.drop 15).length ≠ 0 := by positivity
  have hpow' : (10 : ℚ) ^ (e.frac.take 15).length ≠ 0 := by positivity
  unfold Epoch.seconds
  rw [hsplit, hlen, pow_add]
  push_cast
  field_simp
  ring

/-- What the reader of the columns is off by. -/
theorem Epoch.error_eq (e : Epoch) (year : ℤ) :
    (daysBefore year + (rounded 8 e.full : ℚ) / 10 ^ 8 - 1) - e.instant =
      (daysBefore year - daysBefore (yearOf e.date) : ℤ) -
        ((e.full * 10 ^ 8 - rounded 8 e.full) / 10 ^ 8 +
          digitsValue (e.frac.drop 15) / 10 ^ e.frac.length / 86400) := by
  unfold Epoch.instant
  rw [e.seconds_frac]
  have hfull : e.full = ((e.date - daysBefore (yearOf e.date) + 1 : ℤ) : ℚ) + e.seconds (e.frac.take 15) / 86400 := rfl
  rw [hfull]
  push_cast
  ring

/-- What is read of the epoch is a multiple of a small number; less than a half, it is less by such a number. -/
theorem Epoch.tie_gap {e : Epoch} (hmore : digitsValue (e.frac.drop 15) ≠ 0)
    (hlt : e.full * 10 ^ 8 - rounded 8 e.full < 1 / 2) :
    e.full * 10 ^ 8 - rounded 8 e.full ≤ 1 / 2 - 1 / (864 * 10 ^ 9) := by
  have hlen : (e.frac.take 15).length = 15 := by
    rw [List.length_take]
    refine min_eq_left (Nat.le_of_not_lt fun hshort => hmore ?_)
    rw [List.drop_of_length_le hshort.le]
    rfl
  obtain ⟨z, hz⟩ : ∃ z : ℤ, e.full * 10 ^ 8 - rounded 8 e.full = z / (864 * 10 ^ 9) := by
    refine ⟨(e.tmYday + 1) * (864 * 10 ^ 17) + (e.hh * 3600 + e.mm * 60 + e.ss) * 10 ^ 15 +
      digitsValue (e.frac.take 15) - rounded 8 e.full * (864 * 10 ^ 9), ?_⟩
    rw [Epoch.full, Epoch.seconds, hlen]
    push_cast
    ring
  rw [hz] at hlt ⊢
  have hint : z < 432 * 10 ^ 9 := by
    rw [div_lt_iff₀ (by norm_num)] at hlt
    norm_num at hlt
    exact_mod_cast hlt
  have hle : (z : ℚ) ≤ 432 * 10 ^ 9 - 1 := by
    have hstep : z ≤ 432 * 10 ^ 9 - 1 := by omega
    exact_mod_cast hstep
  rw [div_le_iff₀ (by norm_num)]
  norm_num at hle ⊢
  exact hle

section
variable {e : Epoch} (hfrac : ∀ c ∈ e.frac, isDigit c = true)
include hfrac

/-- The digits that are not read are less than a unit of the last one that is. -/
theorem Epoch.rest_lt : (digitsValue (e.frac.drop 15) : ℚ) / 10 ^ e.frac.length < 1 / 10 ^ 15 := by
  have hlt := digitsValue_lt (e.frac.drop 15) fun c hc => hfrac c (List.mem_of_mem_drop hc)
  rw [List.length_drop] at hlt
  rcases Nat.lt_or_ge e.frac.length 15 with hshort | hlong
  · rw [List.drop_of_length_le hshort.le]
    have hnil : digitsValue [] = 0 := rfl
    rw [hnil, Nat.cast_zero, zero_div]
    positivity
  · have hpow : (10 : ℚ) ^ e.frac.length = 10 ^ (e.frac.length - 15) * 10 ^ 15 := by
      rw [← pow_add, Nat.sub_add_cancel hlong]
    have hcast : (digitsValue (e.frac.drop 15) : ℚ) < 10 ^ (e.frac.length - 15) := by exact_mod_cast hlt
    have hpos : (0 : ℚ) < 10 ^ (e.frac.length - 15) := by positivity
    rw [hpow, div_lt_div_iff₀ (by positivity) (by positivity), one_mul]
    exact mul_lt_mul_of_pos_right hcast (by positivity)

/-- The columns tell the epoch of a date of the year that is printed, unless digits are cut off at a tie. -/
theorem Epoch.error_le_iff :
    |(daysBefore (yearOf e.date) + (rounded 8 e.full : ℚ) / 10 ^ 8 - 1) - e.instant| ≤ 1 / 2 / 10 ^ 8 ↔ ¬ e.Cut := by
  have herr := abs_rounded_sub_le 8 e.full
  have hrest := e.rest_lt hfrac
  have hnonneg : (0 : ℚ) ≤ digitsValue (e.frac.drop 15) / 10 ^ e.frac.length := by positivity
  rw [e.error_eq, Int.sub_self, Int.cast_zero, zero_sub, abs_neg]
  rw [abs_le] at herr
  have hiff : |(e.full * 10 ^ 8 - rounded 8 e.full) / 10 ^ 8 +
        digitsValue (e.frac.drop 15) / 10 ^ e.frac.length / 86400| ≤ 1 / 2 / 10 ^ 8 ↔
      (e.full * 10 ^ 8 - rounded 8 e.full) / 10 ^ 8 +
        digitsValue (e.frac.drop 15) / 10 ^ e.frac.length / 86400 ≤ 1 / 2 / 10 ^ 8 := by
    rw [abs_le, and_iff_right_iff_imp]
    intro _
    linarith
  rw [hiff]
  by_cases hmore : digitsValue (e.frac.drop 15) = 0
  · have hcut : ¬ e.Cut := fun h => h.1 hmore
    rw [hmore, Nat.cast_zero, zero_div, zero_div, add_zero]
    exact iff_of_true (by linarith) hcut
  · rcases lt_or_ge (e.full * 10 ^ 8 - rounded 8 e.full) (1 / 2) with hlt | hge
    · have hgap := Epoch.tie_gap hmore hlt
      have hcut : ¬ e.Cut := fun h => hlt.ne h.2
      refine iff_of_true ?_ hcut
      linarith
    · have heq : e.full * 10 ^ 8 - rounded 8 e.full = 1 / 2 := le_antisymm (by linarith) hge
      have hpos : (0 : ℚ) < digitsValue (e.frac.drop 15) / 10 ^ e.frac.length := by
        have hnat : 0 < digitsValue (e.frac.drop 15) := Nat.pos_of_ne_zero hmore
        positivity
      refine iff_of_false (fun hle => ?_) (not_not.mpr ⟨hmore, heq⟩)
      rw [heq] at hle
      linarith

/-- A date of another year is off by the days of a year. -/
theorem Epoch.error_gt {year : ℤ} (hyear : yearOf e.date ≠ year) :
    1 / 2 / 10 ^ 8 < |(daysBefore year + (rounded 8 e.full : ℚ) / 10 ^ 8 - 1) - e.instant| := by
  have herr := abs_rounded_sub_le 8 e.full
  have hrest := e.rest_lt hfrac
  have hnonneg : (0 : ℚ) ≤ digitsValue (e.frac.drop 15) / 10 ^ e.frac.length := by positivity
  have hdays : daysBefore year - daysBefore (yearOf e.date) ≠ 0 :=
    fun h => hyear (daysBefore_inj (Int.sub_eq_zero.mp h).symm)
  have hone : (1 : ℚ) ≤ |((daysBefore year - daysBefore (yearOf e.date) : ℤ) : ℚ)| := by
    exact_mod_cast Int.one_le_abs hdays
  rw [abs_le] at herr
  rw [e.error_eq]
  refine lt_of_lt_of_le ?_ (abs_sub_abs_le_abs_sub _ _)
  have hsmall : |(e.full * 10 ^ 8 - rounded 8 e.full) / 10 ^ 8 +
      digitsValue (e.frac.drop 15) / 10 ^ e.frac.length / 86400| < 1 / 2 := by
    rw [abs_lt]
    constructor <;> linarith
  linarith

end

theorem scanEpoch_frac {iso : List UInt8} {e : Epoch} (h : scanEpoch iso = some e) :
    ∀ c ∈ e.frac, isDigit c = true := by
  unfold scanEpoch at h
  simp only [Option.bind_eq_bind, Option.bind_eq_some_iff, Option.some.injEq] at h
  obtain ⟨_, _, _, _, _, _, _, _, _, _, _, _, _, _, _, _, _, _, _, _, _, _, rfl⟩ := h
  exact fun c hc => List.mem_takeWhile_imp hc

/-! ## What is written -/

/-- The columns of an epoch. -/
def epochColumn (e : Epoch) : List UInt8 := zeroPadInt 2 (e.year.tmod 100) ++ printZeroFixed 12 8 e.full

section
variable {row : Column → List UInt8} {e : Epoch} (h : InRange row e)
include h

theorem InRange.twoDigits : e.year.tmod 100 = e.year % 100 ∧
    zeroPadInt 2 (e.year % 100) = zeroPad 2 (e.year % 100).toNat ∧
    (zeroPad 2 (e.year % 100).toNat).length = 2 := by
  obtain ⟨hlo, hhi⟩ := h.year
  have hnat : (e.year % 100).natAbs = (e.year % 100).toNat := by omega
  refine ⟨Int.tmod_eq_emod_of_nonneg (by omega), ?_, length_zeroPad (by decide) (by omega)⟩
  rw [zeroPadInt, if_neg (by omega), hnat]

theorem InRange.formatEpoch_eq : formatEpoch (row .epoch) = if Fits 3 8 e.full then some (epochColumn e) else none := by
  obtain ⟨htmod, hpad, htwo⟩ := h.twoDigits
  have hfits : (printZeroFixed 12 8 e.full).length = 12 ↔ Fits 3 8 e.full :=
    @length_printZeroFixed_iff 3 8 (by decide) e.full
  have hlen : (epochColumn e).length = 14 ↔ Fits 3 8 e.full := by
    rw [← hfits, epochColumn, htmod, hpad, List.length_append, htwo]
    omega
  rw [formatEpoch, h.epoch, Option.bind_some]
  show (if (epochColumn e).length ≠ 14 then none else some (epochColumn e)) = _
  by_cases hfit : Fits 3 8 e.full
  · rw [if_neg (not_not.mpr (hlen.mpr hfit)), if_pos hfit]
  · rw [if_pos fun heq => hfit (hlen.mp heq), if_neg hfit]

theorem InRange.epochColumn_spec (hfit : Fits 3 8 e.full) :
    (epochColumn e).length = 14 ∧ (epochColumn e).getD 5 0 = byte '.' ∧
      readEpoch (epochColumn e) = daysBefore e.year + (rounded 8 e.full : ℚ) / 10 ^ 8 - 1 := by
  obtain ⟨htmod, hpad, htwo⟩ := h.twoDigits
  obtain ⟨hlo, hhi⟩ := h.year
  have hlen : (printZeroFixed 12 8 e.full).length = 12 := (@length_printZeroFixed_iff 3 8 (by decide) e.full).mpr hfit
  have hspec : (printZeroFixed 12 8 e.full).getD 3 0 = byte '.' ∧
      realValue (printZeroFixed 12 8 e.full) = (rounded 8 e.full : ℚ) / 10 ^ 8 :=
    @printZeroFixed_spec 3 8 (by decide) e.full hfit
  obtain ⟨hpoint, hvalue⟩ := hspec
  have hdigits : Json.Digits (zeroPad 2 (e.year % 100).toNat) :=
    ⟨List.ne_nil_of_length_pos (by omega), fun _ => isDigit_of_mem_zeroPad⟩
  have hyear : readYear (intValue (zeroPad 2 (e.year % 100).toNat)) = e.year := by
    rw [intValue_digits hdigits, digitsValue_zeroPad, readYear]
    split_ifs <;> omega
  rw [epochColumn, htmod, hpad]
  refine ⟨?_, ?_, ?_⟩
  · rw [List.length_append, htwo]
    omega
  · rw [List.getD_append_right _ _ _ _ (by omega), htwo]
    exact hpoint
  · rw [readEpoch, List.take_left' htwo, List.drop_left' htwo, hyear]
    rw [hvalue]

/-- The point of an angle. -/
theorem InRange.angle {c : Column} (hc : c ∈ [Column.inclination, .raOfAscNode, .argOfPericenter, .meanAnomaly]) :
    (fixedColumn 8 4 (realValue (row c))).getD 3 0 = byte '.' ∧
      |realValue (fixedColumn 8 4 (realValue (row c))) - realValue (row c)| ≤ 1 / 2 / 10 ^ 4 := by
  obtain ⟨hlo, hhi⟩ := h.angles c hc
  have hround : roundEven (realValue (row c) * 10 ^ 4) ≤ 3600000 := by
    have herr := abs_roundEven_sub_le (q := realValue (row c) * 10 ^ 4) (by positivity)
    have hlt : (roundEven (realValue (row c) * 10 ^ 4) : ℚ) < 3600001 := by
      have hle := sub_le_iff_le_add.mp (abs_le.mp herr).2
      refine hle.trans_lt ?_
      linarith
    have hnat : roundEven (realValue (row c) * 10 ^ 4) < 3600001 := by exact_mod_cast hlt
    omega
  exact (fixedColumn_spec (m := 2) (k := 4) (by decide) hlo (by omega)).2

theorem InRange.line1_columns (hfit : Fits 3 8 e.full) :
    ((elementsOf row).line1 (epochColumn e)).length = 69 ∧
      ((elementsOf row).line1 (epochColumn e)).getD 68 0 =
        digitByte (tleChecksum ((elementsOf row).line1 (epochColumn e))) ∧
      ((elementsOf row).line1 (epochColumn e)).getD 0 0 = byte '1' ∧
      slice ((elementsOf row).line1 (epochColumn e)) 2 5 = noradColumn (atoiInt (row .noradCatId)) ∧
      slice ((elementsOf row).line1 (epochColumn e)) 18 14 = epochColumn e ∧
      slice ((elementsOf row).line1 (epochColumn e)) 33 10 = formatMdot (realValue (row .meanMotionDot)) ∧
      slice ((elementsOf row).line1 (epochColumn e)) 44 8 = formatDecexp (realValue (row .meanMotionDdot)) ∧
      slice ((elementsOf row).line1 (epochColumn e)) 53 8 = formatDecexp (realValue (row .bstar)) ∧
      slice ((elementsOf row).line1 (epochColumn e)) 61 3 = text " 0 " ∧
      slice ((elementsOf row).line1 (epochColumn e)) 64 4 = intColumn 4 (atoiInt (row .elementSetNo)) :=
  TleCsv.line1_columns (e := elementsOf row) (h.epochColumn_spec hfit).1 (formatMdot_spec h.meanMotionDot).1
    (formatDecexp_spec (h.decexp .meanMotionDdot (by decide))).1 (formatDecexp_spec (h.decexp .bstar (by decide))).1

/-- The element set of a row with columns that are wide enough. -/
theorem InRange.convertRow_eq (hfit : Fits 3 8 e.full) :
    convertRow row =
      if looksValidTle ((elementsOf row).line1 (epochColumn e)) (elementsOf row).line2 then
        some ⟨padRight 24 ((row .objectName).take 24), (elementsOf row).line1 (epochColumn e), (elementsOf row).line2⟩
      else none := by
  have hepoch : formatEpoch (elementsOf row).epoch = some (epochColumn e) := h.formatEpoch_eq.trans (if_pos hfit)
  rw [convertRow, buildLines, hepoch]
  rfl

/-- A row is skipped for the width of its day of the year or of its mean motion, and for nothing else. -/
theorem InRange.convertRow_eq_none_iff : convertRow row = none ↔ Skips row e := by
  unfold Skips
  by_cases hfit : Fits 3 8 e.full
  · obtain ⟨-, -, hone, hnorad, hepoch, hmdot, -, -, hzero, -⟩ := h.line1_columns hfit
    obtain ⟨-, -, htwo, hnorad', hinclination, hraan, -, homega, hanomaly, hmotion, -⟩ := line2_columns (elementsOf row)
    have hvalid := looksValidTle_iff hone htwo (slice_point hepoch (by decide) (h.epochColumn_spec hfit).2.1)
      (slice_point hmdot (by decide) (formatMdot_spec h.meanMotionDot).2.1)
      (slice_point hinclination (by decide) (h.angle (c := .inclination) (by decide)).1)
      (slice_point hraan (by decide) (h.angle (c := .raOfAscNode) (by decide)).1)
      (slice_point homega (by decide) (h.angle (c := .argOfPericenter) (by decide)).1)
      (slice_point hanomaly (by decide) (h.angle (c := .meanAnomaly) (by decide)).1) hzero
      (hnorad.trans hnorad'.symm)
    rw [h.convertRow_eq hfit, or_iff_right (not_not.mpr hfit)]
    rcases Nat.lt_or_ge (roundEven (realValue (row .meanMotion) * 10 ^ 8) / 10 ^ 8) (10 ^ 2) with hlt | hge
    · have hpoint := (fixedColumn_spec (m := 1) (k := 8) (by decide) h.meanMotion.le hlt).2.1
      rw [if_pos (hvalid.mpr (slice_point hmotion (by decide) hpoint))]
      exact iff_of_false (Option.some_ne_none _) (Nat.not_le.mpr hlt)
    · have hwide := fixedColumn_wide (m := 2) (k := 8) (by decide) h.meanMotion.le hge
      have hpoint : ¬ (elementsOf row).line2.getD 54 0 = byte '.' := by
        intro hdot
        rw [← getD_slice (elementsOf row).line2 52 (by decide : 2 < 11), hmotion] at hdot
        exact hwide hdot
      rw [if_neg fun hlooks => hpoint (hvalid.mp hlooks)]
      exact iff_of_true rfl hge
  · have hepoch : formatEpoch (elementsOf row).epoch = none := h.formatEpoch_eq.trans (if_neg hfit)
    rw [convertRow, buildLines, hepoch]
    exact iff_of_true rfl (.inl hfit)

/-- What is written for a row gives the row back exactly if its integers and its date fit. -/
theorem InRange.faithful_iff (hs : ¬ Skips row e) {tle : Tle} (htle : convertRow row = some tle) :
    Faithful row e tle ↔ Good row e := by
  obtain ⟨hfit, hmotionFit⟩ := not_or.mp hs
  rw [not_not] at hfit
  rw [h.convertRow_eq hfit] at htle
  obtain rfl := Option.some.inj (Option.ite_none_right_eq_some.mp htle).2.symm
  obtain ⟨hlen1, hsum1, -, hnorad, hepoch, hmdot, hmddot, hbstar, -, helset⟩ := h.line1_columns hfit
  obtain ⟨hlen2, hsum2, -, hnorad', hinclination, hraan, hecc, homega, hanomaly, hmotion, hrev⟩ :=
    line2_columns (elementsOf row)
  have hfrac := scanEpoch_frac h.epoch
  have hread := (h.epochColumn_spec hfit).2.2
  constructor
  · intro hfaithful
    refine ⟨?_, ?_, ?_, ?_, ?_⟩
    · rw [← hfaithful.norad, hnorad]
      have hlt := intValue_lt (noradColumn (atoiInt (row .noradCatId)))
      rwa [length_noradColumn] at hlt
    · rw [← hfaithful.elementSetNo, helset]
      have hlt := intValue_lt (intColumn 4 (atoiInt (row .elementSetNo)))
      rwa [length_intColumn] at hlt
    · rw [← hfaithful.revAtEpoch, hrev]
      have hlt := intValue_lt (intColumn 5 (elementsOf row).revAtEpoch)
      rwa [length_intColumn] at hlt
    · by_contra hyear
      have herr := hfaithful.epoch
      rw [hepoch, hread] at herr
      exact absurd herr (not_le.mpr (Epoch.error_gt hfrac hyear))
    · have herr := hfaithful.epoch
      rw [hepoch, hread] at herr
      by_cases hyear : yearOf e.date = e.year
      · rw [← hyear] at herr
        exact (Epoch.error_le_iff hfrac).mp herr
      · exact absurd herr (not_le.mpr (Epoch.error_gt hfrac hyear))
  · rintro ⟨hnoradLt, helsetLt, hrevLt, hyear, hcut⟩
    have hatoi : ∀ c ∈ [Column.noradCatId, .elementSetNo, .revAtEpoch], intValue (row c) < 100000 →
        atoiInt (row c) = intValue (row c) := fun c hc hlt => atoiInt_eq (h.numbers c hc) (by omega)
    have hnorad0 := h.numbers .noradCatId (by decide)
    have helset0 := h.numbers .elementSetNo (by decide)
    have hrev0 := h.numbers .revAtEpoch (by decide)
    have hinstant := (Epoch.error_le_iff hfrac).mpr hcut
    rw [hyear, ← hread, ← hepoch] at hinstant
    exact {
      length := ⟨hlen1, hlen2⟩
      checksum1 := hsum1
      checksum2 := hsum2
      catalog := hnorad.trans hnorad'.symm
      norad := by
        rw [hnorad, hatoi .noradCatId (by decide) hnoradLt]
        exact intValue_noradColumn hnorad0 hnoradLt
      elementSetNo := by
        rw [helset, hatoi .elementSetNo (by decide) (by omega)]
        exact intValue_intColumn helset0 helsetLt
      revAtEpoch := by
        rw [hrev]
        show intValue (intColumn 5 (atoiInt (row .revAtEpoch))) = _
        rw [hatoi .revAtEpoch (by decide) hrevLt]
        exact intValue_intColumn hrev0 hrevLt
      epoch := hinstant
      meanMotionDot := hmdot ▸ (formatMdot_spec h.meanMotionDot).2.2
      meanMotionDdot := hmddot ▸ (formatDecexp_spec (h.decexp .meanMotionDdot (by decide))).2
      bstar := hbstar ▸ (formatDecexp_spec (h.decexp .bstar (by decide))).2
      inclination := hinclination ▸ (h.angle (c := .inclination) (by decide)).2
      raOfAscNode := hraan ▸ (h.angle (c := .raOfAscNode) (by decide)).2
      eccentricity := hecc ▸ formatEcc_spec h.eccentricity.1 h.eccentricity.2
      argOfPericenter := homega ▸ (h.angle (c := .argOfPericenter) (by decide)).2
      meanAnomaly := hanomaly ▸ (h.angle (c := .meanAnomaly) (by decide)).2
      meanMotion := by
        have hmotionLt := Nat.lt_of_not_le hmotionFit
        rw [hmotion]
        exact (fixedColumn_spec (m := 1) (k := 8) (by decide) h.meanMotion.le hmotionLt).2.2 }

end

/-! ## A line of a file -/

/-- A line of blanks has no columns with a text. -/
theorem rowOf_blank {header : (Column → ℕ) × ℕ} {line : List UInt8} (hblank : line.dropWhile isBlank = [])
    {row : Column → List UInt8} (hrow : rowOf header line = some row) (c : Column) : row c = [] := by
  have hall : ∀ b ∈ line, isBlank b = true := List.dropWhile_eq_nil_iff.mp hblank
  have hfields : ∀ f ∈ fields 96 64 line, f = [] := by
    cases line with
    | nil => exact fun f hf => absurd hf List.not_mem_nil
    | cons b s =>
        have hinside : ∀ a ∈ b :: s, (!(a == byte ',' || isNewline a)) = true := by
          intro a ha
          have hcases := hall a ha
          rw [isBlank, Bool.or_eq_true, beq_iff_eq, beq_iff_eq] at hcases
          rcases hcases with rfl | rfl <;> decide
        have hb := hall b List.mem_cons_self
        have hnewline : isNewline b = false := by
          rw [isBlank, Bool.or_eq_true, beq_iff_eq, beq_iff_eq] at hb
          rcases hb with rfl | rfl <;> decide
        have hquote : b ≠ byte '"' := by
          rintro rfl
          exact absurd hb (by decide)
        have htrim : ((b :: s).take 95).rdropWhile isBlank = [] := by
          rw [List.rdropWhile_eq_nil_iff]
          exact fun a ha => hall a (List.mem_of_mem_take ha)
        have hnext : csvNext 96 (b :: s) = some ([], []) := by
          have htake : (b :: s).takeWhile (fun a => !(a == byte ',' || isNewline a)) = b :: s :=
            List.takeWhile_eq_self_iff.mpr hinside
          have hdrop : (b :: s).dropWhile (fun a => !(a == byte ',' || isNewline a)) = [] :=
            List.dropWhile_eq_nil_iff.mpr hinside
          rw [csvNext, hnewline, if_neg Bool.false_ne_true]
          dsimp only
          rw [if_neg hquote]
          dsimp only
          rw [htake, hdrop, htrim]
          rfl
        intro f hf
        rw [fields, hnext] at hf
        exact List.mem_singleton.mp hf
  rw [rowOf] at hrow
  obtain rfl := Option.some.inj (Option.ite_none_left_eq_some.mp hrow).2
  dsimp only
  rw [List.getD_eq_getElem?_getD]
  cases hget : (fields 96 64 line)[header.1 c]? with
  | none => rfl
  | some f => exact hfields f (List.mem_of_getElem? hget)

/-- The columns in their own order. -/
def exampleHeader : (Column → ℕ) × ℕ := (fun c => Column.all.idxOf c, 17)

def exampleLine : List UInt8 :=
  text "FRONTIERSAT,2025-135A,2025-06-30T12:34:56.789012,15.21,0.0004,97.4,210.5,90.25,270.125,0,U,64879," ++
    text "999,312,0.00021,0.000034,0"

def exampleRow (c : Column) : List UInt8 := (fields 96 64 exampleLine).getD (exampleHeader.1 c) []

def exampleEpoch : Epoch := ⟨2025, 6, 30, 12, 34, 56, text "789012"⟩

theorem exampleRow_inRange : InRange exampleRow exampleEpoch where
  epoch := by decide +kernel
  year := by decide +kernel
  finite := by decide +kernel
  angles := by decide +kernel
  eccentricity := by decide +kernel
  meanMotion := by decide +kernel
  meanMotionDot := by decide +kernel
  decexp := by decide +kernel
  numbers := by decide +kernel

end SimpleSatOps.TleCsv
