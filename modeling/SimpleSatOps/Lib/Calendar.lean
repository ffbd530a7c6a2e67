import Mathlib.Tactic

/-!
# Days and years

Days of the Gregorian calendar, counted from 1 January of the year 0.

* `daysBefore` : the first day of a year;
* `dayNumber` : the day of a date, whose month and day may be out of range;
* `yearOf`, `yearOf_eq_iff` : the year a day falls into.
-/

namespace SimpleSatOps

def isLeapYear (y : ℤ) : Bool := y % 4 = 0 && (y % 100 ≠ 0 || y % 400 = 0)

/-- The days before 1 January of a year. -/
def daysBefore (y : ℤ) : ℤ := 365 * y + (y + 3) / 4 - (y + 99) / 100 + (y + 399) / 400

/-- The days of the months of a year. -/
def monthLengths (leap : Bool) : List ℤ := [31, if leap then 29 else 28, 31, 30, 31, 30, 31, 31, 30, 31, 30, 31]

/-- The day of a date; January is month 0, and the months go on into other years. -/
def dayNumber (year mon mday : ℤ) : ℤ :=
  let y := year + mon / 12
  daysBefore y + ((monthLengths (isLeapYear y)).take (mon % 12).toNat).sum + mday - 1

/-- The year of a day: one that is guessed from the mean length of a year, or one of its neighbours. -/
def yearOf (d : ℤ) : ℤ :=
  let y := d * 400 / 146097
  if d < daysBefore y then y - 1 else if daysBefore (y + 1) ≤ d then y + 1 else y

example : yearOf (dayNumber 2024 11 31) = 2024 := by decide

example : yearOf (dayNumber 2023 11 32) = 2024 := by decide

theorem daysBefore_succ (y : ℤ) : daysBefore (y + 1) = daysBefore y + if isLeapYear y then 366 else 365 := by
  unfold daysBefore isLeapYear
  split_ifs with h
  · simp only [Bool.and_eq_true, decide_eq_true_eq, Bool.or_eq_true] at h
    omega
  · simp only [Bool.and_eq_true, decide_eq_true_eq, Bool.or_eq_true] at h
    omega

theorem daysBefore_lt {y z : ℤ} (h : y < z) : daysBefore y < daysBefore z := by
  unfold daysBefore
  omega

theorem daysBefore_inj {y z : ℤ} (h : daysBefore y = daysBefore z) : y = z := by
  rcases lt_trichotomy y z with hlt | heq | hgt
  · exact absurd h (daysBefore_lt hlt).ne
  · exact heq
  · exact absurd h (daysBefore_lt hgt).ne'

theorem yearOf_spec (d : ℤ) : daysBefore (yearOf d) ≤ d ∧ d < daysBefore (yearOf d + 1) := by
  have hguess : daysBefore (d * 400 / 146097 - 1) ≤ d ∧ d < daysBefore (d * 400 / 146097 + 2) := by
    unfold daysBefore
    omega
  obtain ⟨hlo, hhi⟩ := hguess
  unfold yearOf
  dsimp only
  split_ifs with hbelow habove
  · rw [Int.sub_add_cancel]
    exact ⟨hlo, hbelow⟩
  · rw [Int.add_assoc]
    exact ⟨habove, hhi⟩
  · exact ⟨Int.not_lt.mp hbelow, Int.not_le.mp habove⟩

/-- **The year of a day** is the one that begins last before it. -/
theorem yearOf_eq_iff {d y : ℤ} : yearOf d = y ↔ daysBefore y ≤ d ∧ d < daysBefore (y + 1) := by
  obtain ⟨hlo, hhi⟩ := yearOf_spec d
  constructor
  · rintro rfl
    exact ⟨hlo, hhi⟩
  · rintro ⟨hlo', hhi'⟩
    rcases lt_trichotomy (yearOf d) y with hlt | heq | hgt
    · have hle : daysBefore (yearOf d + 1) ≤ daysBefore y := by
        rcases (Int.add_one_le_iff.mpr hlt).lt_or_eq with h | h
        · exact (daysBefore_lt h).le
        · rw [h]
      omega
    · exact heq
    · have hle : daysBefore (y + 1) ≤ daysBefore (yearOf d) := by
        rcases (Int.add_one_le_iff.mpr hgt).lt_or_eq with h | h
        · exact (daysBefore_lt h).le
        · rw [h]
      omega

end SimpleSatOps
