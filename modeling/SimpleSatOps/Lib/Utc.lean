import SimpleSatOps.Lib.Printf

/-!
# Broken-down time

* `gmtimeR` : the fields of a time in UTC;
* `zeroPadInt` : a field of fixed width.
-/

namespace SimpleSatOps

/-- `struct tm`, as far as it is printed. -/
structure Tm where
  tmYear : ℤ
  tmMon : ℤ
  tmMday : ℤ
  tmHour : ℤ
  tmMin : ℤ
  tmSec : ℤ
deriving DecidableEq

/-- `gmtime_r`: days are counted from 1 March of the year 0, in cycles of 400 years. -/
def gmtimeR (sec : ℤ) : Tm :=
  let day := sec / 86400 + 719468
  let rem := sec % 86400
  let doe := day % 146097
  let yoe := (doe - doe / 1460 + doe / 36524 - doe / 146096) / 365
  let doy := doe - (365 * yoe + yoe / 4 - yoe / 100)
  let mp := (5 * doy + 2) / 153
  { tmYear := day / 146097 * 400 + yoe + (if mp < 10 then 0 else 1) - 1900
    tmMon := if mp < 10 then mp + 2 else mp - 10
    tmMday := doy - (153 * mp + 2) / 5 + 1
    tmHour := rem / 3600
    tmMin := rem % 3600 / 60
    tmSec := rem % 60 }

example : gmtimeR 1709251199 = ⟨124, 1, 29, 23, 59, 59⟩ := by decide

/-- `"%0wd"`. -/
def zeroPadInt (w : ℕ) (z : ℤ) : List UInt8 :=
  if z < 0 then byte '-' :: zeroPad (w - 1) z.natAbs else zeroPad w z.natAbs

end SimpleSatOps
