import BajaDaq.DecimalText

/-!
# Calendar dates

`gmtime_r` and `strftime` of the C library for times from 1970 on, in the proleptic Gregorian
calendar. Years are counted from March, so that a leap day is the last day of its year.
-/

namespace BajaDaq.CivilDates
open DecimalText

/-- The year and the day in that year of the day `n` days after 1 March of year 0. -/
def marchYear (n : ℕ) : ℕ × ℕ :=
  let cycles := n / 146097
  let rest := n % 146097
  let centuries := min 3 (rest / 36524)
  let rest := rest - 36524 * centuries
  let olympiads := rest / 1461
  let rest := rest % 1461
  let years := min 3 (rest / 365)
  (400 * cycles + 100 * centuries + 4 * olympiads + years, rest - 365 * years)

/-- The days before 1 March of year `y`. -/
def daysBeforeMarch (y : ℕ) : ℕ := 365 * y + y / 4 - y / 100 + y / 400

/-- The days of a year before its month `m`, March being month 0. -/
def daysBeforeMonth (m : ℕ) : ℕ := (153 * m + 2) / 5

structure CivilDate where
  year : ℕ
  month : ℕ
  day : ℕ
  deriving DecidableEq, Repr

/-- 1 January 1970 in days from 1 March of year 0. -/
def unixEpoch : ℕ := 719468

def civilOfDays (days : ℕ) : CivilDate :=
  let (y, day) := marchYear (days + unixEpoch)
  let m := (5 * day + 2) / 153
  if m < 10 then ⟨y, m + 3, day - daysBeforeMonth m + 1⟩
  else ⟨y + 1, m - 9, day - daysBeforeMonth m + 1⟩

/-- `struct tm`: years since 1900, months from 0. -/
structure Tm where
  tmYear : ℕ
  tmMon : ℕ
  tmMday : ℕ
  tmHour : ℕ
  tmMin : ℕ
  tmSec : ℕ
  deriving DecidableEq, Repr

/-- A null pointer when the year does not fit in an `int`. -/
def gmtimeR (seconds : ℕ) : Option Tm :=
  let date := civilOfDays (seconds / 86400)
  let second := seconds % 86400
  if date.year - 1900 < 2 ^ 31 then
    some ⟨date.year - 1900, date.month - 1, date.day, second / 3600, second % 3600 / 60,
      second % 60⟩
  else none

/-- The parts of a format that the program uses. -/
inductive Conversion where
  | year
  | month
  | day
  | hour
  | minute
  | second
  | char (c : Char)
  deriving DecidableEq, Repr

def Conversion.text (tm : Tm) : Conversion → Text
  | .year => unsignedText (tm.tmYear + 1900)
  | .month => paddedText 2 (tm.tmMon + 1)
  | .day => paddedText 2 tm.tmMday
  | .hour => paddedText 2 tm.tmHour
  | .minute => paddedText 2 tm.tmMin
  | .second => paddedText 2 tm.tmSec
  | .char c => [c]

/-- The text in the buffer; `none` is the result 0 for a text that does not fit with its NUL. -/
def strftime (size : ℕ) (format : List Conversion) (tm : Tm) : Option Text :=
  let text := format.flatMap (Conversion.text tm)
  if text.length < size then some text else none

theorem marchYear_lt (n : ℕ) : (marchYear n).2 < 366 := by
  simp only [marchYear]
  omega

theorem daysBeforeMarch_split {cycles centuries olympiads years : ℕ} (hc : centuries ≤ 3)
    (ho : olympiads ≤ 24) (hy : years ≤ 3) :
    daysBeforeMarch (400 * cycles + 100 * centuries + 4 * olympiads + years) =
      146097 * cycles + 36524 * centuries + 1461 * olympiads + 365 * years := by
  unfold daysBeforeMarch
  omega

/-- The days before the year and the days of the year add up. -/
theorem daysBeforeMarch_add (n : ℕ) : daysBeforeMarch (marchYear n).1 + (marchYear n).2 = n := by
  simp only [marchYear]
  rw [daysBeforeMarch_split (by omega) (by omega) (by omega)]
  omega

theorem month_civilOfDays (days : ℕ) :
    1 ≤ (civilOfDays days).month ∧ (civilOfDays days).month ≤ 12 := by
  have hday := marchYear_lt (days + unixEpoch)
  simp only [civilOfDays]
  split
  · dsimp only
    omega
  · dsimp only
    omega

theorem day_civilOfDays (days : ℕ) :
    1 ≤ (civilOfDays days).day ∧ (civilOfDays days).day ≤ 31 := by
  have hday := marchYear_lt (days + unixEpoch)
  simp only [civilOfDays, daysBeforeMonth]
  split
  · dsimp only
    omega
  · dsimp only
    omega

theorem year_civilOfDays (days : ℕ) :
    365 * (civilOfDays days).year ≤ days + unixEpoch + 365 ∧ 1970 ≤ (civilOfDays days).year := by
  have hsum := daysBeforeMarch_add (days + unixEpoch)
  have hday := marchYear_lt (days + unixEpoch)
  simp only [daysBeforeMarch] at hsum
  have hepoch : unixEpoch = 719468 := rfl
  by_cases hm : (5 * (marchYear (days + unixEpoch)).2 + 2) / 153 < 10
  · simp only [civilOfDays, if_pos hm]
    omega
  · simp only [civilOfDays, if_neg hm]
    omega

/-- The year of a time below 2 ^ 55 seconds fits in an `int`. -/
theorem gmtimeR_of_lt {seconds : ℕ} (h : seconds < 2 ^ 55) :
    gmtimeR seconds = some ⟨(civilOfDays (seconds / 86400)).year - 1900,
      (civilOfDays (seconds / 86400)).month - 1, (civilOfDays (seconds / 86400)).day,
      seconds % 86400 / 3600, seconds % 86400 % 3600 / 60, seconds % 86400 % 60⟩ := by
  have hyear := (year_civilOfDays (seconds / 86400)).1
  have hepoch : unixEpoch = 719468 := rfl
  rw [gmtimeR, if_pos (by omega)]

end BajaDaq.CivilDates
