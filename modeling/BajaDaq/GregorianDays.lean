import BajaDaq.CivilDates
import Mathlib.Tactic.IntervalCases

/-!
# Gregorian dates and their day numbers

The days from 1 January 1970 in closed form. The number grows by the length of each month and each
year, and `civilOfDays` gives the date back.
-/

namespace BajaDaq.GregorianDays
open CivilDates

abbrev IsLeap (year : ℕ) : Prop := year % 4 = 0 ∧ (year % 100 ≠ 0 ∨ year % 400 = 0)

def monthLength (year month : ℕ) : ℕ :=
  if month = 2 then if IsLeap year then 29 else 28
  else if month = 4 ∨ month = 6 ∨ month = 9 ∨ month = 11 then 30 else 31

/-- A day of the Gregorian calendar from 1970 on. -/
structure IsDate (date : CivilDate) : Prop where
  year_ge : 1970 ≤ date.year
  month_pos : 1 ≤ date.month
  month_le : date.month ≤ 12
  day_pos : 1 ≤ date.day
  day_le : date.day ≤ monthLength date.year date.month

/-- The days from 1 March of year 0; January and February are in the year of the March before. -/
def daysFromMarch (date : CivilDate) : ℕ :=
  if date.month ≤ 2 then
    daysBeforeMarch (date.year - 1) + daysBeforeMonth (date.month + 9) + (date.day - 1)
  else daysBeforeMarch date.year + daysBeforeMonth (date.month - 3) + (date.day - 1)

/-- The days from 1 January 1970. -/
def dayNumber (date : CivilDate) : ℕ := daysFromMarch date - unixEpoch

def nextDay (date : CivilDate) : CivilDate :=
  if date.day < monthLength date.year date.month then ⟨date.year, date.month, date.day + 1⟩
  else if date.month < 12 then ⟨date.year, date.month + 1, 1⟩
  else ⟨date.year + 1, 1, 1⟩

theorem succ_div (n k : ℕ) : (n + 1) / k = n / k + if (n + 1) % k = 0 then 1 else 0 := by
  rw [Nat.succ_div]
  simp only [Nat.dvd_iff_mod_eq_zero]

theorem daysBeforeMarch_succ (year : ℕ) : daysBeforeMarch (year + 1) =
    daysBeforeMarch year + 365 + if IsLeap (year + 1) then 1 else 0 := by
  have hcentury : (year + 1) % 100 = 0 → (year + 1) % 4 = 0 := by omega
  have hcycle : (year + 1) % 400 = 0 → (year + 1) % 100 = 0 := by omega
  have hle : year / 100 ≤ year / 4 := Nat.div_le_div_left (by omega) (by omega)
  rw [daysBeforeMarch, daysBeforeMarch, succ_div year 4, succ_div year 100, succ_div year 400]
  by_cases h4 : (year + 1) % 4 = 0
  · by_cases h100 : (year + 1) % 100 = 0
    · by_cases h400 : (year + 1) % 400 = 0
      · rw [if_pos h4, if_pos h100, if_pos h400, if_pos ⟨h4, .inr h400⟩]
        omega
      · rw [if_pos h4, if_pos h100, if_neg h400, if_neg (by rintro ⟨-, h | h⟩ <;> contradiction)]
        omega
    · rw [if_pos h4, if_neg h100, if_neg (mt hcycle h100), if_pos ⟨h4, .inl h100⟩]
      omega
  · have h100 := mt hcentury h4
    rw [if_neg h4, if_neg h100, if_neg (mt hcycle h100), if_neg (fun h => h4 h.1)]
    omega

theorem daysFromMarch_of_le {year month : ℕ} (hmonth : month ≤ 2) (day : ℕ) :
    daysFromMarch ⟨year, month, day⟩ =
      daysBeforeMarch (year - 1) + daysBeforeMonth (month + 9) + (day - 1) := if_pos hmonth

theorem daysFromMarch_of_gt {year month : ℕ} (hmonth : 2 < month) (day : ℕ) :
    daysFromMarch ⟨year, month, day⟩ =
      daysBeforeMarch year + daysBeforeMonth (month - 3) + (day - 1) :=
  if_neg (Nat.not_le.mpr hmonth)

theorem daysFromMarch_day (year month day : ℕ) :
    daysFromMarch ⟨year, month, day⟩ = daysFromMarch ⟨year, month, 1⟩ + (day - 1) := by
  rcases Nat.lt_or_ge 2 month with hmonth | hmonth
  · rw [daysFromMarch_of_gt hmonth, daysFromMarch_of_gt hmonth]
    omega
  · rw [daysFromMarch_of_le hmonth, daysFromMarch_of_le hmonth]
    omega

theorem daysFromMarch_succ_year {year : ℕ} (hyear : 1 ≤ year) :
    daysFromMarch ⟨year + 1, 1, 1⟩ =
      daysFromMarch ⟨year, 1, 1⟩ + 365 + if IsLeap year then 1 else 0 := by
  have hsucc := daysBeforeMarch_succ (year - 1)
  rw [Nat.sub_add_cancel hyear] at hsucc
  rw [daysFromMarch_of_le (by omega), daysFromMarch_of_le (by omega), Nat.add_sub_cancel]
  omega

/-- From March on the month lengths follow the formula of `daysBeforeMonth`. -/
theorem daysBeforeMonth_succ {month : ℕ} (hmonth : 2 < month) (hmonth' : month ≤ 12) (year : ℕ) :
    daysBeforeMonth (month + 1 - 3) = daysBeforeMonth (month - 3) + monthLength year month := by
  interval_cases month <;> rfl

theorem daysFromMarch_succ_month {year month : ℕ} (hyear : 1 ≤ year) (hmonth : 1 ≤ month)
    (hmonth' : month < 12) : daysFromMarch ⟨year, month + 1, 1⟩ =
      daysFromMarch ⟨year, month, 1⟩ + monthLength year month := by
  have hsucc := daysBeforeMarch_succ (year - 1)
  rw [Nat.sub_add_cancel hyear] at hsucc
  rcases Nat.lt_trichotomy month 2 with hlt | rfl | hgt
  · obtain rfl : month = 1 := by omega
    have hjanuary : daysBeforeMonth (1 + 1 + 9) =
        daysBeforeMonth (1 + 9) + monthLength year 1 := rfl
    rw [daysFromMarch_of_le (by omega), daysFromMarch_of_le (by omega), hjanuary]
    omega
  · have hfebruary : daysBeforeMonth (2 + 9) = 337 := rfl
    have hmarch : daysBeforeMonth (2 + 1 - 3) = 0 := rfl
    rw [daysFromMarch_of_gt (by omega), daysFromMarch_of_le (by omega), hfebruary, hmarch,
      monthLength, if_pos rfl, hsucc]
    split
    · omega
    · omega
  · rw [daysFromMarch_of_gt (by omega), daysFromMarch_of_gt hgt,
      daysBeforeMonth_succ hgt hmonth'.le year]
    omega

theorem daysFromMarch_mono_month {year month month' : ℕ} (hyear : 1 ≤ year) (hmonth : 1 ≤ month)
    (hle : month ≤ month') (hmonth' : month' ≤ 12) :
    daysFromMarch ⟨year, month, 1⟩ ≤ daysFromMarch ⟨year, month', 1⟩ := by
  induction month', hle using Nat.le_induction with
  | base => exact Nat.le_refl _
  | succ m hle ih =>
    rw [daysFromMarch_succ_month hyear (by omega) (by omega)]
    exact Nat.le_add_right_of_le (ih (by omega))

theorem daysFromMarch_mono_year {year year' : ℕ} (hyear : 1 ≤ year) (hle : year ≤ year') :
    daysFromMarch ⟨year, 1, 1⟩ ≤ daysFromMarch ⟨year', 1, 1⟩ := by
  induction year', hle using Nat.le_induction with
  | base => exact Nat.le_refl _
  | succ y hle ih =>
    rw [daysFromMarch_succ_year (by omega), Nat.add_assoc]
    exact Nat.le_add_right_of_le ih

theorem daysFromMarch_december (year : ℕ) :
    daysFromMarch ⟨year, 12, 1⟩ + 31 = daysFromMarch ⟨year + 1, 1, 1⟩ := by
  rw [daysFromMarch_of_gt (by omega), daysFromMarch_of_le (by omega), Nat.add_sub_cancel]
  rfl

theorem unixEpoch_le_daysFromMarch {date : CivilDate} (h : IsDate date) :
    unixEpoch ≤ daysFromMarch date := by
  have hyear := h.year_ge
  calc unixEpoch = daysFromMarch ⟨1970, 1, 1⟩ := rfl
    _ ≤ daysFromMarch ⟨date.year, 1, 1⟩ := daysFromMarch_mono_year (by omega) hyear
    _ ≤ daysFromMarch ⟨date.year, date.month, 1⟩ :=
      daysFromMarch_mono_month (by omega) (Nat.le_refl 1) h.month_pos h.month_le
    _ ≤ daysFromMarch date := by
      rw [daysFromMarch_day date.year date.month date.day]
      exact Nat.le_add_right _ _

theorem dayNumber_add {date : CivilDate} (h : IsDate date) :
    dayNumber date + unixEpoch = daysFromMarch date :=
  Nat.sub_add_cancel (unixEpoch_le_daysFromMarch h)

/-- A year from March is found again by its days. -/
theorem marchYear_daysBeforeMarch {year day : ℕ}
    (hday : day < 365 + if IsLeap (year + 1) then 1 else 0) :
    marchYear (daysBeforeMarch year + day) = (year, day) := by
  obtain ⟨cycles, centuries, olympiads, years, rfl, hc, ho, hy⟩ :
      ∃ cycles centuries olympiads years,
        year = 400 * cycles + 100 * centuries + 4 * olympiads + years ∧ centuries ≤ 3 ∧
          olympiads ≤ 24 ∧ years ≤ 3 :=
    ⟨year / 400, year % 400 / 100, year % 100 / 4, year % 4, by omega, by omega, by omega, by omega⟩
  have hlast : day ≤ 365 ∧ (day = 365 → years = 3 ∧ (olympiads = 24 → centuries = 3)) := by
    split at hday
    · refine ⟨by omega, fun _ => ⟨by omega, by omega⟩⟩
    · exact ⟨by omega, by omega⟩
  rw [daysBeforeMarch_split hc ho hy]
  have hcycles : (146097 * cycles + 36524 * centuries + 1461 * olympiads + 365 * years + day) /
      146097 = cycles := by omega
  have hrest : (146097 * cycles + 36524 * centuries + 1461 * olympiads + 365 * years + day) %
      146097 = 36524 * centuries + 1461 * olympiads + 365 * years + day := by omega
  have hcenturies : min 3 ((36524 * centuries + 1461 * olympiads + 365 * years + day) / 36524) =
      centuries := by omega
  have holympiads : (1461 * olympiads + 365 * years + day) / 1461 = olympiads := by omega
  have holympiad : (1461 * olympiads + 365 * years + day) % 1461 = 365 * years + day := by omega
  have hyears : min 3 ((365 * years + day) / 365) = years := by omega
  have hcentury : 36524 * centuries + 1461 * olympiads + 365 * years + day - 36524 * centuries =
      1461 * olympiads + 365 * years + day := by omega
  simp only [marchYear, hcycles, hrest, hcenturies, hcentury, holympiads, holympiad, hyears]
  rw [Nat.add_sub_cancel_left]

theorem month_of_days {month day : ℕ} (hmonth : month ≤ 11)
    (hday : daysBeforeMonth month + day < daysBeforeMonth (month + 1)) :
    (5 * (daysBeforeMonth month + day) + 2) / 153 = month := by
  unfold daysBeforeMonth at *
  interval_cases month <;> omega

theorem civilOfDays_eq {days year month day : ℕ} (hmonth : month ≤ 11)
    (hday : daysBeforeMonth month + day < daysBeforeMonth (month + 1))
    (hyear : daysBeforeMonth month + day < 365 + if IsLeap (year + 1) then 1 else 0)
    (hdays : days + unixEpoch = daysBeforeMarch year + daysBeforeMonth month + day) :
    civilOfDays days = if month < 10 then ⟨year, month + 3, day + 1⟩
      else ⟨year + 1, month - 9, day + 1⟩ := by
  rw [civilOfDays, hdays, Nat.add_assoc, marchYear_daysBeforeMarch hyear]
  dsimp only
  rw [month_of_days hmonth hday, Nat.add_sub_cancel_left]

/-- The date is found again from its day number. -/
theorem civilOfDays_dayNumber {date : CivilDate} (h : IsDate date) :
    civilOfDays (dayNumber date) = date := by
  have hdays := dayNumber_add h
  obtain ⟨year, month, day⟩ := date
  obtain ⟨hyear, hmonth, hmonth', hday, hday'⟩ := h
  dsimp only at hyear hmonth hmonth' hday hday'
  rcases Nat.lt_or_ge 2 month with hgt | hle
  · have hnext := daysBeforeMonth_succ hgt hmonth' year
    have hlast : daysBeforeMonth (month + 1 - 3) ≤ 306 := by
      unfold daysBeforeMonth
      omega
    rw [daysFromMarch_of_gt hgt] at hdays
    rw [show month + 1 - 3 = month - 3 + 1 by omega] at hnext hlast
    rw [civilOfDays_eq (by omega) (by omega) (by omega) hdays, if_pos (by omega),
      show month - 3 + 3 = month by omega, Nat.sub_add_cancel hday]
  · have hlast : daysBeforeMonth (month + 9) + (day - 1) < daysBeforeMonth (month + 9 + 1) ∧
        daysBeforeMonth (month + 9) + (day - 1) < 365 + if IsLeap (year - 1 + 1) then 1 else 0 := by
      rw [show year - 1 + 1 = year by omega]
      rcases Nat.lt_or_ge month 2 with hlt | hge
      · obtain rfl : month = 1 := by omega
        have hjanuary : daysBeforeMonth (1 + 9) = 306 := rfl
        have hend : daysBeforeMonth (1 + 9 + 1) = 337 := rfl
        have hlength : monthLength year 1 = 31 := rfl
        exact ⟨by omega, by omega⟩
      · obtain rfl : month = 2 := by omega
        have hfebruary : daysBeforeMonth (2 + 9) = 337 := rfl
        have hend : daysBeforeMonth (2 + 9 + 1) = 367 := rfl
        rw [monthLength, if_pos rfl] at hday'
        split at hday'
        · rw [if_pos ‹_›]
          exact ⟨by omega, by omega⟩
        · exact ⟨by omega, by omega⟩
    rw [daysFromMarch_of_le hle] at hdays
    rw [civilOfDays_eq (by omega) hlast.1 hlast.2 hdays, if_neg (by omega),
      show year - 1 + 1 = year by omega, Nat.add_sub_cancel, Nat.sub_add_cancel hday]

theorem daysFromMarch_civilOfDays (days : ℕ) :
    daysFromMarch (civilOfDays days) = days + unixEpoch := by
  have hsum := daysBeforeMarch_add (days + unixEpoch)
  have hday := marchYear_lt (days + unixEpoch)
  have hepoch : unixEpoch = 719468 := rfl
  have hmonth : daysBeforeMonth ((5 * (marchYear (days + unixEpoch)).2 + 2) / 153) ≤
      (marchYear (days + unixEpoch)).2 := by
    unfold daysBeforeMonth
    omega
  by_cases hm : (5 * (marchYear (days + unixEpoch)).2 + 2) / 153 < 10
  · simp only [civilOfDays, if_pos hm]
    rw [daysFromMarch_of_gt (by omega), Nat.add_sub_cancel, Nat.add_sub_cancel]
    omega
  · simp only [civilOfDays, if_neg hm]
    rw [daysFromMarch_of_le (by omega), Nat.add_sub_cancel, Nat.add_sub_cancel,
      Nat.sub_add_cancel (by omega)]
    omega

theorem dayNumber_civilOfDays (days : ℕ) : dayNumber (civilOfDays days) = days := by
  rw [dayNumber, daysFromMarch_civilOfDays, Nat.add_sub_cancel]

theorem daysFromMarch_lt_succ_month {date : CivilDate} (h : IsDate date) :
    daysFromMarch date < daysFromMarch ⟨date.year, date.month, 1⟩ +
      monthLength date.year date.month := by
  have hday := h.day_pos
  have hlength := h.day_le
  calc daysFromMarch date
      = daysFromMarch ⟨date.year, date.month, 1⟩ + (date.day - 1) :=
        daysFromMarch_day date.year date.month date.day
    _ < _ := by omega

theorem monthEnd_le {year month : ℕ} (hyear : 1 ≤ year) (hmonth : 1 ≤ month)
    (hmonth' : month ≤ 12) : daysFromMarch ⟨year, month, 1⟩ + monthLength year month ≤
      daysFromMarch ⟨year + 1, 1, 1⟩ := by
  have hdecember := daysFromMarch_december year
  rcases Nat.lt_or_ge month 12 with hlt | hge
  · have hnext := daysFromMarch_mono_month hyear (by omega) (show month + 1 ≤ 12 from hlt) le_rfl
    rw [daysFromMarch_succ_month hyear hmonth hlt] at hnext
    omega
  · obtain rfl : month = 12 := by omega
    exact hdecember.le

/-- Dates in order of year, month and day are in order of their numbers. -/
theorem daysFromMarch_lt {date later : CivilDate} (h : IsDate date) (h' : IsDate later)
    (hlt : [date.year, date.month, date.day] < [later.year, later.month, later.day]) :
    daysFromMarch date < daysFromMarch later := by
  have hyear := h.year_ge
  have hlater : daysFromMarch ⟨later.year, later.month, 1⟩ ≤ daysFromMarch later := by
    rw [daysFromMarch_day later.year later.month later.day]
    exact Nat.le_add_right _ _
  simp only [List.cons_lt_cons_iff, List.lt_irrefl, and_false, or_false] at hlt
  rcases hlt with hlt | ⟨heq, hlt | ⟨heq', hlt⟩⟩
  · calc daysFromMarch date
        < daysFromMarch ⟨date.year, date.month, 1⟩ + monthLength date.year date.month :=
          daysFromMarch_lt_succ_month h
      _ ≤ daysFromMarch ⟨date.year + 1, 1, 1⟩ := monthEnd_le (by omega) h.month_pos h.month_le
      _ ≤ daysFromMarch ⟨later.year, 1, 1⟩ := daysFromMarch_mono_year (by omega) hlt
      _ ≤ daysFromMarch ⟨later.year, later.month, 1⟩ :=
        daysFromMarch_mono_month (by omega) (Nat.le_refl 1) h'.month_pos h'.month_le
      _ ≤ daysFromMarch later := hlater
  · have hmonth := h'.month_le
    calc daysFromMarch date
        < daysFromMarch ⟨date.year, date.month, 1⟩ + monthLength date.year date.month :=
          daysFromMarch_lt_succ_month h
      _ = daysFromMarch ⟨date.year, date.month + 1, 1⟩ :=
        (daysFromMarch_succ_month (by omega) h.month_pos (by omega)).symm
      _ ≤ daysFromMarch ⟨date.year, later.month, 1⟩ :=
        daysFromMarch_mono_month (by omega) (by omega) hlt h'.month_le
      _ ≤ daysFromMarch later := by rwa [heq]
  · have hday := h.day_pos
    calc daysFromMarch date
        = daysFromMarch ⟨date.year, date.month, 1⟩ + (date.day - 1) :=
          daysFromMarch_day date.year date.month date.day
      _ < daysFromMarch ⟨date.year, date.month, 1⟩ + (later.day - 1) := by omega
      _ = daysFromMarch later := by
        rw [heq, heq']
        exact (daysFromMarch_day later.year later.month later.day).symm

theorem dayNumber_lt {date later : CivilDate} (h : IsDate date) (h' : IsDate later)
    (hlt : [date.year, date.month, date.day] < [later.year, later.month, later.day]) :
    dayNumber date < dayNumber later := by
  have hdays := daysFromMarch_lt h h' hlt
  have hdate := dayNumber_add h
  have hlater := dayNumber_add h'
  omega

theorem isDate_nextDay {date : CivilDate} (h : IsDate date) : IsDate (nextDay date) := by
  obtain ⟨hyear, hmonth, hmonth', hday, hday'⟩ := h
  have hpos : ∀ year month, 1 ≤ monthLength year month := by
    intro year month
    unfold monthLength
    split
    · split <;> omega
    · split <;> omega
  unfold nextDay
  split
  · exact ⟨hyear, hmonth, hmonth', Nat.le_add_left 1 _, by assumption⟩
  · split
    · exact ⟨hyear, Nat.le_add_left 1 _, by assumption, Nat.le_refl 1, hpos _ _⟩
    · exact ⟨Nat.le_add_right_of_le hyear, Nat.le_refl 1, Nat.le_add_left 1 11, Nat.le_refl 1,
        hpos _ _⟩

theorem daysFromMarch_nextDay {date : CivilDate} (h : IsDate date) :
    daysFromMarch (nextDay date) = daysFromMarch date + 1 := by
  have hyear := h.year_ge
  have hmonth := h.month_pos
  have hmonth' := h.month_le
  have hday := h.day_pos
  have hday' := h.day_le
  have hdate : daysFromMarch date = daysFromMarch ⟨date.year, date.month, 1⟩ + (date.day - 1) :=
    daysFromMarch_day date.year date.month date.day
  unfold nextDay
  by_cases hlast : date.day < monthLength date.year date.month
  · rw [if_pos hlast, daysFromMarch_day]
    omega
  · rw [if_neg hlast]
    by_cases hdecember : date.month < 12
    · rw [if_pos hdecember, daysFromMarch_succ_month (by omega) hmonth hdecember]
      omega
    · rw [if_neg hdecember, ← daysFromMarch_december, hdate]
      obtain htwelve : date.month = 12 := by omega
      have hlength : monthLength date.year 12 = 31 := rfl
      rw [htwelve] at hlast hday' ⊢
      omega

theorem dayNumber_nextDay {date : CivilDate} (h : IsDate date) :
    dayNumber (nextDay date) = dayNumber date + 1 := by
  have hnext := dayNumber_add (isDate_nextDay h)
  have hdate := dayNumber_add h
  rw [daysFromMarch_nextDay h] at hnext
  omega

end BajaDaq.GregorianDays
