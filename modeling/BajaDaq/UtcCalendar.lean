import BajaDaq.GregorianDays
import BajaDaq.PairedExport
import BajaDaq.RmcParser

/-!
# The UTC time of a sentence

The time and date fields of a sentence and the calendar they write down, to the millisecond; and
back, through the absolute time of the CSV exports.
-/

namespace BajaDaq.UtcCalendar
open CStrings CivilDates DecimalText GregorianDays PairedCsv PairedExport PairedRows RmcParser

/-- A UTC time in the years 2020 to 2099. -/
structure UtcTime where
  date : CivilDate
  hour : ℕ
  minute : ℕ
  second : ℕ
  millisecond : ℕ
  isDate : IsDate date
  year_ge : 2020 ≤ date.year
  year_le : date.year ≤ 2099
  hour_le : hour ≤ 23
  minute_le : minute ≤ 59
  second_le : second ≤ 59
  millisecond_le : millisecond ≤ 999

namespace UtcTime

/-- Seconds since 1970. -/
def unixTime (t : UtcTime) : ℕ :=
  dayNumber t.date * 86400 + t.hour * 3600 + t.minute * 60 + t.second

def unixMs (t : UtcTime) : ℤ := 1000 * t.unixTime + t.millisecond

/-- The fields in the order of their weight. -/
def fields (t : UtcTime) : List ℕ :=
  [t.date.year, t.date.month, t.date.day, t.hour, t.minute, t.second, t.millisecond]

def text (t : UtcTime) : Text :=
  isoText t.date t.hour t.minute t.second ++ '.' :: paddedText 3 t.millisecond ++ ['Z']

end UtcTime

/-- The number in decimal digits. -/
def Numeral (text : Bytes) (width n : ℕ) : Prop :=
  text.length = width ∧ (∀ byte ∈ text, isDigit byte = true) ∧ decimalNumber text = n

/-- Nothing, or a point and digits, the first three of which are the milliseconds. -/
def Fraction (text : Bytes) (millisecond : ℕ) : Prop :=
  text = [] ∧ millisecond = 0 ∨
  ∃ ds, ds ≠ [] ∧ text = '.'.toUInt8 :: ds ∧ (∀ byte ∈ ds, isDigit byte = true) ∧
    millisecond = decimalNumber ((ds ++ List.replicate 3 '0'.toUInt8).take 3)

/-- The fields hhmmss with a fraction and ddmmyy are those of the time. -/
structure Written (time date : Bytes) (t : UtcTime) : Prop where
  clock : ∃ hh mm ss fraction, time = hh ++ (mm ++ (ss ++ fraction)) ∧ Numeral hh 2 t.hour ∧
    Numeral mm 2 t.minute ∧ Numeral ss 2 t.second ∧ Fraction fraction t.millisecond
  calendar : ∃ dd mm yy, date = dd ++ (mm ++ yy) ∧ Numeral dd 2 t.date.day ∧
    Numeral mm 2 t.date.month ∧ Numeral yy 2 (t.date.year - 2000)

theorem toNat_ge_of_isDigit {byte : UInt8} (h : isDigit byte = true) :
    48 ≤ byte.toNat ∧ byte.toNat ≤ 57 := by
  simpa [isDigit, UInt8.le_iff_toNat_le] using h

theorem digitsLoop_eq_some_iff {count : ℕ} {text : Bytes} {value n : ℕ} :
    digitsLoop count text value = some n ↔ (text.take count).length = count ∧
      (∀ byte ∈ text.take count, isDigit byte = true) ∧
      (text.take count).foldl (fun n byte => 10 * n + (byte.toNat - 48)) value = n := by
  induction count generalizing text value with
  | zero => simp [digitsLoop]
  | succ count ih =>
    cases text with
    | nil => simp [digitsLoop, byteAt, isDigit]
    | cons byte rest =>
      rw [digitsLoop]
      change (if (!isDigit byte) = true then none
        else digitsLoop count rest (value * 10 + byte.toNat - 48)) = some n ↔ _
      by_cases hbyte : isDigit byte = true
      · have hvalue : value * 10 + byte.toNat - 48 = 10 * value + (byte.toNat - 48) := by
          have hrange := toNat_ge_of_isDigit hbyte
          omega
        rw [if_neg (by simp [hbyte]), ih, hvalue]
        simp [hbyte]
      · rw [if_pos (by simpa using hbyte)]
        simp [hbyte]

theorem digits_eq_some_iff {text : Bytes} {count n : ℕ} :
    digits text count = some n ↔ Numeral (text.take count) count n := digitsLoop_eq_some_iff

theorem fractionLoop_cons (byte : UInt8) (rest : Bytes) (milliseconds scale : ℕ) :
    fractionLoop (byte :: rest) milliseconds scale =
      if isDigit byte then fractionLoop rest (milliseconds + (byte.toNat - 48) * scale) (scale / 10)
      else none := by
  rw [fractionLoop]
  by_cases hbyte : isDigit byte = true
  · have hdigit : digits (byte :: rest) 1 = some (byte.toNat - 48) :=
      digits_eq_some_iff.mpr ⟨rfl, by simpa using hbyte, by simp [decimalNumber]⟩
    rw [hdigit, if_pos hbyte]
    rfl
  · have hdigit : digits (byte :: rest) 1 = none := by
      simp [digits, digitsLoop, byteAt, hbyte]
    rw [hdigit, if_neg hbyte]
    rfl

/-- From the fourth digit on the scale is zero. -/
theorem fractionLoop_zero {rest : Bytes} {milliseconds total : ℕ} :
    fractionLoop rest milliseconds 0 = some total ↔
      (∀ byte ∈ rest, isDigit byte = true) ∧ total = milliseconds := by
  induction rest with
  | nil =>
    rw [fractionLoop, Option.some_inj]
    exact ⟨fun h => ⟨fun _ hmem => absurd hmem List.not_mem_nil, h.symm⟩, fun h => h.2.symm⟩
  | cons byte rest ih =>
    rw [fractionLoop_cons, Nat.mul_zero, Nat.add_zero, Nat.zero_div]
    by_cases hbyte : isDigit byte = true
    · rw [if_pos hbyte, ih, List.forall_mem_cons, and_iff_right hbyte]
    · simp [hbyte]

theorem decimalNumber_three (a b c : UInt8) : decimalNumber [a, b, c] =
    (a.toNat - 48) * 100 + (b.toNat - 48) * 10 + (c.toNat - 48) * 1 := by
  simp only [decimalNumber, List.foldl]
  omega

/-- The digits weigh 100, 10 and 1, and a missing one is a zero. -/
theorem fractionLoop_eq_some_iff {ds : Bytes} {total : ℕ} :
    fractionLoop ds 0 100 = some total ↔ (∀ byte ∈ ds, isDigit byte = true) ∧
      total = decimalNumber ((ds ++ List.replicate 3 '0'.toUInt8).take 3) := by
  have hzero : '0'.toUInt8.toNat - 48 = 0 := rfl
  match ds with
  | [] =>
    rw [fractionLoop, Option.some_inj]
    exact ⟨fun h => ⟨fun _ hmem => absurd hmem List.not_mem_nil, h.symm⟩, fun h => h.2.symm⟩
  | [a] =>
    change _ ↔ _ ∧ total = decimalNumber [a, '0'.toUInt8, '0'.toUInt8]
    rw [decimalNumber_three, hzero, fractionLoop_cons, List.forall_mem_singleton]
    by_cases ha : isDigit a = true
    · rw [if_pos ha, fractionLoop, Option.some_inj, and_iff_right ha]
      omega
    · simp [ha]
  | [a, b] =>
    change _ ↔ _ ∧ total = decimalNumber [a, b, '0'.toUInt8]
    rw [decimalNumber_three, hzero, fractionLoop_cons, List.forall_mem_cons,
      List.forall_mem_singleton]
    by_cases ha : isDigit a = true
    · rw [if_pos ha, fractionLoop_cons, and_iff_right ha]
      by_cases hb : isDigit b = true
      · rw [if_pos hb, fractionLoop, Option.some_inj, and_iff_right hb]
        omega
      · simp [hb]
    · simp [ha]
  | a :: b :: c :: rest =>
    change _ ↔ _ ∧ total = decimalNumber [a, b, c]
    rw [decimalNumber_three, fractionLoop_cons, List.forall_mem_cons, List.forall_mem_cons,
      List.forall_mem_cons]
    by_cases ha : isDigit a = true
    · rw [if_pos ha, fractionLoop_cons, and_iff_right ha]
      by_cases hb : isDigit b = true
      · rw [if_pos hb, fractionLoop_cons, and_iff_right hb]
        by_cases hc : isDigit c = true
        · rw [if_pos hc, and_iff_right hc, fractionLoop_zero, Nat.zero_add]
        · simp [hc]
      · simp [hb]
    · simp [ha]

/-- The checks on the length, the point and the digits behind it. -/
theorem fraction_iff {fraction : Bytes} {millisecond : ℕ} :
    (fraction.length > 0 → byteAt fraction 0 = '.'.toUInt8 ∧ fraction.length ≠ 1) ∧
        (∀ byte ∈ fraction.drop 1, isDigit byte = true) ∧
        millisecond = decimalNumber ((fraction.drop 1 ++ List.replicate 3 '0'.toUInt8).take 3) ↔
      Fraction fraction millisecond := by
  cases fraction with
  | nil =>
    constructor
    · rintro ⟨-, -, rfl⟩
      exact .inl ⟨rfl, rfl⟩
    · rintro (⟨-, rfl⟩ | ⟨ds, -, hnil, -⟩)
      · exact ⟨fun h => absurd h (Nat.lt_irrefl 0), fun _ hmem => absurd hmem List.not_mem_nil, rfl⟩
      · cases hnil
  | cons point ds =>
    constructor
    · rintro ⟨hlength, hdigits, hms⟩
      obtain ⟨hpoint, hone⟩ := hlength (Nat.succ_pos _)
      have hpoint' : point = '.'.toUInt8 := hpoint
      refine .inr ⟨ds, ?_, by rw [hpoint'], hdigits, hms⟩
      rintro rfl
      exact hone rfl
    · rintro (⟨hnil, -⟩ | ⟨ds', hne, heq, hdigits, hms⟩)
      · cases hnil
      · cases heq
        refine ⟨fun _ => ⟨rfl, ?_⟩, hdigits, hms⟩
        simpa using hne

/-- The two texts as their pairs of digits and what follows them. -/
theorem parseUtc_pairs {h₁ h₂ m₁ m₂ s₁ s₂ d₁ d₂ n₁ n₂ y₁ y₂ : UInt8} {fraction : Bytes}
    {utcMs : ℤ} :
    parseUtc (h₁ :: h₂ :: m₁ :: m₂ :: s₁ :: s₂ :: fraction) [d₁, d₂, n₁, n₂, y₁, y₂] = some utcMs ↔
      ∃ hour, Numeral [h₁, h₂] 2 hour ∧ ∃ minute, Numeral [m₁, m₂] 2 minute ∧
      ∃ second, Numeral [s₁, s₂] 2 second ∧ (hour ≤ 23 ∧ minute ≤ 59 ∧ second ≤ 59) ∧
      ∃ millisecond, Fraction fraction millisecond ∧
      ∃ day, Numeral [d₁, d₂] 2 day ∧ ∃ month, Numeral [n₁, n₂] 2 month ∧
      ∃ shortYear, Numeral [y₁, y₂] 2 shortYear ∧ (20 ≤ shortYear ∧ 1 ≤ month ∧ month ≤ 12) ∧
      (1 ≤ day ∧ day ≤ daysInMonth (2000 + shortYear) month) ∧
      (((daysLoop (2000 + shortYear) month day * 24 + hour) * 3600 + minute * 60 + second) * 1000 +
        millisecond : ℤ) = utcMs := by
  have hlengths : ¬ ([d₁, d₂, n₁, n₂, y₁, y₂].length ≠ 6 ∨
      (h₁ :: h₂ :: m₁ :: m₂ :: s₁ :: s₂ :: fraction).length < 6 ∨
      (h₁ :: h₂ :: m₁ :: m₂ :: s₁ :: s₂ :: fraction).length > 6 ∧
        (byteAt (h₁ :: h₂ :: m₁ :: m₂ :: s₁ :: s₂ :: fraction) 6 ≠ '.'.toUInt8 ∨
          (h₁ :: h₂ :: m₁ :: m₂ :: s₁ :: s₂ :: fraction).length = 7)) ↔
      (fraction.length > 0 → byteAt fraction 0 = '.'.toUInt8 ∧ fraction.length ≠ 1) := by
    have hpoint : byteAt (h₁ :: h₂ :: m₁ :: m₂ :: s₁ :: s₂ :: fraction) 6 = byteAt fraction 0 := rfl
    simp only [hpoint, List.length_cons, List.length_nil]
    by_cases hdot : byteAt fraction 0 = '.'.toUInt8
    · simp [hdot]
    · simp [hdot]
  simp only [parseUtc, Option.bind_eq_bind, Option.ite_none_left_eq_some, Option.bind_eq_some_iff,
    digits_eq_some_iff, fractionLoop_eq_some_iff, Option.some_inj, hlengths]
  constructor
  · rintro ⟨hlength, hour, hhour, minute, hminute, second, hsecond, hclock, millisecond,
      ⟨hdigits, hms⟩, day, hday, month, hmonth, shortYear, hyear, hrange, hdays, hsum⟩
    exact ⟨hour, hhour, minute, hminute, second, hsecond, by omega, millisecond,
      fraction_iff.mp ⟨hlength, hdigits, hms⟩, day, hday, month, hmonth, shortYear, hyear, by omega,
      by omega, hsum⟩
  · rintro ⟨hour, hhour, minute, hminute, second, hsecond, hclock, millisecond, hfraction,
      day, hday, month, hmonth, shortYear, hyear, hrange, hdays, hsum⟩
    obtain ⟨hlength, hdigits, hms⟩ := fraction_iff.mpr hfraction
    exact ⟨hlength, hour, hhour, minute, hminute, second, hsecond, by omega, millisecond,
      ⟨hdigits, hms⟩, day, hday, month, hmonth, shortYear, hyear, by omega, by omega, hsum⟩

theorem leapYear_iff (year : ℕ) : leapYear year = true ↔ IsLeap year := by
  simp [leapYear, IsLeap]

theorem daysInMonth_eq {year month : ℕ} (hmonth : 1 ≤ month) (hmonth' : month ≤ 12) :
    daysInMonth year month = monthLength year month := by
  by_cases htwo : month = 2
  · subst htwo
    rw [daysInMonth, monthLength, if_pos rfl]
    by_cases hleap : IsLeap year
    · rw [if_pos hleap, if_pos ⟨rfl, (leapYear_iff year).mpr hleap⟩]
      rfl
    · rw [if_neg hleap, if_neg (fun h => hleap ((leapYear_iff year).mp h.2))]
      rfl
  · rw [daysInMonth, monthLength, if_neg htwo, if_neg (fun h => htwo h.1)]
    interval_cases month <;> first | rfl | exact absurd rfl htwo

/-- The loop over the years counts up to the first of January. -/
theorem years_loop {first : ℕ} (hfirst : 1 ≤ first) (n days : ℕ) :
    (List.range' first n).foldl (fun days y => days + 365 + if leapYear y then 1 else 0) days +
      daysFromMarch ⟨first, 1, 1⟩ = days + daysFromMarch ⟨first + n, 1, 1⟩ := by
  induction n with
  | zero => rfl
  | succ n ih =>
    rw [List.range'_1_concat, List.foldl_concat, ← Nat.add_assoc,
      daysFromMarch_succ_year (Nat.le_add_right_of_le hfirst)]
    simp only [leapYear_iff] at ih ⊢
    omega

/-- The loop over the months counts up to the first of the month. -/
theorem months_loop {year month : ℕ} (hyear : 1 ≤ year) (hmonth : 1 ≤ month) (hmonth' : month ≤ 12)
    (days : ℕ) :
    (List.range' 1 (month - 1)).foldl (fun days m => days + daysInMonth year m) days +
      daysFromMarch ⟨year, 1, 1⟩ = days + daysFromMarch ⟨year, month, 1⟩ := by
  induction month, hmonth using Nat.le_induction with
  | base => rfl
  | succ month hmonth ih =>
    have hlast : 1 + (month - 1) = month := by omega
    have hloop := ih (by omega)
    rw [Nat.add_sub_cancel, show month = month - 1 + 1 by omega, List.range'_1_concat,
      List.foldl_concat, hlast, daysInMonth_eq hmonth (by omega), Nat.sub_add_cancel hmonth,
      daysFromMarch_succ_month hyear hmonth (by omega)]
    omega

theorem daysLoop_eq {year month day : ℕ} (h : IsDate ⟨year, month, day⟩) :
    daysLoop year month day = dayNumber ⟨year, month, day⟩ := by
  have hyear : 1970 ≤ year := h.year_ge
  have hepoch : daysFromMarch ⟨1970, 1, 1⟩ = unixEpoch := rfl
  have hdays := dayNumber_add h
  have hyears := years_loop (show 1 ≤ 1970 by decide) (year - 1970) (day - 1)
  have hmonths := months_loop (Nat.le_trans (Nat.le_add_left 1 1969) hyear) h.month_pos h.month_le
    ((List.range' 1970 (year - 1970)).foldl
      (fun days y => days + 365 + if leapYear y then 1 else 0) (day - 1))
  rw [Nat.add_sub_of_le hyear] at hyears
  rw [daysFromMarch_day] at hdays
  unfold daysLoop
  dsimp only at hmonths ⊢
  omega

theorem Numeral.lt {text : Bytes} {n : ℕ} (h : Numeral text 2 n) : n < 100 := by
  obtain ⟨hlength, hdigits, rfl⟩ := h
  match text, hlength with
  | [a, b], _ =>
    have ha := toNat_ge_of_isDigit (hdigits a (by simp))
    have hb := toNat_ge_of_isDigit (hdigits b (by simp))
    simp only [decimalNumber, List.foldl]
    omega

theorem Fraction.lt {text : Bytes} {n : ℕ} (h : Fraction text n) : n < 1000 := by
  rcases h with ⟨-, rfl⟩ | ⟨ds, -, -, hdigits, rfl⟩
  · decide
  · have hlength : ((ds ++ List.replicate 3 '0'.toUInt8).take 3).length = 3 := by
      rw [List.length_take_of_le (by simp)]
    have hall : ∀ byte ∈ (ds ++ List.replicate 3 '0'.toUInt8).take 3, isDigit byte = true := by
      intro byte hbyte
      rcases List.mem_append.mp (List.mem_of_mem_take hbyte) with hbyte | hbyte
      · exact hdigits byte hbyte
      · rw [List.eq_of_mem_replicate hbyte]
        decide
    obtain ⟨a, b, c, hthree⟩ := List.length_eq_three.mp hlength
    rw [hthree] at hall ⊢
    have ha := toNat_ge_of_isDigit (hall a (by simp))
    have hb := toNat_ge_of_isDigit (hall b (by simp))
    have hc := toNat_ge_of_isDigit (hall c (by simp))
    rw [decimalNumber_three]
    omega

theorem numeral_pair {text : Bytes} {n : ℕ} (h : Numeral text 2 n) : ∃ a b, text = [a, b] :=
  List.length_eq_two.mp h.1

/-- The texts of a time are parsed to its milliseconds. -/
theorem parseUtc_of_written {time date : Bytes} {t : UtcTime} (h : Written time date t) :
    parseUtc time date = some t.unixMs := by
  obtain ⟨⟨hh, mm, ss, fraction, rfl, hhour, hminute, hsecond, hfraction⟩,
    ⟨dd, nn, yy, rfl, hday, hmonth, hyear⟩⟩ := h
  obtain ⟨h₁, h₂, rfl⟩ := numeral_pair hhour
  obtain ⟨m₁, m₂, rfl⟩ := numeral_pair hminute
  obtain ⟨s₁, s₂, rfl⟩ := numeral_pair hsecond
  obtain ⟨d₁, d₂, rfl⟩ := numeral_pair hday
  obtain ⟨n₁, n₂, rfl⟩ := numeral_pair hmonth
  obtain ⟨y₁, y₂, rfl⟩ := numeral_pair hyear
  have hyear' : 2000 + (t.date.year - 2000) = t.date.year := by
    have hge := t.year_ge
    omega
  have hlength : daysInMonth t.date.year t.date.month = monthLength t.date.year t.date.month :=
    daysInMonth_eq t.isDate.month_pos t.isDate.month_le
  have hdays : daysLoop t.date.year t.date.month t.date.day = dayNumber t.date :=
    daysLoop_eq t.isDate
  have hge := t.year_ge
  refine parseUtc_pairs.mpr ⟨t.hour, hhour, t.minute, hminute, t.second, hsecond,
    ⟨t.hour_le, t.minute_le, t.second_le⟩, t.millisecond, hfraction, t.date.day, hday, t.date.month,
    hmonth, t.date.year - 2000, hyear, ⟨by omega, t.isDate.month_pos, t.isDate.month_le⟩, ?_, ?_⟩
  · rw [hyear', hlength]
    exact ⟨t.isDate.day_pos, t.isDate.day_le⟩
  · rw [hyear', hdays, UtcTime.unixMs, UtcTime.unixTime]
    push_cast
    omega

theorem exists_six {text : Bytes} (h : 6 ≤ text.length) :
    ∃ a b c d e f rest, text = a :: b :: c :: d :: e :: f :: rest := by
  match text, h with
  | a :: b :: c :: d :: e :: f :: rest, _ => exact ⟨a, b, c, d, e, f, rest, rfl⟩

/-- Only the texts of a time are parsed. -/
theorem written_of_parseUtc {time date : Bytes} {utcMs : ℤ} (h : parseUtc time date = some utcMs) :
    ∃ t, Written time date t := by
  obtain ⟨hlengths, -⟩ := Option.ite_none_left_eq_some.mp h
  obtain ⟨hdate, htime⟩ := not_or.mp hlengths
  obtain ⟨h₁, h₂, m₁, m₂, s₁, s₂, fraction, rfl⟩ := exists_six (Nat.not_lt.mp (not_or.mp htime).1)
  obtain ⟨d₁, d₂, n₁, n₂, y₁, y₂, rest, rfl⟩ := exists_six (not_not.mp hdate).ge
  obtain rfl : rest = [] := by simpa using not_not.mp hdate
  obtain ⟨hour, hhour, minute, hminute, second, hsecond, ⟨hhour', hminute', hsecond'⟩, millisecond,
    hfraction, day, hday, month, hmonth, shortYear, hyear, ⟨hyear', hmonth', hmonth''⟩,
    ⟨hday', hday''⟩, -⟩ := parseUtc_pairs.mp h
  have hyear'' := hyear.lt
  have hms := hfraction.lt
  rw [daysInMonth_eq hmonth' hmonth''] at hday''
  refine ⟨⟨⟨2000 + shortYear, month, day⟩, hour, minute, second, millisecond,
    ⟨Nat.le_add_right_of_le (by decide), hmonth', hmonth'', hday', hday''⟩,
    Nat.add_le_add_left hyear' 2000, Nat.add_le_add_left (Nat.le_of_lt_succ hyear'') 2000, hhour',
    hminute', hsecond', Nat.le_of_lt_succ hms⟩,
    ⟨[h₁, h₂], [m₁, m₂], [s₁, s₂], fraction, rfl, hhour, hminute, hsecond, hfraction⟩,
    ⟨[d₁, d₂], [n₁, n₂], [y₁, y₂], rfl, hday, hmonth, ?_⟩⟩
  rwa [Nat.add_sub_cancel_left]

/-- Times in order of their fields are in order of their milliseconds. -/
theorem unixMs_lt {t later : UtcTime} (h : t.fields < later.fields) : t.unixMs < later.unixMs := by
  have hhour := t.hour_le
  have hminute := t.minute_le
  have hsecond := t.second_le
  have hms := t.millisecond_le
  rw [UtcTime.unixMs, UtcTime.unixMs, UtcTime.unixTime, UtcTime.unixTime]
  have hcases : [t.date.year, t.date.month, t.date.day] <
        [later.date.year, later.date.month, later.date.day] ∨ t.date = later.date ∧
      [t.hour, t.minute, t.second, t.millisecond] <
        [later.hour, later.minute, later.second, later.millisecond] := by
    simp only [UtcTime.fields, List.cons_lt_cons_iff] at h ⊢
    rcases h with h | ⟨hyear, h | ⟨hmonth, h | ⟨hday, h⟩⟩⟩
    · exact .inl (.inl h)
    · exact .inl (.inr ⟨hyear, .inl h⟩)
    · exact .inl (.inr ⟨hyear, .inr ⟨hmonth, .inl h⟩⟩)
    · refine .inr ⟨?_, h⟩
      calc t.date = ⟨t.date.year, t.date.month, t.date.day⟩ := rfl
        _ = later.date := by rw [hyear, hmonth, hday]
  rcases hcases with hdate | ⟨hdate, hclock⟩
  · have hdays := dayNumber_lt t.isDate later.isDate hdate
    omega
  · simp only [List.cons_lt_cons_iff, List.lt_irrefl, and_false, or_false] at hclock
    rw [hdate]
    omega

theorem unixMs_nextDay {t next : UtcTime} (hdate : next.date = nextDay t.date)
    (hhour : next.hour = t.hour) (hminute : next.minute = t.minute)
    (hsecond : next.second = t.second) (hms : next.millisecond = t.millisecond) :
    next.unixMs = t.unixMs + 86400000 := by
  rw [UtcTime.unixMs, UtcTime.unixMs, UtcTime.unixTime, UtcTime.unixTime, hdate,
    dayNumber_nextDay t.isDate, hhour, hminute, hsecond, hms]
  push_cast
  omega

theorem dayNumber_range (t : UtcTime) : 0 < dayNumber t.date ∧ dayNumber t.date < 50000 := by
  have hge := t.year_ge
  have hle := t.year_le
  have hfirst : IsDate ⟨1970, 1, 1⟩ := ⟨by decide, by decide, by decide, by decide, by decide⟩
  have hend : IsDate ⟨2100, 1, 1⟩ := ⟨by decide, by decide, by decide, by decide, by decide⟩
  constructor
  · refine Nat.lt_of_le_of_lt (Nat.zero_le _) (dayNumber_lt hfirst t.isDate ?_)
    exact List.cons_lt_cons_iff.mpr (.inl (show 1970 < t.date.year by omega))
  · refine (dayNumber_lt t.isDate hend ?_).trans (by decide)
    exact List.cons_lt_cons_iff.mpr (.inl (show t.date.year < 2100 by omega))

/-- The absolute time of the exports shows the fields again. -/
theorem formatAbsoluteTime_unixMs (t : UtcTime) : formatAbsoluteTime t.unixMs 32 = t.text := by
  obtain ⟨hpos, hlt⟩ := dayNumber_range t
  have hyear := t.year_le
  have hhour := t.hour_le
  have hminute := t.minute_le
  have hsecond := t.second_le
  have hms := t.millisecond_le
  obtain ⟨ms, hunix⟩ : ∃ ms : ℕ, t.unixMs = ms := ⟨1000 * t.unixTime + t.millisecond, rfl⟩
  have hsum : ms = 1000 * (dayNumber t.date * 86400 + t.hour * 3600 + t.minute * 60 + t.second) +
      t.millisecond := by
    rw [UtcTime.unixMs, UtcTime.unixTime] at hunix
    omega
  have hdays : ms / 86400000 = dayNumber t.date := by omega
  have hhours : ms / 3600000 % 24 = t.hour := by omega
  have hminutes : ms / 60000 % 60 = t.minute := by omega
  have hseconds : ms / 1000 % 60 = t.second := by omega
  have hrest : ms % 1000 = t.millisecond := by omega
  rw [hunix, formatAbsoluteTime_eq (by omega) (by omega), Int.toNat_natCast, shortIsoTime, hdays,
    civilOfDays_dayNumber t.isDate, if_pos (by omega), isoTime, hdays, hhours, hminutes, hseconds,
    hrest, civilOfDays_dayNumber t.isDate, UtcTime.text]

/-- A time and a date field are parsed exactly if they are those of a UTC time, to its
milliseconds since 1970; these are in the order of the times, a day apart for consecutive days, and
rendered as the fields they came from. -/
theorem parseUtc_calendar :
    (∀ (time date : CString) (utcMs : ℤ), parseUtc time.bytes date.bytes = some utcMs ↔
      ∃ t, Written time.bytes date.bytes t ∧ utcMs = t.unixMs) ∧
    (∀ (time date time' date' : CString) (t t' : UtcTime) (utcMs utcMs' : ℤ),
      Written time.bytes date.bytes t → parseUtc time.bytes date.bytes = some utcMs →
      Written time'.bytes date'.bytes t' → parseUtc time'.bytes date'.bytes = some utcMs' →
      (t.fields < t'.fields → utcMs < utcMs') ∧
      (t'.date = nextDay t.date → t'.hour = t.hour → t'.minute = t.minute → t'.second = t.second →
        t'.millisecond = t.millisecond → utcMs' = utcMs + 86400000)) ∧
    (∀ (time date : CString) (t : UtcTime) (utcMs : ℤ), Written time.bytes date.bytes t →
      parseUtc time.bytes date.bytes = some utcMs → formatAbsoluteTime utcMs 32 = t.text) := by
  have hvalue : ∀ {time date : Bytes} {t : UtcTime} {utcMs : ℤ}, Written time date t →
      parseUtc time date = some utcMs → utcMs = t.unixMs := by
    intro time date t utcMs h hparsed
    exact Option.some_inj.mp (hparsed.symm.trans (parseUtc_of_written h))
  refine ⟨?_, ?_, ?_⟩
  · intro time date utcMs
    constructor
    · intro h
      obtain ⟨t, hwritten⟩ := written_of_parseUtc h
      exact ⟨t, hwritten, hvalue hwritten h⟩
    · rintro ⟨t, hwritten, rfl⟩
      exact parseUtc_of_written hwritten
  · intro time date time' date' t t' utcMs utcMs' h hparsed h' hparsed'
    rw [hvalue h hparsed, hvalue h' hparsed']
    exact ⟨unixMs_lt, unixMs_nextDay⟩
  · intro time date t utcMs h hparsed
    rw [hvalue h hparsed]
    exact formatAbsoluteTime_unixMs t

example : parseUtc ("000000".toList.map Char.toUInt8) ("290224".toList.map Char.toUInt8) =
    some 1709164800000 := by decide +kernel

end BajaDaq.UtcCalendar
