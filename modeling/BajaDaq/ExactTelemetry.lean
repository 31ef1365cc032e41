import BajaDaq.DecimalNumbers
import BajaDaq.RmcGrammar

/-!
# Position and speed in exact arithmetic

Which fields the parser takes for a coordinate or a speed, and the integers that it makes of them,
with the operations on `double` taken to be those on the rationals.
-/

namespace BajaDaq.ExactTelemetry
open CStrings DecimalNumbers RmcGrammar RmcParser

theorem byteAt_zero_ne {text : Bytes} (hnul : 0 ∉ text) : byteAt text 0 ≠ 0 ↔ text ≠ [] := by
  cases text with
  | nil => simp [byteAt]
  | cons byte text =>
    have hbyte : byte ≠ 0 := fun hzero => hnul (hzero ▸ List.mem_cons_self)
    simpa [byteAt] using hbyte

theorem isDigit_byteAt_zero {text : Bytes} :
    isDigit (byteAt text 0) = true ↔ text.takeWhile isDigit ≠ [] := by
  cases text with
  | nil => decide
  | cons byte text =>
    rw [List.takeWhile_cons]
    change isDigit byte = true ↔ _
    split <;> simp_all

/-- An accepted field is digits, or digits, a point and digits. -/
theorem isDecimal_of_decimal {text : Bytes} (hnul : 0 ∉ text) {q : ℚ}
    (h : decimal ℚ text = some q) :
    ∃ whole fraction, IsDecimal text whole fraction ∧ q = decimalValue whole fraction := by
  have hsplit := List.takeWhile_append_dropWhile (p := isDigit) (l := text)
  have hvalue : strtod text = decimalValue (text.takeWhile isDigit)
    ((text.dropWhile isDigit).drop 1) := rfl
  have hrestnul : 0 ∉ text.dropWhile isDigit :=
    fun hmem => hnul ((List.dropWhile_sublist isDigit).subset hmem)
  rw [decimal, hvalue] at h
  dsimp only at h
  generalize hrest : text.dropWhile isDigit = rest at h hsplit hrestnul
  split at h
  · cases h
  · rename_i hdigit
    have hwhole : text.takeWhile isDigit ≠ [] := by
      rw [← isDigit_byteAt_zero]
      simpa using hdigit
    split at h
    · rename_i hpoint
      obtain ⟨after, rfl⟩ : ∃ after, rest = '.'.toUInt8 :: after := by
        cases rest with
        | nil => exact absurd hpoint (by decide)
        | cons byte after => exact ⟨after, congrArg (· :: after) hpoint⟩
      rw [List.drop_one, List.tail_cons] at h
      split at h
      · cases h
      · rename_i hfirst
        have hsome : after ≠ [] := by
          rintro rfl
          exact hfirst (by decide)
        split at h
        · cases h
        · rename_i hend
          have hafternul : 0 ∉ after.dropWhile isDigit := fun hmem =>
            hrestnul (List.mem_cons_of_mem _ ((List.dropWhile_sublist isDigit).subset hmem))
          have hall : after.dropWhile isDigit = [] :=
            not_not.mp (mt (byteAt_zero_ne hafternul).mpr hend)
          refine ⟨_, after, ⟨hwhole, fun _ => List.mem_takeWhile_imp,
            List.dropWhile_eq_nil_iff.mp hall, ?_⟩, (Option.some.inj h).symm⟩
          rw [if_neg hsome]
          exact hsplit.symm
    · rename_i hpoint
      split at h
      · cases h
      · rename_i hend
        obtain rfl : rest = [] := not_not.mp (mt (byteAt_zero_ne hrestnul).mpr hend)
        exact ⟨_, [], ⟨hwhole, fun _ => List.mem_takeWhile_imp, by simp, hsplit.symm⟩,
          (Option.some.inj h).symm⟩

theorem decimal_of_isDecimal {text whole fraction : Bytes} (htext : IsDecimal text whole fraction) :
    decimal ℚ text = some (decimalValue whole fraction) := by
  have hwhole : isDigit (byteAt text 0) = true := by
    rw [isDigit_byteAt_zero, htext.takeWhile_eq]
    exact htext.nonempty
  rw [decimal, if_neg (by simp [hwhole])]
  dsimp only
  have hvalue : strtod text = decimalValue whole fraction := by
    change decimalValue (text.takeWhile isDigit) ((text.dropWhile isDigit).drop 1) = _
    rw [htext.takeWhile_eq, htext.dropWhile_eq]
    split
    · rename_i hnone
      rw [hnone]
      rfl
    · rfl
  rw [htext.dropWhile_eq, hvalue]
  by_cases hnone : fraction = []
  · rw [if_pos hnone]
    rfl
  · have hall : fraction.takeWhile isDigit = fraction :=
      List.takeWhile_eq_self_iff.mpr htext.fraction_digits
    have hrest : fraction.dropWhile isDigit = [] :=
      List.dropWhile_eq_nil_iff.mpr htext.fraction_digits
    have hpoint : byteAt ('.'.toUInt8 :: fraction) 0 = '.'.toUInt8 := rfl
    rw [if_neg hnone, if_pos hpoint, List.drop_one, List.tail_cons,
      if_neg (by simpa [isDigit_byteAt_zero, hall] using hnone), hrest]
    rfl

theorem decimal_eq_some_iff {text : Bytes} (hnul : 0 ∉ text) {q : ℚ} :
    decimal ℚ text = some q ↔
      ∃ whole fraction, IsDecimal text whole fraction ∧ q = decimalValue whole fraction := by
  constructor
  · exact isDecimal_of_decimal hnul
  · rintro ⟨whole, fraction, htext, rfl⟩
    exact decimal_of_isDecimal htext

/-- The whole degrees of the digits before the point: all but the last two. -/
def degreesOf (whole : Bytes) : ℕ := decimalNumber (whole.take (whole.length - 2))

def minutesOf (whole fraction : Bytes) : ℚ :=
  decimalValue (whole.drop (whole.length - 2)) fraction

def angleOf (whole fraction : Bytes) : ℚ := degreesOf whole + minutesOf whole fraction / 60

/-- The digits in front of the point, the letters and the range of an axis. -/
def axisWidth (latitude : Bool) : ℕ := if latitude then 4 else 5
def axisPositive (latitude : Bool) : UInt8 := if latitude then 'N'.toUInt8 else 'E'.toUInt8
def axisNegative (latitude : Bool) : UInt8 := if latitude then 'S'.toUInt8 else 'W'.toUInt8
def axisMaximum (latitude : Bool) : ℤ := if latitude then 90 else 180

/-- The fields are a coordinate of the axis, and `e7` is its angle times ten million, rounded half
up and then negated in the negative hemisphere. -/
def IsCoordinate (latitude : Bool) (text hemisphere : Bytes) (e7 : ℤ) : Prop :=
  ∃ whole fraction, IsDecimal text whole fraction ∧ whole.length = axisWidth latitude ∧
    minutesOf whole fraction < 60 ∧ angleOf whole fraction ≤ axisMaximum latitude ∧
    (hemisphere = [axisPositive latitude] ∧ e7 = ⌊angleOf whole fraction * 10 ^ 7 + 1 / 2⌋ ∨
      hemisphere = [axisNegative latitude] ∧ e7 = -⌊angleOf whole fraction * 10 ^ 7 + 1 / 2⌋)

/-- The conversion to an integer is the floor of a number that is not negative. -/
theorem truncate_eq_floor {q : ℚ} (h : 0 ≤ q) : truncate q = ⌊q⌋ := by
  change q.num.tdiv q.den = ⌊q⌋
  rw [Rat.floor_def', Int.tdiv_eq_ediv_of_nonneg (Rat.num_nonneg.mpr h)]

theorem minutesOf_nonneg (whole fraction : Bytes) : 0 ≤ minutesOf whole fraction :=
  add_nonneg (Nat.cast_nonneg _) (fraction_nonneg fraction)

theorem angleOf_nonneg (whole fraction : Bytes) : 0 ≤ angleOf whole fraction :=
  add_nonneg (Nat.cast_nonneg _) (div_nonneg (minutesOf_nonneg whole fraction) (by norm_num))

/-- The digits before the point are the degrees and two digits of minutes. -/
theorem decimalValue_eq {whole : Bytes} (h : 2 ≤ whole.length) (fraction : Bytes) :
    decimalValue whole fraction = 100 * degreesOf whole + minutesOf whole fraction := by
  have hsplit := decimalNumber_append (whole.take (whole.length - 2))
    (whole.drop (whole.length - 2))
  have hlength : (whole.drop (whole.length - 2)).length = 2 := by
    rw [List.length_drop]
    omega
  rw [List.take_append_drop, hlength] at hsplit
  rw [decimalValue, hsplit, minutesOf, decimalValue, degreesOf]
  push_cast
  ring

theorem minutesOf_lt {whole fraction : Bytes} (hwhole : ∀ byte ∈ whole, isDigit byte = true)
    (hfraction : ∀ byte ∈ fraction, isDigit byte = true) (h : 2 ≤ whole.length) :
    minutesOf whole fraction < 100 := by
  have htwo := decimalNumber_lt fun byte hbyte =>
    hwhole byte ((List.drop_sublist (whole.length - 2) whole).subset hbyte)
  have hlength : (whole.drop (whole.length - 2)).length = 2 := by
    rw [List.length_drop]
    omega
  rw [hlength] at htwo
  have hbound : (decimalNumber (whole.drop (whole.length - 2)) : ℚ) ≤ 99 := by
    exact_mod_cast Nat.le_of_lt_succ htwo
  have hpart := fraction_lt_one hfraction
  rw [minutesOf, decimalValue]
  linarith

/-- The two tests of the code on the number are those on the minutes and the angle. -/
theorem range_iff {degrees : ℕ} {minutes : ℚ} {maximum : ℤ} (hminutes : 0 ≤ minutes) :
    (¬ maximum * 100 < 100 * degrees + minutes ∧ minutes < 60) ↔
      minutes < 60 ∧ (degrees : ℚ) + minutes / 60 ≤ maximum := by
  constructor
  · rintro ⟨hraw, hlt⟩
    refine ⟨hlt, ?_⟩
    rw [not_lt] at hraw
    have hdegrees : (degrees : ℤ) ≤ maximum := by
      have hcast : (100 * degrees : ℚ) ≤ maximum * 100 := by linarith
      have hint : (100 * degrees : ℤ) ≤ maximum * 100 := by exact_mod_cast hcast
      omega
    rcases hdegrees.eq_or_lt with heq | hless
    · have hcast : (degrees : ℚ) = maximum := by exact_mod_cast heq
      rw [hcast] at hraw ⊢
      linarith
    · have hcast : (degrees : ℚ) + 1 ≤ maximum := by exact_mod_cast hless
      linarith
  · rintro ⟨hlt, hangle⟩
    refine ⟨?_, hlt⟩
    rw [not_lt]
    linarith

/-- The test of the fixed width looks for the end of the digits. -/
theorem width_iff {text whole fraction : Bytes} (h : IsDecimal text whole fraction) (width : ℕ) :
    (¬ (text.length < width ∨ text.length > width ∧ byteAt text width ≠ '.'.toUInt8) ∧
      (text.take width).all isDigit = true) ↔ whole.length = width := by
  have hlength : whole.length ≤ text.length := by
    rw [h.text_eq, List.length_append]
    omega
  have hdigit : ∀ i < whole.length, isDigit (byteAt text i) = true := by
    intro i hi
    rw [byteAt, h.text_eq, List.getD_append _ _ _ _ hi, List.getD_eq_getElem _ _ hi]
    exact h.whole_digits _ (List.getElem_mem hi)
  have hend : whole.length < text.length → byteAt text whole.length = '.'.toUInt8 := by
    intro hlt
    have hsome : fraction ≠ [] := by
      rintro rfl
      rw [h.text_eq, if_pos rfl, List.append_nil] at hlt
      exact absurd hlt (Nat.lt_irrefl _)
    rw [byteAt, h.text_eq, if_neg hsome, List.getD_append_right _ _ _ _ (Nat.le_refl _),
      Nat.sub_self]
    rfl
  constructor
  · rintro ⟨hshape, hall⟩
    obtain ⟨hshort, hpoint⟩ := not_or.mp hshape
    rw [List.all_eq_true] at hall
    rcases Nat.lt_trichotomy whole.length width with hless | heq | hmore
    · -- the byte behind the digits is among those that must be digits
      have hbyte : byteAt text whole.length ∈ text.take width := by
        rw [byteAt, List.getD_eq_getElem _ _ (by omega)]
        exact List.mem_take_iff_getElem.mpr ⟨whole.length, by omega, rfl⟩
      have hpoint' := hall _ hbyte
      rw [hend (by omega)] at hpoint'
      exact absurd hpoint' (by decide)
    · exact heq
    · have hpoint' : byteAt text width = '.'.toUInt8 :=
        not_not.mp fun hne => hpoint ⟨by omega, hne⟩
      have hbyte := hdigit width hmore
      rw [hpoint'] at hbyte
      exact absurd hbyte (by decide)
  · rintro rfl
    refine ⟨?_, ?_⟩
    · rintro (hshort | ⟨hlong, hne⟩)
      · omega
      · exact hne (hend hlong)
    · rw [h.text_eq, List.take_left, List.all_eq_true]
      exact h.whole_digits

/-- The letter of the hemisphere. -/
theorem hemisphere_iff {hemisphere : Bytes} {a b : UInt8} :
    ¬ (hemisphere.length ≠ 1 ∨ byteAt hemisphere 0 ≠ a ∧ byteAt hemisphere 0 ≠ b) ↔
      hemisphere = [a] ∨ hemisphere = [b] := by
  match hemisphere with
  | [] => simp
  | [c] => simp [byteAt, or_iff_not_imp_left]
  | c :: d :: rest => simp

/-- What `coordinate` computes from the number. -/
def scale (latitude : Bool) (hemisphere : Bytes) (raw : ℚ) : Option ℤ :=
  if (axisMaximum latitude : ℚ) * 100 < raw then none
  else
    let degrees := truncate (raw / 100)
    let minutes := raw - degrees * 100
    if 60 ≤ minutes then none
    else
      let scaled := truncate ((degrees + minutes / 60) * 10000000 + 1 / 2)
      some (if byteAt hemisphere 0 = axisNegative latitude then -scaled else scaled)

/-- The quotient by 100 without its fraction is the whole degrees. -/
theorem truncate_degreesOf {text whole fraction : Bytes} (h : IsDecimal text whole fraction)
    (htwo : 2 ≤ whole.length) :
    truncate (decimalValue whole fraction / 100) = (degreesOf whole : ℤ) := by
  have hnonneg := minutesOf_nonneg whole fraction
  have hlt := minutesOf_lt h.whole_digits h.fraction_digits htwo
  have hdiv : decimalValue whole fraction / 100 =
      degreesOf whole + minutesOf whole fraction / 100 := by
    rw [decimalValue_eq htwo fraction]
    ring
  rw [hdiv, truncate_eq_floor (by positivity), Int.floor_natCast_add, Int.floor_eq_zero_iff.mpr]
  · exact add_zero _
  · exact ⟨by positivity, by linarith⟩

theorem truncate_angleOf (whole fraction : Bytes) :
    truncate ((((degreesOf whole : ℤ) : ℚ) + minutesOf whole fraction / 60) * 10000000 + 1 / 2) =
      ⌊angleOf whole fraction * 10 ^ 7 + 1 / 2⌋ := by
  have hnonneg := minutesOf_nonneg whole fraction
  have hpos := angleOf_nonneg whole fraction
  rw [truncate_eq_floor (by positivity), angleOf]
  norm_num

theorem scale_eq_some_iff {latitude : Bool} {text hemisphere whole fraction : Bytes}
    (h : IsDecimal text whole fraction) (hwidth : whole.length = axisWidth latitude)
    (hhemisphere : hemisphere = [axisPositive latitude] ∨ hemisphere = [axisNegative latitude])
    {e7 : ℤ} :
    scale latitude hemisphere (decimalValue whole fraction) = some e7 ↔
      minutesOf whole fraction < 60 ∧ angleOf whole fraction ≤ axisMaximum latitude ∧
      (hemisphere = [axisPositive latitude] ∧ e7 = ⌊angleOf whole fraction * 10 ^ 7 + 1 / 2⌋ ∨
        hemisphere = [axisNegative latitude] ∧
          e7 = -⌊angleOf whole fraction * 10 ^ 7 + 1 / 2⌋) := by
  have htwo : 2 ≤ whole.length := by
    rw [hwidth, axisWidth]
    split <;> omega
  have hnonneg := minutesOf_nonneg whole fraction
  have hvalue := decimalValue_eq htwo fraction
  have hminutes : decimalValue whole fraction - ((degreesOf whole : ℤ) : ℚ) * 100 =
      minutesOf whole fraction := by
    rw [hvalue]
    push_cast
    ring
  have hrange : (¬ (axisMaximum latitude : ℚ) * 100 < decimalValue whole fraction ∧
      minutesOf whole fraction < 60) ↔
      minutesOf whole fraction < 60 ∧ angleOf whole fraction ≤ axisMaximum latitude := by
    rw [hvalue]
    exact range_iff hnonneg
  have hletters : axisPositive latitude ≠ axisNegative latitude := by
    cases latitude <;> decide
  rw [scale]
  dsimp only
  rw [truncate_degreesOf h htwo, hminutes, truncate_angleOf, ← and_assoc, ← hrange]
  by_cases hmaximum : (axisMaximum latitude : ℚ) * 100 < decimalValue whole fraction
  · rw [if_pos hmaximum]
    simp [hmaximum]
  · rw [if_neg hmaximum, and_iff_right hmaximum, ← not_le]
    by_cases hsixty : 60 ≤ minutesOf whole fraction
    · rw [if_pos hsixty]
      simp [hsixty]
    · rw [if_neg hsixty, and_iff_right hsixty, Option.some_inj]
      rcases hhemisphere with rfl | rfl
      · have hne : [axisPositive latitude] ≠ [axisNegative latitude] :=
          fun heq => hletters (List.singleton_inj.mp heq)
        rw [if_neg (show byteAt [axisPositive latitude] 0 ≠ axisNegative latitude from hletters),
          or_iff_left (fun h => hne h.1), and_iff_right rfl]
        exact eq_comm
      · have hne : [axisNegative latitude] ≠ [axisPositive latitude] :=
          fun heq => hletters (List.singleton_inj.mp heq).symm
        rw [if_pos (show byteAt [axisNegative latitude] 0 = axisNegative latitude from rfl),
          or_iff_right (fun h => hne h.1), and_iff_right rfl]
        exact eq_comm

/-- A coordinate is accepted exactly if it is one, and converted exactly. -/
theorem coordinate_eq_some_iff {latitude : Bool} {text hemisphere : Bytes} (hnul : 0 ∉ text)
    {e7 : ℤ} :
    coordinate ℚ text hemisphere latitude = some e7 ↔
      IsCoordinate latitude text hemisphere e7 := by
  have hscale : (decimal ℚ text).bind (scale latitude hemisphere) = some e7 ↔
      ∃ whole fraction, IsDecimal text whole fraction ∧
        scale latitude hemisphere (decimalValue whole fraction) = some e7 := by
    rw [Option.bind_eq_some_iff]
    constructor
    · rintro ⟨raw, hraw, he7⟩
      obtain ⟨whole, fraction, htext, rfl⟩ := (decimal_eq_some_iff hnul).mp hraw
      exact ⟨whole, fraction, htext, he7⟩
    · rintro ⟨whole, fraction, htext, he7⟩
      exact ⟨_, (decimal_eq_some_iff hnul).mpr ⟨whole, fraction, htext, rfl⟩, he7⟩
  have hcode : coordinate ℚ text hemisphere latitude =
      if text.length < axisWidth latitude ∨ text.length > axisWidth latitude ∧
        byteAt text (axisWidth latitude) ≠ '.'.toUInt8 then none
      else if !(text.take (axisWidth latitude)).all isDigit then none
      else if hemisphere.length ≠ 1 ∨ byteAt hemisphere 0 ≠ axisPositive latitude ∧
        byteAt hemisphere 0 ≠ axisNegative latitude then none
      else (decimal ℚ text).bind (scale latitude hemisphere) := by
    rw [coordinate]
    simp only [greater, greaterEq, literal, decide_eq_true_eq]
    rfl
  rw [hcode, IsCoordinate]
  by_cases hshape : text.length < axisWidth latitude ∨ text.length > axisWidth latitude ∧
      byteAt text (axisWidth latitude) ≠ '.'.toUInt8
  · rw [if_pos hshape]
    refine iff_of_false nofun ?_
    rintro ⟨whole, fraction, htext, hwidth, -⟩
    exact ((width_iff htext _).mpr hwidth).1 hshape
  · rw [if_neg hshape]
    by_cases hall : (text.take (axisWidth latitude)).all isDigit = true
    · rw [if_neg (by simp [hall])]
      by_cases hletter : hemisphere.length ≠ 1 ∨ byteAt hemisphere 0 ≠ axisPositive latitude ∧
          byteAt hemisphere 0 ≠ axisNegative latitude
      · rw [if_pos hletter]
        refine iff_of_false nofun ?_
        rintro ⟨whole, fraction, -, -, -, -, hhemisphere⟩
        exact hemisphere_iff.mpr (hhemisphere.imp And.left And.left) hletter
      · rw [if_neg hletter, hscale]
        refine exists_congr fun whole => exists_congr fun fraction => ?_
        refine and_congr_right fun htext => ?_
        have hwidth := (width_iff htext _).mp ⟨hshape, hall⟩
        rw [and_iff_right hwidth]
        exact scale_eq_some_iff htext hwidth (hemisphere_iff.mp hletter)
    · rw [if_pos (by simpa using hall)]
      refine iff_of_false nofun ?_
      rintro ⟨whole, fraction, htext, hwidth, -⟩
      exact hall ((width_iff htext _).mpr hwidth).2

/-- A coordinate that is rounded half up stays in the range of its axis. -/
theorem abs_le_of_isCoordinate {latitude : Bool} {text hemisphere : Bytes} {e7 : ℤ}
    (h : IsCoordinate latitude text hemisphere e7) : |e7| ≤ axisMaximum latitude * 10 ^ 7 := by
  obtain ⟨whole, fraction, -, -, -, hangle, he7⟩ := h
  have hpos := angleOf_nonneg whole fraction
  have hlow : 0 ≤ ⌊angleOf whole fraction * 10 ^ 7 + 1 / 2⌋ := Int.floor_nonneg.mpr (by positivity)
  have hhigh : ⌊angleOf whole fraction * 10 ^ 7 + 1 / 2⌋ ≤ axisMaximum latitude * 10 ^ 7 := by
    refine Int.lt_add_one_iff.mp (Int.floor_lt.mpr ?_)
    push_cast
    linarith
  rcases he7 with ⟨-, rfl⟩ | ⟨-, rfl⟩
  · rwa [abs_of_nonneg hlow]
  · rwa [abs_neg, abs_of_nonneg hlow]

/-- The field is a speed in knots of at most 65535 hundredths of km/h, and `v` is that number
rounded half up. -/
def IsSpeed (text : Bytes) (v : ℤ) : Prop :=
  ∃ whole fraction, IsDecimal text whole fraction ∧
    decimalValue whole fraction * (1852 / 10) ≤ 65535 ∧
    v = ⌊decimalValue whole fraction * (1852 / 10) + 1 / 2⌋

theorem decimalValue_nonneg (whole fraction : Bytes) : 0 ≤ decimalValue whole fraction :=
  add_nonneg (Nat.cast_nonneg _) (fraction_nonneg fraction)

theorem truncate_speed (whole fraction : Bytes) :
    truncate (decimalValue whole fraction * (1852 / 10) + 1 / 2) =
      ⌊decimalValue whole fraction * (1852 / 10) + 1 / 2⌋ := by
  have hpos := decimalValue_nonneg whole fraction
  exact truncate_eq_floor (by positivity)

theorem bounds_of_isSpeed {text : Bytes} {v : ℤ} (h : IsSpeed text v) : 0 ≤ v ∧ v ≤ 65535 := by
  obtain ⟨whole, fraction, -, hmaximum, rfl⟩ := h
  have hpos := decimalValue_nonneg whole fraction
  refine ⟨Int.floor_nonneg.mpr (by positivity), Int.lt_add_one_iff.mp (Int.floor_lt.mpr ?_)⟩
  push_cast
  linarith

/-- What a sentence with these fields reports. -/
structure IsFix (fields : Fields) (fix : GpsRmcFix) : Prop where
  location : if fieldAt fields 3 ≠ [] ∨ fieldAt fields 4 ≠ [] ∨ fieldAt fields 5 ≠ [] ∨
      fieldAt fields 6 ≠ [] then
    IsCoordinate true (fieldAt fields 3) (fieldAt fields 4) fix.latitudeE7 ∧
      IsCoordinate false (fieldAt fields 5) (fieldAt fields 6) fix.longitudeE7 ∧
      fix.hasLocation = true
    else fix.latitudeE7 = 0 ∧ fix.longitudeE7 = 0 ∧ fix.hasLocation = false
  speed : if fieldAt fields 7 ≠ [] then
    IsSpeed (fieldAt fields 7) fix.speedKphX100 ∧ fix.hasSpeed = true
    else fix.speedKphX100 = 0 ∧ fix.hasSpeed = false
  time : match parseUtc (fieldAt fields 1) (fieldAt fields 9) with
    | some utcMs => fix.utcMs = utcMs ∧ fix.hasUtc = true
    | none => fix.utcMs = 0 ∧ fix.hasUtc = false

theorem byteAt_fieldAt_ne (fields : Fields) (i : ℕ) :
    byteAt (fieldAt fields i) 0 ≠ 0 ↔ fieldAt fields i ≠ [] :=
  byteAt_zero_ne (zero_notMem_cString _)

theorem parseLocation_eq_some_iff {fields : Fields} {parsed fix : GpsRmcFix} :
    parseLocation ℚ fields parsed = some fix ↔
      ∃ latitudeE7 longitudeE7 hasLocation,
        (if fieldAt fields 3 ≠ [] ∨ fieldAt fields 4 ≠ [] ∨ fieldAt fields 5 ≠ [] ∨
            fieldAt fields 6 ≠ [] then
          IsCoordinate true (fieldAt fields 3) (fieldAt fields 4) latitudeE7 ∧
            IsCoordinate false (fieldAt fields 5) (fieldAt fields 6) longitudeE7 ∧
            hasLocation = true
          else latitudeE7 = parsed.latitudeE7 ∧ longitudeE7 = parsed.longitudeE7 ∧
            hasLocation = parsed.hasLocation) ∧
        fix = { parsed with
          latitudeE7 := latitudeE7
          longitudeE7 := longitudeE7
          hasLocation := hasLocation } := by
  have hlat : ∀ e7, coordinate ℚ (fieldAt fields 3) (fieldAt fields 4) true = some e7 ↔
      IsCoordinate true (fieldAt fields 3) (fieldAt fields 4) e7 :=
    fun _ => coordinate_eq_some_iff (zero_notMem_cString _)
  have hlon : ∀ e7, coordinate ℚ (fieldAt fields 5) (fieldAt fields 6) false = some e7 ↔
      IsCoordinate false (fieldAt fields 5) (fieldAt fields 6) e7 :=
    fun _ => coordinate_eq_some_iff (zero_notMem_cString _)
  rw [parseLocation]
  simp only [byteAt_fieldAt_ne]
  split
  · constructor
    · intro h
      obtain ⟨latitudeE7, hlatitude, h⟩ := Option.bind_eq_some_iff.mp h
      obtain ⟨longitudeE7, hlongitude, h⟩ := Option.bind_eq_some_iff.mp h
      exact ⟨latitudeE7, longitudeE7, true, ⟨(hlat _).mp hlatitude, (hlon _).mp hlongitude, rfl⟩,
        (Option.some.inj h).symm⟩
    · rintro ⟨latitudeE7, longitudeE7, _, ⟨hlatitude, hlongitude, rfl⟩, rfl⟩
      exact Option.bind_eq_some_iff.mpr ⟨latitudeE7, (hlat _).mpr hlatitude,
        Option.bind_eq_some_iff.mpr ⟨longitudeE7, (hlon _).mpr hlongitude, rfl⟩⟩
  · constructor
    · intro h
      exact ⟨_, _, _, ⟨rfl, rfl, rfl⟩, (Option.some.inj h).symm⟩
    · rintro ⟨_, _, _, ⟨rfl, rfl, rfl⟩, rfl⟩
      rfl

theorem parseSpeed_eq_some_iff {fields : Fields} {parsed fix : GpsRmcFix} :
    parseSpeed ℚ fields parsed = some fix ↔
      ∃ speedKphX100 hasSpeed,
        (if fieldAt fields 7 ≠ [] then
          IsSpeed (fieldAt fields 7) speedKphX100 ∧ hasSpeed = true
          else speedKphX100 = parsed.speedKphX100 ∧ hasSpeed = parsed.hasSpeed) ∧
        fix = { parsed with speedKphX100 := speedKphX100, hasSpeed := hasSpeed } := by
  rw [parseSpeed]
  simp only [byteAt_fieldAt_ne]
  split
  · constructor
    · intro h
      obtain ⟨knots, hknots, h⟩ := Option.bind_eq_some_iff.mp h
      obtain ⟨whole, fraction, htext, rfl⟩ :=
        (decimal_eq_some_iff (zero_notMem_cString _)).mp hknots
      split at h
      · cases h
      · rename_i hmaximum
        have hle : decimalValue whole fraction * (1852 / 10) ≤ 65535 := by
          rw [← not_lt]
          exact fun hlt => hmaximum (decide_eq_true hlt)
        refine ⟨_, true, ⟨⟨whole, fraction, htext, hle, ?_⟩, rfl⟩, (Option.some.inj h).symm⟩
        exact truncate_speed whole fraction
    · rintro ⟨_, _, ⟨⟨whole, fraction, htext, hle, rfl⟩, rfl⟩, rfl⟩
      refine Option.bind_eq_some_iff.mpr ⟨decimalValue whole fraction,
        (decimal_eq_some_iff (zero_notMem_cString _)).mpr ⟨whole, fraction, htext, rfl⟩, ?_⟩
      rw [← truncate_speed]
      exact if_neg (fun hgreater => absurd (of_decide_eq_true hgreater) (not_lt.mpr hle))
  · constructor
    · intro h
      exact ⟨_, _, ⟨rfl, rfl⟩, (Option.some.inj h).symm⟩
    · rintro ⟨_, _, ⟨rfl, rfl⟩, rfl⟩
      rfl

/-- A framed sentence is accepted exactly if its fields report something, which is the fix. -/
theorem gpsRmcParse_fields {line : CString} {fields : Fields}
    (h : fieldsFromRmc (some line) emptyFields = some fields) (before fix : GpsRmcFix) :
    gpsRmcParse ℚ (some line) (some before) = (true, some fix) ↔ IsFix fields fix := by
  have hparsed : gpsRmcParse ℚ (some line) (some before) = (true, some fix) ↔
      ∃ located, parseLocation ℚ fields clearedFix = some located ∧
        ∃ moving, parseSpeed ℚ fields located = some moving ∧ fix = parseTime fields moving := by
    rw [gpsRmcParse, h]
    cases hlocation : parseLocation ℚ fields clearedFix with
    | none => simp [hlocation]
    | some located =>
      cases hspeed : parseSpeed ℚ fields located with
      | none => simp [hlocation, hspeed]
      | some moving => simp [hlocation, hspeed, eq_comm]
  rw [hparsed]
  constructor
  · rintro ⟨located, hlocated, moving, hmoving, rfl⟩
    obtain ⟨_, _, _, hlocation, rfl⟩ := parseLocation_eq_some_iff.mp hlocated
    obtain ⟨_, _, hspeed, rfl⟩ := parseSpeed_eq_some_iff.mp hmoving
    rw [parseTime]
    cases htime : parseUtc (fieldAt fields 1) (fieldAt fields 9) with
    | none => exact ⟨hlocation, hspeed, by rw [htime]; exact ⟨rfl, rfl⟩⟩
    | some utcMs => exact ⟨hlocation, hspeed, by rw [htime]; exact ⟨rfl, rfl⟩⟩
  · rintro ⟨hlocation, hspeed, htime⟩
    refine ⟨_, parseLocation_eq_some_iff.mpr ⟨_, _, _, hlocation, rfl⟩, _,
      parseSpeed_eq_some_iff.mpr ⟨_, _, hspeed, rfl⟩, ?_⟩
    rw [parseTime]
    split at htime
    · rename_i utcMs hutc
      rw [hutc]
      obtain ⟨hms, hvalid⟩ := htime
      cases fix
      simp_all
    · rename_i hutc
      rw [hutc]
      obtain ⟨hms, hvalid⟩ := htime
      cases fix
      simp_all [clearedFix]

/-- In exact arithmetic the fields for a coordinate and a speed are accepted exactly if they are
one, converted exactly and within their ranges, and a framed sentence reports exactly them. -/
theorem telemetry_exact :
    (∀ latitude (text hemisphere : CString) e7,
      coordinate ℚ text.bytes hemisphere.bytes latitude = some e7 ↔
        IsCoordinate latitude text.bytes hemisphere.bytes e7) ∧
    (∀ latitude text hemisphere e7, IsCoordinate latitude text hemisphere e7 →
      |e7| ≤ if latitude then 900000000 else 1800000000) ∧
    (∀ text v, IsSpeed text v → 0 ≤ v ∧ v ≤ 65535) ∧
    ∀ (line : CString) fields, fieldsFromRmc (some line) emptyFields = some fields →
      ∀ before, (∀ fix, gpsRmcParse ℚ (some line) (some before) = (true, some fix) ↔
          IsFix fields fix) ∧
        ((¬ ∃ fix, IsFix fields fix) →
          gpsRmcParse ℚ (some line) (some before) = (false, some clearedFix)) := by
  refine ⟨fun latitude text hemisphere e7 => coordinate_eq_some_iff text.nulFree, ?_,
    fun text v => bounds_of_isSpeed, ?_⟩
  · intro latitude text hemisphere e7 h
    have hbound := abs_le_of_isCoordinate h
    cases latitude <;> exact hbound
  · intro line fields h before
    refine ⟨gpsRmcParse_fields h before, ?_⟩
    intro hnone
    rw [gpsRmcParse]
    split
    · rfl
    · rename_i parsed hparsed
      refine absurd ⟨parsed, (gpsRmcParse_fields h before parsed).mp ?_⟩ hnone
      rw [gpsRmcParse, hparsed]

/-- 48°07.038' N, 11°31' W and 10 knots. -/
def positionSentence : CString where
  bytes := ['$', 'G', 'P', 'R', 'M', 'C', ',', '1', '8', '4', '2', '0', '3', ',', 'A', ',', '4',
    '8', '0', '7', '.', '0', '3', '8', ',', 'N', ',', '0', '1', '1', '3', '1', '.', '0', '0', '0',
    ',', 'W', ',', '1', '0', '.', '0', ',', ',', '1', '0', '0', '9', '2', '6', '*', '1',
    '2'].map Char.toUInt8
  nulFree := by decide

theorem positionSentence_fix : ∃ fields,
    fieldsFromRmc (some positionSentence) emptyFields = some fields ∧
      IsFix fields ⟨1789065723000, 481173000, -115166667, 1852, true, true, true⟩ := by
  obtain ⟨fields, hfields⟩ : ∃ fields,
      fieldsFromRmc (some positionSentence) emptyFields = some fields :=
    Option.isSome_iff_exists.mp (by decide +kernel)
  refine ⟨fields, hfields, (telemetry_exact.2.2.2 _ fields hfields clearedFix).1 _ |>.mp ?_⟩
  decide +kernel

end BajaDaq.ExactTelemetry
