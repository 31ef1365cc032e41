import BajaDaq.PairedCsv
import BajaDaq.PairedRows

/-!
# The one-pass exporter sends the rows of the definition

The held values are those of the last records of each signal, and the companion has been read
once for each record.
-/

namespace BajaDaq.PairedExport
open AppProtocol CivilDates DecimalText FixedItems LittleEndian PairedCsv PairedRows
open LogFiles (recordSize utcSize)

variable {r earlier : LogRecord}

theorem recordWords_bytes (r : LogRecord) : recordWords r.bytes = (r.idWord, r.payload) := by
  have hid : r.idWord.toNat < 256 ^ 8 := r.idWord.toNat_lt
  have hpayload : r.payload.toNat < 256 ^ 8 := r.payload.toNat_lt
  have htake : r.bytes.take 8 = bytesOf 8 r.idWord.toNat := by simp [LogRecord.bytes]
  have hdrop : r.bytes.drop 8 = bytesOf 8 r.payload.toNat := by simp [LogRecord.bytes]
  rw [recordWords, htake, hdrop, valueOf_bytesOf, valueOf_bytesOf, Nat.mod_eq_of_lt hid,
    Nat.mod_eq_of_lt hpayload, UInt64.ofNat_toNat, UInt64.ofNat_toNat]

theorem sampleAtOrBefore_iff (r earlier : LogRecord) :
    sampleAtOrBefore r.timestamp earlier.timestamp = true ↔ r.age earlier ≤ 2 ^ 31 - 1 := by
  rw [sampleAtOrBefore, decide_eq_true_iff, ← age_eq, UInt32.lt_iff_toNat_lt]
  change _ < 2147483648 ↔ _
  omega

theorem entryAt_lt {companion : Option (List UInt8)} {k : ℕ} {utcMs : ℤ}
    (h : entryAt companion k = some utcMs) : utcMs < 2 ^ 63 := by
  obtain ⟨entry, -, rfl⟩ := Option.map_eq_some_iff.mp h
  exact Int64.toInt_lt _

theorem dateFormat_text {date : CivilDate} (hyear : 1970 ≤ date.year) (hmonth : 1 ≤ date.month)
    (hour minute second : ℕ) : dateFormat.flatMap (Conversion.text
      ⟨date.year - 1900, date.month - 1, date.day, hour, minute, second⟩) =
      isoText date hour minute second := by
  have hyear' : date.year - 1900 + 1900 = date.year := by omega
  have hmonth' : date.month - 1 + 1 = date.month := by omega
  simp [dateFormat, Conversion.text, isoText, hyear', hmonth']

theorem length_isoText {date : CivilDate} {hour minute second : ℕ} (hmonth : date.month < 100)
    (hday : date.day < 100) (hhour : hour < 100) (hminute : minute < 100)
    (hsecond : second < 100) :
    (isoText date hour minute second).length = (unsignedText date.year).length + 15 := by
  have htwo : ∀ n, n < 100 → (paddedText 2 n).length = 2 :=
    fun n hn => length_paddedText (by omega) hn
  simp only [isoText, List.length_append, List.length_cons, htwo _ hmonth, htwo _ hday,
    htwo _ hhour, htwo _ hminute, htwo _ hsecond]

/-- The buffer for the date holds years of up to eight digits. -/
theorem strftime_dateFormat {date : CivilDate} {hour minute second : ℕ}
    (hyear : 1970 ≤ date.year) (hmonth : 1 ≤ date.month) (hmonth' : date.month < 100)
    (hday : date.day < 100) (hhour : hour < 100) (hminute : minute < 100)
    (hsecond : second < 100) : strftime 24 dateFormat
      ⟨date.year - 1900, date.month - 1, date.day, hour, minute, second⟩ =
      if date.year < 10 ^ 8 then some (isoText date hour minute second) else none := by
  have hlength := length_isoText hmonth' hday hhour hminute hsecond
  have hdigits := length_unsignedText_le (n := date.year) (k := 8) (by omega)
  have hfits : (isoText date hour minute second).length < 24 ↔ date.year < 10 ^ 8 := by
    rw [← hdigits]
    omega
  simp only [strftime, dateFormat_text hyear hmonth, hfits]

/-- The fields of `gmtime_r` for a time in milliseconds. -/
theorem gmtimeR_ms {ms : ℕ} (h : ms < 2 ^ 63) : gmtimeR (ms / 1000) =
    some ⟨(civilOfDays (ms / 86400000)).year - 1900, (civilOfDays (ms / 86400000)).month - 1,
      (civilOfDays (ms / 86400000)).day, ms / 3600000 % 24, ms / 60000 % 60, ms / 1000 % 60⟩ := by
  have hdays : ms / 1000 / 86400 = ms / 86400000 := by omega
  have hhour : ms / 1000 % 86400 / 3600 = ms / 3600000 % 24 := by omega
  have hminute : ms / 1000 % 86400 % 3600 / 60 = ms / 60000 % 60 := by omega
  have hsecond : ms / 1000 % 86400 % 60 = ms / 1000 % 60 := by omega
  rw [gmtimeR_of_lt (by omega), hdays, hhour, hminute, hsecond]

theorem length_shortIsoTime_le (utcMs : ℕ) : (shortIsoTime utcMs).length ≤ 28 := by
  obtain ⟨-, hmonth⟩ := month_civilOfDays (utcMs / 86400000)
  obtain ⟨-, hday⟩ := day_civilOfDays (utcMs / 86400000)
  have hms : (paddedText 3 (utcMs % 1000)).length = 3 := length_paddedText (by omega) (by omega)
  unfold shortIsoTime isoTime
  split
  · have hdigits := (length_unsignedText_le (k := 8) (by omega)).mpr ‹_›
    rw [List.length_append, List.length_append, List.length_cons,
      length_isoText (by omega) (by omega) (by omega) (by omega) (by omega), hms,
      List.length_singleton]
    omega
  · exact Nat.zero_le _

theorem formatAbsoluteTime_eq {utcMs : ℤ} (hpos : 0 < utcMs) (hlt : utcMs < 2 ^ 63) :
    formatAbsoluteTime utcMs 32 = shortIsoTime utcMs.toNat := by
  obtain ⟨ms, rfl⟩ := Int.eq_ofNat_of_zero_le hpos.le
  have hms : ms < 2 ^ 63 := by omega
  have hseconds : ((ms : ℤ) / 1000).toNat = ms / 1000 := by omega
  have hrest : ((ms : ℤ) % 1000).toNat = ms % 1000 := by omega
  obtain ⟨hmonth, hmonth'⟩ := month_civilOfDays (ms / 86400000)
  obtain ⟨-, hday⟩ := day_civilOfDays (ms / 86400000)
  obtain ⟨-, hyear⟩ := year_civilOfDays (ms / 86400000)
  have hlength := length_shortIsoTime_le ms
  rw [formatAbsoluteTime, if_neg (by omega), hseconds, gmtimeR_ms hms, hrest, Int.toNat_natCast,
    Option.bind_some, strftime_dateFormat hyear hmonth (by omega) (by omega) (by omega) (by omega)
      (by omega)]
  rw [shortIsoTime] at hlength ⊢
  by_cases hshort : (civilOfDays (ms / 86400000)).year < 10 ^ 8
  · rw [if_pos hshort] at hlength ⊢
    rw [if_pos hshort, Option.elim_some, ← isoTime]
    exact snprintf_of_lt (by omega)
  · rw [if_neg hshort, if_neg hshort, Option.elim_none]

/-- What is left of the companion after `k` reads. -/
def unread (companion : Option (List UInt8)) (k : ℕ) : Option (List UInt8) :=
  companion.map (fun bytes => bytes.drop (k * utcSize))

/-- The value that is read for an entry. -/
def entryMs (entry : Option ℤ) : ℤ :=
  match entry with
  | none => 0
  | some utcMs => if 0 < utcMs then utcMs else 0

/-- Every record consumes one entry, whether or not it is complete. -/
theorem readUtcMs_unread (companion : Option (List UInt8)) (k : ℕ) :
    readUtcMs (unread companion k) = (entryMs (entryAt companion k), unread companion (k + 1)) := by
  cases companion with
  | none => rfl
  | some bytes =>
    have hrest : (bytes.drop (k * utcSize)).drop utcSize = bytes.drop ((k + 1) * utcSize) := by
      rw [List.drop_drop, Nat.add_mul, Nat.one_mul]
    have hcount : utcSize ≤ (bytes.drop (k * utcSize)).length ↔ k < bytes.length / utcSize := by
      rw [List.length_drop]
      change 8 ≤ bytes.length - k * 8 ↔ k < bytes.length / 8
      omega
    by_cases hk : k < bytes.length / utcSize
    · have hitem : (items utcSize bytes)[k]? = some ((bytes.drop (k * utcSize)).take utcSize) := by
        simp [items, hk]
      simp only [unread, entryAt, Option.map_some, Option.bind_some, hitem, entryMs, readUtcMs,
        fread, if_pos (hcount.mpr hk), hrest]
    · have hitem : (items utcSize bytes)[k]? = none := by
        simp [items, Nat.le_of_not_lt hk]
      simp only [unread, entryAt, Option.map_some, Option.bind_some, hitem, entryMs, readUtcMs,
        fread, if_neg (fun h => hk (hcount.mp h)), hrest, Option.map_none]

theorem absoluteCell_eq {companion : Option (List UInt8)} {k : ℕ} :
    formatAbsoluteTime (entryMs (entryAt companion k)) 32 =
      absoluteCell shortIsoTime (entryAt companion k) := by
  cases h : entryAt companion k with
  | none => rfl
  | some utcMs =>
    by_cases hpos : 0 < utcMs
    · simp only [entryMs, absoluteCell, if_pos hpos]
      exact formatAbsoluteTime_eq hpos (entryAt_lt h)
    · simp only [entryMs, absoluteCell, if_neg hpos]
      rfl

theorem latest_append (signal : UInt32) (past : List LogRecord) (r : LogRecord) :
    latest signal (past ++ [r]) =
      if r.signal = signal.toNat then some r else latest signal past := by
  by_cases h : r.signal = signal.toNat <;> simp [latest, h]

/-- The three variables of one signal after a history with `last` as its last record of it. -/
def Carries (have_ : Bool) (timestamp : UInt32) (value : Int32) (last : Option LogRecord) : Prop :=
  match last with
  | none => have_ = false
  | some r => have_ = true ∧ timestamp = r.timestamp ∧ value = r.sample

/-- The held variables belong to the records `past`. -/
structure Follows (held : Held) (past : List LogRecord) : Prop where
  bearing : Carries held.haveBearing held.bearingTimestamp held.bearingRpm
    (latest canIdBearingEncoder past)
  brake : Carries held.haveBrake held.brakeTimestamp held.brakePressure
    (latest canIdFrontBrake past)
  speed : Carries held.haveSpeed held.speedTimestamp held.speedX100
    (latest canIdGpsSpeed past)
  latitude : Carries held.haveLatitude held.latitudeTimestamp held.latitudeE7
    (latest canIdGpsLatitude past)
  longitude : Carries held.haveLongitude held.longitudeTimestamp held.longitudeE7
    (latest canIdGpsLongitude past)

theorem follows_start : Follows .start [] := ⟨rfl, rfl, rfl, rfl, rfl⟩

/-- The cell of a held signal, given what the test of its age means and that its text fits. -/
theorem heldCell_eq (text : ℤ → Text) (size : ℕ) {have_ : Bool} {timestamp : UInt32}
    {value : Int32} {last : Option LogRecord} {r : LogRecord} {limit : ℤ} {c : Prop} [Decidable c]
    (h : Carries have_ timestamp value last)
    (hc : ∀ earlier, timestamp = earlier.timestamp → (c ↔ r.age earlier ≤ limit))
    (hfits : ∀ earlier : LogRecord, (text earlier.value).length < size) :
    (if have_ = true ∧ c then (snprintf size (text value.toInt)).1 else []) =
      heldCell r limit text last := by
  cases last with
  | none =>
    obtain rfl : have_ = false := h
    exact if_neg (fun hand => Bool.false_ne_true hand.1)
  | some earlier =>
    obtain ⟨rfl, ht, rfl⟩ := h
    rw [sample_toInt, snprintf_of_lt (hfits earlier)]
    by_cases hage : r.age earlier ≤ limit
    · rw [if_pos ⟨rfl, (hc earlier ht).mpr hage⟩, heldCell, if_pos hage]
    · rw [if_neg (fun hand => hage ((hc earlier ht).mp hand.2)), heldCell, if_neg hage]

theorem length_heldCell_lt (r : LogRecord) (limit : ℤ) (last : Option LogRecord)
    {text : ℤ → Text} {size : ℕ}
    (hfits : ∀ earlier : LogRecord, (text earlier.value).length < size) :
    (heldCell r limit text last).length < size := by
  unfold heldCell
  have hpos : 0 < size := Nat.zero_lt_of_lt (hfits r)
  cases last with
  | none => exact hpos
  | some earlier =>
    dsimp only
    split
    · exact hfits earlier
    · exact hpos

theorem length_signedText_value (r : LogRecord) : (signedText r.value).length < 12 :=
  length_signedText_lt (value_natAbs_lt r)

theorem length_scaledText_value {p : ℕ} (hp : 0 < p) (hp' : p < 10) (r : LogRecord) :
    (scaledText p r.value).length < 13 :=
  length_scaledText_lt hp hp' (value_natAbs_lt r)

theorem length_absoluteCell_le (entry : Option ℤ) :
    (absoluteCell shortIsoTime entry).length ≤ 28 := by
  unfold absoluteCell
  cases entry with
  | none => exact Nat.zero_le _
  | some utcMs =>
    dsimp only
    split
    · exact length_shortIsoTime_le _
    · exact Nat.zero_le _

/-- Every row fits in its buffer. -/
theorem length_pairedRow_lt (past : List LogRecord) (r bearing : LogRecord) (entry : Option ℤ) :
    (pairedRow shortIsoTime past r bearing entry).length < 256 := by
  have htime := (length_unsignedText_le (k := 10) (by omega)).mpr (time_lt r)
  have habsolute := length_absoluteCell_le entry
  have hbrake := length_heldCell_lt r 100 (latest canIdFrontBrake past) length_signedText_value
  have hbearing := length_signedText_value bearing
  have hvalue := length_signedText_value r
  have hlatitude := length_heldCell_lt r (2 ^ 31 - 1) (latest canIdGpsLatitude past)
    (length_scaledText_value (p := 7) (by omega) (by omega))
  have hlongitude := length_heldCell_lt r (2 ^ 31 - 1) (latest canIdGpsLongitude past)
    (length_scaledText_value (p := 7) (by omega) (by omega))
  have hspeed := length_heldCell_lt r (2 ^ 31 - 1) (latest canIdGpsSpeed past)
    (length_scaledText_value (p := 2) (by omega) (by omega))
  simp only [pairedRow, csvRow, List.intercalate, List.intersperse, List.flatten_cons,
    List.flatten_nil, List.length_append, List.length_cons, List.length_nil]
  omega

theorem rowText_eq {held : Held} {past : List LogRecord} {r bearing : LogRecord}
    {companion : Option (List UInt8)} {k : ℕ} (h : Follows held past)
    (hb : latest canIdBearingEncoder past = some bearing) :
    rowText held (entryMs (entryAt companion k)) r.timestamp r.sample =
      pairedRow shortIsoTime past r bearing (entryAt companion k) := by
  have hbearing := h.bearing
  rw [hb] at hbearing
  obtain ⟨-, -, hrpm⟩ := hbearing
  have hgps : ∀ {timestamp : UInt32} (earlier : LogRecord), timestamp = earlier.timestamp →
      (sampleAtOrBefore r.timestamp timestamp = true ↔ r.age earlier ≤ 2 ^ 31 - 1) := by
    rintro _ earlier rfl
    exact sampleAtOrBefore_iff r earlier
  have hyoung : ∀ earlier : LogRecord, held.brakeTimestamp = earlier.timestamp →
      (sampleAtOrBefore r.timestamp held.brakeTimestamp = true ∧
        r.timestamp - held.brakeTimestamp ≤ 100 ↔ r.age earlier ≤ 100) := by
    intro earlier ht
    rw [ht, sampleAtOrBefore_iff, young_iff]
    omega
  have hbrake := heldCell_eq signedText 16 h.brake hyoung
    (fun earlier => Nat.lt_of_lt_of_le (length_signedText_value earlier) (by omega))
  have hspeed := heldCell_eq (scaledText 2) 16 h.speed hgps
    (fun earlier => Nat.lt_of_lt_of_le (length_scaledText_value (by omega) (by omega) earlier)
      (by omega))
  have hlatitude := heldCell_eq (scaledText 7) 24 h.latitude hgps
    (fun earlier => Nat.lt_of_lt_of_le (length_scaledText_value (by omega) (by omega) earlier)
      (by omega))
  have hlongitude := heldCell_eq (scaledText 7) 24 h.longitude hgps
    (fun earlier => Nat.lt_of_lt_of_le (length_scaledText_value (by omega) (by omega) earlier)
      (by omega))
  simp only [rowText, hbrake, hspeed, hlatitude, hlongitude, hrpm, sample_toInt, timestamp_toNat,
    absoluteCell_eq, pairedRow, csvRow, List.intercalate, List.intersperse, List.flatten_cons,
    List.flatten_nil, List.append_assoc, List.cons_append, List.nil_append, List.append_nil]

theorem pairedRows_append (iso : ℕ → Text) (past : List LogRecord) (r : LogRecord)
    (companion : Option (List UInt8)) : pairedRows iso (past ++ [r]) companion =
      pairedRows iso past companion ++
        (rowOf iso past r (entryAt companion past.length)).toList := by
  have hbefore : ∀ k ∈ List.range past.length,
      (past ++ [r])[k]?.bind (fun x => rowOf iso ((past ++ [r]).take k) x (entryAt companion k)) =
        past[k]?.bind (fun x => rowOf iso (past.take k) x (entryAt companion k)) := by
    intro k hk
    have hk : k < past.length := List.mem_range.mp hk
    rw [List.getElem?_append_left hk, List.take_append_of_le_length hk.le]
  rw [pairedRows, List.length_append, List.length_singleton, List.range_succ,
    List.filterMap_append, List.filterMap_congr hbefore, ← pairedRows]
  congr 1
  cases h : rowOf iso past r (entryAt companion past.length) <;> simp [h]

/-- The exporter has handled the records `past` and sent their rows. -/
structure Progress (request : Request) (companion : Option (List UInt8)) (past : List LogRecord)
    (e : Export) : Prop where
  held : Follows e.held past
  utcFile : e.utcFile = unread companion past.length
  request : e.request =
    { request with sent := request.sent ++ pairedRows shortIsoTime past companion }

variable {request : Request} {companion : Option (List UInt8)} {past : List LogRecord} {e : Export}

theorem carries_self {signal : UInt32} (h : r.signal = signal.toNat) :
    Carries true r.timestamp r.sample (latest signal (past ++ [r])) := by
  rw [latest_append, if_pos h]
  exact ⟨rfl, rfl, rfl⟩

theorem carries_other {signal : UInt32} {have_ : Bool} {timestamp : UInt32} {value : Int32}
    (hne : r.signal ≠ signal.toNat) (h : Carries have_ timestamp value (latest signal past)) :
    Carries have_ timestamp value (latest signal (past ++ [r])) := by
  rw [latest_append, if_neg hne]
  exact h

/-- A record that is not an engine sample only updates the held values. -/
theorem Progress.store {held : Held} (h : Progress request companion past e)
    (hne : r.signal ≠ canIdEngineRpm.toNat) (hheld : Follows held (past ++ [r])) :
    Progress request companion (past ++ [r])
      { e with utcFile := unread companion (past.length + 1), held := held } where
  held := hheld
  utcFile := by rw [List.length_append, List.length_singleton]
  request := by
    rw [pairedRows_append, rowOf, if_neg hne, Option.toList_none, List.append_nil]
    exact h.request

/-- No supporting signal is stored for a record of another signal. -/
theorem Follows.other {held : Held} (h : Follows held past)
    (hbrake : r.signal ≠ canIdFrontBrake.toNat) (hbearing : r.signal ≠ canIdBearingEncoder.toNat)
    (hspeed : r.signal ≠ canIdGpsSpeed.toNat) (hlatitude : r.signal ≠ canIdGpsLatitude.toNat)
    (hlongitude : r.signal ≠ canIdGpsLongitude.toNat) : Follows held (past ++ [r]) where
  bearing := carries_other hbearing h.bearing
  brake := carries_other hbrake h.brake
  speed := carries_other hspeed h.speed
  latitude := carries_other hlatitude h.latitude
  longitude := carries_other hlongitude h.longitude

/-- The tests in front of a row are the conditions of `rowOf` for an engine sample. -/
theorem rowOf_engine (iso : ℕ → Text) (entry : Option ℤ) {held : Held}
    (hengine : r.signal = canIdEngineRpm.toNat) (h : Follows held past) :
    ((!held.haveBearing) = true ∨ (!sampleAtOrBefore r.timestamp held.bearingTimestamp) = true ∨
        r.timestamp - held.bearingTimestamp > 100) ∧ rowOf iso past r entry = none ∨
      ¬((!held.haveBearing) = true ∨
          (!sampleAtOrBefore r.timestamp held.bearingTimestamp) = true ∨
          r.timestamp - held.bearingTimestamp > 100) ∧
        ∃ bearing, latest canIdBearingEncoder past = some bearing ∧
          rowOf iso past r entry = some (pairedRow iso past r bearing entry) := by
  have hbearing := h.bearing
  rw [rowOf, if_pos hengine]
  cases hlatest : latest canIdBearingEncoder past with
  | none =>
    rw [hlatest] at hbearing
    have hhave : held.haveBearing = false := hbearing
    exact .inl ⟨.inl (by rw [hhave]; rfl), rfl⟩
  | some bearing =>
    rw [hlatest] at hbearing
    obtain ⟨hhave, ht, -⟩ := hbearing
    have hbefore := sampleAtOrBefore_iff r bearing
    have hyoung := young_iff r bearing
    rw [hhave, ht]
    dsimp only
    by_cases hage : r.age bearing ≤ 100
    · refine .inr ⟨?_, bearing, rfl, if_pos hage⟩
      rintro (hno | hno | hno)
      · cases hno
      · rw [hbefore.mpr (by omega)] at hno
        cases hno
      · exact absurd (hyoung.mpr hage) (UInt32.not_le.mpr hno)
    · refine .inl ⟨.inr (.inr ?_), if_neg hage⟩
      exact UInt32.not_le.mp (fun hle => hage (hyoung.mp hle))

/-- One record: its entry is consumed, its value is held, and its row is sent if it has one. -/
theorem progress_record (h : Progress request companion past e) (r : LogRecord)
    (haccepts : ∀ n, request.accepts n = true) :
    ∃ e', exportRecord e (r.idWord, r.payload) = (e', .ok) ∧
      Progress request companion (past ++ [r]) e' := by
  have hread := readUtcMs_unread companion past.length
  rw [← h.utcFile] at hread
  have hheld := h.held
  have htimestamp : (r.payload >>> 32).toUInt32 = r.timestamp := rfl
  have hsample : r.payload.toUInt32.toInt32 = r.sample := rfl
  simp only [exportRecord, hread, canId_eq_iff, ne_eq, htimestamp, hsample]
  by_cases hbrake : r.signal = canIdFrontBrake.toNat
  · rw [if_pos hbrake]
    refine ⟨_, rfl, h.store (by rw [hbrake]; decide) ?_⟩
    exact ⟨carries_other (by rw [hbrake]; decide) hheld.bearing, carries_self hbrake,
      carries_other (by rw [hbrake]; decide) hheld.speed,
      carries_other (by rw [hbrake]; decide) hheld.latitude,
      carries_other (by rw [hbrake]; decide) hheld.longitude⟩
  rw [if_neg hbrake]
  by_cases hbearing : r.signal = canIdBearingEncoder.toNat
  · rw [if_pos hbearing]
    refine ⟨_, rfl, h.store (by rw [hbearing]; decide) ?_⟩
    exact ⟨carries_self hbearing, carries_other hbrake hheld.brake,
      carries_other (by rw [hbearing]; decide) hheld.speed,
      carries_other (by rw [hbearing]; decide) hheld.latitude,
      carries_other (by rw [hbearing]; decide) hheld.longitude⟩
  rw [if_neg hbearing]
  by_cases hspeed : r.signal = canIdGpsSpeed.toNat
  · rw [if_pos hspeed]
    refine ⟨_, rfl, h.store (by rw [hspeed]; decide) ?_⟩
    exact ⟨carries_other hbearing hheld.bearing, carries_other hbrake hheld.brake,
      carries_self hspeed, carries_other (by rw [hspeed]; decide) hheld.latitude,
      carries_other (by rw [hspeed]; decide) hheld.longitude⟩
  rw [if_neg hspeed]
  by_cases hlatitude : r.signal = canIdGpsLatitude.toNat
  · rw [if_pos hlatitude]
    refine ⟨_, rfl, h.store (by rw [hlatitude]; decide) ?_⟩
    exact ⟨carries_other hbearing hheld.bearing, carries_other hbrake hheld.brake,
      carries_other hspeed hheld.speed, carries_self hlatitude,
      carries_other (by rw [hlatitude]; decide) hheld.longitude⟩
  rw [if_neg hlatitude]
  by_cases hlongitude : r.signal = canIdGpsLongitude.toNat
  · rw [if_pos hlongitude]
    refine ⟨_, rfl, h.store (by rw [hlongitude]; decide) ?_⟩
    exact ⟨carries_other hbearing hheld.bearing, carries_other hbrake hheld.brake,
      carries_other hspeed hheld.speed, carries_other hlatitude hheld.latitude,
      carries_self hlongitude⟩
  rw [if_neg hlongitude]
  have hother := hheld.other hbrake hbearing hspeed hlatitude hlongitude
  by_cases hengine : r.signal = canIdEngineRpm.toNat
  · rcases rowOf_engine shortIsoTime (entryAt companion past.length) hengine hheld with
      ⟨htests, hrow⟩ | ⟨htests, bearing, hlatest, hrow⟩
    · rw [if_pos (.inr htests)]
      refine ⟨_, rfl, hother, by rw [List.length_append, List.length_singleton], ?_⟩
      rw [pairedRows_append, hrow, Option.toList_none, List.append_nil]
      exact h.request
    · have hlength := length_pairedRow_lt past r bearing (entryAt companion past.length)
      have haccept : e.request.accepts e.request.sent.length = true := by
        rw [h.request]
        exact haccepts _
      rw [if_neg (not_or.mpr ⟨not_not.mpr hengine, htests⟩), rowText_eq hheld hlatest,
        snprintf_of_lt hlength, snprintf, if_neg (by dsimp only; omega), httpdRespSendChunk,
        if_pos haccept]
      refine ⟨_, rfl, hother, by rw [List.length_append, List.length_singleton], ?_⟩
      rw [pairedRows_append, hrow, h.request, Option.toList_some, List.append_assoc]
  · rw [if_pos (.inl hengine)]
    exact ⟨_, rfl, h.store hengine hother⟩

theorem progress_records (h : Progress request companion past e) (records : List LogRecord)
    (haccepts : ∀ n, request.accepts n = true) :
    ∃ e', exportRecords e (records.map LogRecord.bytes) = (e', .ok) ∧
      Progress request companion (past ++ records) e' := by
  induction records generalizing past e with
  | nil => exact ⟨e, rfl, by rwa [List.append_nil]⟩
  | cons r records ih =>
    obtain ⟨e₁, hone, h₁⟩ := progress_record h r haccepts
    obtain ⟨e₂, hrest, h₂⟩ := ih h₁
    refine ⟨e₂, ?_, by rwa [List.append_assoc] at h₂⟩
    rw [List.map_cons, exportRecords, recordWords_bytes, hone]
    exact hrest

/-- With all sends succeeding the response is the header, the rows and, without a read error,
the final chunk. Bytes of an incomplete last record do not matter. -/
theorem streamPairedCsv_rows (request : Request) (records : List LogRecord) (rest : List UInt8)
    (readError : Bool) (companion : Option (List UInt8)) (hrest : rest.length < recordSize)
    (haccepts : ∀ n, request.accepts n = true) :
    streamPairedCsv request ⟨records.flatMap LogRecord.bytes ++ rest, readError⟩ companion =
      ({ request with sent := request.sent ++ header :: pairedRows shortIsoTime records companion ++
          if readError then [] else [[]] }, if readError then .fail else .ok) := by
  have hitems : items recordSize (records.flatMap LogRecord.bytes ++ rest) =
      records.map LogRecord.bytes :=
    items_flatMap LogFiles.recordSize_pos (fun r => by simp [LogRecord.bytes]) records hrest
  have hstart : Progress { request with sent := request.sent ++ [header] } companion []
      ⟨{ request with sent := request.sent ++ [header] }, companion, .start⟩ :=
    ⟨follows_start, by cases companion <;> rfl, by simp [pairedRows]⟩
  obtain ⟨e, hloop, h⟩ := progress_records hstart records haccepts
  have hheader : httpdRespSendChunk request header =
      ({ request with sent := request.sent ++ [header] }, .ok) :=
    if_pos (haccepts _)
  have hsent := h.request
  rw [List.nil_append] at hsent
  rw [streamPairedCsv, hheader]
  simp only [hitems, hloop, hsent]
  cases readError with
  | true => simp
  | false => simp [httpdRespSendChunk, haccepts]

/-- A record and the bytes of a companion, as the host tests write them. -/
def sampleRecord (signal : UInt32) (timestamp value : UInt32) : LogRecord :=
  ⟨signal.toUInt64, timestamp.toUInt64 <<< 32 ||| value.toUInt64⟩

def companionOf (entries : List Int64) : Option (List UInt8) :=
  some (entries.flatMap (fun utcMs => bytesOf 8 utcMs.toUInt64.toNat))

/-- The first host test: one row with every cell filled. -/
def fullRow : List LogRecord :=
  [sampleRecord canIdFrontBrake 995 250, sampleRecord canIdRearBrake 995 125,
    sampleRecord canIdGpsSpeed 996 1234, sampleRecord canIdGpsLatitude 996 455235947,
    sampleRecord canIdGpsLongitude 996 (0 - 734223998), sampleRecord canIdBearingEncoder 1000 900,
    sampleRecord canIdEngineSpark 1001 1, sampleRecord canIdEngineRpm 1001 3000]

def fullRowCompanion : Option (List UInt8) := companionOf [0, 0, 0, 0, 0, 0, 0, 1700000000123]

theorem streamPairedCsv_fullRow :
    pairedRows shortIsoTime fullRow fullRowCompanion =
      ["1001,2023-11-14T22:13:20.123Z,250,900,3000,45.5235947,-73.4223998,12.34\r\n".toList] ∧
    streamPairedCsv ⟨[], fun _ => true⟩ ⟨fullRow.flatMap LogRecord.bytes ++ [0xb1], false⟩
        fullRowCompanion =
      (⟨header :: pairedRows shortIsoTime fullRow fullRowCompanion ++ [[]], fun _ => true⟩, .ok) :=
  ⟨by decide, streamPairedCsv_rows ⟨[], fun _ => true⟩ fullRow [0xb1] false fullRowCompanion
    (by decide) (fun _ => rfl)⟩

/-- An engine record whose companion entry is the last millisecond of an `int64_t`. -/
def farRow : List LogRecord :=
  [sampleRecord canIdBearingEncoder 1000 900, sampleRecord canIdEngineRpm 1000 3000]

def farRowCompanion : Option (List UInt8) := companionOf [0, 9223372036854775807]

/-- The year 292277026 does not fit in the buffer, and the cell stays blank. -/
theorem streamPairedCsv_ne_isoTime :
    (streamPairedCsv ⟨[], fun _ => true⟩ ⟨farRow.flatMap LogRecord.bytes, false⟩
        farRowCompanion).1.sent ≠
      header :: pairedRows isoTime farRow farRowCompanion ++ [[]] := by
  decide

end BajaDaq.PairedExport
