import BajaDaq.CivilDates
import BajaDaq.LogFiles

/-!
# The rows of the powertrain export

Their definition over the whole history before each engine record: one row for each engine
record whose last bearing record is at most 100 ms old, by times modulo 2 ^ 32.
-/

namespace BajaDaq.PairedRows
open AppProtocol CivilDates DecimalText FixedItems LittleEndian
open LogFiles (utcSize)

/-- A record of the binary, any two words. -/
structure LogRecord where
  idWord : UInt64
  payload : UInt64
  deriving DecidableEq, Repr

namespace LogRecord

def bytes (r : LogRecord) : List UInt8 := bytesOf 8 r.idWord.toNat ++ bytesOf 8 r.payload.toNat

/-- The low 11 bits of the identifier. -/
def signal (r : LogRecord) : ℕ := r.idWord.toNat % 2 ^ 11

/-- `T`, in milliseconds. -/
def time (r : LogRecord) : ℕ := r.payload.toNat / 2 ^ 32

/-- The low 32 bits of the payload as a signed number. -/
def value (r : LogRecord) : ℤ :=
  if r.payload.toNat % 2 ^ 32 < 2 ^ 31 then r.payload.toNat % 2 ^ 32
  else r.payload.toNat % 2 ^ 32 - 2 ^ 32

/-- `(T - T') mod 2 ^ 32` for the time `T'` of an earlier record. -/
def age (r earlier : LogRecord) : ℤ := ((r.time : ℤ) - earlier.time) % 2 ^ 32

/-- The two halves of the payload as the code decodes them. -/
def timestamp (r : LogRecord) : UInt32 := (r.payload >>> 32).toUInt32

def sample (r : LogRecord) : Int32 := r.payload.toUInt32.toInt32

end LogRecord

/-- The last record of a signal. -/
def latest (signal : UInt32) (past : List LogRecord) : Option LogRecord :=
  past.reverse.find? (fun r => r.signal = signal.toNat)

/-- Entry `k` of the companion, if there is a complete one. -/
def entryAt (companion : Option (List UInt8)) (k : ℕ) : Option ℤ :=
  (companion.bind (fun bytes => (items utcSize bytes)[k]?)).map
    (fun entry => (UInt64.ofNat (valueOf entry)).toInt64.toInt)

def isoText (date : CivilDate) (hour minute second : ℕ) : Text :=
  unsignedText date.year ++ '-' :: paddedText 2 date.month ++ '-' :: paddedText 2 date.day ++
    'T' :: paddedText 2 hour ++ ':' :: paddedText 2 minute ++ ':' :: paddedText 2 second

/-- The text of a UTC time in milliseconds. -/
def isoTime (utcMs : ℕ) : Text :=
  isoText (civilOfDays (utcMs / 86400000)) (utcMs / 3600000 % 24) (utcMs / 60000 % 60)
    (utcMs / 1000 % 60) ++ '.' :: paddedText 3 (utcMs % 1000) ++ ['Z']

/-- A blank in place of a year of nine digits. -/
def shortIsoTime (utcMs : ℕ) : Text :=
  if (civilOfDays (utcMs / 86400000)).year < 10 ^ 8 then isoTime utcMs else []

/-- The absolute time of an entry; blank if it is missing or not positive. -/
def absoluteCell (iso : ℕ → Text) (entry : Option ℤ) : Text :=
  match entry with
  | none => []
  | some utcMs => if 0 < utcMs then iso utcMs.toNat else []

/-- The cell of a held signal: blank without a record that is young enough. -/
def heldCell (r : LogRecord) (limit : ℤ) (text : ℤ → Text) (held : Option LogRecord) : Text :=
  match held with
  | none => []
  | some earlier => if r.age earlier ≤ limit then text earlier.value else []

def csvRow (cells : List Text) : Text := [','].intercalate cells ++ ['\r', '\n']

/-- The row of an engine record, given the records before it, its bearing record and its
companion entry. -/
def pairedRow (iso : ℕ → Text) (past : List LogRecord) (r bearing : LogRecord)
    (entry : Option ℤ) : Text :=
  csvRow [unsignedText r.time, absoluteCell iso entry,
    heldCell r 100 signedText (latest canIdFrontBrake past),
    signedText bearing.value, signedText r.value,
    heldCell r (2 ^ 31 - 1) (scaledText 7) (latest canIdGpsLatitude past),
    heldCell r (2 ^ 31 - 1) (scaledText 7) (latest canIdGpsLongitude past),
    heldCell r (2 ^ 31 - 1) (scaledText 2) (latest canIdGpsSpeed past)]

/-- The row of a record: only for an engine record whose last bearing record is at most 100 ms
old. -/
def rowOf (iso : ℕ → Text) (past : List LogRecord) (r : LogRecord) (entry : Option ℤ) :
    Option Text :=
  if r.signal = canIdEngineRpm.toNat then
    match latest canIdBearingEncoder past with
    | none => none
    | some bearing =>
      if r.age bearing ≤ 100 then some (pairedRow iso past r bearing entry) else none
  else none

/-- The rows of all records in file order. -/
def pairedRows (iso : ℕ → Text) (records : List LogRecord) (companion : Option (List UInt8)) :
    List Text :=
  (List.range records.length).filterMap (fun k =>
    records[k]?.bind (fun r => rowOf iso (records.take k) r (entryAt companion k)))

theorem canId_eq_iff (r : LogRecord) (signal : UInt32) :
    r.idWord.toUInt32 &&& 0x7ff = signal ↔ r.signal = signal.toNat := by
  have hmask : (r.idWord.toUInt32 &&& 0x7ff).toNat = r.signal := by
    rw [UInt32.toNat_and, UInt64.toNat_toUInt32, LogRecord.signal,
      show (0x7ff : UInt32).toNat = 2 ^ 11 - 1 from rfl, Nat.and_two_pow_sub_one_eq_mod]
    omega
  rw [← UInt32.toNat_inj, hmask]

theorem timestamp_toNat (r : LogRecord) : r.timestamp.toNat = r.time := by
  have hpayload := r.payload.toNat_lt
  simp only [LogRecord.timestamp, LogRecord.time, UInt64.toNat_toUInt32, UInt64.toNat_shiftRight,
    Nat.shiftRight_eq_div_pow]
  change r.payload.toNat / 2 ^ 32 % 2 ^ 32 = _
  omega

theorem sample_toInt (r : LogRecord) : r.sample.toInt = r.value := by
  have hlow : r.sample.toBitVec.toNat = r.payload.toNat % 2 ^ 32 := UInt64.toNat_toUInt32 _
  rw [← Int32.toInt_toBitVec, BitVec.toInt_eq_toNat_cond, hlow, LogRecord.value]
  split <;> split <;> omega

theorem age_eq (r earlier : LogRecord) :
    ((r.timestamp - earlier.timestamp).toNat : ℤ) = r.age earlier := by
  have hlt := earlier.timestamp.toNat_lt
  rw [UInt32.toNat_sub, LogRecord.age]
  rw [timestamp_toNat] at hlt ⊢
  rw [timestamp_toNat]
  omega

theorem young_iff (r earlier : LogRecord) :
    r.timestamp - earlier.timestamp ≤ 100 ↔ r.age earlier ≤ 100 := by
  rw [← age_eq, UInt32.le_iff_toNat_le]
  change _ ≤ 100 ↔ _
  omega

theorem time_lt (r : LogRecord) : r.time < 10 ^ 10 := by
  have hpayload := r.payload.toNat_lt
  rw [LogRecord.time]
  omega

theorem value_natAbs_lt (r : LogRecord) : r.value.natAbs < 10 ^ 10 := by
  unfold LogRecord.value
  split
  · omega
  · omega

end BajaDaq.PairedRows
