import BajaDaq.CStrings
import Mathlib.Algebra.Field.Rat

/-!
# The RMC sentences of the GPS receiver

The arithmetic on `double` is a parameter. The integer of a conversion is not reduced to the range
of its type.
-/

namespace BajaDaq.RmcParser
open CStrings

/-- The operations on `double` that the parser uses. -/
class Doubles (D : Type) extends Add D, Sub D, Mul D, Div D where
  strtod : Bytes → D
  literal : ℚ → D
  greater : D → D → Bool
  greaterEq : D → D → Bool
  /-- The conversion to an integer, toward zero. -/
  truncate : D → ℤ

export Doubles (strtod literal greater greaterEq truncate)

structure GpsRmcFix where
  utcMs : ℤ
  latitudeE7 : ℤ
  longitudeE7 : ℤ
  speedKphX100 : ℤ
  hasLocation : Bool
  hasSpeed : Bool
  hasUtc : Bool
  deriving DecidableEq, Repr

def clearedFix : GpsRmcFix := ⟨0, 0, 0, 0, false, false, false⟩

section Telemetry
variable (D : Type) [Doubles D]

def decimal (text : Bytes) : Option D :=
  if !isDigit (byteAt text 0) then none
  else
    let p := text.dropWhile isDigit
    if byteAt p 0 = '.'.toUInt8 then
      let p := p.drop 1
      if !isDigit (byteAt p 0) then none
      else if byteAt (p.dropWhile isDigit) 0 ≠ 0 then none
      else some (strtod text)
    else if byteAt p 0 ≠ 0 then none
    else some (strtod text)

def coordinate (text hemisphere : Bytes) (latitude : Bool) : Option ℤ :=
  let width := if latitude then 4 else 5
  let positive := if latitude then 'N'.toUInt8 else 'E'.toUInt8
  let negative := if latitude then 'S'.toUInt8 else 'W'.toUInt8
  if text.length < width ∨ text.length > width ∧ byteAt text width ≠ '.'.toUInt8 then none
  else if !(text.take width).all isDigit then none
  else if hemisphere.length ≠ 1 ∨
      byteAt hemisphere 0 ≠ positive ∧ byteAt hemisphere 0 ≠ negative then none
  else (decimal D text).bind fun raw =>
    let maximum : ℤ := if latitude then 90 else 180
    if greater raw (literal maximum * literal 100) then none
    else
      let degrees := truncate (raw / literal 100)
      let minutes : D := raw - literal degrees * literal 100
      if greaterEq minutes (literal 60) then none
      else
        let angle : D := literal degrees + minutes / literal 60
        let scaled := truncate (angle * literal 10000000 + literal (1 / 2))
        some (if byteAt hemisphere 0 = negative then -scaled else scaled)

end Telemetry

/-- Ten buffers of 24 bytes. -/
abbrev Fields := List Bytes

def emptyFields : Fields := List.replicate 10 (List.replicate 24 0)

def fieldAt (fields : Fields) (i : ℕ) : Bytes := cString (fields.getD i [])

/-- What a comma or the star ends: a field of the bytes `start`, with its number. -/
def closeField (start : Bytes) (field : ℕ) (fields : Fields) : Option (ℕ × Fields) :=
  if start.length ≥ 24 then none
  else some (field + 1,
    if field < 10 then fields.set field (memcpy (fields.getD field []) start) else fields)

/-- The loop over the body: the bytes still to read, the bytes from `start` to `p`, the fields. -/
def splitLoop : Bytes → Bytes → ℕ → Fields → Option (ℕ × Fields)
  | [], start, field, fields => closeField start field fields
  | p :: rest, start, field, fields =>
    if p ≠ ','.toUInt8 then
      if p < 32 ∨ p > 126 then none else splitLoop rest (start ++ [p]) field fields
    else (closeField start field fields).bind fun (field, fields) => splitLoop rest [] field fields

def checksum (body : Bytes) : ℕ := body.foldl (fun sum p => sum ^^^ p.toNat) 0

def fieldsFromRmc : Option CString → Fields → Option Fields
  | none, _ => none
  | some ⟨line, _⟩, fields =>
    if byteAt line 0 ≠ '$'.toUInt8 then none
    else match strchr line '*'.toUInt8 with
    | none => none
    | some star =>
      let tail := line.drop star
      if tail.length ≠ 3 ∨ !isXdigit (byteAt tail 1) ∨ !isXdigit (byteAt tail 2) then none
      else
        let body := (line.take star).drop 1
        if checksum body ≠ hexNumber (tail.drop 1) then none
        else (splitLoop body [] 0 fields).bind fun (field, fields) =>
          if field ≥ 10 ∧ (fieldAt fields 0).length = 5 ∧ isUpper (byteAt (fieldAt fields 0) 0) ∧
              isUpper (byteAt (fieldAt fields 0) 1) ∧
              (fieldAt fields 0).drop 2 = ['R'.toUInt8, 'M'.toUInt8, 'C'.toUInt8] ∧
              fieldAt fields 2 = ['A'.toUInt8] then some fields
          else none

/-- `none` is the result −1. -/
def digitsLoop : ℕ → Bytes → ℕ → Option ℕ
  | 0, _, value => some value
  | count + 1, text, value =>
    if !isDigit (byteAt text 0) then none
    else digitsLoop count (text.drop 1) (value * 10 + (byteAt text 0).toNat - 48)

def digits (text : Bytes) (count : ℕ) : Option ℕ := digitsLoop count text 0

def leapYear (year : ℕ) : Bool := year % 4 == 0 && (year % 100 != 0 || year % 400 == 0)

def monthDays : List ℕ := [31, 28, 31, 30, 31, 30, 31, 31, 30, 31, 30, 31]

def daysInMonth (year month : ℕ) : ℕ :=
  monthDays.getD (month - 1) 0 + if month = 2 ∧ leapYear year then 1 else 0

/-- The loop over the fraction of a second: its digits from `time + i`. -/
def fractionLoop : Bytes → ℕ → ℕ → Option ℕ
  | [], milliseconds, _ => some milliseconds
  | byte :: rest, milliseconds, scale =>
    (digits (byte :: rest) 1).bind fun digit =>
      fractionLoop rest (milliseconds + digit * scale) (scale / 10)

/-- The loops over the years from 1970 and over the months. -/
def daysLoop (year month day : ℕ) : ℕ :=
  let days := (List.range' 1970 (year - 1970)).foldl
    (fun days y => days + 365 + if leapYear y then 1 else 0) (day - 1)
  (List.range' 1 (month - 1)).foldl (fun days m => days + daysInMonth year m) days

def parseUtc (time date : Bytes) : Option ℤ :=
  let length := time.length
  if date.length ≠ 6 ∨ length < 6 ∨
      length > 6 ∧ (byteAt time 6 ≠ '.'.toUInt8 ∨ length = 7) then none
  else do
    let hour ← digits time 2
    let minute ← digits (time.drop 2) 2
    let second ← digits (time.drop 4) 2
    if hour > 23 ∨ minute > 59 ∨ second > 59 then none
    else do
      let milliseconds ← fractionLoop (time.drop 7) 0 100
      let day ← digits date 2
      let month ← digits (date.drop 2) 2
      let shortYear ← digits (date.drop 4) 2
      if shortYear < 20 ∨ month < 1 ∨ month > 12 then none
      else
        let year := 2000 + shortYear
        if day < 1 ∨ day > daysInMonth year month then none
        else
          let days := daysLoop year month day
          some (((days * 24 + hour) * 3600 + minute * 60 + second) * 1000 + milliseconds)

section Parse
variable (D : Type) [Doubles D]

def parseLocation (fields : Fields) (parsed : GpsRmcFix) : Option GpsRmcFix :=
  if byteAt (fieldAt fields 3) 0 ≠ 0 ∨ byteAt (fieldAt fields 4) 0 ≠ 0 ∨
      byteAt (fieldAt fields 5) 0 ≠ 0 ∨ byteAt (fieldAt fields 6) 0 ≠ 0 then do
    let latitude ← coordinate D (fieldAt fields 3) (fieldAt fields 4) true
    let longitude ← coordinate D (fieldAt fields 5) (fieldAt fields 6) false
    some { parsed with latitudeE7 := latitude, longitudeE7 := longitude, hasLocation := true }
  else some parsed

def parseSpeed (fields : Fields) (parsed : GpsRmcFix) : Option GpsRmcFix :=
  if byteAt (fieldAt fields 7) 0 ≠ 0 then do
    let knots ← decimal D (fieldAt fields 7)
    let speed : D := knots * literal (1852 / 10)
    if greater speed (literal 65535) then none
    else some { parsed with speedKphX100 := truncate (speed + literal (1 / 2)), hasSpeed := true }
  else some parsed

def parseTime (fields : Fields) (parsed : GpsRmcFix) : GpsRmcFix :=
  match parseUtc (fieldAt fields 1) (fieldAt fields 9) with
  | none => { parsed with hasUtc := false }
  | some utcMs => { parsed with utcMs := utcMs, hasUtc := true }

/-- The result and what the pointer `fix`, if it is not null, points to. -/
def gpsRmcParse (line : Option CString) : Option GpsRmcFix → Bool × Option GpsRmcFix
  | none => (false, none)
  | some _ =>
    let parsed := do
      let fields ← fieldsFromRmc line emptyFields
      let parsed ← parseLocation D fields clearedFix
      let parsed ← parseSpeed D fields parsed
      return parseTime fields parsed
    match parsed with
    | none => (false, some clearedFix)
    | some parsed => (true, some parsed)

end Parse

/-- `double` with exact rational arithmetic. -/
instance exactDoubles : Doubles ℚ where
  strtod text :=
    let whole := text.takeWhile isDigit
    let fraction := (text.dropWhile isDigit).drop 1
    decimalNumber whole + decimalNumber fraction / 10 ^ fraction.length
  literal q := q
  greater a b := decide (b < a)
  greaterEq a b := decide (b ≤ a)
  truncate q := q.num.tdiv q.den

end BajaDaq.RmcParser
