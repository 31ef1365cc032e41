import BajaDaq.CivilDates
import BajaDaq.LogFiles

/-!
# The powertrain export

`stream_paired_csv` and the functions it calls. A file that is open for reading is the bytes its
stream delivers; a chunk is its text, and the empty chunk ends the response.
-/

namespace BajaDaq.PairedCsv
open AppProtocol CivilDates DecimalText FixedItems LittleEndian
open LogFiles (recordSize utcSize)

inductive EspErr where
  | ok
  | fail
  deriving DecidableEq, Repr

/-- The chunks sent so far, and whether the next send after that many succeeds. -/
structure Request where
  sent : List Text
  accepts : ℕ → Bool

def httpdRespSendChunk (request : Request) (chunk : Text) : Request × EspErr :=
  if request.accepts request.sent.length then
    ({ request with sent := request.sent ++ [chunk] }, .ok)
  else (request, .fail)

/-- The record file: the bytes its stream delivers, and whether a read error follows them. -/
structure RecordFile where
  bytes : List UInt8
  readError : Bool

/-- The two 64-bit words that `fread` stores in `record`. -/
def recordWords (record : List UInt8) : UInt64 × UInt64 :=
  (.ofNat (valueOf (record.take 8)), .ofNat (valueOf (record.drop 8)))

/-- The value and the rest of the companion; `none` is a null handle. -/
def readUtcMs (utcFile : Option (List UInt8)) : ℤ × Option (List UInt8) :=
  match utcFile with
  | none => (0, none)
  | some bytes =>
    match fread utcSize bytes with
    | (none, rest) => (0, some rest)
    | (some entry, rest) =>
      let utcMs := (UInt64.ofNat (valueOf entry)).toInt64.toInt
      (if 0 < utcMs then utcMs else 0, some rest)

/-- `%Y-%m-%dT%H:%M:%S`. -/
def dateFormat : List Conversion :=
  [.year, .char '-', .month, .char '-', .day, .char 'T', .hour, .char ':', .minute, .char ':',
    .second]

def formatAbsoluteTime (utcMs : ℤ) (size : ℕ) : Text :=
  if utcMs ≤ 0 then []
  else ((gmtimeR (utcMs / 1000).toNat).bind (strftime 24 dateFormat)).elim [] (fun date =>
    (snprintf size (date ++ '.' :: paddedText 3 (utcMs % 1000).toNat ++ ['Z'])).1)

def sampleAtOrBefore (timestamp sampleTimestamp : UInt32) : Bool :=
  timestamp - sampleTimestamp < 0x80000000

/-- The variables that live through the loop besides the two files. -/
structure Held where
  bearingTimestamp : UInt32
  brakeTimestamp : UInt32
  speedTimestamp : UInt32
  latitudeTimestamp : UInt32
  longitudeTimestamp : UInt32
  bearingRpm : Int32
  brakePressure : Int32
  speedX100 : Int32
  latitudeE7 : Int32
  longitudeE7 : Int32
  haveBearing : Bool
  haveBrake : Bool
  haveSpeed : Bool
  haveLatitude : Bool
  haveLongitude : Bool
  deriving DecidableEq, Repr

def Held.start : Held :=
  ⟨0, 0, 0, 0, 0, 0, 0, 0, 0, 0, false, false, false, false, false⟩

/-- The row text that `snprintf` builds from the held values for one engine sample. -/
def rowText (held : Held) (utcMs : ℤ) (timestamp : UInt32) (value : Int32) : Text :=
  let brakeText :=
    if held.haveBrake ∧ sampleAtOrBefore timestamp held.brakeTimestamp ∧
        timestamp - held.brakeTimestamp ≤ 100 then
      (snprintf 16 (signedText held.brakePressure.toInt)).1
    else []
  let speedText :=
    if held.haveSpeed ∧ sampleAtOrBefore timestamp held.speedTimestamp then
      (snprintf 16 (scaledText 2 held.speedX100.toInt)).1
    else []
  let latitudeText :=
    if held.haveLatitude ∧ sampleAtOrBefore timestamp held.latitudeTimestamp then
      (snprintf 24 (scaledText 7 held.latitudeE7.toInt)).1
    else []
  let longitudeText :=
    if held.haveLongitude ∧ sampleAtOrBefore timestamp held.longitudeTimestamp then
      (snprintf 24 (scaledText 7 held.longitudeE7.toInt)).1
    else []
  unsignedText timestamp.toNat ++ ',' :: formatAbsoluteTime utcMs 32 ++ ',' :: brakeText ++
    ',' :: signedText held.bearingRpm.toInt ++ ',' :: signedText value.toInt ++
    ',' :: latitudeText ++ ',' :: longitudeText ++ ',' :: speedText ++ ['\r', '\n']

/-- What one iteration of the loop leaves behind. -/
structure Export where
  request : Request
  utcFile : Option (List UInt8)
  held : Held

/-- The loop body for one record; `fail` is the early return. -/
def exportRecord (e : Export) (record : UInt64 × UInt64) : Export × EspErr :=
  let utc := readUtcMs e.utcFile
  let e := { e with utcFile := utc.2 }
  let canId := record.1.toUInt32 &&& 0x7ff
  let timestamp := (record.2 >>> 32).toUInt32
  let value := record.2.toUInt32.toInt32
  if canId = canIdFrontBrake then
    ({ e with held := { e.held with
        brakeTimestamp := timestamp, brakePressure := value, haveBrake := true } }, .ok)
  else if canId = canIdBearingEncoder then
    ({ e with held := { e.held with
        bearingTimestamp := timestamp, bearingRpm := value, haveBearing := true } }, .ok)
  else if canId = canIdGpsSpeed then
    ({ e with held := { e.held with
        speedTimestamp := timestamp, speedX100 := value, haveSpeed := true } }, .ok)
  else if canId = canIdGpsLatitude then
    ({ e with held := { e.held with
        latitudeTimestamp := timestamp, latitudeE7 := value, haveLatitude := true } }, .ok)
  else if canId = canIdGpsLongitude then
    ({ e with held := { e.held with
        longitudeTimestamp := timestamp, longitudeE7 := value, haveLongitude := true } }, .ok)
  else if canId ≠ canIdEngineRpm ∨ !e.held.haveBearing ∨
      !sampleAtOrBefore timestamp e.held.bearingTimestamp ∨
      timestamp - e.held.bearingTimestamp > 100 then (e, .ok)
  else
    let row := snprintf 256 (rowText e.held utc.1 timestamp value)
    if 256 ≤ row.2 then (e, .fail)
    else
      let sent := httpdRespSendChunk e.request row.1
      ({ e with request := sent.1 }, sent.2)

/-- The loop over the items that `fread` delivers, as in `items_fread`. -/
def exportRecords (e : Export) : List (List UInt8) → Export × EspErr
  | [] => (e, .ok)
  | record :: records =>
    let next := exportRecord e (recordWords record)
    if next.2 = .ok then exportRecords next.1 records else next

def header : Text :=
  "Relative time,Absolute time,Brake pressure,Bearing RPM,Engine RPM,".toList ++
    "GPS latitude,GPS longitude,GPS Speed\r\n".toList

def streamPairedCsv (request : Request) (file : RecordFile) (utcFile : Option (List UInt8)) :
    Request × EspErr :=
  let start := httpdRespSendChunk request header
  if start.2 ≠ .ok then (start.1, .fail)
  else
    let loop := exportRecords ⟨start.1, utcFile, .start⟩ (items recordSize file.bytes)
    if loop.2 ≠ .ok then (loop.1.request, .fail)
    else if file.readError then (loop.1.request, .fail)
    else httpdRespSendChunk loop.1.request []

end BajaDaq.PairedCsv
