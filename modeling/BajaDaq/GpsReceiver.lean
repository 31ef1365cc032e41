import BajaDaq.AppProtocol
import BajaDaq.RmcParser

/-!
# The reader of the GPS sentences

`read_sentences` of the master, one call of `uart_read_bytes` at a time. A write outside the line
buffer has no result.
-/

namespace BajaDaq.GpsReceiver
open AppProtocol CStrings RmcParser

def gpsNmeaLineMax : ℕ := 128
def gpsBurstGapUs : ℤ := 50000
def gpsFixLogPeriodUs : ℤ := 1000000

/-- What the reader does besides keeping its variables: the string handed to `gps_rmc_parse`, the
arguments of `absolute_clock_observe_utc`, a sample for the handler, a line in the log. -/
inductive Effect where
  | parse (line : CString)
  | observeUtc (utcMs measuredAtUs : ℤ)
  | sample (message : CanMessage)
  | log (fix : GpsRmcFix)
  deriving DecidableEq

structure Reader where
  line : Bytes
  length : ℕ
  overflow : Bool
  burstStartUs : ℤ
  previousByteUs : ℤ
  lastFixLogUs : ℤ
  effects : List Effect
  deriving DecidableEq

def start : Reader := ⟨List.replicate gpsNmeaLineMax 0, 0, false, 0, 0, -gpsFixLogPeriodUs, []⟩

/-- A call of `uart_read_bytes`: the timeout, or a byte with the time at which it was read and the
time at which samples are stamped if it ends a sentence. -/
inductive Reception where
  | timeout
  | received (byte : UInt8) (receivedUs sampledUs : ℤ)
  deriving DecidableEq

def startsNewBurst (receivedUs previousByteUs : ℤ) : Bool :=
  previousByteUs == 0 || decide (receivedUs - previousByteUs ≥ gpsBurstGapUs)

/-- The times of a byte that has been read. -/
def markByte (s : Reader) (receivedUs : ℤ) : Reader :=
  { s with
    burstStartUs := if startsNewBurst receivedUs s.previousByteUs then receivedUs
      else s.burstStartUs
    previousByteUs := receivedUs }

/-- `line[i] = byte`. -/
def storeByte (line : Bytes) (i : ℕ) (byte : UInt8) : Option Bytes :=
  if i < line.length then some (line.set i byte) else none

def Reader.act (s : Reader) (effects : List Effect) : Reader :=
  { s with effects := s.effects ++ effects }

def emitSample (id : UInt32) (value : ℤ) (timestampMs : UInt32) : Effect :=
  .sample ⟨id, 8, timestampMs.toUInt64 <<< 32 ||| (UInt32.ofInt value).toUInt64⟩

/-- The time of a fix is paired with the start of the burst, once. -/
def observeFix (outputDelayUs : ℤ) (s : Reader) (fix : GpsRmcFix) : Reader :=
  if fix.hasUtc ∧ s.burstStartUs ≠ 0 then
    { s.act [.observeUtc fix.utcMs (s.burstStartUs - outputDelayUs)] with burstStartUs := 0 }
  else s

def emitFix (s : Reader) (fix : GpsRmcFix) (receivedUs sampledUs : ℤ) : Reader :=
  if fix.hasLocation ∧ fix.hasSpeed then
    let timestampMs := UInt32.ofInt (sampledUs.tdiv 1000)
    let s := s.act [emitSample canIdGpsSpeed fix.speedKphX100 timestampMs,
      emitSample canIdGpsLatitude fix.latitudeE7 timestampMs,
      emitSample canIdGpsLongitude fix.longitudeE7 timestampMs]
    if receivedUs - s.lastFixLogUs ≥ gpsFixLogPeriodUs then
      { s.act [.log fix] with lastFixLogUs := receivedUs }
    else s
  else s

section Read
variable (D : Type) [Doubles D] (outputDelayUs : ℤ)

/-- The branch of a line feed. -/
def endLine (s : Reader) (receivedUs sampledUs : ℤ) : Option Reader :=
  let length := if s.length ≠ 0 ∧ byteAt s.line (s.length - 1) = '\r'.toUInt8 then s.length - 1
    else s.length
  (storeByte s.line length 0).map fun line =>
    let s := { s with line := line, length := length }
    if s.overflow then { s with length := 0, overflow := false }
    else
      let s := s.act [.parse (CString.ofBuffer line)]
      match gpsRmcParse D (some (CString.ofBuffer line)) (some clearedFix) with
      | (true, some fix) =>
        let s := emitFix (observeFix outputDelayUs s fix) fix receivedUs sampledUs
        { s with length := 0 }
      | _ => { s with length := 0 }

/-- The branches on a byte. -/
def handleByte (s : Reader) (byte : UInt8) (receivedUs sampledUs : ℤ) : Option Reader :=
  if byte = '\n'.toUInt8 then endLine D outputDelayUs s receivedUs sampledUs
  else if byte = 0 then some { s with overflow := true }
  else if s.length < gpsNmeaLineMax - 1 then
    (storeByte s.line s.length byte).map fun line =>
      { s with line := line, length := s.length + 1 }
  else some { s with overflow := true }

/-- One iteration of the loop. -/
def readSentences (s : Reader) : Reception → Option Reader
  | .timeout => some s
  | .received byte receivedUs sampledUs =>
    handleByte D outputDelayUs (markByte s receivedUs) byte receivedUs sampledUs

end Read

end BajaDaq.GpsReceiver
