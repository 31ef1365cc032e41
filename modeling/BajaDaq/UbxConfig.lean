import Mathlib.Data.Nat.Notation

/-!
# The commands that set the update rate

`ubx_config.c`: five CFG-MSG commands turn off the unused sentences, and CFG-RATE raises the rate.
An acknowledgement carries only the class and the ID of the command.
-/

namespace BajaDaq.UbxConfig

def ubxClassAck : UInt8 := 0x05
def ubxIdAckAck : UInt8 := 0x01
def ubxClassCfg : UInt8 := 0x06
def ubxIdCfgMsg : UInt8 := 0x01
def ubxIdCfgRate : UInt8 := 0x08
def nmeaClass : UInt8 := 0xF0

def ubxMeasurementPeriodMs : ℕ := 200

def ubxRateCommandCount : ℕ := 6

/-- GGA, GLL, GSA, GSV and VTG. -/
def unusedNmeaIds : List UInt8 := [0x00, 0x01, 0x02, 0x03, 0x05]

/-- The two sums of the checksum over the bytes. -/
def fletcher (bytes : List UInt8) : UInt8 × UInt8 :=
  bytes.foldl (fun sums byte => (sums.1 + byte, sums.2 + (sums.1 + byte))) (0, 0)

def frame (messageClass id : UInt8) (payload : List UInt8) : List UInt8 :=
  let body := messageClass :: id :: UInt8.ofNat (payload.length % 256) ::
    UInt8.ofNat (payload.length / 256) :: payload
  0xB5 :: 0x62 :: body ++ [(fletcher body).1, (fletcher body).2]

def ubxRateCommand (index : ℕ) : List UInt8 :=
  match unusedNmeaIds[index]? with
  | some id => frame ubxClassCfg ubxIdCfgMsg [nmeaClass, id, 0]
  | none =>
    if index = unusedNmeaIds.length then
      frame ubxClassCfg ubxIdCfgRate [UInt8.ofNat (ubxMeasurementPeriodMs % 256),
        UInt8.ofNat (ubxMeasurementPeriodMs / 256), 1, 0, 1, 0]
    else []

def ubxExpectedAck (command : List UInt8) : List UInt8 :=
  frame ubxClassAck ubxIdAckAck [command.getD 2 0, command.getD 3 0]

/-- The CFG-MSG command for GGA and the acknowledgement of every CFG-MSG command. -/
example : ubxRateCommand 0 = [0xB5, 0x62, 0x06, 0x01, 0x03, 0x00, 0xF0, 0x00, 0x00, 0xFA, 0x0F] ∧
    ∀ i < 5, ubxExpectedAck (ubxRateCommand i) =
      [0xB5, 0x62, 0x05, 0x01, 0x02, 0x00, 0x06, 0x01, 0x0F, 0x38] := by
  decide

/-- A command of the setup, by its number. -/
abbrev RateCommand := Fin ubxRateCommandCount

/-- The acknowledgement of a command. -/
def ackOf (command : RateCommand) : List UInt8 := ubxExpectedAck (ubxRateCommand command)

def ackLength : ℕ := 10

theorem length_ackOf (command : RateCommand) : (ackOf command).length = ackLength := by
  revert command
  decide

/-- The first byte of an acknowledgement is not repeated. -/
theorem first_of_ackOf {command command' : RateCommand} {k : ℕ}
    (h : (ackOf command)[k]? = (ackOf command')[0]?) : k = 0 := by
  have hall : ∀ command command' : RateCommand, ∀ k < ackLength,
      (ackOf command)[k]? = (ackOf command')[0]? → k = 0 := by
    decide
  rcases Nat.lt_or_ge k ackLength with hk | hk
  · exact hall command command' k hk h
  · rw [List.getElem?_eq_none (by rw [length_ackOf]; exact hk)] at h
    cases h

/-- No byte of a sentence is in the place of that byte. -/
theorem ascii_ne_first {command : RateCommand} {byte : UInt8} (h : byte < 0x80) :
    (ackOf command)[0]? ≠ some byte := by
  have hfirst : (ackOf command)[0]? = some 0xB5 := rfl
  rw [hfirst]
  rintro hbyte
  rw [← Option.some.inj hbyte] at h
  exact absurd h (by decide)

end BajaDaq.UbxConfig
