import Mathlib.Data.Nat.Notation

/-!
# The wire contract shared by master and nodes

`can_message_t`, the part of `app_protocol.h` that the modelled code reads, and the error codes of
the drivers.
-/

namespace BajaDaq.AppProtocol

/-- `can_message_t`: payload byte `i` is bits `8 * i` to `8 * i + 7` of `data`. -/
structure CanMessage where
  id : UInt32
  dlc : UInt8
  data : UInt64
  deriving DecidableEq, Repr

def canIdStop : UInt32 := 0x0A0
def canIdStart : UInt32 := 0x0A1
def canIdMasterTime : UInt32 := 0x0A2

def canIdFrontBrake : UInt32 := 0x0B1
def canIdRearBrake : UInt32 := 0x0B2
def canIdMpuAccelX : UInt32 := 0x0B3
def canIdMpuAccelY : UInt32 := 0x0B4
def canIdMpuAccelZ : UInt32 := 0x0B5
def canIdMpuGyroX : UInt32 := 0x0B6
def canIdMpuGyroY : UInt32 := 0x0B7
def canIdMpuGyroZ : UInt32 := 0x0B8
def canIdBearingEncoder : UInt32 := 0x0B9
def canIdGenericAdc : UInt32 := 0x0BA
def canIdEngineRpm : UInt32 := 0x0BB
def canIdEngineSpark : UInt32 := 0x0BC

def canIdGpsSpeed : UInt32 := 0x700
def canIdGpsLatitude : UInt32 := 0x701
def canIdGpsLongitude : UInt32 := 0x702

def canMasterTimeRecordingFlag : UInt64 := (1 : UInt64) <<< 63
def canMasterTimeValueMask : UInt64 := canMasterTimeRecordingFlag - 1

def canNodeSlotCount : ℕ := 7

/-- `NODE_STATE_IDLE` and `NODE_STATE_ACTIVE`. -/
inductive NodeState where
  | idle
  | active
  deriving DecidableEq, Repr

inductive NodeStateReason where
  | boot
  | stop
  | start
  | recovery
  | beaconSync
  deriving DecidableEq, Repr

/-- The node that sends a sample frame; `0` for any other identifier. -/
def protocolSensorNodeId (id : UInt32) : UInt8 :=
  if id = canIdFrontBrake ∨ id = canIdRearBrake then 1
  else if id = canIdMpuAccelX ∨ id = canIdMpuAccelY ∨ id = canIdMpuAccelZ ∨
      id = canIdMpuGyroX ∨ id = canIdMpuGyroY ∨ id = canIdMpuGyroZ then 3
  else if id = canIdBearingEncoder then 4
  else if id = canIdEngineRpm ∨ id = canIdEngineSpark then 5
  else if id = canIdGenericAdc then 6
  else 0

/-- `esp_err_t` is `int`; the code that a driver returns may be any. -/
abbrev EspErrT := Int32

def espOk : EspErrT := 0
def espErrInvalidArg : EspErrT := 0x102
def espErrInvalidState : EspErrT := 0x103
def espErrTimeout : EspErrT := 0x107

end BajaDaq.AppProtocol
