import BajaDaq.AppProtocol
import Mathlib.Data.Int.Notation
import Mathlib.Data.List.Basic
import Mathlib.Tactic.SplitIfs

/-!
# Live viewing

`live_data.c`: one owner at a time holds a lease of ten seconds on the cache of the latest
samples. Each function runs in a critical section of its own, which first lets the lease
expire. Times are microseconds of uptime.
-/

namespace BajaDaq.LiveViewing
open AppProtocol

def liveDataLeaseUs : ℤ := 10 * 1000000

/-- The identifiers of `signals`, in order. -/
def signals : List UInt32 :=
  [canIdFrontBrake, canIdRearBrake, canIdMpuAccelX, canIdMpuAccelY, canIdMpuAccelZ,
    canIdMpuGyroX, canIdMpuGyroY, canIdMpuGyroZ, canIdBearingEncoder, canIdGenericAdc,
    canIdEngineRpm, canIdEngineSpark, canIdGpsSpeed, canIdGpsLatitude, canIdGpsLongitude]

def liveDataSignalCount : ℕ := 15

structure LiveSample where
  canId : UInt32
  value : Int32
  timestampMs : UInt32
  sequence : UInt32
  valid : Bool
  deriving DecidableEq, Repr

inductive LiveDataResult where
  | ok
  | disabled
  | busy
  | invalidToken
  deriving DecidableEq, Repr

structure LiveData where
  latest : List LiveSample
  enabled : Bool
  ownerToken : UInt32
  leaseDeadlineUs : ℤ
  deriving DecidableEq, Repr

def noSamples : List LiveSample := List.replicate liveDataSignalCount ⟨0, 0, 0, 0, false⟩

def signalIndex (canId : UInt32) : Option ℕ := signals.findIdx? (· == canId)

/-- No identifier stands in the table twice, so the lookup is the place in the table. -/
theorem signalIndex_eq_some_iff {canId : UInt32} {i : ℕ} :
    signalIndex canId = some i ↔ signals[i]? = some canId := by
  have hnodup : signals.Nodup := by decide
  rw [signalIndex, List.findIdx?_eq_some_iff_getElem, List.getElem?_eq_some_iff]
  constructor
  · rintro ⟨hi, hid, -⟩
    exact ⟨hi, beq_iff_eq.mp hid⟩
  · rintro ⟨hi, hid⟩
    refine ⟨hi, beq_iff_eq.mpr hid, fun j hj hsame => ?_⟩
    have hsame := (List.getElem_inj hnodup).mp ((beq_iff_eq.mp hsame).trans hid.symm)
    omega

def clearLocked (_ : LiveData) : LiveData := ⟨noSamples, false, 0, 0⟩

/-- `live_data_init`. -/
def LiveData.init : LiveData := ⟨noSamples, false, 0, 0⟩

def expireLocked (d : LiveData) (nowUs : ℤ) : LiveData :=
  if d.enabled ∧ d.leaseDeadlineUs ≤ nowUs then clearLocked d else d

def liveDataRecord (d : LiveData) (message : CanMessage) (nowUs : ℤ) : LiveData :=
  match signalIndex message.id with
  | none => d
  | some index =>
    if message.dlc < 8 then d
    else
      let d := expireLocked d nowUs
      if d.enabled then
        { d with
          latest := d.latest.modify index (fun sample =>
            ⟨message.id, message.data.toUInt32.toInt32, (message.data >>> 32).toUInt32,
              sample.sequence + 1, true⟩) }
      else d

/-- The new state, the result and the token that is handed out; `random` is the output of
`esp_random`. -/
def liveDataStart (d : LiveData) (nowUs : ℤ) (random : UInt32) :
    LiveData × LiveDataResult × Option UInt32 :=
  let d := expireLocked d nowUs
  if d.enabled then (d, .busy, none)
  else
    let token := if random = 0 then 1 else random
    (⟨noSamples, true, token, nowUs + liveDataLeaseUs⟩, .ok, some token)

/-- The new state, the result and the samples that are copied out. -/
def liveDataSnapshot (d : LiveData) (token : UInt32) (capacity : ℕ) (nowUs : ℤ) :
    LiveData × LiveDataResult × Option (List LiveSample) :=
  if capacity < liveDataSignalCount then (d, .disabled, none)
  else
    let d := expireLocked d nowUs
    if !d.enabled then (d, .disabled, none)
    else if token = 0 ∨ token ≠ d.ownerToken then (d, .invalidToken, none)
    else ({ d with leaseDeadlineUs := nowUs + liveDataLeaseUs }, .ok, some d.latest)

def liveDataStop (d : LiveData) (token : UInt32) (nowUs : ℤ) : LiveData × LiveDataResult :=
  let d := expireLocked d nowUs
  if !d.enabled then (d, .disabled)
  else if token = 0 ∨ token ≠ d.ownerToken then (d, .invalidToken)
  else (clearLocked d, .ok)

def liveDataForceStop (d : LiveData) : LiveData := clearLocked d

def liveDataIsEnabled (d : LiveData) (nowUs : ℤ) : LiveData × Bool :=
  let d := expireLocked d nowUs
  (d, d.enabled)

/-- The operations that need no lifecycle mutex. -/
inductive Operation where
  | record (message : CanMessage) (nowUs : ℤ)
  | snapshot (token : UInt32) (capacity : ℕ) (nowUs : ℤ)
  | stop (token : UInt32) (nowUs : ℤ)
  | isEnabled (nowUs : ℤ)
  deriving DecidableEq, Repr

def Operation.run (d : LiveData) : Operation → LiveData
  | .record message nowUs => liveDataRecord d message nowUs
  | .snapshot token capacity nowUs => (liveDataSnapshot d token capacity nowUs).1
  | .stop token nowUs => (liveDataStop d token nowUs).1
  | .isEnabled nowUs => (liveDataIsEnabled d nowUs).1

theorem enabled_of_expireLocked {d : LiveData} {nowUs : ℤ}
    (h : (expireLocked d nowUs).enabled = true) : d.enabled = true := by
  unfold expireLocked at h
  split_ifs at h with hover
  · exact hover.1
  · exact h

/-- Only a start enables viewing. -/
theorem enabled_of_run {d : LiveData} (op : Operation) (h : (op.run d).enabled = true) :
    d.enabled = true := by
  cases op with
  | record message nowUs =>
    simp only [Operation.run, liveDataRecord] at h
    split at h
    · exact h
    · split_ifs at h with hdlc henabled
      · exact h
      · exact enabled_of_expireLocked henabled
      · exact enabled_of_expireLocked h
  | snapshot token capacity nowUs =>
    simp only [Operation.run, liveDataSnapshot] at h
    split_ifs at h with hcapacity henabled htoken
    · exact h
    · exact enabled_of_expireLocked h
    · exact enabled_of_expireLocked h
    · exact enabled_of_expireLocked h
  | stop token nowUs =>
    simp only [Operation.run, liveDataStop] at h
    split_ifs at h with henabled htoken
    · exact enabled_of_expireLocked h
    · exact enabled_of_expireLocked h
    · cases h
  | isEnabled nowUs => exact enabled_of_expireLocked h

end BajaDaq.LiveViewing
