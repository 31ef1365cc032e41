import BajaDaq.SamplePasses

/-!
# The axes of the motion sensor

`mpu6500.c`: six descriptors share one device. The first of them reads all axes in one burst, the
others take their values from what it has stored.
-/

namespace BajaDaq.MpuBursts
open AppProtocol SamplePasses
open SamplePipeline (Sample)

inductive MpuChannel where
  | accelX
  | accelY
  | accelZ
  | gyroX
  | gyroY
  | gyroZ
  deriving DecidableEq, Repr

/-- What `read_registers` returns and leaves in `data` for the 14 registers from `ACCEL_XOUT_H`. -/
structure Burst where
  error : EspErrT
  data : Vector UInt8 14

/-- `mpu_device_context_t`, and the number of bursts requested since boot. -/
structure MpuDevice where
  values : MpuChannel → Int32
  initialized : Bool
  sampleStatus : EspErrT
  bursts : ℕ

def signedBe16 (high low : UInt8) : Int16 := ((high.toUInt16 <<< 8) ||| low.toUInt16).toInt16

def milliG (high low : UInt8) : Int32 := (signedBe16 high low).toInt32 * 1000 / 4096

def milliDegrees (high low : UInt8) : Int32 := (signedBe16 high low).toInt32 * 10000 / 164

/-- The values of the axes in a burst; bytes 6 and 7 are the temperature. -/
def burstValues (data : Vector UInt8 14) : MpuChannel → Int32
  | .accelX => milliG data[0] data[1]
  | .accelY => milliG data[2] data[3]
  | .accelZ => milliG data[4] data[5]
  | .gyroX => milliDegrees data[8] data[9]
  | .gyroY => milliDegrees data[10] data[11]
  | .gyroZ => milliDegrees data[12] data[13]

def startMpu (device : MpuDevice) : MpuDevice :=
  { device with sampleStatus := espErrInvalidState, values := fun _ => 0 }

/-- The part of `read_mpu_channel` for the first channel. -/
def readBurst (burst : Burst) (device : MpuDevice) : MpuDevice :=
  let device := { device with sampleStatus := burst.error, bursts := device.bursts + 1 }
  if burst.error = espOk then { device with values := burstValues burst.data } else device

def readMpuChannel (channel : MpuChannel) (burst : Burst) (device : MpuDevice) (value : Int32) :
    Reading MpuDevice :=
  if !device.initialized then ⟨espErrInvalidState, value, device⟩
  else
    let device := if channel = .accelX then readBurst burst device else device
    if device.sampleStatus ≠ espOk then ⟨device.sampleStatus, value, device⟩
    else ⟨espOk, device.values channel, device⟩

/-- The callbacks of the descriptors; only the first has a `start`. -/
def mpuDriver : Driver Burst MpuChannel MpuDevice where
  start channel device := if channel = .accelX then startMpu device else device
  read := readMpuChannel

def mpuSamplePeriodUs : ℤ := 10000

/-- `MPU_SENSOR`. -/
def mpuSensor (canId : UInt32) (channel : MpuChannel) : Descriptor MpuChannel :=
  ⟨⟨canId, mpuSamplePeriodUs, 0⟩, channel⟩

/-- `sensor_registry` of the MPU build. -/
def sensorRegistry : List (Descriptor MpuChannel) :=
  [mpuSensor canIdMpuAccelX .accelX, mpuSensor canIdMpuAccelY .accelY,
    mpuSensor canIdMpuAccelZ .accelZ, mpuSensor canIdMpuGyroX .gyroX,
    mpuSensor canIdMpuGyroY .gyroY, mpuSensor canIdMpuGyroZ .gyroZ]

/-- Two bytes as a number in two's complement, the high byte first. -/
def bigEndian (high low : UInt8) : ℤ :=
  if high.toNat < 128 then 256 * high.toNat + low.toNat
  else 256 * high.toNat + low.toNat - 65536

/-- The samples of the six axes, in this order: accelerations in thousandths of g, 4096 to the g,
and angular velocities in thousandths of a degree per second, 16.4 to the degree per second. -/
structure AxesOf (data : Vector UInt8 14) (timestampMs : ℕ → Int32) (samples : List Sample) :
    Prop where
  values : samples.map (fun sample => (sample.canId, sample.value.toInt)) =
    [(canIdMpuAccelX, (bigEndian data[0] data[1] * 1000).tdiv 4096),
      (canIdMpuAccelY, (bigEndian data[2] data[3] * 1000).tdiv 4096),
      (canIdMpuAccelZ, (bigEndian data[4] data[5] * 1000).tdiv 4096),
      (canIdMpuGyroX, (bigEndian data[8] data[9] * 10000).tdiv 164),
      (canIdMpuGyroY, (bigEndian data[10] data[11] * 10000).tdiv 164),
      (canIdMpuGyroZ, (bigEndian data[12] data[13] * 10000).tdiv 164)]
  times : samples.map Sample.timestampMs = (List.range 6).map timestampMs

/-- The sensors and the device after sessions, each a start at a time and its passes. -/
def sessions (state : List (Descriptor MpuChannel) × MpuDevice)
    (past : List (ℤ × List (PassInput Burst))) : List (Descriptor MpuChannel) × MpuDevice :=
  past.foldl (fun state session =>
    samplePasses mpuDriver (samplerStart mpuDriver session.1 state.1 state.2) session.2) state

example : milliG 0x10 0x00 = 1000 ∧ milliG 0xFF 0xFF = 0 ∧ milliDegrees 0x80 0x00 = -1998048 := by
  decide

/-- No product leaves the range of `int`, so a conversion is the quotient towards zero. -/
theorem toInt_scaled (x : Int16) {k d : Int32} (hk : 0 ≤ k.toInt) (hk' : k.toInt ≤ 10000)
    (hd : d ≠ -1) : (x.toInt32 * k / d).toInt = (x.toInt * k.toInt).tdiv d.toInt := by
  have hlow := Int.mul_le_mul_of_nonneg_right x.le_toInt hk
  have hhigh := Int.mul_le_mul_of_nonneg_right (Int.le_sub_one_of_lt x.toInt_lt) hk
  have hproduct : (x.toInt32 * k).toInt = x.toInt * k.toInt := by
    rw [Int32.toInt_mul, Int16.toInt_toInt32]
    exact Int.bmod_eq_of_le (by omega) (by omega)
  rw [Int32.toInt_div_of_ne_right _ _ hd, hproduct]

theorem toInt_signedBe16 (high low : UInt8) : (signedBe16 high low).toInt = bigEndian high low := by
  have hlow := low.toNat_lt
  have hhigh := high.toNat_lt
  have hshift : high.toNat <<< 8 % 2 ^ 16 = 256 * high.toNat := by
    rw [Nat.shiftLeft_eq]
    omega
  have hpair : ((high.toUInt16 <<< 8) ||| low.toUInt16).toNat = 256 * high.toNat + low.toNat := by
    have hor := Nat.shiftLeft_add_eq_or_of_lt (show low.toNat < 2 ^ 8 by omega) high.toNat
    rw [Nat.shiftLeft_eq, Nat.mul_comm] at hor
    rw [UInt16.toNat_or, UInt16.toNat_shiftLeft, UInt8.toNat_toUInt16, UInt8.toNat_toUInt16]
    exact (congrArg (· ||| low.toNat) hshift).trans hor.symm
  have hsign : (signedBe16 high low).toInt =
      ((high.toUInt16 <<< 8) ||| low.toUInt16).toBitVec.toInt := rfl
  rw [hsign, BitVec.toInt_eq_toNat_cond, UInt16.toNat_toBitVec, hpair, bigEndian]
  split_ifs <;> omega

theorem toInt_milliG (high low : UInt8) :
    (milliG high low).toInt = (bigEndian high low * 1000).tdiv 4096 := by
  rw [← toInt_signedBe16]
  exact toInt_scaled _ (by decide) (by decide) (by decide)

theorem toInt_milliDegrees (high low : UInt8) :
    (milliDegrees high low).toInt = (bigEndian high low * 10000).tdiv 164 := by
  rw [← toInt_signedBe16]
  exact toInt_scaled _ (by decide) (by decide) (by decide)

/-- One sample of every sensor of the registry, with its value of the burst. -/
def axisSamples (timestampMs : ℕ → Int32) (data : Vector UInt8 14) : List Sample :=
  sensorRegistry.zipIdx.map fun (sensor, i) =>
    ⟨sensor.canId, timestampMs i, burstValues data sensor.context⟩

theorem axesOf_axisSamples (timestampMs : ℕ → Int32) (data : Vector UInt8 14) :
    AxesOf data timestampMs (axisSamples timestampMs data) := by
  refine ⟨?_, rfl⟩
  simp only [axisSamples, sensorRegistry, mpuSensor, List.zipIdx_cons, List.zipIdx_nil,
    List.map_cons, List.map_nil, burstValues, toInt_milliG, toInt_milliDegrees]

theorem armSchedule_armSchedule (t u : ℤ) :
    armSchedule t (armSchedule u sensorRegistry) = armSchedule t sensorRegistry := rfl

/-- All axes become due together again. -/
theorem caughtUp_armSchedule (t nowUs : ℤ) : ∃ u,
    (armSchedule t sensorRegistry).map (·.caughtUp nowUs) = armSchedule u sensorRegistry := by
  by_cases hdue : t ≤ nowUs
  · refine ⟨t + ((nowUs - t) / mpuSamplePeriodUs + 1) * mpuSamplePeriodUs, ?_⟩
    simp [armSchedule, sensorRegistry, mpuSensor, Descriptor.caughtUp, SamplerTasks.catchUp, hdue]
  · refine ⟨t, ?_⟩
    simp [armSchedule, sensorRegistry, mpuSensor, Descriptor.caughtUp, SamplerTasks.catchUp, hdue]

theorem samplePasses_armSchedule (t : ℤ) (device : MpuDevice) (inputs : List (PassInput Burst)) :
    ∃ u, (samplePasses mpuDriver (armSchedule t sensorRegistry, device) inputs).1 =
      armSchedule u sensorRegistry := by
  induction inputs using List.reverseRecOn with
  | nil => exact ⟨t, rfl⟩
  | append_singleton inputs input ih =>
    obtain ⟨u, hu⟩ := ih
    obtain ⟨v, hv⟩ := caughtUp_armSchedule u input.nowUs
    refine ⟨v, ?_⟩
    rw [← hv, ← hu, samplePasses, List.foldl_concat, ← samplePasses]
    exact samplePass_sensors mpuDriver input _ _

theorem sessions_armSchedule (device : MpuDevice) (past : List (ℤ × List (PassInput Burst))) :
    ∃ u, (sessions (sensorRegistry, device) past).1 = armSchedule u sensorRegistry := by
  induction past using List.reverseRecOn with
  | nil => exact ⟨0, rfl⟩
  | append_singleton past session ih =>
    obtain ⟨u, hu⟩ := ih
    rw [sessions, List.foldl_concat, ← sessions, samplerStart, hu, armSchedule_armSchedule]
    exact samplePasses_armSchedule session.1 _ session.2

theorem visit_of_due {input : PassInput Burst} {sensor : Descriptor MpuChannel}
    (hdue : sensor.nextSampleUs ≤ input.nowUs) (i : ℕ) (p : Pass MpuChannel MpuDevice) :
    let reading := readMpuChannel sensor.context (input.answer i) p.device 0
    (visit mpuDriver input i sensor p).device = reading.device ∧
      (visit mpuDriver input i sensor p).enqueued = if reading.error = espOk then
        p.enqueued ++ [⟨sensor.canId, input.timestampMs i, reading.value⟩] else p.enqueued := by
  unfold visit
  rw [if_pos hdue]
  exact ⟨rfl, rfl⟩

theorem visitFrom_of_not_due {input : PassInput Burst} {rest : List (Descriptor MpuChannel)}
    (hdue : ∀ sensor ∈ rest, ¬ sensor.nextSampleUs ≤ input.nowUs) (i : ℕ)
    (p : Pass MpuChannel MpuDevice) :
    (visitFrom mpuDriver input i rest p).enqueued = p.enqueued := by
  induction rest generalizing i p with
  | nil => rfl
  | cons sensor rest ih =>
    rw [visitFrom, ih (fun s h => hdue s (List.mem_cons_of_mem _ h)), visit,
      if_neg (hdue sensor List.mem_cons_self)]

/-- A device whose values may be published. -/
def Fresh (device : MpuDevice) : Prop := device.initialized = true ∧ device.sampleStatus = espOk

instance (device : MpuDevice) : Decidable (Fresh device) := inferInstanceAs (Decidable (_ ∧ _))

/-- A channel behind the first reads only what the device has stored. -/
theorem readMpuChannel_stored {channel : MpuChannel} (hchannel : channel ≠ .accelX) (burst : Burst)
    (device : MpuDevice) (value : Int32) :
    let reading := readMpuChannel channel burst device value
    reading.device = device ∧ (reading.error = espOk ↔ Fresh device) ∧
      (Fresh device → reading.value = device.values channel) := by
  intro reading
  have hinvalid : espErrInvalidState ≠ espOk := by decide
  by_cases hinit : device.initialized = true
  · by_cases hstatus : device.sampleStatus = espOk
    · simp [reading, readMpuChannel, Fresh, hinit, hstatus, hchannel]
    · simp [reading, readMpuChannel, Fresh, hinit, hstatus, hchannel]
  · simp [reading, readMpuChannel, Fresh, hinit, hinvalid]

/-- The first channel reads the device anew. -/
theorem readMpuChannel_accelX {device : MpuDevice} (hinit : device.initialized = true)
    (burst : Burst) (value : Int32) :
    let reading := readMpuChannel .accelX burst device value
    reading.device = readBurst burst device ∧
      (reading.error = espOk ↔ burst.error = espOk) ∧
      (burst.error = espOk → reading.value = burstValues burst.data .accelX) := by
  by_cases hok : burst.error = espOk
  · simp [readMpuChannel, readBurst, hinit, hok]
  · simp [readMpuChannel, readBurst, hinit, hok]

/-- The channels behind the first are all enqueued or none is. -/
theorem visitFrom_stored {input : PassInput Burst} {rest : List (Descriptor MpuChannel)}
    (hdue : ∀ sensor ∈ rest, sensor.nextSampleUs ≤ input.nowUs)
    (hchannel : ∀ sensor ∈ rest, sensor.context ≠ .accelX) (i : ℕ)
    (p : Pass MpuChannel MpuDevice) :
    (visitFrom mpuDriver input i rest p).device = p.device ∧
      (visitFrom mpuDriver input i rest p).enqueued =
        p.enqueued ++ if Fresh p.device then
          (rest.zipIdx i).map fun (sensor, i) =>
            ⟨sensor.canId, input.timestampMs i, p.device.values sensor.context⟩
        else [] := by
  induction rest generalizing i p with
  | nil => simp [visitFrom]
  | cons sensor rest ih =>
    obtain ⟨hdevice, henqueued⟩ := visit_of_due
      (hdue sensor List.mem_cons_self) i p
    obtain ⟨hstored, herror, hvalue⟩ := readMpuChannel_stored
      (hchannel sensor List.mem_cons_self) (input.answer i) p.device 0
    have hrest := ih (fun s h => hdue s (List.mem_cons_of_mem _ h))
      (fun s h => hchannel s (List.mem_cons_of_mem _ h)) (i + 1) (visit mpuDriver input i sensor p)
    rw [hdevice.trans hstored] at hrest
    refine ⟨hrest.1, ?_⟩
    rw [visitFrom, hrest.2, henqueued]
    by_cases hfresh : Fresh p.device
    · rw [if_pos (herror.mpr hfresh), hvalue hfresh]
      simp [hfresh]
    · rw [if_neg (fun h => hfresh (herror.mp h)), if_neg hfresh, if_neg hfresh]

/-- A pass that finds the axes due. -/
theorem samplePass_of_due {t : ℤ} {input : PassInput Burst} (hdue : t ≤ input.nowUs)
    (device : MpuDevice) :
    let pass := samplePass mpuDriver (armSchedule t sensorRegistry) device input
    let burst := input.answer 0
    if device.initialized = true ∧ burst.error = espOk then
      pass.enqueued = axisSamples input.timestampMs burst.data ∧
        pass.device.bursts = device.bursts + 1
    else pass.enqueued = [] := by
  intro pass burst
  let first : Descriptor MpuChannel :=
    { mpuSensor canIdMpuAccelX .accelX with nextSampleUs := t }
  let rest : List (Descriptor MpuChannel) := armSchedule t sensorRegistry.tail
  let start : Pass MpuChannel MpuDevice := ⟨[], device, [], [], input.nowUs + 1000000⟩
  have hpass : pass = visitFrom mpuDriver input 1 rest (visit mpuDriver input 0 first start) := rfl
  have hrestDue : ∀ sensor ∈ rest, sensor.nextSampleUs ≤ input.nowUs := by
    intro sensor hsensor
    obtain ⟨s, -, rfl⟩ := List.mem_map.mp hsensor
    exact hdue
  have hchannel : ∀ sensor ∈ rest, sensor.context ≠ .accelX := by
    intro sensor hsensor
    obtain ⟨s, hs, rfl⟩ := List.mem_map.mp hsensor
    have htail : ∀ s ∈ sensorRegistry.tail, s.context ≠ .accelX := by decide
    exact htail s hs
  obtain ⟨hdevice, henqueued⟩ := visitFrom_stored hrestDue hchannel 1
    (visit mpuDriver input 0 first start)
  obtain ⟨hdevice₀, henqueued₀⟩ := @visit_of_due input first hdue 0 start
  let reading := readMpuChannel .accelX burst device 0
  have hfirst : (visit mpuDriver input 0 first start).device = reading.device := hdevice₀
  have hsample : (visit mpuDriver input 0 first start).enqueued = if reading.error = espOk then
      [⟨canIdMpuAccelX, input.timestampMs 0, reading.value⟩] else [] := henqueued₀
  rw [← hpass, hfirst] at hdevice henqueued
  rw [hsample] at henqueued
  by_cases hinit : device.initialized = true
  · obtain ⟨hread, herror, hvalue⟩ := readMpuChannel_accelX hinit burst 0
    by_cases hok : burst.error = espOk
    · have hfresh : Fresh (readBurst burst device) := by simp [Fresh, readBurst, hinit, hok]
      have hvalues : (readBurst burst device).values = burstValues burst.data := by
        simp [readBurst, hok]
      have hbursts : (readBurst burst device).bursts = device.bursts + 1 := by
        simp [readBurst, hok]
      rw [if_pos ⟨hinit, hok⟩, hdevice, henqueued, if_pos (herror.mpr hok), hread, if_pos hfresh,
        hvalues, hvalue hok]
      exact ⟨rfl, hbursts⟩
    · have hstale : ¬ Fresh (readBurst burst device) := by simp [Fresh, readBurst, hok]
      rw [if_neg (fun h => hok h.2), henqueued, if_neg (fun h => hok (herror.mp h)), hread,
        if_neg hstale, List.append_nil]
  · have hreading : reading = ⟨espErrInvalidState, 0, device⟩ := by
      simp [reading, readMpuChannel, hinit]
    have hstale : ¬ Fresh device := fun h => hinit h.1
    rw [if_neg (fun h => hinit h.1), henqueued, hreading, if_neg hstale, List.append_nil]
    rfl

/-- In every pass of every session the axes that are published are all six, from the 14 bytes of
the burst of this pass, or none is published; and they are when they are due and the burst has
succeeded. -/
theorem axes_of_one_burst (device : MpuDevice) (past : List (ℤ × List (PassInput Burst))) (t0 : ℤ)
    (earlier : List (PassInput Burst)) (input : PassInput Burst) :
    let state := sessions (sensorRegistry, device) past
    let before := samplePasses mpuDriver (samplerStart mpuDriver t0 state.1 state.2) earlier
    let pass := samplePass mpuDriver before.1 before.2 input
    let burst := input.answer 0
    (pass.enqueued = [] ∨
      (AxesOf burst.data input.timestampMs pass.enqueued ∧ burst.error = espOk ∧
        pass.device.bursts = before.2.bursts + 1)) ∧
      ((∀ sensor ∈ before.1, sensor.nextSampleUs ≤ input.nowUs) → before.2.initialized = true →
        burst.error = espOk → AxesOf burst.data input.timestampMs pass.enqueued) := by
  intro state before pass burst
  obtain ⟨u, hu⟩ := sessions_armSchedule device past
  obtain ⟨t, ht⟩ : ∃ t, before.1 = armSchedule t sensorRegistry := by
    obtain ⟨t, ht⟩ := samplePasses_armSchedule t0
      (state.1.foldl (fun device sensor => mpuDriver.start sensor.context device) state.2) earlier
    refine ⟨t, ?_⟩
    rw [← ht, ← armSchedule_armSchedule t0 u, ← hu]
    rfl
  have hpass : pass = samplePass mpuDriver (armSchedule t sensorRegistry) before.2 input := by
    rw [← ht]
  have haxes := axesOf_axisSamples input.timestampMs burst.data
  by_cases hdue : t ≤ input.nowUs
  · have hcases := samplePass_of_due hdue before.2
    rw [← hpass] at hcases
    dsimp only at hcases
    split_ifs at hcases with hready
    · rw [← hcases.1] at haxes
      exact ⟨.inr ⟨haxes, hready.2, hcases.2⟩, fun _ _ _ => haxes⟩
    · exact ⟨.inl hcases, fun _ hinit hok => absurd ⟨hinit, hok⟩ hready⟩
  · have hlate : ∀ sensor ∈ before.1, ¬ sensor.nextSampleUs ≤ input.nowUs := by
      rw [ht]
      intro sensor hsensor
      obtain ⟨s, -, rfl⟩ := List.mem_map.mp hsensor
      exact hdue
    refine ⟨.inl (visitFrom_of_not_due hlate 0 _), fun hall => ?_⟩
    have hfirst : { mpuSensor canIdMpuAccelX .accelX with nextSampleUs := t } ∈ before.1 := by
      rw [ht]
      exact List.mem_cons_self
    exact absurd (hall _ hfirst) (hlate _ hfirst)

/-- 1 g along z, tilted, turning at -2 degrees per second about x: the second pass after a start,
the first burst having failed. -/
theorem tiltedPass_axes :
    let device : MpuDevice := ⟨fun _ => 7, true, espOk, 3⟩
    let data : Vector UInt8 14 :=
      ⟨#[0, 0x29, 0xFF, 0xD7, 0x10, 0, 9, 9, 0xFF, 0xDF, 0, 0, 0, 1], rfl⟩
    let earlier : List (PassInput Burst) := [⟨500, fun _ => 1, fun _ => ⟨espErrTimeout, data⟩⟩]
    let before := samplePasses mpuDriver (samplerStart mpuDriver 500 sensorRegistry device) earlier
    let pass := samplePass mpuDriver before.1 before.2
      ⟨10500, fun _ => 11, fun _ => ⟨espOk, data⟩⟩
    pass.enqueued.map (fun sample => (sample.canId, sample.value.toInt)) =
      [(canIdMpuAccelX, 10), (canIdMpuAccelY, -10), (canIdMpuAccelZ, 1000),
        (canIdMpuGyroX, -2012), (canIdMpuGyroY, 0), (canIdMpuGyroZ, 60)] := by
  intro device data earlier before pass
  obtain ⟨-, haxes⟩ := axes_of_one_burst device [] 500 earlier
    ⟨10500, fun _ => 11, fun _ => ⟨espOk, data⟩⟩
  exact (haxes (by decide) rfl rfl).values.trans (by decide)

end BajaDaq.MpuBursts
