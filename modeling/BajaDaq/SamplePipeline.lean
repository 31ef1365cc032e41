import BajaDaq.DecoderParity

/-!
# One sample from the node's queue to a row

`send_task` of the node, `receive_callback` and `handle_can_message` of the master, the record
that `writer_task` stores and the row that `stream_csv` makes of it. The bus delivers a frame as
it was sent.
-/

namespace BajaDaq.SamplePipeline
open AppProtocol CsvText DecimalText LittleEndian LiveViewing
open LogFiles (QueuedSample recordBytes)
open FullCsv (rowText)
open PairedCsv (recordWords)
open PairedRows (LogRecord)

/-- `sample_t` of the node, without the name for the serial log. -/
structure Sample where
  canId : UInt32
  timestampMs : Int32
  value : Int32
  deriving DecidableEq, Repr

/-- `twai_frame_t`: the header and the payload. -/
structure TwaiFrame where
  id : UInt32
  dlc : UInt16
  buffer : List UInt8
  deriving DecidableEq, Repr

/-- `packed` of `send_task`. -/
def packed (sample : Sample) : UInt64 :=
  (sample.timestampMs.toUInt32.toUInt64 <<< 32) ||| sample.value.toUInt32.toUInt64

/-- The frame that `send_task` gives to the driver; `memcpy` stores the low byte first. -/
def sendTask (sample : Sample) : TwaiFrame := ⟨sample.canId, 8, bytesOf 8 (packed sample).toNat⟩

/-- `data` after the loop over the first `count` bytes. -/
def gatherBytes (bytes : List UInt8) (count : ℕ) : UInt64 :=
  (List.range count).foldl
    (fun data i => data ||| ((bytes.getD i 0).toUInt64 <<< UInt64.ofNat (8 * i))) 0

/-- The message that `receive_callback` queues; `bytes` is zero where nothing is received. -/
def receiveCallback (frame : TwaiFrame) : CanMessage :=
  let dlc := if frame.dlc > 8 then 8 else frame.dlc.toUInt8
  ⟨frame.id, dlc, gatherBytes (frame.buffer.take 8) dlc.toNat⟩

def canIdNodeStateBase : UInt32 := 0x0C0

def nodeRegistryIsStateFrame (message : CanMessage) : Bool :=
  message.id > canIdNodeStateBase &&
    message.id < canIdNodeStateBase + UInt32.ofNat canNodeSlotCount

def protocolIsSensorId (id : UInt32) : Bool := protocolSensorNodeId id != 0

/-- What `handle_can_message` does with a message: a `sample` goes to the registry, the logger
and the live data. -/
inductive Handled where
  | stateFrame
  | invalidTimestamp
  | sample
  | ignored
  deriving DecidableEq, Repr

def handleCanMessage (message : CanMessage) : Handled :=
  if nodeRegistryIsStateFrame message then .stateFrame
  else if protocolIsSensorId message.id && message.dlc == 8 then
    let timestampMs := (message.data >>> 32).toUInt32
    if (message.id = canIdEngineSpark ∨ message.id = canIdEngineRpm) ∧
        timestampMs.toInt32 < 0 then .invalidTimestamp
    else .sample
  else .ignored

/-- The row of a queued message, as the record number `index` of a file and with `utcMs` read
from the companion. -/
def exportedRow (queued : QueuedSample) (index : UInt64) (utcMs : ℤ) : Text :=
  rowText index utcMs (recordWords (recordBytes queued))

theorem toNat_or_shiftLeft (low high : UInt64) {k : ℕ} (hlow : low.toNat < 2 ^ k) (hk : k < 64)
    (hfit : high.toNat * 2 ^ k < 2 ^ 64) :
    (low ||| (high <<< UInt64.ofNat k)).toNat = low.toNat + 2 ^ k * high.toNat := by
  have hor := Nat.two_pow_add_eq_or_of_lt hlow high.toNat
  have hshift : (UInt64.ofNat k).toNat % 64 = k := by
    rw [UInt64.toNat_ofNat_of_lt' (Nat.lt_trans hk (by decide)), Nat.mod_eq_of_lt hk]
  rw [UInt64.toNat_or, UInt64.toNat_shiftLeft, hshift, Nat.shiftLeft_eq, Nat.mod_eq_of_lt hfit,
    Nat.mul_comm high.toNat, Nat.or_comm, ← hor, Nat.add_comm]

theorem toNat_packed (sample : Sample) : (packed sample).toNat =
    sample.value.toUInt32.toNat + 2 ^ 32 * sample.timestampMs.toUInt32.toNat := by
  have hvalue := sample.value.toUInt32.toNat_lt
  have htime := sample.timestampMs.toUInt32.toNat_lt
  have hor := toNat_or_shiftLeft sample.value.toUInt32.toUInt64
    sample.timestampMs.toUInt32.toUInt64 (k := 32) hvalue (by decide)
    (by rw [UInt32.toNat_toUInt64]; omega)
  rw [packed, UInt64.or_comm]
  exact hor

/-- The loop reads the bytes back as `memcpy` would. -/
theorem toNat_gatherBytes (bytes : List UInt8) {count : ℕ} (hcount : count ≤ 8)
    (hbytes : count ≤ bytes.length) :
    (gatherBytes bytes count).toNat = valueOf (bytes.take count) := by
  induction count with
  | zero => rfl
  | succ count ih =>
    have ih := ih (by omega) (by omega)
    have hpow : 256 ^ count = 2 ^ (8 * count) := by rw [Nat.pow_mul]
    have hlow : (gatherBytes bytes count).toNat < 2 ^ (8 * count) := by
      have hlt := valueOf_lt (bytes.take count)
      rwa [List.length_take, Nat.min_eq_left (by omega), hpow, ← ih] at hlt
    have hbyte := (bytes[count]).toNat_lt
    have hfit : (bytes[count]).toUInt64.toNat * 2 ^ (8 * count) < 2 ^ 64 := by
      calc (bytes[count]).toUInt64.toNat * 2 ^ (8 * count)
          < 2 ^ 8 * 2 ^ (8 * count) := Nat.mul_lt_mul_of_pos_right hbyte (Nat.two_pow_pos _)
        _ = 2 ^ (8 + 8 * count) := (Nat.pow_add 2 8 (8 * count)).symm
        _ ≤ 2 ^ 64 := Nat.pow_le_pow_right (by decide) (by omega)
    have hstep : gatherBytes bytes (count + 1) =
        gatherBytes bytes count ||| ((bytes[count]).toUInt64 <<< UInt64.ofNat (8 * count)) := by
      rw [gatherBytes, List.range_succ, List.foldl_append, ← gatherBytes, List.foldl_cons,
        List.foldl_nil, List.getD_eq_getElem _ _ hbytes]
    rw [hstep, toNat_or_shiftLeft _ _ hlow (by omega) hfit, ih,
      List.take_succ_eq_append_getElem hbytes, valueOf_append, List.length_take,
      Nat.min_eq_left (by omega), hpow]
    rfl

/-- The master's message holds the word that the node packed. -/
theorem receiveCallback_sendTask (sample : Sample) :
    receiveCallback (sendTask sample) = ⟨sample.canId, 8, packed sample⟩ := by
  have hdata : gatherBytes (bytesOf 8 (packed sample).toNat) 8 = packed sample := by
    rw [← UInt64.toNat_inj, toNat_gatherBytes _ (Nat.le_refl 8) (by rw [length_bytesOf]),
      List.take_of_length_le (by rw [length_bytesOf]), valueOf_bytesOf]
    exact Nat.mod_eq_of_lt (packed sample).toNat_lt
  have hbuffer : (bytesOf 8 (packed sample).toNat).take 8 = bytesOf 8 (packed sample).toNat :=
    List.take_of_length_le (by rw [length_bytesOf])
  simp only [receiveCallback, sendTask, hbuffer]
  exact congrArg (CanMessage.mk sample.canId 8) hdata

/-- The samples of the nodes are the signals before those of the GPS receiver. -/
theorem mem_signals_of_sensor {id : UInt32} (h : protocolIsSensorId id = true) :
    id ∈ signals.take 12 := by
  unfold protocolIsSensorId protocolSensorNodeId at h
  split_ifs at h with h₁ h₃ h₄ h₅ h₆
  · rcases h₁ with rfl | rfl <;> decide
  · rcases h₃ with rfl | rfl | rfl | rfl | rfl | rfl <;> decide
  · rw [h₄]
    decide
  · rcases h₅ with rfl | rfl <;> decide
  · rw [h₆]
    decide
  · cases h

theorem sensor_cases {id : UInt32} (h : protocolIsSensorId id = true) :
    id.toNat < 2 ^ 11 ∧ id.toNat ≠ canIdGpsSpeed.toNat ∧
      (∃ index, index < liveDataSignalCount ∧ signalIndex id = some index) ∧
      (id > canIdNodeStateBase && id < canIdNodeStateBase + UInt32.ofNat canNodeSlotCount) =
        false := by
  have hall : (signals.take 12).all (fun id => decide (id.toNat < 2 ^ 11 ∧
      id.toNat ≠ canIdGpsSpeed.toNat ∧
      (∃ index, index < liveDataSignalCount ∧ signalIndex id = some index) ∧
      (id > canIdNodeStateBase && id < canIdNodeStateBase + UInt32.ofNat canNodeSlotCount) =
        false)) = true := by
    decide
  exact of_decide_eq_true (List.all_eq_true.mp hall id (mem_signals_of_sensor h))

variable {sample : Sample}

theorem toUInt32_int32_ofInt (value : ℤ) : (Int32.ofInt value).toUInt32 = UInt32.ofInt value := by
  have hlow : (Int32.ofInt value).toUInt32.toNat = (value % 2 ^ 32).toNat := BitVec.toNat_ofInt ..
  rw [← UInt32.toNat_inj, UInt32.ofInt, UInt32.toNat_ofNat']
  omega

theorem timestamp_packed (sample : Sample) :
    (packed sample >>> 32).toUInt32 = sample.timestampMs.toUInt32 := by
  have hvalue := sample.value.toUInt32.toNat_lt
  have htime := sample.timestampMs.toUInt32.toNat_lt
  rw [← UInt32.toNat_inj, UInt64.toNat_toUInt32, UInt64.toNat_shiftRight, toNat_packed,
    Nat.shiftRight_eq_div_pow]
  change (_ / 2 ^ 32) % 2 ^ 32 = _
  omega

theorem value_packed (sample : Sample) :
    (packed sample).toUInt32 = sample.value.toUInt32 := by
  have hvalue := sample.value.toUInt32.toNat_lt
  rw [← UInt32.toNat_inj, UInt64.toNat_toUInt32, toNat_packed]
  omega

theorem handleCanMessage_sample (hsensor : protocolIsSensorId sample.canId = true)
    (hengine : sample.canId = canIdEngineSpark ∨ sample.canId = canIdEngineRpm →
      0 ≤ sample.timestampMs) :
    handleCanMessage (receiveCallback (sendTask sample)) = .sample := by
  obtain ⟨-, -, -, hstate⟩ := sensor_cases hsensor
  have hdrop : ¬ ((sample.canId = canIdEngineSpark ∨ sample.canId = canIdEngineRpm) ∧
      (packed sample >>> 32).toUInt32.toInt32 < 0) := by
    rintro ⟨hid, hneg⟩
    rw [timestamp_packed, Int32.toInt32_toUInt32] at hneg
    exact Int32.not_lt.mpr (hengine hid) hneg
  rw [receiveCallback_sendTask, handleCanMessage, nodeRegistryIsStateFrame, hstate, hsensor]
  exact if_neg hdrop

/-- The cells of a row that come from the sample. -/
structure Describes (sample : Sample) (row : List Text) : Prop where
  canId : row[1]? = some (unsignedText sample.canId.toNat)
  timestampMs : row[5]? = some (unsignedText sample.timestampMs.toUInt32.toNat)
  value : row[7]? = some (signedText sample.value.toInt)
  rawData : row[9]? = some (unsignedText
    (sample.value.toUInt32.toNat + 2 ^ 32 * sample.timestampMs.toUInt32.toNat))

/-- The record of a sample as the export reads it. -/
def record (sample : Sample) : LogRecord := ⟨sample.canId.toUInt64, packed sample⟩

theorem recordWords_sendTask (sample : Sample) (queuedUtcMs : Int64) :
    recordWords (recordBytes ⟨receiveCallback (sendTask sample), queuedUtcMs⟩) =
      ((record sample).idWord, (record sample).payload) := by
  rw [receiveCallback_sendTask, ← PairedExport.recordWords_bytes]
  rfl

theorem value_record (sample : Sample) : (record sample).value = sample.value.toInt := by
  rw [← PairedRows.sample_toInt, LogRecord.sample, record, value_packed, Int32.toInt32_toUInt32]

theorem time_record (sample : Sample) :
    (record sample).time = sample.timestampMs.toUInt32.toNat := by
  rw [← PairedRows.timestamp_toNat, LogRecord.timestamp, record, timestamp_packed]

theorem describes_row (hsensor : protocolIsSensorId sample.canId = true) (queuedUtcMs : Int64)
    (index : UInt64) (utcMs : ℤ) : Describes sample
      (fields (exportedRow ⟨receiveCallback (sendTask sample), queuedUtcMs⟩ index utcMs)) := by
  obtain ⟨hid, hspeed, -⟩ := sensor_cases hsensor
  have hsignal : (record sample).signal = sample.canId.toNat := Nat.mod_eq_of_lt hid
  have hrow := DecoderParity.rowText_eq index.toNat index.toNat_lt utcMs (record sample)
  rw [UInt64.ofNat_toNat] at hrow
  have hfields := DecoderParity.fields_row index.toNat utcMs (record sample)
  rw [exportedRow, recordWords_sendTask, hrow, hfields]
  refine ⟨?_, ?_, ?_, ?_⟩
  · rw [← hsignal]
    rfl
  · rw [← time_record]
    rfl
  · change some (if (record sample).signal = canIdGpsSpeed.toNat then
      scaledText 2 (record sample).value else signedText (record sample).value) = _
    rw [hsignal, if_neg hspeed, value_record]
  · rw [← toNat_packed]
    rfl

theorem unsignedText_injective : Function.Injective unsignedText := by
  intro m n h
  calc m = Nat.ofDigitChars 10 (unsignedText m) 0 := Nat.ofDigitChars_ten_toDigits.symm
    _ = Nat.ofDigitChars 10 (unsignedText n) 0 := by rw [h]
    _ = n := Nat.ofDigitChars_ten_toDigits

/-- A row tells which sample it comes from. -/
theorem Describes.inj {other : Sample} {row : List Text} (h : Describes sample row)
    (h' : Describes other row) : sample = other := by
  have hvalue := sample.value.toUInt32.toNat_lt
  have hvalue' := other.value.toUInt32.toNat_lt
  have hid := unsignedText_injective (Option.some.inj (h.canId.symm.trans h'.canId))
  have hraw := unsignedText_injective (Option.some.inj (h.rawData.symm.trans h'.rawData))
  have hlow : sample.value.toUInt32 = other.value.toUInt32 := UInt32.toNat_inj.mp (by omega)
  have hhigh : sample.timestampMs.toUInt32 = other.timestampMs.toUInt32 :=
    UInt32.toNat_inj.mp (by omega)
  cases sample
  cases other
  rw [Sample.mk.injEq]
  exact ⟨UInt32.toNat_inj.mp hid, congrArg UInt32.toInt32 hhigh, congrArg UInt32.toInt32 hlow⟩

theorem liveDataRecord_sendTask (hsensor : protocolIsSensorId sample.canId = true) {d : LiveData}
    {nowUs : ℤ} (henabled : d.enabled = true) (hlease : nowUs < d.leaseDeadlineUs)
    (hlength : d.latest.length = liveDataSignalCount) :
    ∃ index entry, signalIndex sample.canId = some index ∧
      (liveDataRecord d (receiveCallback (sendTask sample)) nowUs).latest[index]? = some entry ∧
      entry.canId = sample.canId ∧ entry.value = sample.value ∧
      entry.timestampMs = sample.timestampMs.toUInt32 := by
  obtain ⟨-, -, ⟨index, hindex, hfind⟩, -⟩ := sensor_cases hsensor
  have hlive : expireLocked d nowUs = d := if_neg (fun h => absurd hlease (Int.not_lt.mpr h.2))
  have hlt : index < d.latest.length := by omega
  have hget : d.latest[index]? = some d.latest[index] := List.getElem?_eq_getElem hlt
  refine ⟨index, ⟨sample.canId, sample.value, sample.timestampMs.toUInt32,
    d.latest[index].sequence + 1, true⟩, hfind, ?_, rfl, rfl, rfl⟩
  rw [receiveCallback_sendTask, liveDataRecord]
  simp only [hfind]
  rw [if_neg (by decide), hlive, if_pos henabled, List.getElem?_modify_eq, hget,
    timestamp_packed, value_packed, Int32.toInt32_toUInt32]
  rfl

/-- A sample of a node passes the filter, its record is exported with its identifier, its two
numbers and the packed word, no other sample gives the same row, and live viewing shows it. -/
theorem sample_survives (sample : Sample) (hsensor : protocolIsSensorId sample.canId = true)
    (hengine : sample.canId = canIdEngineSpark ∨ sample.canId = canIdEngineRpm →
      0 ≤ sample.timestampMs) :
    handleCanMessage (receiveCallback (sendTask sample)) = .sample ∧
    (∀ queuedUtcMs index utcMs, Describes sample
      (fields (exportedRow ⟨receiveCallback (sendTask sample), queuedUtcMs⟩ index utcMs))) ∧
    (∀ other, protocolIsSensorId other.canId = true → other ≠ sample →
      ∀ queuedUtcMs queuedUtcMs' index index' utcMs utcMs',
        exportedRow ⟨receiveCallback (sendTask other), queuedUtcMs'⟩ index' utcMs' ≠
          exportedRow ⟨receiveCallback (sendTask sample), queuedUtcMs⟩ index utcMs) ∧
    (∀ (d : LiveData) (nowUs : ℤ), d.enabled = true → nowUs < d.leaseDeadlineUs →
      d.latest.length = liveDataSignalCount →
      ∃ index entry, signalIndex sample.canId = some index ∧
        (liveDataRecord d (receiveCallback (sendTask sample)) nowUs).latest[index]? = some entry ∧
        entry.canId = sample.canId ∧ entry.value = sample.value ∧
        entry.timestampMs = sample.timestampMs.toUInt32) := by
  refine ⟨handleCanMessage_sample hsensor hengine, describes_row hsensor, ?_,
    fun d nowUs henabled hlease hlength => liveDataRecord_sendTask hsensor henabled hlease hlength⟩
  intro other hother hne queuedUtcMs queuedUtcMs' index index' utcMs utcMs' hrow
  have hdescribes := describes_row hother queuedUtcMs' index' utcMs'
  rw [hrow] at hdescribes
  exact hne (hdescribes.inj (describes_row hsensor queuedUtcMs index utcMs))

/-- A negative value of the engine sensor late in the range of its timestamps. -/
theorem engineSample_survives :
    handleCanMessage (receiveCallback (sendTask ⟨canIdEngineRpm, 2147483647, -123⟩)) = .sample :=
  (sample_survives ⟨canIdEngineRpm, 2147483647, -123⟩ (by decide) (fun _ => by decide)).1

end BajaDaq.SamplePipeline
