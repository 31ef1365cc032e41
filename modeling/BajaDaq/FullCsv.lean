import BajaDaq.CsvText
import BajaDaq.LiveViewing
import BajaDaq.PairedCsv

/-!
# The full export

`stream_csv` and the table of `live_data.c` that it looks its signals up in. Files, chunks and
the companion are those of the powertrain export.
-/

namespace BajaDaq.FullCsv
open AppProtocol DecimalText FixedItems
open LogFiles (recordSize)
open PairedCsv (EspErr Request RecordFile httpdRespSendChunk recordWords readUtcMs
  formatAbsoluteTime)

/-- `live_signal_metadata_t`, without the live rate. -/
structure SignalMetadata where
  canId : UInt32
  signal : Text
  node : Text
  units : Text
  deriving DecidableEq, Repr

def signals : List SignalMetadata :=
  [⟨0x0B1, "front_brake_pressure".toList, "brake_node_1".toList, "psi".toList⟩,
    ⟨0x0B2, "rear_brake_pressure".toList, "brake_node_1".toList, "psi".toList⟩,
    ⟨0x0B3, "mpu_accel_x".toList, "mpu_node_3".toList, "mg".toList⟩,
    ⟨0x0B4, "mpu_accel_y".toList, "mpu_node_3".toList, "mg".toList⟩,
    ⟨0x0B5, "mpu_accel_z".toList, "mpu_node_3".toList, "mg".toList⟩,
    ⟨0x0B6, "mpu_gyro_x".toList, "mpu_node_3".toList, "mdps".toList⟩,
    ⟨0x0B7, "mpu_gyro_y".toList, "mpu_node_3".toList, "mdps".toList⟩,
    ⟨0x0B8, "mpu_gyro_z".toList, "mpu_node_3".toList, "mdps".toList⟩,
    ⟨0x0B9, "bearing_rpm".toList, "encoder_node_4".toList, "rpm".toList⟩,
    ⟨0x0BA, "generic_adc_voltage".toList, "adc_node_6".toList, "mV".toList⟩,
    ⟨0x0BB, "engine_rpm".toList, "engine_node_5".toList, "rpm".toList⟩,
    ⟨0x0BC, "engine_spark".toList, "engine_node_5".toList, "event".toList⟩,
    ⟨0x700, "gps_speed".toList, "master_gps".toList, "km/h_x100".toList⟩,
    ⟨0x701, "gps_latitude".toList, "master_gps".toList, "deg_e7".toList⟩,
    ⟨0x702, "gps_longitude".toList, "master_gps".toList, "deg_e7".toList⟩]

example : signals.map SignalMetadata.canId = LiveViewing.signals := rfl

def metadataFor (canId : UInt32) : Option SignalMetadata :=
  signals.find? (fun metadata => metadata.canId = canId)

/-- The row text that `snprintf` builds for one record. -/
def rowText (sampleIndex : UInt64) (utcMs : ℤ) (record : UInt64 × UInt64) : Text :=
  let absoluteTime := formatAbsoluteTime utcMs 32
  let canId := record.1.toUInt32 &&& 0x7ff
  let packed := record.2
  let value := (packed &&& 0xffffffff).toUInt32.toInt32
  let timestamp := (packed >>> 32).toUInt32
  let metadata := metadataFor canId
  let signal := metadata.elim [] SignalMetadata.signal
  let node := metadata.elim [] SignalMetadata.node
  let units := metadata.elim "raw".toList SignalMetadata.units
  let valueText :=
    if canId = canIdGpsSpeed then (snprintf 32 (scaledText 2 value.toInt)).1
    else (snprintf 32 (signedText value.toInt)).1
  let units := if canId = canIdGpsSpeed then "km/h".toList else units
  unsignedText sampleIndex.toNat ++ ',' :: unsignedText canId.toNat ++
    ',' :: '0' :: 'x' :: hexText 3 canId.toNat ++ ',' :: signal ++ ',' :: node ++
    ',' :: unsignedText timestamp.toNat ++ ',' :: absoluteTime ++ ',' :: valueText ++
    ',' :: units ++ ',' :: unsignedText packed.toNat ++ ['\r', '\n']

/-- What one iteration of the loop leaves behind. -/
structure Export where
  request : Request
  utcFile : Option (List UInt8)
  sampleIndex : UInt64

/-- The loop body for one record; `fail` is the early return. -/
def exportRecord (e : Export) (record : UInt64 × UInt64) : Export × EspErr :=
  let utc := readUtcMs e.utcFile
  let row := snprintf 256 (rowText e.sampleIndex utc.1 record)
  let e := { e with utcFile := utc.2, sampleIndex := e.sampleIndex + 1 }
  if 256 ≤ row.2 then (e, .fail)
  else
    let sent := httpdRespSendChunk e.request row.1
    ({ e with request := sent.1 }, sent.2)

/-- The loop over the items that `fread` delivers, as in `items_fread`. -/
def exportRecords (e : Export) : List (List UInt8) → Export × EspErr
  | [] => (e, .ok)
  | record :: records =>
    let next := exportRecord e (recordWords record)
    if next.2 = .ok then exportRecords next.1 records else next

def header : Text :=
  "sample_index,can_id,can_id_hex,signal,node,".toList ++
    "timestamp_ms,absolute_time_utc,value,units,raw_data\r\n".toList

def streamCsv (request : Request) (file : RecordFile) (utcFile : Option (List UInt8)) :
    Request × EspErr :=
  let start := httpdRespSendChunk request header
  if start.2 ≠ .ok then (start.1, .fail)
  else
    let loop := exportRecords ⟨start.1, utcFile, 0⟩ (items recordSize file.bytes)
    if loop.2 ≠ .ok then (loop.1.request, .fail)
    else if file.readError then (loop.1.request, .fail)
    else httpdRespSendChunk loop.1.request []

end BajaDaq.FullCsv
