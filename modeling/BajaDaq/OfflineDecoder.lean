import BajaDaq.CsvText
import BajaDaq.LittleEndian
import Mathlib.Data.Int.Bitwise
import Mathlib.Data.Nat.Bitwise

/-!
# The offline decoder

`decode_log.py`: its integers are unbounded, and `struct.unpack_from` delivers signed ones.
-/

namespace BajaDaq.OfflineDecoder
open CsvText DecimalText LittleEndian

def recordSizeBytes : ℕ := 16

/-- `SIGNAL_METADATA`: signal, node and units of an identifier. -/
def signalMetadata : List (ℤ × Text × Text × Text) :=
  [(0x0B1, "front_brake_pressure".toList, "brake_node_1".toList, "psi".toList),
    (0x0B2, "rear_brake_pressure".toList, "brake_node_1".toList, "psi".toList),
    (0x0B3, "mpu_accel_x".toList, "mpu_node_3".toList, "mg".toList),
    (0x0B4, "mpu_accel_y".toList, "mpu_node_3".toList, "mg".toList),
    (0x0B5, "mpu_accel_z".toList, "mpu_node_3".toList, "mg".toList),
    (0x0B6, "mpu_gyro_x".toList, "mpu_node_3".toList, "mdps".toList),
    (0x0B7, "mpu_gyro_y".toList, "mpu_node_3".toList, "mdps".toList),
    (0x0B8, "mpu_gyro_z".toList, "mpu_node_3".toList, "mdps".toList),
    (0x0B9, "bearing_rpm".toList, "encoder_node_4".toList, "rpm".toList),
    (0x0BA, "generic_adc_voltage".toList, "adc_node_6".toList, "mV".toList),
    (0x0BB, "engine_rpm".toList, "engine_node_5".toList, "rpm".toList),
    (0x0BC, "engine_spark".toList, "engine_node_5".toList, "event".toList),
    (0x700, "gps_speed".toList, "master_gps".toList, "km/h".toList),
    (0x701, "gps_latitude".toList, "master_gps".toList, "deg_e7".toList),
    (0x702, "gps_longitude".toList, "master_gps".toList, "deg_e7".toList)]

def signedU32 (value : ℤ) : ℤ :=
  let value := value.land 0xFFFFFFFF
  if value.land 0x80000000 ≠ 0 then value - 0x100000000 else value

/-- One `q` of `struct.unpack_from`. -/
def unpackQ (data : List UInt8) (offset : ℕ) : ℤ :=
  let word := valueOf ((data.drop offset).take 8)
  if word < 2 ^ 63 then word else word - 2 ^ 64

/-- The loop body for one index: the identifier that is counted, and the cells of the row. -/
def decodeRecord (data : List UInt8) (index : ℕ) : ℤ × List Text :=
  let offset := index * recordSizeBytes
  let canIdRaw := unpackQ data offset
  let packedRaw := unpackQ data (offset + 8)
  let canId := canIdRaw.land 0x7FF
  let packed := packedRaw.land 0xFFFFFFFFFFFFFFFF
  let value := signedU32 packed
  let timestampMs := (packed >>> (32 : ℕ)).land 0xFFFFFFFF
  let (signal, node, units) := (signalMetadata.lookup canId).getD ([], [], "raw".toList)
  (canId, [signedText index, signedText canId, '0' :: 'x' :: hexText 3 canId.natAbs, signal, node,
    signedText timestampMs, if canId = 0x700 then scaledText 2 value else signedText value, units,
    signedText packed])

/-- `counts_by_id[can_id] = counts_by_id.get(can_id, 0) + 1`. -/
def countId (countsById : List (ℤ × ℕ)) (canId : ℤ) : List (ℤ × ℕ) :=
  match countsById with
  | [] => [(canId, 1)]
  | entry :: rest =>
    if entry.1 = canId then (canId, entry.2 + 1) :: rest else entry :: countId rest canId

def header : List Text :=
  ["sample_index".toList, "can_id".toList, "can_id_hex".toList, "signal".toList, "node".toList,
    "timestamp_ms".toList, "value".toList, "units".toList, "raw_data".toList]

/-- The lines of the output file, and the report. -/
def decodeLog (data : List UInt8) : List Text × List Text :=
  let fullRecords := data.length / recordSizeBytes
  let trailingBytes := data.length % recordSizeBytes
  let decoded := (List.range fullRecords).map (decodeRecord data)
  let countsById := decoded.foldl (fun counts row => countId counts row.1) []
  let sorted := countsById.mergeSort (fun a b => a.1 ≤ b.1)
  let summary := [',', ' '].intercalate (sorted.map (fun entry =>
    '0' :: 'x' :: hexText 3 entry.1.natAbs ++ '=' :: unsignedText entry.2))
  (writeRow header :: decoded.map (fun row => writeRow row.2),
    (if trailingBytes ≠ 0 then ["Ignored ".toList ++ unsignedText trailingBytes ++
      " trailing byte(s); decoded complete 16-byte records only.".toList] else []) ++
    ["Decoded ".toList ++ unsignedText fullRecords ++ " complete sample record(s).".toList] ++
    (if countsById ≠ [] then ["Found ".toList ++ unsignedText countsById.length ++
      " CAN ID(s): ".toList ++ summary ++ ".".toList] else []))

theorem land_two_pow_sub_one (v : ℤ) (k : ℕ) : v.land ((2 ^ k - 1 : ℕ) : ℤ) = v % 2 ^ k := by
  have hpos : 0 < 2 ^ k := Nat.two_pow_pos k
  cases v with
  | ofNat n =>
    change ((n &&& (2 ^ k - 1) : ℕ) : ℤ) = (n : ℤ) % 2 ^ k
    rw [Nat.and_two_pow_sub_one_eq_mod]
    norm_cast
  | negSucc n =>
    -- The bits of `-(n + 1)` are those of `n` complemented.
    have hldiff : Nat.ldiff (2 ^ k - 1) n = 2 ^ k - (n % 2 ^ k + 1) := by
      apply Nat.eq_of_testBit_eq
      intro i
      rw [Nat.testBit_ldiff, Nat.testBit_two_pow_sub_one, Nat.testBit_two_pow_sub_succ
        (Nat.mod_lt n hpos), Nat.testBit_mod_two_pow]
      by_cases hi : i < k
      · simp [hi]
      · simp [hi]
    have hmod : n % 2 ^ k + 1 ≤ 2 ^ k := Nat.mod_lt n hpos
    change ((Nat.ldiff (2 ^ k - 1) n : ℕ) : ℤ) = Int.negSucc n % 2 ^ k
    rw [hldiff, Int.negSucc_emod n (by exact_mod_cast hpos), Nat.cast_sub hmod]
    push_cast
    ring

theorem land_0x80000000 {n : ℕ} (h : n < 2 ^ 32) :
    (n : ℤ).land 0x80000000 ≠ 0 ↔ 2 ^ 31 ≤ n := by
  change ((n &&& 2 ^ 31 : ℕ) : ℤ) ≠ 0 ↔ _
  rw [Nat.and_two_pow, Nat.testBit_eq_decide_div_mod_eq]
  by_cases hn : 2 ^ 31 ≤ n
  · have hbit : n / 2 ^ 31 % 2 = 1 := by omega
    rw [hbit]
    simpa using hn
  · have hbit : n / 2 ^ 31 % 2 = 0 := by omega
    rw [hbit]
    simpa using hn

end BajaDaq.OfflineDecoder
