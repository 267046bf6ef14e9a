import CoveFormat.TransformPayloads
import CoveFormat.ZoneStatistics

namespace CoveFormat.StatsOnlyPages

open ByteCodes EncodedArrays ExceptRules FixedFields List PagePayloads ZoneStatistics
open Canonical (TextPredicates)
open CoveTypes (CoveLogicalType CovePhysicalKind)
open TransformPayloads (checkedMul)

variable (P : TextPredicates)

/-! Pages without a payload, whose rows are rebuilt from the zone statistics. -/

/-- An entry with the fields that say which page it is for. -/
structure ZoneStatsEntry extends ZoneStatistics.ZoneStatsEntry where
  (tableId segmentId morselId columnId nonNullCount : UInt32)

structure StatsOnlyPageMaterializationContext where
  (tableId segmentId : Option UInt32)
  columnId : UInt32
  logicalType : CoveLogicalType
  physicalKind : CovePhysicalKind
  dictionaryLen : Option UInt32
  zoneStats : List ZoneStatsEntry

inductive CompressionCodec
  | none
  | lz4
  | zstd
  deriving DecidableEq

def CompressionCodec.fromU8 (v : UInt8) : Option CompressionCodec :=
  [CompressionCodec.none, .lz4, .zstd][v.toNat]?

def pageFlagCodecMask : UInt32 := 0x000000FF
def pageFlagAllNull : UInt32 := 0x00000200
def pageFlagAllNonNull : UInt32 := 0x00000400
def pageFlagReservedMask : UInt32 := 0xFFFFF000

def hexText (n : Nat) : String :=
  let digits := Nat.toDigits 16 n
  String.ofList (replicate (8 - digits.length) '0' ++ digits)

def pageFlagCodec (flags : UInt32) : Except CoveError CompressionCodec := do
  rejectIf (flags &&& pageFlagReservedMask ≠ 0) (.badSection
    ("page flags reserved bits must be zero (flags=0x" ++ hexText flags.toNat ++ ")"))
  let raw := (flags &&& pageFlagCodecMask).toUInt8
  orError (.badSection ("unknown page compression codec " ++ toString raw.toNat))
    (CompressionCodec.fromU8 raw)

def fixedWidthFor (logical : CoveLogicalType) (physical : CovePhysicalKind) : Except CoveError Nat :=
  match physical with
  | .boolean => .ok 1
  | .numCode => .ok 8
  | .fileCode => .ok 4
  | _ => orError (.unsupportedEncoding ("fixed-width page validation for " ++ logicalTypeName logical))
      (logicalTypeFixedWidth logical)

def bitmapLen (rowCount : UInt32) : Except CoveError Nat := do
  rejectIf (2 ^ 32 ≤ rowCount.toNat + 7) .arithOverflow
  .ok ((rowCount.toNat + 7) / 8)

def repeated (rowCount : UInt32) (row : Bytes) : Except CoveError Bytes := do
  let _ ← checkedMul rowCount.toNat row.length
  .ok (replicate rowCount.toNat row).flatten

section

variable (logical : CoveLogicalType) (physical : CovePhysicalKind) (scalar : StatScalar)

def validateVarbytesLogicalValue (bytes : Bytes) : Except CoveError Unit :=
  match logical with
  | .utf8 => rejectIf (P.utf8Valid bytes = false) .pageCorrupt
  | .json => rejectIf (P.jsonValid bytes = false) .pageCorrupt
  | .binary => .ok ()
  | _ => .error .pageCorrupt

def validateStatsOnlyBooleanScalar : Except CoveError UInt8 := do
  rejectIf (scalar.kind ≠ .uint64 ∨ scalar.bytes.length ≠ 8) .pageCorrupt
  match leNat scalar.bytes with
  | 0 => .ok 0
  | 1 => .ok 1
  | _ => .error .pageCorrupt

def validateStatsOnlyVarbytesScalar : Except CoveError Bytes := do
  rejectIf (scalar.kind ≠ .fixedBytes) .pageCorrupt
  validateVarbytesLogicalValue P logical scalar.bytes
  .ok scalar.bytes

def validateStatsOnlyFilecodeScalar (dictionaryLen : Option UInt32) : Except CoveError UInt32 := do
  rejectIf (scalar.kind ≠ .uint64 ∨ scalar.bytes.length ≠ 8) .pageCorrupt
  rejectIf (2 ^ 32 ≤ leNat scalar.bytes) .badFileCode
  let code := UInt32.ofNat (leNat scalar.bytes)
  let dictionaryLen ← orError .badFileCode dictionaryLen
  rejectIf (dictionaryLen ≤ code) .badFileCode
  .ok code

def statScalarMatchesLogical : Bool :=
  match logical with
  | .bool | .uint8 | .uint16 | .uint32 | .uint64 => scalar.kind == .uint64
  | .int8 | .int16 | .int32 | .int64 | .decimal64 => scalar.kind == .int64
  | .float32 => scalar.kind == .fixedBytes && scalar.bytes.length == 4
  | .float64 => scalar.kind == .float64Bits
  | .decimal128 => scalar.kind == .decimal128
  | .dateDays => scalar.kind == .dateDays
  | .timestampMicros => scalar.kind == .timestampMicros
  | .timestampNanos => scalar.kind == .timestampNanos
  | .uuid | .utf8 | .binary | .json => scalar.kind == .fixedBytes
  | _ => false

def statsOnlyNumcodeBits : Except CoveError UInt64 :=
  let word := do
    rejectIf (scalar.bytes.length ≠ 8) .pageCorrupt
    .ok (readU64 scalar.bytes 0)
  match logical, scalar.kind with
  | .int8, .int64 | .int16, .int64 | .int32, .int64 | .int64, .int64 | .decimal64, .int64
  | .timestampMicros, .timestampMicros | .timestampNanos, .timestampNanos
  | .uint8, .uint64 | .uint16, .uint64 | .uint32, .uint64 | .uint64, .uint64
  | .float64, .float64Bits => word
  | .float32, .fixedBytes => do
      rejectIf (scalar.bytes.length ≠ 4) .pageCorrupt
      .ok (readU32 scalar.bytes 0).toUInt64
  | .dateDays, .dateDays => do
      rejectIf (scalar.bytes.length ≠ 4) .pageCorrupt
      .ok (UInt64.ofNat (unsigned 64 (signed 32 (leNat scalar.bytes))))
  | _, _ => .error .pageCorrupt

-- The CRC32C of the checksum package.
variable (crc32c : Bytes → UInt32) (context : StatsOnlyPageMaterializationContext)
  (page : ColumnPageIndexEntryV1)

def validateStatsOnlyAllNonNullReconstructionSource (physical : CovePhysicalKind) :
    Except CoveError Unit :=
  match physical with
  | .boolean | .fileCode | .numCode | .fixedBytes | .varBytes => .ok ()
  | _ => .error .pageCorrupt

def validateConstantScalar (scalar : StatScalar) : Except CoveError Unit :=
  match context.physicalKind with
  | .fileCode => (validateStatsOnlyFilecodeScalar scalar context.dictionaryLen).map fun _ => ()
  | .boolean => (validateStatsOnlyBooleanScalar scalar).map fun _ => ()
  | .varBytes => (validateStatsOnlyVarbytesScalar P context.logicalType scalar).map fun _ => ()
  | .fixedBytes => do
      let width ← fixedWidthFor context.logicalType context.physicalKind
      rejectIf (scalar.bytes.length ≠ width) .pageCorrupt
      rejectIf (statScalarMatchesLogical context.logicalType scalar = false) .pageCorrupt
  | _ => rejectIf (statScalarMatchesLogical context.logicalType scalar = false) .pageCorrupt

def validateStatsOnlyConstantStat : Except CoveError StatScalar := do
  let entry ← orError .pageCorrupt context.zoneStats[page.statsRef.toNat]?
  rejectIf (context.tableId.any fun tableId => entry.tableId ≠ tableId) .pageCorrupt
  rejectIf (context.segmentId.any fun segmentId => entry.segmentId ≠ segmentId) .pageCorrupt
  rejectIf (entry.morselId ≠ page.morselId ∨ entry.columnId ≠ context.columnId ∨
    entry.stats.rowCount ≠ page.rowCount.toNat ∨ entry.stats.nullCount ≠ 0 ∨
    entry.nonNullCount ≠ page.rowCount ∨ page.nullCount ≠ 0 ∨ page.nonNullCount ≠ page.rowCount)
    .pageCorrupt
  rejectIf (entry.stats.flags.contains .constant = false ∨
    entry.stats.flags.contains .hasMinMax = false ∨
    entry.stats.flags.contains .minmaxTruncated = true) .pageCorrupt
  let min ← orError .pageCorrupt entry.stats.min
  let max ← orError .pageCorrupt entry.stats.max
  rejectIf (min.truncated ∨ max.truncated ∨ min ≠ max) .pageCorrupt
  validateConstantScalar P context min
  .ok min

def encodeConstant (value : UInt64) (rowCount : UInt32) : Bytes :=
  leBytes 8 value.toNat ++ leBytes 8 rowCount.toNat

def statsOnlyConstantValues (scalar : StatScalar) : Except CoveError Bytes :=
  match context.physicalKind with
  | .numCode => do
      let raw ← statsOnlyNumcodeBits context.logicalType scalar
      .ok (encodeConstant raw page.rowCount)
  | .fixedBytes => do
      let width ← fixedWidthFor context.logicalType context.physicalKind
      rejectIf (scalar.bytes.length ≠ width) .pageCorrupt
      repeated page.rowCount scalar.bytes
  | .boolean => do
      let value ← validateStatsOnlyBooleanScalar scalar
      .ok (replicate page.rowCount.toNat value)
  | .varBytes => do
      let bytes ← validateStatsOnlyVarbytesScalar P context.logicalType scalar
      rejectIf (2 ^ 32 ≤ bytes.length) .arithOverflow
      repeated page.rowCount (leBytes 4 bytes.length ++ bytes)
  | .fileCode => do
      let code ← validateStatsOnlyFilecodeScalar scalar context.dictionaryLen
      repeated page.rowCount (leBytes 4 code.toNat)
  | _ => .error .pageCorrupt

def statsOnlyAllNullValues : Except CoveError Bytes :=
  match context.physicalKind with
  | .numCode => .ok (encodeConstant 0 page.rowCount)
  | .varBytes => repeated page.rowCount (replicate 4 0)
  | .boolean | .fileCode | .fixedBytes => do
      let width ← fixedWidthFor context.logicalType context.physicalKind
      repeated page.rowCount (replicate width 0)
  | _ => .error .pageCorrupt

def statsOnlyMaterializedEncoding : CovePhysicalKind → CoveEncodingKind
  | .fileCode => .fileCode
  | .numCode => .constant
  | .boolean | .fixedBytes => .plainFixed
  | .varBytes => .varBytes
  | .list | .struct | .map => .canonical

def allNullBitmap (rowCount : UInt32) (len : Nat) : Bytes :=
  let bitmap := replicate len (0xff : UInt8)
  if rowCount.toNat % 8 ≠ 0 ∧ bitmap ≠ [] then
    bitmap.set (len - 1) (UInt8.ofNat (2 ^ (rowCount.toNat % 8) - 1))
  else bitmap

def materializeAllNonNull : Except CoveError Bytes := do
  validateStatsOnlyAllNonNullReconstructionSource context.physicalKind
  let scalar ← validateStatsOnlyConstantStat P context page
  let values ← statsOnlyConstantValues P context page scalar
  ColumnPagePayloadV1.buildSingleNode crc32c page.rowCount
    (statsOnlyMaterializedEncoding context.physicalKind) context.logicalType context.physicalKind none
    values

def materializeAllNull : Except CoveError Bytes := do
  let len ← bitmapLen page.rowCount
  let values ← statsOnlyAllNullValues context page
  ColumnPagePayloadV1.buildSingleNode crc32c page.rowCount
    (statsOnlyMaterializedEncoding context.physicalKind) context.logicalType context.physicalKind
    (some (allNullBitmap page.rowCount len)) values

def materializeStatsOnlyConstantPagePayload : Except CoveError Bytes := do
  let codec ← pageFlagCodec page.flags
  rejectIf (codec ≠ .none ∨ page.pageOffset ≠ 0 ∨ page.pageLength ≠ 0 ∨ page.uncompressedLength ≠ 0 ∨
    page.encodingRoot.toNat ≠ 2 ^ 32 - 1 ∨ page.checksum ≠ crc32c []) .pageCorrupt
  if page.flags &&& pageFlagAllNonNull ≠ 0 then materializeAllNonNull P crc32c context page
  else if page.flags &&& pageFlagAllNull ≠ 0 then materializeAllNull crc32c context page
  else .error .pageCorrupt

end

end CoveFormat.StatsOnlyPages
