import CoveFormat.CoveError

namespace CoveFormat.Temporal

inductive RecordKind
  | delta
  | snapshot
  | reservedLegacyMaterializedDelta
  | baseline
  | tombstone
  deriving DecidableEq

/-- `RecordKind as u8`. -/
def recordKindByte : RecordKind → UInt8
  | .delta => 0
  | .snapshot => 1
  | .reservedLegacyMaterializedDelta => 2
  | .baseline => 3
  | .tombstone => 4

theorem recordKindByte_inj {a b : RecordKind} (h : recordKindByte a = recordKindByte b) : a = b := by
  cases a <;> cases b <;> first | rfl | cases h

/-- A `[u8; 16]` read as a big-endian number, so that the order of the bytes is
the order of the numbers. -/
abbrev Id16 := Nat

structure CoveRecordRefV1 where
  (segmentId rowIndex targetKind : Nat)
  deriving DecidableEq

structure TemporalRowEntryV1 where
  timestampUs : Int
  (csn branchKey : Nat)
  (goid recordId : Id16)
  recordKind : RecordKind
  prevRef : Option CoveRecordRefV1
  deriving DecidableEq

structure TemporalSegmentHeaderV1 where
  (segmentId objectTypeId : Nat)
  (timeRangeStartUs timeRangeEndUs : Int)
  (csnMin csnMax : Nat)

/-- The header and the row directory; the property columns are read apart. -/
structure TemporalSegmentData where
  header : TemporalSegmentHeaderV1
  rows : List TemporalRowEntryV1

end CoveFormat.Temporal

namespace CoveFormat.CoveTypes

inductive CoveLogicalType
  | null
  | bool
  | int8
  | int16
  | int32
  | int64
  | uint8
  | uint16
  | uint32
  | uint64
  | float32
  | float64
  | decimal64
  | decimal128
  | dateDays
  | timestampMicros
  | timestampNanos
  | utf8
  | binary
  | uuid
  | json
  | list
  | struct
  | map
  deriving DecidableEq

def CoveLogicalType.fromU16 : Nat → Option CoveLogicalType
  | 0 => some null
  | 1 => some bool
  | 2 => some int8
  | 3 => some int16
  | 4 => some int32
  | 5 => some int64
  | 6 => some uint8
  | 7 => some uint16
  | 8 => some uint32
  | 9 => some uint64
  | 10 => some float32
  | 11 => some float64
  | 12 => some decimal64
  | 13 => some decimal128
  | 14 => some dateDays
  | 15 => some timestampMicros
  | 16 => some timestampNanos
  | 17 => some utf8
  | 18 => some binary
  | 19 => some uuid
  | 20 => some json
  | 21 => some list
  | 22 => some struct
  | 23 => some map
  | _ => none

inductive CovePhysicalKind
  | fileCode
  | numCode
  | boolean
  | fixedBytes
  | varBytes
  | list
  | struct
  | map
  deriving DecidableEq

inductive DigestAlgorithm
  | none
  | sha256
  | blake3
  deriving DecidableEq

def DigestAlgorithm.fromU16 : Nat → Option DigestAlgorithm
  | 0 => some none
  | 1 => some sha256
  | 2 => some blake3
  | _ => Option.none

end CoveFormat.CoveTypes
