import CoveFormat.CanonicalIdentity
import CoveFormat.PreparedArrays
import CoveFormat.PropertyValues
import CoveFormat.StatsOnlyPages

namespace CoveFormat.TrustPayloads

open ByteCodes EncodedArrays ExceptRules FixedFields PagePayloads SortedKeys StatsOnlyPages
  ValidityBitmaps
open Canonical (CanonicalValue TextPredicates ValueTag)
open CoveTypes (CoveLogicalType CovePhysicalKind)
open CanonicalIdentity (asciiText)
open PreparedArrays (prepare)
open PropertyValues (debugText)
open Temporal (RecordKind recordKindByte recordKindByte_inj)
open TransformPayloads (transforms)

/-! Temporal rows with their property columns, at the widths that their images are written with. -/

structure CoveRecordRefV1 where
  (segmentId rowIndex : UInt32)
  targetKind : UInt8

structure TemporalRowEntryV1 where
  timestampUs : Int64
  (csn branchKey : UInt64)
  (goid recordId : Vector UInt8 16)
  recordKind : RecordKind
  prevRef : Option CoveRecordRefV1

/-- The fields of a column's directory entry that its values are read by. -/
structure TableColumnDirectoryEntryV1 where
  columnId : UInt32
  logicalType : CoveLogicalType
  physicalKind : CovePhysicalKind

structure TemporalPropertyPage where
  indexEntry : ColumnPageIndexEntryV1
  payload : Option ColumnPagePayloadV1

structure TemporalPropertyColumn where
  directory : TableColumnDirectoryEntryV1
  pages : List TemporalPropertyPage

structure TemporalSegmentData where
  (segmentId morselRowCount : UInt32)
  rows : List TemporalRowEntryV1
  propertyColumns : List TemporalPropertyColumn

namespace TemporalRowEntryV1

def prevRefFields : Option CoveRecordRefV1 → Fields
  | none => [(1, 0), (1, 0), (1, 0), (4, 0), (4, 0), (4, 0)]
  | some prevRef =>
    [(1, 1), (1, prevRef.targetKind.toNat), (1, 0), (4, prevRef.segmentId.toNat),
      (4, prevRef.rowIndex.toNat), (4, 0)]

def fields (row : TemporalRowEntryV1) : Fields :=
  [(8, row.timestampUs.toUInt64.toNat), (8, row.csn.toNat), (8, row.branchKey.toNat),
    (16, leNat row.goid.toList), (16, leNat row.recordId.toList),
      (1, (recordKindByte row.recordKind).toNat)] ++
    prevRefFields row.prevRef

def serialize (row : TemporalRowEntryV1) : Bytes := encodeFields row.fields

def trustPayload (row : TemporalRowEntryV1) : Bytes := row.serialize

end TemporalRowEntryV1

/-! Canonical values. -/

structure TrustDictionary where
  len : UInt32
  canonicalEntry : UInt32 → Except CoveError (ValueTag × Bytes)

def redactedError : CoveError :=
  .unsupportedEncoding "trust verification cannot hash redacted dictionary payload bytes"

def boolTag (value : Bool) : ValueTag × Bytes := (if value then .boolTrue else .boolFalse, [])

def canonicalForI64 (logical : CoveLogicalType) (value : Int64) : Except CoveError (ValueTag × Bytes) :=
  let bytes := leBytes 8 value.toUInt64.toNat
  match logical with
  | .int8 | .int16 | .int32 | .int64 => .ok (.int64, bytes)
  | .timestampMicros => .ok (.timestampMicros, bytes)
  | .timestampNanos => .ok (.timestampNanos, bytes)
  | .decimal64 => .ok (.decimal64, bytes)
  | .dateDays => do
      rejectIf (value.toInt < -2 ^ 31 ∨ 2 ^ 31 ≤ value.toInt) .pageCorrupt
      .ok (.dateDays, leBytes 4 (unsigned 32 value.toInt))
  | _ => .error (.unsupportedEncoding
      ("cannot canonicalize signed trust value for " ++ debugText logical))

/-- The low `w` bits of a number code as a signed number. -/
def numcodeSigned (w : Nat) (value : UInt64) : Int64 := Int64.ofInt (signed w value.toNat)

def canonicalForU64 (logical : CoveLogicalType) (physical : CovePhysicalKind) (value : UInt64) :
    Except CoveError (ValueTag × Bytes) :=
  if physical = .boolean ∨ logical = .bool then
    match value.toNat with
    | 0 => .ok (boolTag false)
    | 1 => .ok (boolTag true)
    | _ => .error .pageCorrupt
  else
    match logical with
    | .int8 => canonicalForI64 logical (numcodeSigned 8 value)
    | .int16 => canonicalForI64 logical (numcodeSigned 16 value)
    | .int32 => canonicalForI64 logical (numcodeSigned 32 value)
    | .int64 | .decimal64 | .timestampMicros | .timestampNanos => canonicalForI64 logical value.toInt64
    | .uint8 => .ok (.uint64, leBytes 8 (value.toNat % 2 ^ 8))
    | .uint16 => .ok (.uint64, leBytes 8 (value.toNat % 2 ^ 16))
    | .uint32 => .ok (.uint64, leBytes 8 (value.toNat % 2 ^ 32))
    | .uint64 => .ok (.uint64, leBytes 8 value.toNat)
    | .float32 => .ok (.float32Bits, leBytes 4 (value.toNat % 2 ^ 32))
    | .float64 => .ok (.float64Bits, leBytes 8 value.toNat)
    | .dateDays => .ok (.dateDays, leBytes 4 (value.toNat % 2 ^ 32))
    | _ => .error (.unsupportedEncoding
        ("cannot canonicalize numeric trust value for " ++ debugText logical))

def readFixed (n : Nat) (bytes : Bytes) : Except CoveError Bytes := do
  rejectIf (bytes.length ≠ n) .pageCorrupt
  .ok bytes

def valueTagForLogical : CoveLogicalType → Except CoveError ValueTag
  | .null => .ok .null
  | .bool => .error .badFileCode
  | .int8 | .int16 | .int32 | .int64 => .ok .int64
  | .uint8 | .uint16 | .uint32 | .uint64 => .ok .uint64
  | .float32 => .ok .float32Bits
  | .float64 => .ok .float64Bits
  | .decimal64 => .ok .decimal64
  | .decimal128 => .ok .decimal128
  | .dateDays => .ok .dateDays
  | .timestampMicros => .ok .timestampMicros
  | .timestampNanos => .ok .timestampNanos
  | .utf8 => .ok .utf8
  | .binary => .ok .binary
  | .uuid => .ok .uuid
  | .json => .ok .json
  | .list => .ok .list
  | .struct => .ok .struct
  | .map => .ok .map

def fixedTagged (tag : ValueTag) (n : Nat) (bytes : Bytes) : Except CoveError (ValueTag × Bytes) := do
  let fixed ← readFixed n bytes
  .ok (tag, fixed)

/-- An integer of `n` bytes as one of eight, with its sign. -/
def signedTagged (n : Nat) (bytes : Bytes) : Except CoveError (ValueTag × Bytes) := do
  let fixed ← readFixed n bytes
  .ok (.int64, leBytes 8 (unsigned 64 (signed (8 * n) (leNat fixed))))

def unsignedTagged (n : Nat) (bytes : Bytes) : Except CoveError (ValueTag × Bytes) := do
  let fixed ← readFixed n bytes
  .ok (.uint64, leBytes 8 (leNat fixed))

variable (P : TextPredicates)

def textTagged (tag : ValueTag) (value : Canonical.Str P → CanonicalValue P) (bytes : Bytes) :
    Except CoveError (ValueTag × Bytes) :=
  if h : P.utf8Valid bytes = true then (Canonical.encode (value ⟨bytes, h⟩)).map fun x => (tag, x)
  else .error .pageCorrupt

def canonicalForRawBytes (logical : CoveLogicalType) (physical : CovePhysicalKind) (bytes : Bytes) :
    Except CoveError (ValueTag × Bytes) :=
  if physical = .boolean ∨ logical = .bool then
    match bytes with
    | [0] => .ok (boolTag false)
    | [1] => .ok (boolTag true)
    | _ => .error .pageCorrupt
  else
    match logical with
    | .int8 => signedTagged 1 bytes
    | .int16 => signedTagged 2 bytes
    | .int32 => signedTagged 4 bytes
    | .int64 => signedTagged 8 bytes
    | .uint8 => unsignedTagged 1 bytes
    | .uint16 => unsignedTagged 2 bytes
    | .uint32 => unsignedTagged 4 bytes
    | .uint64 => unsignedTagged 8 bytes
    | .bool =>
      match bytes with
      | [0] => .ok (boolTag false)
      | [1] => .ok (boolTag true)
      | _ => .error .pageCorrupt
    | .float32 => fixedTagged .float32Bits 4 bytes
    | .float64 => fixedTagged .float64Bits 8 bytes
    | .decimal64 => fixedTagged .decimal64 8 bytes
    | .decimal128 => fixedTagged .decimal128 16 bytes
    | .dateDays => fixedTagged .dateDays 4 bytes
    | .timestampMicros => fixedTagged .timestampMicros 8 bytes
    | .timestampNanos => fixedTagged .timestampNanos 8 bytes
    | .uuid => fixedTagged .uuid 16 bytes
    | .utf8 => textTagged P .utf8 .utf8 bytes
    | .binary => (Canonical.encode (P := P) (.bytes bytes)).map fun x => (.binary, x)
    | .json => textTagged P .json .json bytes
    | .null => .ok (.null, [])
    | .list | .struct | .map => (valueTagForLogical logical).map fun tag => (tag, bytes)

def canonicalForArrayValue (logical : CoveLogicalType) (physical : CovePhysicalKind)
    (value : CoveArrayValue) (dictionary : Option TrustDictionary) :
    Except CoveError (ValueTag × Bytes) :=
  match value with
  | .null => .ok (.null, [])
  | .fileCode code => do
      let dictionary ← orError .badFileCode dictionary
      dictionary.canonicalEntry code
  | .dictValue (.rawBytes bytes) => (valueTagForLogical logical).map fun tag => (tag, bytes)
  | .dictValue .redactedPresent => .error redactedError
  | .boolean value | .validityBit value => .ok (boolTag value)
  | .numCode value | .varint value => canonicalForU64 logical physical value
  | .int64 value => canonicalForI64 logical value
  | .bytes bytes | .ownedBytes bytes => canonicalForRawBytes P logical physical bytes

/-! Payloads of rows. -/

structure PropertyTuple where
  columnId : UInt32
  logicalType : CoveLogicalType
  physicalKind : CovePhysicalKind
  valueTag : ValueTag
  canonical : Bytes

namespace PropertyTuple

def fields (tuple : PropertyTuple) : Fields :=
  [(4, tuple.columnId.toNat), (2, (logicalTypeCode tuple.logicalType).toNat),
    (1, (physicalKindCode tuple.physicalKind).toNat), (2, tuple.valueTag.code), (8, tuple.canonical.length)]

def image (tuple : PropertyTuple) : Bytes := encodeFields tuple.fields ++ tuple.canonical

end PropertyTuple

/-- `ValidityBitmap::validate_len`. -/
def validateLen (bytes : Bytes) (rowCount : UInt64) : Except CoveError Unit := do
  rejectIf (2 ^ 64 ≤ rowCount.toNat + 7) .arithOverflow
  rejectIf (bytes.length < (rowCount.toNat + 7) / 8) .bufferTooShort

section

-- The CRC32C of the checksum package, and the decoders of the transform encodings.
variable (crc32c : Bytes → UInt32) (lib : TransformDecoders) (segment : TemporalSegmentData)
  (rowIndex : UInt32) (zoneStats : List ZoneStatsEntry)

/-- The payload of a page, rebuilt where it was left out. -/
def pagePayload (column : TemporalPropertyColumn) (page : TemporalPropertyPage)
    (dictionaryLen : Option UInt32) : Except CoveError ColumnPagePayloadV1 :=
  match page.payload with
  | some payload => .ok payload
  | none => do
      let bytes ← materializeStatsOnlyConstantPagePayload P crc32c
        ⟨none, some segment.segmentId, column.directory.columnId, column.directory.logicalType,
          column.directory.physicalKind, dictionaryLen, zoneStats⟩ page.indexEntry
      ColumnPagePayloadV1.parse crc32c bytes

def pageArray (column : TemporalPropertyColumn) (page : TemporalPropertyPage)
    (payload : ColumnPagePayloadV1) : Except CoveError EncodedArray := do
  let root ← payload.rootNode
  let nullBitmap ← payload.bufferBytes .nullBitmap
  let rowCount := page.indexEntry.rowCount.toUInt64
  whenever nullBitmap.isSome (validateLen (nullBitmap.getD []) rowCount)
  let values ← payload.bufferBytes .values
  .ok ⟨column.directory.logicalType, column.directory.physicalKind, rowCount, root.encodingKind,
    nullBitmap.map fun bytes => ⟨bytes, rowCount⟩, values.getD [], none⟩

def morselRow : Except CoveError (UInt32 × Nat) := do
  rejectIf (segment.morselRowCount = 0) .segmentCorrupt
  let morselId := rowIndex / segment.morselRowCount
  rejectIf (2 ^ 32 ≤ morselId.toNat * segment.morselRowCount.toNat) .arithOverflow
  let firstRow := morselId.toNat * segment.morselRowCount.toNat
  rejectIf (rowIndex.toNat < firstRow) .segmentCorrupt
  .ok (morselId, rowIndex.toNat - firstRow)

def pageOfMorsel (pages : List TemporalPropertyPage) (morselId : UInt32) : Option TemporalPropertyPage :=
  pages.find? fun page => page.indexEntry.morselId = morselId

def arrayValueForRow (dictionaryLen : Option UInt32) (column : TemporalPropertyColumn) :
    Except CoveError CoveArrayValue := do
  let place ← morselRow segment rowIndex
  let page ← orError .pageCorrupt (pageOfMorsel column.pages place.1)
  let payload ← pagePayload P crc32c segment zoneStats column page dictionaryLen
  let array ← pageArray column page payload
  let prepared ← prepare lib array
  prepared.decodeRow lib place.2

variable (dictionary : Option TrustDictionary)

def propertyValueForRow (column : TemporalPropertyColumn) : Except CoveError (ValueTag × Bytes) := do
  let value ← arrayValueForRow P crc32c lib segment rowIndex zoneStats
    (dictionary.map TrustDictionary.len) column
  canonicalForArrayValue P column.directory.logicalType column.directory.physicalKind value dictionary

def propertyTuple (column : TemporalPropertyColumn) : Except CoveError PropertyTuple := do
  let value ← propertyValueForRow P crc32c lib segment rowIndex zoneStats dictionary column
  .ok ⟨column.directory.columnId, column.directory.logicalType, column.directory.physicalKind, value.1,
    value.2⟩

def propertyImage (column : TemporalPropertyColumn) : Except CoveError Bytes := do
  let tuple ← propertyTuple P crc32c lib segment rowIndex zoneStats dictionary column
  rejectIf (2 ^ 64 ≤ tuple.canonical.length) .arithOverflow
  .ok tuple.image

def sortedColumns : List TemporalPropertyColumn :=
  sortByKey (fun column => column.directory.columnId.toNat) segment.propertyColumns

def propertyTuples : Except CoveError (List PropertyTuple) :=
  (sortedColumns segment).mapM (propertyTuple P crc32c lib segment rowIndex zoneStats dictionary)

def trustPropsLabel : Bytes :=
  [67, 79, 86, 69, 45, 79, 45, 84, 82, 85, 83, 84, 45, 80, 82, 79, 80, 83, 45, 86, 49, 0]

def propertyPayload : Except CoveError Bytes := do
  rejectIf (2 ^ 32 ≤ segment.propertyColumns.length) (.badSchema "too many temporal property columns")
  let images ← (sortedColumns segment).mapM
    (propertyImage P crc32c lib segment rowIndex zoneStats dictionary)
  .ok (trustPropsLabel ++ leBytes 4 segment.propertyColumns.length ++ images.flatten)

def temporalRowTrustPayload : Except CoveError Bytes := do
  let row ← orError .refInvalid segment.rows[rowIndex.toNat]?
  if segment.propertyColumns.isEmpty then .ok row.trustPayload
  else (propertyPayload P crc32c lib segment rowIndex zoneStats dictionary).map (row.trustPayload ++ ·)

end

/-! Rows and properties are read back from their images. -/

namespace TemporalRowEntryV1

variable {row row' : TemporalRowEntryV1}

theorem widths_fields (row : TemporalRowEntryV1) :
    row.fields.map Prod.fst = [8, 8, 8, 16, 16, 1, 1, 1, 1, 4, 4, 4] := by
  rw [fields]
  cases row.prevRef <;> rfl

theorem fit_prevRefFields (prevRef : Option CoveRecordRefV1) : Fit (prevRefFields prevRef) := by
  cases prevRef with
  | none =>
    intro f hf
    simp only [prevRefFields, List.mem_cons, List.not_mem_nil, or_false] at hf
    rcases hf with rfl | rfl | rfl | rfl | rfl | rfl <;> decide
  | some prevRef =>
    have htarget := prevRef.targetKind.toNat_lt
    have hsegment := prevRef.segmentId.toNat_lt
    have hrow := prevRef.rowIndex.toNat_lt
    intro f hf
    simp only [prevRefFields, List.mem_cons, List.not_mem_nil, or_false] at hf
    rcases hf with rfl | rfl | rfl | rfl | rfl | rfl <;> dsimp only <;> omega

theorem leNat_vector_lt (id : Vector UInt8 16) : leNat id.toList < 256 ^ 16 := by
  have h := leNat_lt id.toList
  rwa [Vector.length_toList] at h

theorem fit_fields (row : TemporalRowEntryV1) : Fit row.fields := by
  have htimestamp := row.timestampUs.toUInt64.toNat_lt
  have hcsn := row.csn.toNat_lt
  have hbranch := row.branchKey.toNat_lt
  have hgoid := leNat_vector_lt row.goid
  have hrecord := leNat_vector_lt row.recordId
  have hkind := (recordKindByte row.recordKind).toNat_lt
  intro f hf
  rw [fields, List.mem_append] at hf
  rcases hf with hf | hf
  · simp only [List.mem_cons, List.not_mem_nil, or_false] at hf
    rcases hf with rfl | rfl | rfl | rfl | rfl | rfl
    · exact htimestamp
    · exact hcsn
    · exact hbranch
    · exact hgoid
    · exact hrecord
    · exact hkind
  · exact fit_prevRefFields row.prevRef f hf

theorem prevRefFields_inj {prevRef prevRef' : Option CoveRecordRefV1}
    (h : prevRefFields prevRef = prevRefFields prevRef') : prevRef = prevRef' := by
  cases prevRef with
  | none =>
    cases prevRef' with
    | none => rfl
    | some prevRef' => simp [prevRefFields] at h
  | some prevRef =>
    cases prevRef' with
    | none => simp [prevRefFields] at h
    | some prevRef' =>
      simp only [prevRefFields, List.cons.injEq, Prod.mk.injEq, true_and, and_true, UInt8.toNat_inj,
        UInt32.toNat_inj] at h
      cases prevRef
      cases prevRef'
      simp_all

theorem leNat_vector_inj {id id' : Vector UInt8 16} (h : leNat id.toList = leNat id'.toList) : id = id' := by
  have hbytes := congrArg (leBytes 16) h
  have hid := leBytes_leNat id.toList
  have hid' := leBytes_leNat id'.toList
  rw [Vector.length_toList] at hid hid'
  rw [hid, hid'] at hbytes
  exact Vector.toList_inj.mp hbytes

theorem fields_inj (h : row.fields = row'.fields) : row = row' := by
  obtain ⟨hfront, hprev⟩ := List.append_inj h rfl
  simp only [List.cons.injEq, Prod.mk.injEq, true_and, and_true, UInt8.toNat_inj, UInt64.toNat_inj]
    at hfront
  obtain ⟨htimestamp, hcsn, hbranch, hgoid, hrecord, hkind⟩ := hfront
  have htimestamp := congrArg UInt64.toInt64 htimestamp
  rw [Int64.toInt64_toUInt64, Int64.toInt64_toUInt64] at htimestamp
  have hgoid := leNat_vector_inj hgoid
  have hrecord := leNat_vector_inj hrecord
  have hkind := recordKindByte_inj hkind
  have hprev := prevRefFields_inj hprev
  cases row
  cases row'
  simp_all

theorem serialize_cancel {rest rest' : Bytes} (h : row.serialize ++ rest = row'.serialize ++ rest') :
    row = row' ∧ rest = rest' := by
  have hwidths : row.fields.map Prod.fst = row'.fields.map Prod.fst := by
    rw [widths_fields, widths_fields]
  obtain ⟨hfields, hrest⟩ := encodeFields_cancel hwidths (fit_fields row) (fit_fields row') h
  exact ⟨fields_inj hfields, hrest⟩

end TemporalRowEntryV1

namespace PropertyTuple

variable {tuple tuple' : PropertyTuple}

section

variable (hlen : tuple.canonical.length < 2 ^ 64)
include hlen

theorem fit_fields : Fit tuple.fields := by
  have hcolumn := tuple.columnId.toNat_lt
  have hlogical := (logicalTypeCode tuple.logicalType).toNat_lt
  have hphysical := (physicalKindCode tuple.physicalKind).toNat_lt
  have htag := Canonical.code_lt tuple.valueTag
  intro f hf
  simp only [fields, List.mem_cons, List.not_mem_nil, or_false] at hf
  rcases hf with rfl | rfl | rfl | rfl | rfl <;> dsimp only <;> omega

theorem image_cancel {rest rest' : Bytes} (hlen' : tuple'.canonical.length < 2 ^ 64)
    (h : tuple.image ++ rest = tuple'.image ++ rest') : tuple = tuple' ∧ rest = rest' := by
  have hwidths : tuple.fields.map Prod.fst = tuple'.fields.map Prod.fst := rfl
  obtain ⟨hfields, hrest⟩ := encodeFields_cancel hwidths (fit_fields hlen) (fit_fields hlen') h
  simp only [fields, List.cons.injEq, Prod.mk.injEq, true_and, and_true, UInt8.toNat_inj,
    UInt16.toNat_inj, UInt32.toNat_inj] at hfields
  obtain ⟨hcolumn, hlogical, hphysical, htag, hlength⟩ := hfields
  obtain ⟨hcanonical, hrest⟩ := List.append_inj hrest hlength
  refine ⟨?_, hrest⟩
  have hlogical := logicalTypeCode_inj hlogical
  have hphysical := physicalKindCode_inj hphysical
  have htag := Canonical.code_inj htag
  cases tuple
  cases tuple'
  simp_all

end

theorem image_ne_nil (tuple : PropertyTuple) : tuple.image ≠ [] := by
  have hlength : tuple.image.length = 17 + tuple.canonical.length := by
    rw [image, List.length_append, encodeFields_length]
    rfl
  intro h
  rw [h, List.length_nil] at hlength
  omega

theorem images_inj {tuples tuples' : List PropertyTuple}
    (hlen : ∀ tuple ∈ tuples, tuple.canonical.length < 2 ^ 64)
    (hlen' : ∀ tuple ∈ tuples', tuple.canonical.length < 2 ^ 64)
    (h : tuples.flatMap image = tuples'.flatMap image) : tuples = tuples' := by
  induction tuples generalizing tuples' with
  | nil =>
    cases tuples' with
    | nil => rfl
    | cons tuple' tuples' =>
      exact absurd (List.append_eq_nil_iff.mp h.symm).1 (image_ne_nil tuple')
  | cons tuple tuples ih =>
    cases tuples' with
    | nil =>
      exact absurd (List.append_eq_nil_iff.mp h).1 (image_ne_nil tuple)
    | cons tuple' tuples' =>
      obtain ⟨hhead, htail⟩ := List.forall_mem_cons.mp hlen
      obtain ⟨hhead', htail'⟩ := List.forall_mem_cons.mp hlen'
      obtain ⟨rfl, hrest⟩ := image_cancel hhead hhead' h
      rw [ih htail htail' hrest]

end PropertyTuple

/-! What a payload holds. -/

section

variable {P : TextPredicates} {crc32c : Bytes → UInt32} {lib : TransformDecoders}
  {segment : TemporalSegmentData} {rowIndex : UInt32} {zoneStats : List ZoneStatsEntry}
  {dictionary : Option TrustDictionary} {payload : Bytes}

def propertiesImage (tuples : List PropertyTuple) : Bytes :=
  if tuples.isEmpty then []
  else trustPropsLabel ++ leBytes 4 tuples.length ++ tuples.flatMap PropertyTuple.image

theorem propertyImage_ok_iff {column : TemporalPropertyColumn} {image : Bytes} :
    propertyImage P crc32c lib segment rowIndex zoneStats dictionary column = .ok image ↔
      ∃ tuple, propertyTuple P crc32c lib segment rowIndex zoneStats dictionary column = .ok tuple ∧
        tuple.canonical.length < 2 ^ 64 ∧ image = tuple.image := by
  rw [propertyImage, andThen_eq_ok_iff]
  refine exists_congr fun tuple => and_congr_right fun _ => ?_
  rw [andThen_eq_ok_iff]
  constructor
  · rintro ⟨⟨⟩, hlen, himage⟩
    exact ⟨Nat.lt_of_not_le (of_rejectIf hlen), (Except.ok.inj himage).symm⟩
  · rintro ⟨hlen, rfl⟩
    exact ⟨(), rejectIf_ok (Nat.not_le.mpr hlen), rfl⟩

theorem propertyImages_ok {columns : List TemporalPropertyColumn} {images : List Bytes}
    (h : columns.mapM (propertyImage P crc32c lib segment rowIndex zoneStats dictionary) = .ok images) :
    ∃ tuples, columns.mapM (propertyTuple P crc32c lib segment rowIndex zoneStats dictionary) =
        .ok tuples ∧
      (∀ tuple ∈ tuples, tuple.canonical.length < 2 ^ 64) ∧
      images.flatten = tuples.flatMap PropertyTuple.image ∧ tuples.length = columns.length := by
  induction columns generalizing images with
  | nil =>
    cases h
    exact ⟨[], rfl, List.forall_mem_nil _, rfl, rfl⟩
  | cons column columns ih =>
    rw [List.mapM_cons] at h
    obtain ⟨image, himage, h⟩ := of_andThen h
    obtain ⟨images, himages, h⟩ := of_andThen h
    cases h
    obtain ⟨tuple, htuple, hlen, rfl⟩ := propertyImage_ok_iff.mp himage
    obtain ⟨tuples, htuples, hlens, hflatten, hlength⟩ := ih himages
    refine ⟨tuple :: tuples, ?_, List.forall_mem_cons.mpr ⟨hlen, hlens⟩, ?_, ?_⟩
    · rw [List.mapM_cons, htuple, htuples]
      rfl
    · rw [List.flatten_cons, hflatten, List.flatMap_cons]
    · rw [List.length_cons, List.length_cons, hlength]

theorem length_sortedColumns : (sortedColumns segment).length = segment.propertyColumns.length :=
  (sortByKey_perm _ _).length_eq

theorem trustPayload_ok
    (h : temporalRowTrustPayload P crc32c lib segment rowIndex zoneStats dictionary = .ok payload) :
    ∃ row tuples, segment.rows[rowIndex.toNat]? = some row ∧
      propertyTuples P crc32c lib segment rowIndex zoneStats dictionary = .ok tuples ∧
      (∀ tuple ∈ tuples, tuple.canonical.length < 2 ^ 64) ∧ tuples.length < 2 ^ 32 ∧
      payload = row.serialize ++ propertiesImage tuples := by
  obtain ⟨row, hrow, h⟩ := of_andThen h
  have hrow := orError_ok_iff.mp hrow
  by_cases hempty : segment.propertyColumns.isEmpty = true
  · rw [if_pos hempty] at h
    cases h
    have hsorted : sortedColumns segment = [] := by
      rw [List.isEmpty_iff] at hempty
      rw [sortedColumns, hempty]
      rfl
    refine ⟨row, [], hrow, ?_, List.forall_mem_nil _, by decide, (List.append_nil _).symm⟩
    rw [propertyTuples, hsorted]
    rfl
  · rw [if_neg hempty] at h
    obtain ⟨properties, hproperties, rfl⟩ := map_eq_ok_iff.mp h
    obtain ⟨hcount, hproperties⟩ := of_check hproperties
    obtain ⟨images, himages, hproperties⟩ := of_andThen hproperties
    cases hproperties
    obtain ⟨tuples, htuples, hlens, hflatten, hlength⟩ := propertyImages_ok himages
    have hcount := of_rejectIf hcount
    rw [length_sortedColumns] at hlength
    have hne : ¬ tuples.isEmpty = true := by
      rw [List.isEmpty_iff, ← List.length_eq_zero_iff] at hempty ⊢
      rwa [hlength]
    refine ⟨row, tuples, hrow, htuples, hlens, by omega, ?_⟩
    rw [propertiesImage, if_neg hne, hlength, ← hflatten]
    rfl

theorem propertiesImage_inj {tuples tuples' : List PropertyTuple}
    (hlen : ∀ tuple ∈ tuples, tuple.canonical.length < 2 ^ 64)
    (hlen' : ∀ tuple ∈ tuples', tuple.canonical.length < 2 ^ 64)
    (h : propertiesImage tuples = propertiesImage tuples') : tuples = tuples' := by
  have hlabel (n : Nat) (rest : Bytes) : trustPropsLabel ++ leBytes 4 n ++ rest ≠ [] := nofun
  rw [propertiesImage, propertiesImage] at h
  by_cases hempty : tuples.isEmpty = true
  · by_cases hempty' : tuples'.isEmpty = true
    · rw [List.isEmpty_iff.mp hempty, List.isEmpty_iff.mp hempty']
    · rw [if_pos hempty, if_neg hempty'] at h
      exact absurd h.symm (hlabel _ _)
  · by_cases hempty' : tuples'.isEmpty = true
    · rw [if_neg hempty, if_pos hempty'] at h
      exact absurd h (hlabel _ _)
    · rw [if_neg hempty, if_neg hempty'] at h
      have hlength : (trustPropsLabel ++ leBytes 4 tuples.length).length =
          (trustPropsLabel ++ leBytes 4 tuples'.length).length := by
        simp
      exact PropertyTuple.images_inj hlen hlen' (List.append_inj h hlength).2

end

/-! File codes under another dictionary. -/

def renamed (rename : UInt32 → UInt32) : CoveArrayValue → CoveArrayValue
  | .fileCode code => .fileCode (rename code)
  | value => value

def canonicalEntryIn (dictionary : Option TrustDictionary) (code : UInt32) :
    Except CoveError (ValueTag × Bytes) := do
  let dictionary ← orError .badFileCode dictionary
  dictionary.canonicalEntry code

/-- The second segment has the rows and the values of the first, with the file codes permuted as
the entries of its dictionary are, in whatever encodings the pages of the two are. -/
structure Recoded (P : TextPredicates) (crc32c : Bytes → UInt32) (lib : TransformDecoders)
    (rename : Equiv.Perm UInt32) (segment : TemporalSegmentData) (zoneStats : List ZoneStatsEntry)
    (dictionary : Option TrustDictionary) (segment' : TemporalSegmentData)
    (zoneStats' : List ZoneStatsEntry) (dictionary' : Option TrustDictionary) : Prop where
  rows : segment'.rows = segment.rows
  columns : List.Forall₂ (fun column column' => column.directory = column'.directory ∧
    ∀ rowIndex, arrayValueForRow P crc32c lib segment' rowIndex zoneStats'
        (dictionary'.map TrustDictionary.len) column' =
      (arrayValueForRow P crc32c lib segment rowIndex zoneStats (dictionary.map TrustDictionary.len)
        column).map (renamed rename)) segment.propertyColumns segment'.propertyColumns
  entries : ∀ code, canonicalEntryIn dictionary' (rename code) = canonicalEntryIn dictionary code

/-! Pages that hold file codes of four bytes. -/

def fileCodeBytes (codes : List UInt32) : Bytes := codes.flatMap fun code => leBytes 4 code.toNat

def fileCodePage (logical : CoveLogicalType) (physical : CovePhysicalKind) (rowCount : UInt64)
    (validity : Option ValidityBitmap) (codes : List UInt32) : EncodedArray where
  logical := logical
  physical := physical
  rowCount := rowCount
  encoding := .fileCode
  validity := validity
  data := fileCodeBytes codes
  dictionary := none

theorem length_fileCodeBytes (codes : List UInt32) : (fileCodeBytes codes).length = codes.length * 4 :=
  length_flatMap_const (fun _ => leBytes_length 4 _) codes

theorem take_drop_fileCodeBytes {codes : List UInt32} {row : Nat} (h : row < codes.length) :
    ((fileCodeBytes codes).drop (row * 4)).take 4 = leBytes 4 codes[row].toNat := by
  have hslice := slice_flatMap_const (fun code : UInt32 => leBytes_length 4 code.toNat)
    (List.getElem?_eq_getElem h) []
  rwa [List.append_nil] at hslice

def codeAt (codes : List UInt32) (row : Nat) : Except CoveError UInt32 := do
  rejectIf (2 ^ 64 ≤ row * 4) .arithOverflow
  rejectIf (2 ^ 64 ≤ row * 4 + 4) .arithOverflow
  orError .offsetRange codes[row]?

theorem codeAt_map (rename : UInt32 → UInt32) (codes : List UInt32) (row : Nat) :
    codeAt (codes.map rename) row = (codeAt codes row).map rename := by
  rw [codeAt, codeAt, List.getElem?_map]
  by_cases hstart : 2 ^ 64 ≤ row * 4
  · rw [rejectIf, if_pos hstart]
    rfl
  · by_cases hstop : 2 ^ 64 ≤ row * 4 + 4
    · rw [rejectIf, if_neg hstart, rejectIf, if_pos hstop]
      rfl
    · rw [rejectIf, if_neg hstart, rejectIf, if_neg hstop]
      cases codes[row]? <;> rfl

section

variable {lib : TransformDecoders} {rename : UInt32 → UInt32} {logical : CoveLogicalType}
  {physical : CovePhysicalKind} {rowCount : UInt64} {validity : Option ValidityBitmap}
  {codes : List UInt32} {row : Nat}

theorem rowSlice_fileCodePage :
    (fileCodePage logical physical rowCount validity codes).rowSlice row 4 =
      (codeAt codes row).map fun code => leBytes 4 code.toNat := by
  have hdata : (fileCodePage logical physical rowCount validity codes).data = fileCodeBytes codes := rfl
  rw [EncodedArray.rowSlice, checkedRegion, hdata, length_fileCodeBytes, codeAt]
  by_cases hstart : 2 ^ 64 ≤ row * 4
  · rw [rejectIf, if_pos hstart]
    rfl
  · by_cases hstop : 2 ^ 64 ≤ row * 4 + 4
    · rw [rejectIf, if_neg hstart, rejectIf, if_pos hstop]
      rfl
    · rw [rejectIf, if_neg hstart, rejectIf, if_neg hstop]
      by_cases hrow : row < codes.length
      · rw [rejectIf, if_neg (by omega), List.getElem?_eq_getElem hrow, take_drop_fileCodeBytes hrow]
        rfl
      · rw [rejectIf, if_pos (by omega), List.getElem?_eq_none (Nat.le_of_not_lt hrow)]
        rfl

theorem decodePresentRow_fileCodePage :
    (fileCodePage logical physical rowCount validity codes).decodePresentRow lib row =
      (codeAt codes row).map .fileCode := by
  change ((fileCodePage logical physical rowCount validity codes).rowSlice row 4 >>= fun bytes =>
    Except.ok (CoveArrayValue.fileCode (UInt32.ofNat (leNat bytes)))) = _
  rw [rowSlice_fileCodePage]
  cases codeAt codes row with
  | error e => rfl
  | ok code =>
    change Except.ok (CoveArrayValue.fileCode (UInt32.ofNat (leNat (leBytes 4 code.toNat)))) = _
    rw [leNat_leBytes, Nat.mod_eq_of_lt (show _ < 256 ^ 4 from code.toNat_lt), UInt32.ofNat_toNat]
    rfl

theorem decodeRow_fileCodePage :
    (fileCodePage logical physical rowCount validity (codes.map rename)).decodeRow lib row =
      ((fileCodePage logical physical rowCount validity codes).decodeRow lib row).map
        (renamed rename) := by
  change (do
    rejectIf (rowCount.toNat ≤ row) .offsetRange
    EncodedArray.nullOr _ row (EncodedArray.decodePresentRow _ lib row)) = Except.map _ (do
    rejectIf (rowCount.toNat ≤ row) .offsetRange
    EncodedArray.nullOr _ row (EncodedArray.decodePresentRow _ lib row))
  rw [decodePresentRow_fileCodePage, decodePresentRow_fileCodePage, codeAt_map]
  by_cases hrow : rowCount.toNat ≤ row
  · rw [rejectIf, if_pos hrow]
    rfl
  · rw [rejectIf, if_neg hrow]
    change (EncodedArray.isNull _ row >>= _) = Except.map _ (EncodedArray.isNull _ row >>= _)
    change (EncodedArray.isNull (fileCodePage logical physical rowCount validity codes) row >>= _) = _
    cases EncodedArray.isNull (fileCodePage logical physical rowCount validity codes) row with
    | error e => rfl
    | ok absent =>
      cases absent with
      | false => cases codeAt codes row <;> rfl
      | true => rfl

theorem prepared_fileCodePage : (do
      let prepared ← prepare lib (fileCodePage logical physical rowCount validity (codes.map rename))
      prepared.decodeRow lib row) =
      (do
        let prepared ← prepare lib (fileCodePage logical physical rowCount validity codes)
        prepared.decodeRow lib row).map (renamed rename) := by
  change (do
    rejectIf (rowCount.toNat ≤ row) .offsetRange
    EncodedArray.decodeRow _ lib row : Except CoveError CoveArrayValue) = Except.map _ (do
      rejectIf (rowCount.toNat ≤ row) .offsetRange
      EncodedArray.decodeRow _ lib row)
  rw [decodeRow_fileCodePage]
  by_cases hrow : rowCount.toNat ≤ row
  · rw [rejectIf, if_pos hrow]
    rfl
  · rw [rejectIf, if_neg hrow]
    rfl

end

/-- The second page of file codes holds the codes of the first, renamed. -/
structure CodesRenamed (rename : UInt32 → UInt32) (column : TemporalPropertyColumn)
    (page page' : TemporalPropertyPage) : Prop where
  index : page.indexEntry = page'.indexEntry
  codes : ∃ payload payload' validity codes, page.payload = some payload ∧
    page'.payload = some payload' ∧
    pageArray column page payload = .ok (fileCodePage column.directory.logicalType
      column.directory.physicalKind page.indexEntry.rowCount.toUInt64 validity codes) ∧
    pageArray column page' payload' = .ok (fileCodePage column.directory.logicalType
      column.directory.physicalKind page.indexEntry.rowCount.toUInt64 validity (codes.map rename))

section

variable {P : TextPredicates} {crc32c : Bytes → UInt32} {lib : TransformDecoders}
  {rename : UInt32 → UInt32} {segment segment' : TemporalSegmentData}
  {zoneStats zoneStats' : List ZoneStatsEntry} {dictionaryLen dictionaryLen' : Option UInt32}
  {column column' : TemporalPropertyColumn}

theorem pageOfMorsel_renamed {pages pages' : List TemporalPropertyPage}
    (h : List.Forall₂ (CodesRenamed rename column) pages pages') (morselId : UInt32) :
    Option.Rel (CodesRenamed rename column) (pageOfMorsel pages morselId)
      (pageOfMorsel pages' morselId) := by
  induction h with
  | nil => exact .none
  | @cons page page' pages pages' hpage _ ih =>
    rw [pageOfMorsel, pageOfMorsel, List.find?_cons, List.find?_cons, hpage.index]
    cases decide (page'.indexEntry.morselId = morselId) with
    | true => exact .some hpage
    | false => exact ih

theorem arrayValueForRow_renamed (hdirectory : column.directory = column'.directory)
    (hpages : List.Forall₂ (CodesRenamed rename column) column.pages column'.pages)
    (hmorsels : segment'.morselRowCount = segment.morselRowCount) (rowIndex : UInt32) :
    arrayValueForRow P crc32c lib segment' rowIndex zoneStats' dictionaryLen' column' =
      (arrayValueForRow P crc32c lib segment rowIndex zoneStats dictionaryLen column).map
        (renamed rename) := by
  rw [arrayValueForRow, arrayValueForRow, morselRow, hmorsels, ← morselRow]
  cases morselRow segment rowIndex with
  | error e => rfl
  | ok place =>
    have hfound := pageOfMorsel_renamed hpages place.1
    change (orError .pageCorrupt (pageOfMorsel column'.pages place.1) >>= fun page => _) =
      Except.map _ (orError .pageCorrupt (pageOfMorsel column.pages place.1) >>= fun page => _)
    generalize pageOfMorsel column.pages place.1 = found,
      pageOfMorsel column'.pages place.1 = found' at hfound ⊢
    cases hfound with
    | none => rfl
    | @some page page' hpage =>
      obtain ⟨payload, payload', validity, codes, hpayload, hpayload', harray, harray'⟩ := hpage.codes
      have hsame : pageArray column' page' payload' = pageArray column page' payload' := by
        rw [pageArray, pageArray, hdirectory]
      have hread : pagePayload P crc32c segment zoneStats column page dictionaryLen = .ok payload := by
        rw [pagePayload, hpayload]
      have hread' : pagePayload P crc32c segment' zoneStats' column' page' dictionaryLen' =
          .ok payload' := by
        rw [pagePayload, hpayload']
      change (pagePayload P crc32c segment' zoneStats' column' page' dictionaryLen' >>= _) =
        Except.map _ (pagePayload P crc32c segment zoneStats column page dictionaryLen >>= _)
      rw [hread, hread']
      change (pageArray column' page' payload' >>= _) = Except.map _ (pageArray column page payload >>= _)
      rw [hsame, harray, harray']
      exact prepared_fileCodePage

end

theorem Recoded.of_codesRenamed {P : TextPredicates} {crc32c : Bytes → UInt32} {lib : TransformDecoders}
    {rename : Equiv.Perm UInt32} {segment segment' : TemporalSegmentData}
    {zoneStats zoneStats' : List ZoneStatsEntry} {dictionary dictionary' : Option TrustDictionary}
    (hrows : segment'.rows = segment.rows) (hmorsels : segment'.morselRowCount = segment.morselRowCount)
    (hcolumns : List.Forall₂ (fun column column' => column.directory = column'.directory ∧
      List.Forall₂ (CodesRenamed rename column) column.pages column'.pages)
      segment.propertyColumns segment'.propertyColumns)
    (hentries : ∀ code, canonicalEntryIn dictionary' (rename code) = canonicalEntryIn dictionary code) :
    Recoded P crc32c lib rename segment zoneStats dictionary segment' zoneStats' dictionary' where
  rows := hrows
  columns := hcolumns.imp fun _ _ hcolumn =>
    ⟨hcolumn.1, fun rowIndex => arrayValueForRow_renamed hcolumn.1 hcolumn.2 hmorsels rowIndex⟩
  entries := hentries

section

variable {P : TextPredicates} {crc32c : Bytes → UInt32} {lib : TransformDecoders}
  {rename : Equiv.Perm UInt32} {segment segment' : TemporalSegmentData}
  {zoneStats zoneStats' : List ZoneStatsEntry} {dictionary dictionary' : Option TrustDictionary}

theorem canonicalForArrayValue_renamed
    (h : ∀ code, canonicalEntryIn dictionary' (rename code) = canonicalEntryIn dictionary code)
    (logical : CoveLogicalType) (physical : CovePhysicalKind) (value : CoveArrayValue) :
    canonicalForArrayValue P logical physical (renamed rename value) dictionary' =
      canonicalForArrayValue P logical physical value dictionary := by
  cases value with
  | fileCode code => exact h code
  | dictValue value => cases value <;> rfl
  | _ => rfl

theorem Recoded.payload (h : Recoded P crc32c lib rename segment zoneStats dictionary segment'
    zoneStats' dictionary') (rowIndex : UInt32) :
    temporalRowTrustPayload P crc32c lib segment' rowIndex zoneStats' dictionary' =
      temporalRowTrustPayload P crc32c lib segment rowIndex zoneStats dictionary := by
  have himage : ∀ column column', (column.directory = column'.directory ∧
      ∀ rowIndex, arrayValueForRow P crc32c lib segment' rowIndex zoneStats'
          (dictionary'.map TrustDictionary.len) column' =
        (arrayValueForRow P crc32c lib segment rowIndex zoneStats (dictionary.map TrustDictionary.len)
          column).map (renamed rename)) →
      propertyImage P crc32c lib segment rowIndex zoneStats dictionary column =
        propertyImage P crc32c lib segment' rowIndex zoneStats' dictionary' column' := by
    rintro column column' ⟨hdirectory, hvalue⟩
    have hproperty : propertyValueForRow P crc32c lib segment' rowIndex zoneStats' dictionary' column' =
        propertyValueForRow P crc32c lib segment rowIndex zoneStats dictionary column := by
      rw [propertyValueForRow, propertyValueForRow, hvalue rowIndex, ← hdirectory]
      cases arrayValueForRow P crc32c lib segment rowIndex zoneStats
          (dictionary.map TrustDictionary.len) column with
      | error e => rfl
      | ok value => exact canonicalForArrayValue_renamed h.entries _ _ value
    rw [propertyImage, propertyImage, propertyTuple, propertyTuple, hproperty, hdirectory]
  have hlength := h.columns.length_eq
  have hempty : segment'.propertyColumns.isEmpty = segment.propertyColumns.isEmpty := by
    rw [Bool.eq_iff_iff, List.isEmpty_iff, List.isEmpty_iff, ← List.length_eq_zero_iff,
      ← List.length_eq_zero_iff, hlength]
  have hsorted := forall₂_sortByKey
    (fun column : TemporalPropertyColumn => column.directory.columnId.toNat)
    (fun _ _ hcolumn => by rw [hcolumn.1]) h.columns
  have himages := mapM_congr_forall₂ (hsorted.imp himage)
  rw [temporalRowTrustPayload, temporalRowTrustPayload, h.rows, hempty, propertyPayload,
    propertyPayload, sortedColumns, sortedColumns, himages, hlength]

end

/-- Payloads tell rows and their properties apart and nothing else. -/
theorem trustPayload_eq_iff (P : TextPredicates) (crc32c : Bytes → UInt32) (lib : TransformDecoders)
    {segment segment' : TemporalSegmentData} {rowIndex rowIndex' : UInt32}
    {zoneStats zoneStats' : List ZoneStatsEntry} {dictionary dictionary' : Option TrustDictionary}
    {payload payload' : Bytes}
    (h : temporalRowTrustPayload P crc32c lib segment rowIndex zoneStats dictionary = .ok payload)
    (h' : temporalRowTrustPayload P crc32c lib segment' rowIndex' zoneStats' dictionary' =
      .ok payload') :
    (∃ row row' tuples tuples', segment.rows[rowIndex.toNat]? = some row ∧
      segment'.rows[rowIndex'.toNat]? = some row' ∧
      propertyTuples P crc32c lib segment rowIndex zoneStats dictionary = .ok tuples ∧
      propertyTuples P crc32c lib segment' rowIndex' zoneStats' dictionary' = .ok tuples' ∧
      (payload = payload' ↔ row = row' ∧ tuples = tuples')) ∧
    ∀ rename recoded recodedStats recodedDictionary,
      Recoded P crc32c lib rename segment zoneStats dictionary recoded recodedStats recodedDictionary →
      temporalRowTrustPayload P crc32c lib recoded rowIndex recodedStats recodedDictionary =
        .ok payload := by
  obtain ⟨row, tuples, hrow, htuples, hlens, -, rfl⟩ := trustPayload_ok h
  obtain ⟨row', tuples', hrow', htuples', hlens', -, rfl⟩ := trustPayload_ok h'
  refine ⟨⟨row, row', tuples, tuples', hrow, hrow', htuples, htuples', ?_⟩, ?_⟩
  · constructor
    · intro heq
      obtain ⟨hrows, hproperties⟩ := TemporalRowEntryV1.serialize_cancel heq
      exact ⟨hrows, propertiesImage_inj hlens hlens' hproperties⟩
    · rintro ⟨rfl, rfl⟩
      rfl
  · intro rename recoded recodedStats recodedDictionary hrecoded
    exact (hrecoded.payload rowIndex).trans h

def samplePage (codes : List UInt32) : ColumnPagePayloadV1 where
  header := ColumnPagePayloadV1.singleNodeHeader 2 1
  nodes := [ColumnPagePayloadV1.singleNode 2 .fileCode .utf8 .fileCode 1]
  buffers := ColumnPagePayloadV1.describe (fun _ => 0) 0 98 [(.values, fileCodeBytes codes)]
  data := ColumnPagePayloadV1.singleNodeBytes (fun _ => 0) 2 .fileCode .utf8 .fileCode
    [(.values, fileCodeBytes codes)]

def sampleColumn (codes : List UInt32) : TemporalPropertyColumn where
  directory := ⟨1, .utf8, .fileCode⟩
  pages := [⟨⟨0, 2, 2, 0, 0, 106, 106, 106, 0, 0x400, 0⟩, some (samplePage codes)⟩]

def sampleRow (timestampUs : Int64) : TemporalRowEntryV1 where
  timestampUs := timestampUs
  csn := 1
  branchKey := 0
  goid := Vector.replicate 16 1
  recordId := Vector.replicate 16 2
  recordKind := .snapshot
  prevRef := none

def sampleSegment (codes : List UInt32) : TemporalSegmentData where
  segmentId := 7
  morselRowCount := 2
  rows := [sampleRow 10, sampleRow 10]
  propertyColumns := [sampleColumn codes]

def listDictionary (entries : List (ValueTag × Bytes)) : TrustDictionary where
  len := UInt32.ofNat entries.length
  canonicalEntry code := orError .badFileCode entries[code.toNat]?

def alpha : ValueTag × Bytes := (.utf8, [5, 97, 108, 112, 104, 97])

def beta : ValueTag × Bytes := (.utf8, [4, 98, 101, 116, 97])

theorem listDictionary_swap (code : UInt32) :
    canonicalEntryIn (some (listDictionary [beta, alpha])) (Equiv.swap 0 1 code) =
      canonicalEntryIn (some (listDictionary [alpha, beta])) code := by
  by_cases hzero : code = 0
  · rw [hzero]
    rfl
  · by_cases hone : code = 1
    · rw [hone]
      rfl
    · have hcode : 2 ≤ code.toNat := by
        rw [← UInt32.toNat_inj] at hzero hone
        change code.toNat ≠ 0 at hzero
        change code.toNat ≠ 1 at hone
        omega
      have habsent (entries : List (ValueTag × Bytes)) (hlen : entries.length = 2) :
          entries[code.toNat]? = none := List.getElem?_eq_none (by omega)
      rw [Equiv.swap_apply_of_ne_of_ne hzero hone]
      change orError _ [beta, alpha][code.toNat]? = orError _ [alpha, beta][code.toNat]?
      rw [habsent _ rfl, habsent _ rfl]

theorem sampleSegment_recoded : Recoded asciiText (fun _ => 0) transforms (Equiv.swap 0 1)
    (sampleSegment [0, 1]) [] (some (listDictionary [alpha, beta])) (sampleSegment [1, 0]) []
    (some (listDictionary [beta, alpha])) := by
  refine .of_codesRenamed rfl rfl (.cons ⟨rfl, .cons ⟨rfl, ?_⟩ .nil⟩ .nil) listDictionary_swap
  exact ⟨samplePage [0, 1], samplePage [1, 0], none, [0, 1], rfl, rfl, rfl, rfl⟩

def sampleTrustPayload (row : UInt32) : Bytes :=
  (temporalRowTrustPayload asciiText (fun _ => 0) transforms (sampleSegment [0, 1]) row []
    (some (listDictionary [alpha, beta]))).toOption.getD []

def sampleTuples (row : UInt32) : Except CoveError (List PropertyTuple) :=
  propertyTuples asciiText (fun _ => 0) transforms (sampleSegment [0, 1]) row []
    (some (listDictionary [alpha, beta]))

/-- Two rows that differ in their property only, and the same segment with a compacted dictionary. -/
theorem trustPayload_eq_iff_sample :
    (∃ row row' tuples tuples', (sampleSegment [0, 1]).rows[0]? = some row ∧
      (sampleSegment [0, 1]).rows[1]? = some row' ∧ sampleTuples 0 = .ok tuples ∧
      sampleTuples 1 = .ok tuples' ∧
      (sampleTrustPayload 0 = sampleTrustPayload 1 ↔ row = row' ∧ tuples = tuples')) ∧
    temporalRowTrustPayload asciiText (fun _ => 0) transforms (sampleSegment [1, 0]) 0 []
      (some (listDictionary [beta, alpha])) = .ok (sampleTrustPayload 0) := by
  have hfirst : temporalRowTrustPayload asciiText (fun _ => 0) transforms (sampleSegment [0, 1]) 0 []
      (some (listDictionary [alpha, beta])) = .ok (sampleTrustPayload 0) := rfl
  have hsecond : temporalRowTrustPayload asciiText (fun _ => 0) transforms (sampleSegment [0, 1]) 1 []
      (some (listDictionary [alpha, beta])) = .ok (sampleTrustPayload 1) := rfl
  obtain ⟨hpayloads, hrecoded⟩ :=
    trustPayload_eq_iff asciiText (fun _ => 0) transforms hfirst hsecond
  exact ⟨hpayloads, hrecoded (Equiv.swap 0 1) _ _ _ sampleSegment_recoded⟩

end CoveFormat.TrustPayloads
