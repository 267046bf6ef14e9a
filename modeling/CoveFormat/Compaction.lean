import CoveFormat.SegmentRecords

namespace CoveFormat.Compaction

open ExceptRules SortedKeys Grouping CoveTypes Temporal ObjectSurface TemporalPushdown
  IdentityPlanning PropertyValues MaterializedRows SegmentBuild

def propertyFlagBoolDeclaredNumeric : UInt32 := 0x00000100

/-- The logical types that `validate_logical_physical_pair_with_options` lets a kind store. -/
def isLogicalPhysicalPair (boolDeclaredNumeric : Bool) (t : CoveLogicalType) :
    CovePhysicalKind → Bool
  | .fileCode => true
  | .numCode => t == .bool && boolDeclaredNumeric ||
      t ∈ [.int8, .int16, .int32, .int64, .uint8, .uint16, .uint32, .uint64, .float32, .float64,
        .decimal64, .dateDays, .timestampMicros, .timestampNanos]
  | .boolean => t == .bool
  | .fixedBytes => t ∈ [.uuid, .decimal128]
  | .varBytes => t ∈ [.utf8, .binary, .json]
  | .list => t == .list
  | .struct => t == .struct
  | .map => t == .map

def declaredNumeric (p : PropertyEntryV1) : Bool := p.flags &&& propertyFlagBoolDeclaredNumeric != 0

/-- An object catalog; the ids of its types, and those of the properties of a type, are distinct
as `validate` demands. -/
structure ObjectTypeCatalog where
  types : List CatalogType
  types_nodup : (types.map (·.objectTypeId)).Nodup

namespace ObjectTypeCatalog

def validateProperty (p : PropertyEntryV1) : Except CoveError Unit := do
  rejectIf (p.logicalType = .null) (.badSchema
    s!"property {p.propertyId} declares logical Null at top level (Spec §56)")
  rejectIf (isLogicalPhysicalPair (declaredNumeric p) p.logicalType p.physicalKind = false)
    .badLogicalPhysicalPair

def validate (catalog : ObjectTypeCatalog) : Except CoveError Unit :=
  checkAll (fun t => checkAll validateProperty t.properties) catalog.types

def serializeType (t : CatalogType) : Except CoveError Unit := do
  rejectIf (2 ^ 16 ≤ t.properties.length) (.badSchema "too many properties")
  rejectIf (2 ^ 16 ≤ t.typeName.utf8ByteSize) (.badSchema "object type name exceeds u16::MAX")
  checkAll (fun p => rejectIf (2 ^ 16 ≤ p.propertyName.utf8ByteSize)
    (.badSchema "property name exceeds u16::MAX")) t.properties

/-- The sizes that `serialize` checks. -/
def serialize (catalog : ObjectTypeCatalog) : Except CoveError Unit := do
  rejectIf (2 ^ 32 ≤ catalog.types.length) (.badSchema "too many object types")
  checkAll serializeType catalog.types

end ObjectTypeCatalog

/-- A segment before it is written: its states, and the stored values of each property. -/
structure ReconstructedTemporalSegmentBuild where
  segmentId : Nat
  objectType : CatalogType
  rows : List CoveObjectState
  columns : List (List StoredValue)

structure TemporalSegmentIndexEntryV1 where
  (segmentId objectTypeId : Nat)
  (timeRangeStartUs timeRangeEndUs : Int)
  (csnMin csnMax rowCount deltaCount snapshotCount baselineCount tombstoneCount : Nat)
  (minGoid maxGoid : Id16)
  deriving DecidableEq

/-- The sections of a compacted file that readers use. -/
structure CompactedFile where
  catalog : ObjectTypeCatalog
  index : List TemporalSegmentIndexEntryV1
  segments : List ReconstructedTemporalSegmentBuild

/-- A text of the writer, or the text of an error met when the file is written and validated. -/
inductive CompactionError
  | writer (text : String)
  | file (error : CoveError)

def stateRowKey (s : CoveObjectState) : Int ×ₗ Nat ×ₗ Nat ×ₗ Nat ×ₗ Nat :=
  toLex (s.timestampUs, toLex (s.csn, toLex (s.branchKey, toLex (s.goid, s.latestRecordId))))

def stateRow (s : CoveObjectState) : TemporalRowEntryV1 where
  timestampUs := s.timestampUs
  csn := s.csn
  branchKey := s.branchKey
  goid := s.goid
  recordId := s.latestRecordId
  recordKind := s.recordKind
  prevRef := none

namespace ReconstructedTemporalSegmentBuild

variable (b : ReconstructedTemporalSegmentBuild)

def header : TemporalSegmentHeaderV1 where
  segmentId := b.segmentId
  objectTypeId := b.objectType.objectTypeId
  timeRangeStartUs := (b.rows.head?.map (·.timestampUs)).getD 0
  timeRangeEndUs := (b.rows.getLast?.map (·.timestampUs)).getD 0
  csnMin := (b.rows.head?.map (·.csn)).getD 0
  csnMax := (b.rows.getLast?.map (·.csn)).getD 0

/-- The header and the row directory of `reconstructed_temporal_segment_payload`. -/
def data : TemporalSegmentData :=
  ⟨b.header, b.rows.map stateRow⟩

/-- An entry of `reconstructed_temporal_segment_index`. -/
def indexEntry : TemporalSegmentIndexEntryV1 where
  segmentId := b.segmentId
  objectTypeId := b.objectType.objectTypeId
  timeRangeStartUs := (b.rows.head?.map (·.timestampUs)).getD 0
  timeRangeEndUs := (b.rows.getLast?.map (·.timestampUs)).getD 0
  csnMin := (b.rows.head?.map (·.csn)).getD 0
  csnMax := (b.rows.getLast?.map (·.csn)).getD 0
  rowCount := b.rows.length
  deltaCount := b.rows.countP (·.recordKind = .delta)
  snapshotCount := b.rows.countP (·.recordKind = .snapshot)
  baselineCount := b.rows.countP (·.recordKind = .baseline)
  tombstoneCount := b.rows.countP (·.recordKind = .tombstone)
  minGoid := (b.rows.map (·.goid)).min?.getD 0
  maxGoid := (b.rows.map (·.goid)).max?.getD 0

end ReconstructedTemporalSegmentBuild

def entryForSegment (s : TemporalSegmentData) : TemporalSegmentIndexEntryV1 where
  segmentId := s.header.segmentId
  objectTypeId := s.header.objectTypeId
  timeRangeStartUs := s.header.timeRangeStartUs
  timeRangeEndUs := s.header.timeRangeEndUs
  csnMin := s.header.csnMin
  csnMax := s.header.csnMax
  rowCount := s.rows.length
  deltaCount := s.rows.countP (·.recordKind = .delta)
  snapshotCount := s.rows.countP (·.recordKind = .snapshot)
  baselineCount := s.rows.countP (·.recordKind = .baseline)
  tombstoneCount := s.rows.countP (·.recordKind = .tombstone)
  minGoid := (s.rows.map (·.goid)).min?.getD 0
  maxGoid := (s.rows.map (·.goid)).max?.getD 0

section

variable (lib : PropertyLibrary)

/-- `reconstructed_property_page_payload`. -/
def reconstructedPropertyPage (rows : List CoveObjectState) (p : PropertyEntryV1) :
    Except String (List StoredValue) :=
  rows.mapM fun row => do
    rejectIf (row.properties.any fun q => q.propertyId == p.propertyId && q.redacted)
      "cannot compact redacted COVE-O property values"
    appendPropertyValue lib p (propertyValue row.properties p.propertyId)

def reconstructedTemporalSegment (types : List CatalogType)
    (entry : (Nat × List CoveObjectState) × Nat) :
    Except String ReconstructedTemporalSegmentBuild := do
  let rows := sortByKey stateRowKey entry.1.2
  let t ← okOr (types.find? (·.objectTypeId == entry.1.1)) s!"missing object_type_id {entry.1.1}"
  rejectIf (2 ^ 32 ≤ entry.2) "too many reconstructed COVE-O temporal segments"
  rejectIf (2 ^ 32 ≤ rows.length) "too many reconstructed COVE-O rows"
  rejectIf (2 ^ 32 ≤ t.properties.length) "too many reconstructed COVE-O property columns"
  let columns ← t.properties.mapM (reconstructedPropertyPage lib rows)
  .ok ⟨entry.2, t, rows, columns⟩

def reconstructedTemporalSegments (types : List CatalogType) (states : List CoveObjectState) :
    Except String (List ReconstructedTemporalSegmentBuild) := do
  checkAll (fun s => rejectIf (s.recordKind = .reservedLegacyMaterializedDelta)
    "cannot compact reserved legacy materialized-delta records") states
  (grouped (·.objectTypeId) states).zipIdx.mapM (reconstructedTemporalSegment lib types)

def validateVarbytesLogicalValue (t : CoveLogicalType) (text : String) : Except CoveError Unit :=
  match t with
  | .utf8 | .binary => .ok ()
  | .json => rejectIf (lib.parseJson text).isNone .pageCorrupt
  | _ => .error .pageCorrupt

/-- `validate_values_buffer` at one row; a null text is stored as an empty one. -/
def validateStoredValue (p : PropertyEntryV1) : StoredValue → Except CoveError Unit
  | .null =>
    if p.physicalKind = .varBytes then validateVarbytesLogicalValue lib p.logicalType ""
    else .ok ()
  | .numCode code => rejectIf (p.logicalType = .bool ∧ 1 < code) .pageCorrupt
  | .text text => validateVarbytesLogicalValue lib p.logicalType text
  | _ => .ok ()

/-- The checks of `validate_temporal_property_columns` on one column; the written columns have no
flags, and the file has no dictionary. -/
def validatePropertyColumn (p : PropertyEntryV1) (page : List StoredValue) :
    Except CoveError Unit := do
  rejectIf (declaredNumeric p) .pageCorrupt
  rejectIf (p.physicalKind = .fileCode) .badFileCode
  rejectIf (p.nullable = false ∧ page.count .null ≠ 0) (.badSchema
    s!"non-nullable property {p.propertyId} has page null_count {page.count .null}")
  checkAll (validateStoredValue lib p) page

/-- `TemporalSegmentData::parse` on a written segment, whose columns have no flags. -/
def parseSegment (b : ReconstructedTemporalSegmentBuild) : Except CoveError Unit := do
  checkAll (fun column => do
    rejectIf (isLogicalPhysicalPair false column.1.logicalType column.1.physicalKind = false)
      .badLogicalPhysicalPair
    checkAll (validateStoredValue lib column.1) column.2) (b.objectType.properties.zip b.columns)
  validateSegment b.data

/-- What `canonical_for_array_value` rejects; only utf8, binary and JSON columns store texts. -/
def trustValue (p : PropertyEntryV1) : StoredValue → Except CoveError Unit
  | .null | .boolean _ | .uuid _ | .decimal _ => .ok ()
  | .numCode code =>
    if p.logicalType = .bool then rejectIf (1 < code) .pageCorrupt
    else rejectIf (isLogicalPhysicalPair false p.logicalType .numCode = false) (.unsupportedEncoding
      s!"cannot canonicalize numeric trust value for {debugText p.logicalType}")
  | .text text =>
    rejectIf (p.logicalType = .json ∧ lib.parseJson text = none)
      (.badSection "Json canonical value must be syntactically valid JSON")
  | .fileCode _ => .error .badFileCode

/-- The rows of a segment in `reconstructed_trust_manifest`; no reader looks at the hashes. -/
def trustSegment (b : ReconstructedTemporalSegmentBuild) : Except CoveError Unit := do
  parseSegment lib b
  checkAll (fun column => checkAll (trustValue lib column.1) column.2)
    (b.objectType.properties.zip b.columns)

/-- The trust manifest, and the sizes checked when the sections are written. -/
def writeSections (file : CompactedFile) : Except CoveError Unit := do
  checkAll (trustSegment lib) file.segments
  file.catalog.serialize
  rejectIf (2 ^ 32 ≤ file.index.length) (.badSchema "too many temporal segments")
  rejectIf (2 ^ 32 ≤ (file.segments.map (·.rows.length)).sum)
    (.badSchema "too many trust manifest entries")
  rejectIf (2 ^ 32 ≤ file.segments.length + 3) .arithOverflow

def validateFile (file : CompactedFile) : Except CoveError Unit := do
  file.catalog.validate
  validateSegments (file.segments.map (·.data))
  checkAll (fun entry => rejectIf (entry.1 ≠ entryForSegment entry.2.data) .segmentCorrupt)
    (file.index.zip file.segments)
  checkAll (fun b => checkAll (fun column => validatePropertyColumn lib column.1 column.2)
    (b.objectType.properties.zip b.columns)) file.segments

def compactCoveOFromObjectStates (catalog : ObjectTypeCatalog) (states : List CoveObjectState) :
    Except CompactionError CompactedFile := do
  let segments ← (reconstructedTemporalSegments lib catalog.types states).mapError .writer
  let file : CompactedFile := ⟨catalog, segments.map (·.indexEntry), segments⟩
  (writeSections lib file).mapError .file
  (validateFile lib file).mapError .file
  .ok file

def readCompactedSegment (b : ReconstructedTemporalSegmentBuild) :
    Except CoveError SegmentSurface := do
  validateSegment b.data
  let columns ← (b.objectType.properties.zip b.columns).mapM fun column =>
    column.2.mapM fun stored => (decodePropertyValue lib column.1 stored).map column.1.withValue
  .ok {
    segment := b.data
    objectType := b.objectType.toObjectTypeEntryV1
    valuesByRow := rowsOfColumns b.rows.length columns
    typed := rfl
    aligned := by
      rw [rowsOfColumns, List.length_map, List.length_range,
        ReconstructedTemporalSegmentBuild.data, List.length_map] }

def readCompacted (file : CompactedFile) : Except CoveError (List SegmentSurface) := do
  validateFile lib file
  file.segments.mapM (readCompactedSegment lib)

end

end CoveFormat.Compaction
