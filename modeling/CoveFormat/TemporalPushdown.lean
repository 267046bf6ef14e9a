import CoveFormat.Reconstruction

namespace CoveFormat.TemporalPushdown

open ExceptRules JsonValue Temporal ObjectSurface Reconstruction

/-- A bloom bucket; its filter bytes are not read when segments are pruned. -/
structure TemporalBloomEntryV1 where
  segmentId : Nat
  (timeBucketStartUs timeBucketEndUs : Int)

structure TemporalBloomIndex where
  entries : List TemporalBloomEntryV1

def rowKey (row : TemporalRowEntryV1) : Int ×ₗ Nat ×ₗ Nat ×ₗ Nat ×ₗ Nat :=
  toLex (row.timestampUs, toLex (row.csn, toLex (row.branchKey, toLex (row.goid, row.recordId))))

/-- `record_kind.validate_published`, made when a row is parsed. -/
def validatePublished (kind : RecordKind) : Except CoveError Unit :=
  rejectIf (kind = .reservedLegacyMaterializedDelta) (.badSchema
    "reserved legacy materialized delta is not valid in published files (Spec §59.1)")

def validateTemporalOrder : List TemporalRowEntryV1 → Except CoveError Unit :=
  checkPairs fun a b =>
    rejectIf (rowKey b < rowKey a) (.badSchema "temporal rows out of order (Spec §58.3)")

def validateCsnOrder : List TemporalRowEntryV1 → Except CoveError Unit :=
  checkPairs fun a b =>
    rejectIf (b.csn < a.csn) (.badSchema "temporal segment csn decreases in row order")

def validatePrevRefOrder (segmentId : Nat) (entry : TemporalRowEntryV1 × Nat) :
    Except CoveError Unit :=
  match entry.1.prevRef with
  | none => .ok ()
  | some ref => do
      rejectIf (ref.segmentId = segmentId ∧ entry.2 ≤ ref.rowIndex) .refInvalid
      rejectIf (segmentId < ref.segmentId) .refInvalid

def validateSegment (s : TemporalSegmentData) : Except CoveError Unit := do
  checkAll (fun row => validatePublished row.recordKind) s.rows
  validateTemporalOrder s.rows
  validateCsnOrder s.rows
  checkAll (validatePrevRefOrder s.header.segmentId) s.rows.zipIdx
  rejectIf (s.rows.head?.any fun first =>
      first.timestampUs < s.header.timeRangeStartUs || first.csn < s.header.csnMin)
    (.badSchema "temporal segment row falls before declared min range")
  rejectIf (s.rows.getLast?.any fun last =>
      s.header.timeRangeEndUs < last.timestampUs || s.header.csnMax < last.csn)
    (.badSchema "temporal segment row falls after declared max range")

def targetKindForRecordKind : RecordKind → Nat
  | .snapshot | .baseline => 1
  | .delta | .tombstone | .reservedLegacyMaterializedDelta => 0

section

variable (segments : List TemporalSegmentData)

def rowAt (a : Nat × Nat) : Option (Nat × TemporalRowEntryV1) :=
  (segments.find? (·.header.segmentId == a.1)).bind fun s =>
    s.rows[a.2]?.map fun row => (s.header.objectTypeId, row)

def validatePrevRefTargetKind (objectTypeId : Nat) (row : TemporalRowEntryV1) :
    Except CoveError Unit :=
  match row.prevRef with
  | none => .ok ()
  | some ref =>
    match rowAt segments (target ref) with
    | none => .error .notSelfContained
    | some (targetTypeId, targetRow) => do
        rejectIf (ref.targetKind ≠ targetKindForRecordKind targetRow.recordKind) .refInvalid
        rejectIf (targetTypeId ≠ objectTypeId ∨ targetRow.branchKey ≠ row.branchKey ∨
          targetRow.goid ≠ row.goid ∨ rowKey row ≤ rowKey targetRow) .refInvalid

/-- What file validation says about the segments one by one, their ids and their previous
records; that chains are anchored is not needed here. -/
def validateSegments : Except CoveError Unit := do
  checkAll validateSegment segments
  rejectIf (¬ (segments.map (·.header.segmentId)).Nodup) .refInvalid
  checkAll (fun s => checkAll (validatePrevRefTargetKind segments s.header.objectTypeId) s.rows)
    segments

end

/-- A segment with its catalog entry and, for each row, the decoded property columns. -/
structure SegmentSurface where
  segment : TemporalSegmentData
  objectType : ObjectTypeEntryV1
  valuesByRow : List (List CoveObjectPropertyValue)
  typed : objectType.objectTypeId = segment.header.objectTypeId
  aligned : valuesByRow.length = segment.rows.length

def segmentExcludedByPushdown (header : TemporalSegmentHeaderV1)
    (pushdown : CoveObjectReadPushdownOptions) : Bool :=
  match pushdown.temporalCut with
  | some (.csn csn) => csn < header.csnMin
  | some (.timestampUs timestampUs) => timestampUs < header.timeRangeStartUs
  | _ => false

def segmentExcludedByTemporalBloom (header : TemporalSegmentHeaderV1)
    (bloom : Option TemporalBloomIndex) (pushdown : CoveObjectReadPushdownOptions) : Bool :=
  match pushdown.temporalCut, bloom with
  | some (.timestampUs timestampUs), some index =>
    let entries := index.entries.filter (·.segmentId == header.segmentId)
    !entries.isEmpty && !entries.any fun e =>
      e.timeBucketStartUs ≤ timestampUs && timestampUs ≤ e.timeBucketEndUs
  | _, _ => false

def rowMatchesPushdown (row : TemporalRowEntryV1) (objectType : ObjectTypeEntryV1)
    (pushdown : CoveObjectReadPushdownOptions) : Bool :=
  !pushdown.enabled ||
    (pushdown.branchKey.all (row.branchKey == ·) &&
      (match pushdown.temporalCut with
        | some (.timestampUs timestampUs) => row.timestampUs ≤ timestampUs
        | some (.csn csn) => row.csn ≤ csn
        | _ => true) &&
      (objectTypeIsAssociationLike objectType &&
          pushdown.associationEndpointCandidates.any (fun c =>
            c.associationTypeId == objectType.objectTypeId && c.candidateGoid.isSome) ||
        pushdown.candidateGoids.isEmpty || pushdown.candidateGoids.contains row.goid))

inductive EndpointCandidateMatch
  | hit
  | miss
  | inconclusive
  deriving DecidableEq

def hexEncode (id : Id16) : String :=
  String.ofList ((List.range 32).map fun i => Nat.digitChar (id / 16 ^ (31 - i) % 16))

def matchEndpoints (source target : String) :
    List CoveObjectAssociationEndpointCandidate → EndpointCandidateMatch
  | [] => .miss
  | c :: rest =>
    match c.candidateGoid with
    | none => .inconclusive
    | some goid =>
      if c.endpointRole = "source" then
        if source = hexEncode goid then .hit else matchEndpoints source target rest
      else if c.endpointRole = "target" then
        if target = hexEncode goid then .hit else matchEndpoints source target rest
      else if c.endpointRole = "either" then
        if source = hexEncode goid ∨ target = hexEncode goid then .hit
        else matchEndpoints source target rest
      else .inconclusive

def associationEndpointCandidateMatch (association : Option CoveAssociationMetadata)
    (candidates : List CoveObjectAssociationEndpointCandidate) : EndpointCandidateMatch :=
  match association.bind (·.sourceGoid), association.bind (·.targetGoid) with
  | some source, some target => matchEndpoints source target candidates
  | _, _ => .inconclusive

section

variable (render : Value → String)

section

variable (s : SegmentSurface)

def endpointCandidateRecordGoids (pushdown : CoveObjectReadPushdownOptions) : Option (List Id16) :=
  let candidates := pushdown.associationEndpointCandidates.filter fun c =>
    c.associationTypeId == s.objectType.objectTypeId && c.candidateGoid.isSome
  if !objectTypeIsAssociationLike s.objectType || candidates.isEmpty then none
  else some (((s.segment.rows.zip s.valuesByRow).filter fun p =>
    associationEndpointCandidateMatch (associationMetadata render s.objectType p.2) candidates ≠
      .miss).map (·.1.goid))

def segmentRows : List ((TemporalRowEntryV1 × List CoveObjectPropertyValue) × Nat) :=
  (s.segment.rows.zip s.valuesByRow).zipIdx

def recordOf (entry : (TemporalRowEntryV1 × List CoveObjectPropertyValue) × Nat) :
    CoveObjectRecord where
  objectTypeId := s.objectType.objectTypeId
  objectTypeName := s.objectType.typeName
  objectTypeFlags := s.objectType.flags
  segmentId := s.segment.header.segmentId
  rowIndex := entry.2
  timestampUs := entry.1.1.timestampUs
  csn := entry.1.1.csn
  branchKey := entry.1.1.branchKey
  goid := entry.1.1.goid
  recordId := entry.1.1.recordId
  recordKind := entry.1.1.recordKind
  prevRef := entry.1.1.prevRef
  properties := entry.1.2
  association := associationMetadata render s.objectType entry.1.2

/-- The three tests on a row of `records_from_segment`. -/
def isKeptRow (pushdown : CoveObjectReadPushdownOptions)
    (entry : (TemporalRowEntryV1 × List CoveObjectPropertyValue) × Nat) : Bool :=
  rowMatchesPushdown entry.1.1 s.objectType pushdown &&
    (endpointCandidateRecordGoids render s pushdown).all (·.contains entry.1.1.goid) &&
    propertyCandidatesMatch s.objectType.objectTypeId entry.1.2 pushdown

end

def recordsFromSegment (pushdown : CoveObjectReadPushdownOptions) (s : SegmentSurface) :
    List CoveObjectRecord :=
  ((segmentRows s).filter (isKeptRow render s pushdown)).map (recordOf render s)

/-- The loop over the segments of `read_object_surfaces_from_bytes_with_pushdown_options`. -/
def readRecords (bloom : Option TemporalBloomIndex) (pushdown : CoveObjectReadPushdownOptions)
    (segments : List SegmentSurface) : List CoveObjectRecord :=
  segments.flatMap fun s =>
    if pushdown.enabled && (segmentExcludedByPushdown s.segment.header pushdown ||
        segmentExcludedByTemporalBloom s.segment.header bloom pushdown) then []
    else recordsFromSegment render pushdown s

end

end CoveFormat.TemporalPushdown
