import CoveFormat.DeltaFile

namespace CoveFormat.DeltaValidation

open ExceptRules CoveTypes Canonical Temporal SparsePatch DeltaRecords DeltaFile

/-- The duplicate check of `validate_object_delta_parent_refs`, after the ids `seen`. -/
def checkParentRefs : List Nat → List DeltaParentRefV1 → Except CoveError (List Nat)
  | seen, [] => .ok seen
  | seen, p :: ps => do
      rejectIf (p.parentRef ∈ seen) (.badSection "COVEDELTA duplicate parent_ref")
      p.validateObjectDeltaBinding
      checkParentRefs (p.parentRef :: seen) ps

def validateObjectDeltaParentRefs (parentRefs : List DeltaParentRefV1) :
    Except CoveError (List Nat) :=
  checkParentRefs [] parentRefs

def validateSingleScopePayloads (header : CoveDeltaHeaderV1) (c : DeltaContents) :
    Except CoveError Unit :=
  if header.flags &&& deltaFlagSingleScope = 0 then .ok ()
  else do
    checkAll (fun a : DeltaContinuationAnchorV1 =>
      rejectIf (a.scopeKind ≠ header.scopeKind ∨ a.scopeId ≠ header.scopeId) (.badSection
        "COVEDELTA single-scope continuation anchor scope does not match header"))
      c.continuationAnchors
    checkAll (fun r : DeltaSparsePatchRecordV1 =>
      rejectIf (r.scopeKind ≠ header.scopeKind ∨ r.scopeId ≠ header.scopeId)
        (.badSection "COVEDELTA single-scope sparse patch scope does not match header"))
      c.sparsePatchRecords
    checkAll (fun r : DeltaTouchedObjectRangeV1 =>
      rejectIf (r.scopeKind ≠ header.scopeKind ∨ r.scopeId ≠ header.scopeId)
        (.badSection "COVEDELTA single-scope touched range scope does not match header"))
      c.touchedObjectRanges
    checkAll (fun r : DeltaTouchedObjectRangeV1 =>
      rejectIf (r.scopeKind ≠ header.scopeKind ∨ r.scopeId ≠ header.scopeId)
        (.badSection "COVEDELTA single-scope tombstone range scope does not match header"))
      c.tombstoneObjectRanges

def validateDense {T : Type} (ref : T → Nat) (error : CoveError) (descriptors : List T) :
    Except CoveError Unit :=
  checkAll (fun p : T × Nat => do
    rejectIf (2 ^ 32 ≤ p.2) .arithOverflow
    rejectIf (ref p.1 ≠ p.2) error) descriptors.zipIdx

def validateDenseScopeDescriptors (descriptors : List DeltaScopeDescriptorV1) :
    Except CoveError Unit :=
  validateDense DeltaScopeDescriptorV1.scopeRef
    (.badSection "COVEDELTA scope descriptors must be dense zero-based by scope_ref") descriptors

def validateDenseSummaryDescriptors (label : String)
    (descriptors : List DeltaSummaryDescriptorV1) : Except CoveError Unit :=
  validateDense DeltaSummaryDescriptorV1.summaryRef
    (.badSection (label ++ " must be dense zero-based by summary_ref")) descriptors

def validateDenseInlineValueRefs (values : List DeltaInlineValueV1) : Except CoveError Unit :=
  validateDense DeltaInlineValueV1.valueRef
    (.badSection "COVEDELTA inline values must be dense zero-based by value_ref") values

def validateDenseSidecarHintRefs (label : String) (hints : List DeltaSidecarHintV1) :
    Except CoveError Unit :=
  validateDense DeltaSidecarHintV1.hintRef
    (.badSection (label ++ " must be dense zero-based by hint_ref")) hints

def inlineValueByRef (values : List DeltaInlineValueV1) (valueRef : Nat) :
    Except CoveError DeltaInlineValueV1 :=
  match values[valueRef]? with
  | some v => .ok v
  | none => .error (.badSection "COVEDELTA value_ref does not resolve to an inline value")

def logicalTypeAcceptsValueTag : CoveLogicalType → ValueTag → Bool
  | .null, t => t = .null
  | .bool, t => t = .boolFalse ∨ t = .boolTrue
  | .int8, t | .int16, t | .int32, t | .int64, t => t = .int64
  | .uint8, t | .uint16, t | .uint32, t | .uint64, t => t = .uint64
  | .float32, t => t = .float32Bits
  | .float64, t => t = .float64Bits
  | .decimal64, t => t = .decimal64
  | .decimal128, t => t = .decimal128
  | .dateDays, t => t = .dateDays
  | .timestampMicros, t => t = .timestampMicros
  | .timestampNanos, t => t = .timestampNanos
  | .utf8, t => t = .utf8
  | .binary, t => t = .binary
  | .uuid, t => t = .uuid
  | .json, t => t = .json
  | .list, t => t = .list
  | .struct, t => t = .struct
  | .map, t => t = .map

def validateOverlayEntry (values : List DeltaInlineValueV1) (e : DeltaDictionaryEntryV1) :
    Except CoveError Unit :=
  if e.entryKind ≠ deltaDictionaryEntryKindInlineValue then .ok ()
  else do
    let value ← inlineValueByRef values e.inlineValueRef
    match CoveLogicalType.fromU16 e.logicalType, ValueTag.fromU16 value.valueTag with
    | none, _ => .error (.badSection
        "COVEDELTA inline dictionary entry has unknown logical_type")
    | some _, none => .error (.badSection "COVEDELTA inline value has unknown value_tag")
    | some logicalType, some valueTag =>
      rejectIf (¬ logicalTypeAcceptsValueTag logicalType valueTag) (.badSection
        "COVEDELTA inline dictionary value tag is incompatible with entry logical type")

def validateDictionaryOverlayInlineValueRefs (entries : List DeltaDictionaryEntryV1)
    (values : List DeltaInlineValueV1) : Except CoveError Unit :=
  checkAll (validateOverlayEntry values) entries

def validateSparsePatchValueRefs (records : List DeltaSparsePatchRecordV1)
    (values : List DeltaInlineValueV1) : Except CoveError Unit :=
  checkAll (fun r : DeltaSparsePatchRecordV1 => checkAll (fun p : DeltaSparsePatchPropertyOpV1 =>
    if p.propertyOp = deltaPropertyOpSetValue then
      (inlineValueByRef values p.valueRef).map fun _ => ()
    else .ok ()) r.changedProperties) records

def validatePropertyBitmapRefs (label : String) (ranges : List DeltaTouchedObjectRangeV1)
    (descriptors : List DeltaSummaryDescriptorV1) : Except CoveError Unit :=
  checkAll (fun r : DeltaTouchedObjectRangeV1 =>
    if r.propertyBitmapRef = deltaRefNone then .ok ()
    else
      match descriptors[r.propertyBitmapRef]? with
      | none => .error (.badSection (label ++ " does not resolve to a summary descriptor"))
      | some d =>
        rejectIf (d.summaryKind ≠ deltaSummaryDescriptorKindPropertyBitmap)
          (.badSection (label ++ " must reference a property bitmap descriptor"))) ranges

def validateSidecarHint (f : CoveDeltaFile) (parentRefIds : List Nat) (label : String)
    (allowedHintKinds : List Nat) (hint : DeltaSidecarHintV1) : Except CoveError Unit := do
  rejectIf (hint.hintKind ∉ allowedHintKinds)
    (.badSection (label ++ " section contains incompatible hint_kind"))
  rejectIf (hint.parentRef ∉ parentRefIds)
    (.badSection (label ++ " references unknown parent_ref"))
  rejectIf (f.parentRefs.any fun p => p.parentRef = hint.parentRef && p.isLineageParent)
    (.badSection (label ++ " must reference an ancillary parent artifact"))

def readSidecarHints (f : CoveDeltaFile) (parentRefIds : List Nat) (label : String)
    (allowedHintKinds : List Nat) (feature : UInt64) (s : CoveDeltaSection) :
    Except CoveError (List DeltaSidecarHintV1) := do
  validateDeltaRequiredFeatures s.entry.requiredDeltaFeatures
    covedeltaObjectTemporalSupportedRequiredFeatures
  rejectIf (s.entry.requiredDeltaFeatures &&& feature = 0)
    (.badSection (label ++ " required feature requires section feature binding"))
  rejectIf (s.entry.compression ≠ 0)
    (.badSection (label ++ " validation requires uncompressed payload"))
  rejectIf (s.entry.itemCount = 0) (.badSection (label ++ " section requires hint records"))
  let records ← parseFixedRecords s 32 s.payload.sidecarHints label
  checkAll (validateSidecarHint f parentRefIds label allowedHintKinds) records
  .ok records

def collectSidecarHints (f : CoveDeltaFile) (parentRefIds : List Nat)
    (sectionKind : CoveDeltaSectionKind) (label : String) (allowedHintKinds : List Nat)
    (feature : UInt64) : List CoveDeltaSection → Except CoveError (List DeltaSidecarHintV1)
  | [] => .ok []
  | s :: ss =>
    match CoveDeltaSectionKind.fromU16 s.entry.sectionKind with
    | none => .error (.badSection
        ("unknown COVEDELTA section kind " ++ toString s.entry.sectionKind))
    | some kind =>
      if kind ≠ sectionKind then
        collectSidecarHints f parentRefIds sectionKind label allowedHintKinds feature ss
      else do
        let records ← readSidecarHints f parentRefIds label allowedHintKinds feature s
        let rest ←
          collectSidecarHints f parentRefIds sectionKind label allowedHintKinds feature ss
        .ok (records ++ rest)

/-- `validate_sidecar_hints_for_section` with a required feature binding. -/
def validateSidecarHintsForSection (f : CoveDeltaFile) (sectionKind : CoveDeltaSectionKind)
    (label : String) (allowedHintKinds : List Nat) (feature : UInt64) :
    Except CoveError (List DeltaSidecarHintV1) := do
  let parentRefIds ← validateObjectDeltaParentRefs f.parentRefs
  let hints ←
    collectSidecarHints f parentRefIds sectionKind label allowedHintKinds feature f.sections
  validateDenseSidecarHintRefs label hints
  .ok hints

section

variable (segments : List TemporalSegmentData)

def typedRows : List (Nat × TemporalRowEntryV1) :=
  segments.flatMap fun segment => segment.rows.map fun row => (segment.header.objectTypeId, row)

def validateUniqueTemporalRecordIds : Except CoveError Unit :=
  rejectIf (¬ ((typedRows segments).map fun (typeId, row) =>
      (typeId, row.branchKey, row.goid, row.recordId)).Nodup)
    (.badSection "COVEDELTA temporal rows contain duplicate record_id for object/branch")

def checkpointRowCount : Nat :=
  ((segments.flatMap TemporalSegmentData.rows).filter fun row =>
    row.recordKind = .snapshot || row.recordKind = .baseline).length

end

def validateContinuationAnchorStateHashRefs (anchors : List DeltaContinuationAnchorV1)
    (descriptors : List DeltaStateHashDescriptorV1) : Except CoveError Unit :=
  checkAll (fun a : DeltaContinuationAnchorV1 =>
    if a.anchorStrength < deltaAnchorStrengthKeyRecordAndStateHash then .ok ()
    else
      match descriptors[a.predecessorStateHashRef]? with
      | none => .error (.badSection
          "COVEDELTA continuation anchor predecessor_state_hash_ref does not resolve")
      | some d => d.validateCoveObjectDeltaStateHash) anchors

structure SparsePatchTemporalKey where
  scopeKind : Nat
  scopeId : Id16
  (objectTypeId branchIdentityRef : Nat)
  (goid recordId : Id16)
  timestampUs : Int
  csn : Nat
  deriving DecidableEq

def sparsePatchRecordKey (r : DeltaSparsePatchRecordV1) : SparsePatchTemporalKey :=
  ⟨r.scopeKind, r.scopeId, r.objectTypeId, r.branchIdentityRef, r.goid, r.recordId, r.timestampUs,
    r.csn⟩

def temporalDeltaKeys (header : CoveDeltaHeaderV1) :
    List (Nat × TemporalRowEntryV1) → Except CoveError (List SparsePatchTemporalKey)
  | [] => .ok []
  | (typeId, row) :: rows =>
    if row.recordKind ≠ .delta then temporalDeltaKeys header rows
    else do
      rejectIf (2 ^ 32 ≤ row.branchKey) (.badSection
        "COVEDELTA temporal row branch_key exceeds sparse patch ref width")
      let keys ← temporalDeltaKeys header rows
      .ok (⟨header.scopeKind, header.scopeId, typeId, row.branchKey, row.goid, row.recordId,
        row.timestampUs, row.csn⟩ :: keys)

def checkSparseKeys (temporalKeys : List SparsePatchTemporalKey) :
    List SparsePatchTemporalKey → List DeltaSparsePatchRecordV1 →
    Except CoveError (List SparsePatchTemporalKey)
  | seen, [] => .ok seen
  | seen, r :: rs => do
      rejectIf (sparsePatchRecordKey r ∈ seen)
        (.badSection "COVEDELTA sparse property ops contain duplicate record keys")
      rejectIf (sparsePatchRecordKey r ∉ temporalKeys)
        (.badSection "COVEDELTA sparse property ops reference no matching temporal delta row")
      checkSparseKeys temporalKeys (sparsePatchRecordKey r :: seen) rs

def validateSparsePatchRecordsCoverTemporalRows (header : CoveDeltaHeaderV1)
    (segments : List TemporalSegmentData) (records : List DeltaSparsePatchRecordV1) :
    Except CoveError Unit := do
  let temporalKeys ← temporalDeltaKeys header (typedRows segments)
  let sparseKeys ← checkSparseKeys temporalKeys [] records
  checkAll (fun key => rejectIf (key ∉ sparseKeys)
    (.badSection "COVEDELTA sparse property ops under-include temporal delta rows")) temporalKeys

def validateContinuationAnchorsCoverTemporalRows (header : CoveDeltaHeaderV1)
    (segments : List TemporalSegmentData) (anchors : List DeltaContinuationAnchorV1) :
    Except CoveError Unit :=
  checkAll (fun p : Nat × TemporalRowEntryV1 =>
    if p.2.recordKind ≠ .delta ∧ p.2.recordKind ≠ .tombstone then .ok ()
    else rejectIf (¬ anchors.any fun a =>
      a.validateForExistingObjectPatch.isOk && a.scopeKind = header.scopeKind &&
        a.scopeId = header.scopeId && a.objectTypeId = p.1 && a.branchIdentityRef = p.2.branchKey &&
        a.goid = p.2.goid && a.predecessorCsn < p.2.csn &&
        a.predecessorTimestampUs ≤ p.2.timestampUs)
      (.badSection "COVEDELTA continuation anchors under-include temporal patch rows"))
    (typedRows segments)

def rowIsCoveredByRanges (header : CoveDeltaHeaderV1) (typeId : Nat) (row : TemporalRowEntryV1)
    (ranges : List DeltaTouchedObjectRangeV1) : Bool :=
  ranges.any fun r =>
    r.scopeKind = header.scopeKind && r.scopeId = header.scopeId && r.objectTypeId = typeId &&
      r.branchIdentityRef = row.branchKey && r.minGoid ≤ row.goid && row.goid ≤ r.maxGoid

def validateTouchedRangesCoverTemporalRows (header : CoveDeltaHeaderV1)
    (segments : List TemporalSegmentData) (ranges : List DeltaTouchedObjectRangeV1) :
    Except CoveError Unit :=
  checkAll (fun p : Nat × TemporalRowEntryV1 =>
    rejectIf (¬ rowIsCoveredByRanges header p.1 p.2 ranges)
      (.badSection "COVEDELTA exact touched set under-includes temporal rows")) (typedRows segments)

def validateTombstoneRangesCoverTemporalRows (header : CoveDeltaHeaderV1)
    (segments : List TemporalSegmentData) (ranges : List DeltaTouchedObjectRangeV1) :
    Except CoveError Unit :=
  checkAll (fun p : Nat × TemporalRowEntryV1 =>
    if p.2.recordKind ≠ .tombstone then .ok ()
    else rejectIf (¬ rowIsCoveredByRanges header p.1 p.2 ranges)
      (.badSection "COVEDELTA exact tombstone set under-includes tombstone rows"))
    (typedRows segments)

end CoveFormat.DeltaValidation
