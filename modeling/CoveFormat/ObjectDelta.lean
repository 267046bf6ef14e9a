import CoveFormat.DeltaValidation

namespace CoveFormat.ObjectDelta

open ExceptRules Temporal SparsePatch DeltaRecords DeltaFile DeltaValidation

structure CoveDeltaObjectValidation where
  scopeKind : Nat
  scopeId : Id16
  contents : DeltaContents
  (indexHints coveragePatches : List DeltaSidecarHintV1)
  (effectiveSchemaFingerprintRef effectiveObjectCatalogFingerprintRef : Nat)
  (effectiveSemanticMapFingerprintRef effectiveProjectionFingerprintRef checkpointRowCount : Nat)

section

variable (f : CoveDeltaFile)

/-- The checks of `validate_object_delta` on the header and the postscript. -/
def validateHeader : Except CoveError Unit := do
  validateDeltaRequiredFeatures f.header.requiredDeltaFeatures
    covedeltaObjectTemporalSupportedRequiredFeatures
  validateDeltaRequiredFeatures f.postscript.requiredDeltaFeatures
    covedeltaObjectTemporalSupportedRequiredFeatures
  rejectIf (f.header.requiredDeltaFeatures ≠ f.postscript.requiredDeltaFeatures ∨
      f.header.optionalDeltaFeatures ≠ f.postscript.optionalDeltaFeatures)
    (.badSection "COVEDELTA header and postscript feature bits disagree")
  rejectIf (f.header.csnMax < f.header.csnMin)
    (.badSection "COVEDELTA header csn_min must be <= csn_max")
  rejectIf (f.header.commitTimeRangeEndUs < f.header.commitTimeRangeStartUs)
    (.badSection "COVEDELTA header commit-time range is inverted")
  if f.header.flags &&& deltaFlagSourcePublishRangePresent ≠ 0 then
    rejectIf (f.header.sourcePublishRangeEndUs < f.header.sourcePublishRangeStartUs)
      (.badSection "COVEDELTA source-publish range is inverted")
  else
    rejectIf (f.header.sourcePublishRangeStartUs ≠ 0 ∨ f.header.sourcePublishRangeEndUs ≠ 0)
      (.badSection "COVEDELTA source-publish range requires header flag")

def lineageParent : Option DeltaParentRefV1 :=
  f.parentRefs.find? DeltaParentRefV1.isLineageParent

def validateLineageParent : Except CoveError Unit :=
  match lineageParent f with
  | none => .ok ()
  | some p => rejectIf (p.snapshotId ≠ f.header.parentSnapshotId) (.badSection
      "COVEDELTA lineage parent snapshot_id must match header parent_snapshot_id")

def effectiveRef (own : Nat) (inherited : DeltaParentRefV1 → Nat) : Nat :=
  if own = 0 then ((lineageParent f).map inherited).getD 0 else own

def effectiveSemanticMapFingerprintRef : Nat :=
  effectiveRef f f.header.semanticMapFingerprintRef DeltaParentRefV1.semanticMapFingerprintRef

def effectiveProjectionFingerprintRef : Nat :=
  effectiveRef f f.header.projectionFingerprintRef DeltaParentRefV1.projectionFingerprintRef

def hasFeature (feature : UInt64) : Bool :=
  f.header.requiredDeltaFeatures &&& feature != 0

def validatePatches (c : DeltaContents) : Except CoveError Unit := do
  rejectIf (c.temporalSegments = [])
    (.badSection "COVEDELTA object delta requires at least one temporal segment data section")
  rejectIf (hasFeature f deltaFeatureMapEvidencePatch ∧ c.evidencePatches = []) (.badSection
    "COVEDELTA required map evidence patch feature requires evidence patch section")
  rejectIf (c.evidencePatches ≠ [] ∧ effectiveSemanticMapFingerprintRef f = 0) (.badSection
    "COVEDELTA evidence patch requires inherited or declared semantic map fingerprint")
  rejectIf (hasFeature f deltaFeatureProjectionPatch ∧ c.projectionPatches = []) (.badSection
    "COVEDELTA required projection patch feature requires projection patch section")
  rejectIf (c.projectionPatches ≠ [] ∧ effectiveProjectionFingerprintRef f = 0) (.badSection
    "COVEDELTA projection patch requires inherited or declared projection fingerprint")

def requiredIndexHints : Except CoveError (List DeltaSidecarHintV1) :=
  if hasFeature f deltaFeatureIndexHints then do
    let hints ← validateSidecarHintsForSection f .indexHints "COVEDELTA index hints"
      [deltaSidecarHintKindCoviIndex, deltaSidecarHintKindCovxIndex] deltaFeatureIndexHints
    rejectIf (hints = [])
      (.badSection "COVEDELTA required index hint feature requires index hint section")
    .ok hints
  else .ok []

def requiredCoveragePatches : Except CoveError (List DeltaSidecarHintV1) :=
  if hasFeature f deltaFeatureCoveragePatch then do
    let hints ← validateSidecarHintsForSection f .coveragePatch "COVEDELTA coverage patch"
      [deltaSidecarHintKindCoveragePatch] deltaFeatureCoveragePatch
    rejectIf (hints = [])
      (.badSection "COVEDELTA required coverage patch feature requires coverage patch section")
    .ok hints
  else .ok []

def validateRefs (c : DeltaContents) : Except CoveError Unit := do
  validateSingleScopePayloads f.header c
  rejectIf (hasFeature f deltaFeatureContinuationAnchors ∧ c.continuationAnchors = [])
    (.badSection "COVEDELTA required continuation-anchor feature requires anchor records")
  validateContinuationAnchorStateHashRefs c.continuationAnchors c.stateHashDescriptors
  validateDenseScopeDescriptors c.scopeDescriptors
  validateDenseSummaryDescriptors "COVEDELTA temporal role summary descriptors"
    c.temporalRoleSummaryDescriptors
  validateDenseSummaryDescriptors "COVEDELTA touched summary descriptors"
    c.touchedSummaryDescriptors
  validateDenseSummaryDescriptors "COVEDELTA tombstone summary descriptors"
    c.tombstoneSummaryDescriptors
  validateDenseInlineValueRefs c.inlineValues
  validateDictionaryOverlayInlineValueRefs c.dictionaryOverlayEntries c.inlineValues
  validateSparsePatchValueRefs c.sparsePatchRecords c.inlineValues
  validatePropertyBitmapRefs "COVEDELTA touched range property_bitmap_ref" c.touchedObjectRanges
    c.touchedSummaryDescriptors
  validatePropertyBitmapRefs "COVEDELTA tombstone range property_bitmap_ref"
    c.tombstoneObjectRanges c.tombstoneSummaryDescriptors

def validateCoverage (c : DeltaContents) : Except CoveError Unit := do
  rejectIf (hasFeature f deltaFeatureSparsePatchRows ∧ c.sparsePatchRecords = [])
    (.badSection "COVEDELTA required sparse patch feature requires property ops records")
  validateUniqueTemporalRecordIds c.temporalSegments
  whenever (c.sparsePatchRecords ≠ []) (validateSparsePatchRecordsCoverTemporalRows f.header
    c.temporalSegments c.sparsePatchRecords)
  rejectIf (hasFeature f deltaFeatureCheckpointBaselines ∧
      DeltaValidation.checkpointRowCount c.temporalSegments = 0)
    (.badSection "COVEDELTA checkpoint-baseline feature requires Snapshot or Baseline rows")
  whenever (hasFeature f deltaFeatureContinuationAnchors)
    (validateContinuationAnchorsCoverTemporalRows f.header c.temporalSegments
      c.continuationAnchors)
  rejectIf (hasFeature f deltaFeatureExactTouchedSet ∧ ¬ c.hasTouchedSetSection)
    (.badSection "COVEDELTA required exact touched-set feature requires touched ranges")
  whenever c.hasTouchedSetSection
    (validateTouchedRangesCoverTemporalRows f.header c.temporalSegments c.touchedObjectRanges)
  rejectIf (hasFeature f deltaFeatureExactTombstoneSet ∧ ¬ c.hasTombstoneSetSection) (.badSection
    "COVEDELTA required exact tombstone-set feature requires tombstone ranges section")
  whenever c.hasTombstoneSetSection
    (validateTombstoneRangesCoverTemporalRows f.header c.temporalSegments c.tombstoneObjectRanges)

def validateObjectDelta : Except CoveError CoveDeltaObjectValidation := do
  validateHeader f
  let parentRefIds ← validateObjectDeltaParentRefs f.parentRefs
  validateLineageParent f
  let c ← readSections f.header parentRefIds {} f.sections
  validatePatches f c
  let indexHints ← requiredIndexHints f
  let coveragePatches ← requiredCoveragePatches f
  validateRefs f c
  validateCoverage f c
  .ok {
    scopeKind := f.header.scopeKind
    scopeId := f.header.scopeId
    contents := c
    indexHints := indexHints
    coveragePatches := coveragePatches
    effectiveSchemaFingerprintRef := effectiveRef f f.header.schemaFingerprintRef
      DeltaParentRefV1.schemaFingerprintRef
    effectiveObjectCatalogFingerprintRef := effectiveRef f f.header.objectCatalogFingerprintRef
      DeltaParentRefV1.objectCatalogFingerprintRef
    effectiveSemanticMapFingerprintRef := effectiveSemanticMapFingerprintRef f
    effectiveProjectionFingerprintRef := effectiveProjectionFingerprintRef f
    checkpointRowCount := DeltaValidation.checkpointRowCount c.temporalSegments }

end

inductive DeltaExactObjectSetMembershipV1
  | present
  | absent
  | unavailable
  deriving DecidableEq

def sparsePatchRecordMatchesPoint (r : DeltaSparsePatchRecordV1) (p : DeltaObjectPointLookupV1) :
    Bool :=
  r.scopeKind = p.scopeKind && r.scopeId = p.scopeId &&
    r.branchIdentityRef = p.branchIdentityRef && r.objectTypeId = p.objectTypeId && r.goid = p.goid

def propertyOpForcesProjectionRead (p : DeltaSparsePatchPropertyOpV1) : Bool :=
  p.propertyOp = deltaPropertyOpTombstone &&
    (p.tombstoneKind = deltaTombstoneKindObject ||
      p.tombstoneKind = deltaTombstoneKindProjectionRow)

def exactRangeMembership (sectionAvailable : Bool) (ranges : List DeltaTouchedObjectRangeV1)
    (point : DeltaObjectPointLookupV1) : DeltaExactObjectSetMembershipV1 :=
  if ¬ sectionAvailable then .unavailable
  else if ranges.any fun r => r.coversObjectPoint point then .present
  else .absent

namespace CoveDeltaObjectValidation

variable (v : CoveDeltaObjectValidation) (point : DeltaObjectPointLookupV1)

def exactTouchedMembership : DeltaExactObjectSetMembershipV1 :=
  exactRangeMembership v.contents.hasTouchedSetSection v.contents.touchedObjectRanges point

def exactTombstoneMembership : DeltaExactObjectSetMembershipV1 :=
  if ¬ v.contents.hasTombstoneSetSection then .unavailable
  else if point.scopeKind ≠ v.scopeKind ∨ point.scopeId ≠ v.scopeId then .absent
  else
    let temporalTombstone := v.contents.temporalSegments.any fun segment =>
      segment.header.objectTypeId = point.objectTypeId && segment.rows.any fun row =>
        row.recordKind = .tombstone && point.branchIdentityRef = row.branchKey &&
          row.goid = point.goid
    let sparseTombstone := v.contents.sparsePatchRecords.any fun r =>
      sparsePatchRecordMatchesPoint r point && sparseRecordTombstoneStatus r = .tombstoned
    if temporalTombstone ∨ sparseTombstone then .present else .absent

def canSkipDeltaForPointLookup : Bool := v.exactTouchedMembership point = .absent

def shouldSuppressParentLatestStateForTombstone : Bool :=
  v.exactTombstoneMembership point = .present

/-- The loop over the sparse records, with its flag `found_sparse_record`. -/
def skipsSparseRecords (requestedPropertyIds : List Nat) : Bool → List DeltaSparsePatchRecordV1 →
    Bool
  | found, [] => found
  | found, r :: rs =>
    if ¬ sparsePatchRecordMatchesPoint r point then
      skipsSparseRecords requestedPropertyIds found rs
    else if r.recordKind ≠ .delta then false
    else if r.changedProperties.any fun p =>
        p.propertyId ∈ requestedPropertyIds || propertyOpForcesProjectionRead p then false
    else skipsSparseRecords requestedPropertyIds true rs

def canSkipDeltaForProjectionProperties (requestedPropertyIds : List Nat) : Bool :=
  if v.canSkipDeltaForPointLookup point then true
  else if requestedPropertyIds = [] ∨ v.shouldSuppressParentLatestStateForTombstone point then false
  else skipsSparseRecords point requestedPropertyIds false v.contents.sparsePatchRecords

end CoveDeltaObjectValidation

end CoveFormat.ObjectDelta
