import CoveFormat.SparsePatch

namespace CoveFormat.DeltaRecords

open ExceptRules CoveTypes Temporal SparsePatch

def deltaFlagSingleScope : UInt32 := 0x00000001
def deltaFlagSourcePublishRangePresent : UInt32 := 0x00000002
def deltaParentRefLineageParent : UInt32 := 0x00000001

def deltaFeatureSparsePatchRows : UInt64 := (1 : UInt64) <<< 0
def deltaFeatureObjectTombstones : UInt64 := (1 : UInt64) <<< 1
def deltaFeatureContinuationAnchors : UInt64 := (1 : UInt64) <<< 4
def deltaFeatureInlineDictionary : UInt64 := (1 : UInt64) <<< 5
def deltaFeatureParentDictionaryAliases : UInt64 := (1 : UInt64) <<< 6
def deltaFeatureExactTouchedSet : UInt64 := (1 : UInt64) <<< 7
def deltaFeatureExactTombstoneSet : UInt64 := (1 : UInt64) <<< 8
def deltaFeatureCheckpointBaselines : UInt64 := (1 : UInt64) <<< 9
def deltaFeatureCoveragePatch : UInt64 := (1 : UInt64) <<< 10
def deltaFeatureIndexHints : UInt64 := (1 : UInt64) <<< 11
def deltaFeatureMapEvidencePatch : UInt64 := (1 : UInt64) <<< 12
def deltaFeatureProjectionPatch : UInt64 := (1 : UInt64) <<< 13

def covedeltaObjectTemporalSupportedRequiredFeatures : UInt64 :=
  deltaFeatureSparsePatchRows ||| deltaFeatureObjectTombstones |||
    deltaFeatureContinuationAnchors ||| deltaFeatureInlineDictionary |||
    deltaFeatureParentDictionaryAliases ||| deltaFeatureExactTouchedSet |||
    deltaFeatureExactTombstoneSet ||| deltaFeatureCheckpointBaselines |||
    deltaFeatureCoveragePatch ||| deltaFeatureIndexHints ||| deltaFeatureMapEvidencePatch |||
    deltaFeatureProjectionPatch

def deltaAnchorStrengthKeyRecordAndStateHash : Nat := 2
def deltaAnchorStrengthKeyRecordStateAndTrustHash : Nat := 3

def deltaStateHashKindCoveObjectDeltaStateHashV1 : Nat := 0
def deltaStateHashKindCoveOTrustHash : Nat := 1
def deltaStateHashKindExtension : Nat := 255

def deltaDictionaryEntryKindInlineValue : Nat := 0
def deltaDictionaryEntryKindParentDictionaryAlias : Nat := 1
def deltaDictionaryEntryKindCanonicalHashHint : Nat := 2

def deltaSidecarHintKindCoviIndex : Nat := 0
def deltaSidecarHintKindCovxIndex : Nat := 1
def deltaSidecarHintKindCoveragePatch : Nat := 2

def deltaSummaryDescriptorKindPropertyBitmap : Nat := 4

inductive CoveDeltaSectionKind
  | parentRefs
  | catalogPatch
  | dictionaryOverlay
  | temporalSegmentIndex
  | temporalSegmentData
  | continuationAnchors
  | touchedObjectSet
  | tombstoneSet
  | propertyOps
  | evidencePatch
  | projectionPatch
  | coveragePatch
  | indexHints
  | layoutHints
  | trustContinuation
  | stringTable
  | branchIdentityTable
  | scopeTable
  | temporalRoleSummaryTable
  | touchedSummaryTable
  | tombstoneSummaryTable
  | stateHashTable
  | extension
  deriving DecidableEq

def CoveDeltaSectionKind.fromU16 : Nat → Option CoveDeltaSectionKind
  | 0 => some parentRefs
  | 1 => some catalogPatch
  | 2 => some dictionaryOverlay
  | 3 => some temporalSegmentIndex
  | 4 => some temporalSegmentData
  | 5 => some continuationAnchors
  | 6 => some touchedObjectSet
  | 7 => some tombstoneSet
  | 8 => some propertyOps
  | 9 => some evidencePatch
  | 10 => some projectionPatch
  | 11 => some coveragePatch
  | 12 => some indexHints
  | 13 => some layoutHints
  | 14 => some trustContinuation
  | 15 => some stringTable
  | 16 => some branchIdentityTable
  | 17 => some scopeTable
  | 18 => some temporalRoleSummaryTable
  | 19 => some touchedSummaryTable
  | 20 => some tombstoneSummaryTable
  | 21 => some stateHashTable
  | 255 => some extension
  | _ => none

structure DeltaParentRefV1 where
  parentRef : Nat
  flags : UInt32
  (artifactId snapshotId : Id16)
  (fileLen footerCrc32c digestAlgorithm digestLen digestRef uriRef schemaFingerprintRef : Nat)
  (objectCatalogFingerprintRef semanticMapFingerprintRef projectionFingerprintRef : Nat)

def covedeltaExpectedDigestLen : DigestAlgorithm → Nat
  | .none => 0
  | .sha256 => 32
  | .blake3 => 32

def DeltaParentRefV1.isLineageParent (p : DeltaParentRefV1) : Bool :=
  p.flags &&& deltaParentRefLineageParent != 0

def DeltaParentRefV1.validateObjectDeltaBinding (p : DeltaParentRefV1) : Except CoveError Unit :=
  match DigestAlgorithm.fromU16 p.digestAlgorithm with
  | none => .error (.badSection "COVEDELTA parent ref has unknown digest_algorithm")
  | some .none =>
    .error (.badSection "COVEDELTA parent ref requires cryptographic digest_algorithm")
  | some algorithm => do
      let expectedLen := covedeltaExpectedDigestLen algorithm
      rejectIf (p.digestLen ≠ expectedLen) (.badSection
        ("COVEDELTA parent ref digest_len must be " ++ toString expectedLen ++ ", got " ++
          toString p.digestLen))
      rejectIf (p.digestRef = deltaRefNone)
        (.badSection "COVEDELTA parent ref requires digest_ref")

structure DeltaContinuationAnchorV1 where
  scopeKind : Nat
  scopeId : Id16
  (objectTypeId branchIdentityRef : Nat)
  goid : Id16
  (parentRef predecessorCsn : Nat)
  predecessorTimestampUs : Int
  (predecessorStateHashRef predecessorTrustHashRef anchorStrength : Nat)

namespace DeltaContinuationAnchorV1

variable (a : DeltaContinuationAnchorV1)

def validate : Except CoveError Unit := do
  rejectIf (deltaAnchorStrengthKeyRecordStateAndTrustHash < a.anchorStrength)
    (.badSection "COVEDELTA continuation anchor has unknown anchor_strength")
  rejectIf (a.parentRef = deltaRefNone) .refInvalid
  rejectIf (deltaAnchorStrengthKeyRecordAndStateHash ≤ a.anchorStrength ∧
      a.predecessorStateHashRef = deltaRefNone)
    (.badSection "COVEDELTA strong continuation anchor requires predecessor_state_hash_ref")
  rejectIf (a.anchorStrength = deltaAnchorStrengthKeyRecordStateAndTrustHash ∧
      a.predecessorTrustHashRef = deltaRefNone)
    (.badSection "COVEDELTA trust-strength continuation anchor requires predecessor_trust_hash_ref")

def validateForExistingObjectPatch : Except CoveError Unit := do
  a.validate
  rejectIf (a.anchorStrength < deltaAnchorStrengthKeyRecordAndStateHash)
    (.badSection "COVEDELTA existing-object patch requires KeyRecordAndStateHash anchor strength")

end DeltaContinuationAnchorV1

structure DeltaStateHashDescriptorV1 where
  (stateHashKind hashAlgorithm hashLen hashPayloadRef : Nat)
  flags : UInt32

namespace DeltaStateHashDescriptorV1

variable (d : DeltaStateHashDescriptorV1)

def validate : Except CoveError Unit := do
  rejectIf (d.flags ≠ 0) .reservedNotZero
  rejectIf (d.stateHashKind ∉ [deltaStateHashKindCoveObjectDeltaStateHashV1,
      deltaStateHashKindCoveOTrustHash, deltaStateHashKindExtension])
    (.badSection "COVEDELTA state hash descriptor has unknown state_hash_kind")
  match (DigestAlgorithm.fromU16 d.hashAlgorithm).filter (· ≠ .none) with
  | none => .error (.badSection
      "COVEDELTA state hash descriptor requires a cryptographic hash algorithm")
  | some algorithm => do
      rejectIf (d.hashLen ≠ covedeltaExpectedDigestLen algorithm)
        (.badSection "COVEDELTA state hash descriptor hash_len does not match algorithm")
      rejectIf (d.hashPayloadRef = deltaRefNone)
        (.badSection "COVEDELTA state hash descriptor requires hash_payload_ref")

def validateCoveObjectDeltaStateHash : Except CoveError Unit := do
  d.validate
  rejectIf (d.stateHashKind ≠ deltaStateHashKindCoveObjectDeltaStateHashV1)
    (.badSection "COVEDELTA continuation anchor state hash must be CoveObjectDeltaStateHashV1")

end DeltaStateHashDescriptorV1

structure DeltaDictionaryEntryV1 where
  (localDictionaryId localCode logicalType entryKind : Nat)
  flags : UInt32
  (inlineValueRef parentRef parentDictionaryId parentCode parentDictionaryDigestRef : Nat)
  canonicalHash128 : Id16

namespace DeltaDictionaryEntryV1

variable (e : DeltaDictionaryEntryV1)

def validateStructural : Except CoveError Unit := do
  rejectIf (e.flags ≠ 0) .reservedNotZero
  rejectIf (CoveLogicalType.fromU16 e.logicalType = none)
    (.badSection "COVEDELTA dictionary overlay entry has unknown logical_type")
  if e.entryKind = deltaDictionaryEntryKindInlineValue then
    rejectIf (e.inlineValueRef = deltaRefNone)
      (.badSection "COVEDELTA inline dictionary entry requires inline_value_ref")
    rejectIf (e.parentRef ≠ deltaRefNone ∨ e.parentDictionaryId ≠ 0 ∨ e.parentCode ≠ 0 ∨
        e.parentDictionaryDigestRef ≠ deltaRefNone)
      (.badSection "COVEDELTA inline dictionary entry must not carry parent refs")
  else if e.entryKind = deltaDictionaryEntryKindParentDictionaryAlias then
    rejectIf (e.inlineValueRef ≠ deltaRefNone)
      (.badSection "COVEDELTA parent dictionary alias must not carry inline_value_ref")
    rejectIf (e.parentRef = deltaRefNone ∨ e.parentDictionaryDigestRef = deltaRefNone)
      (.badSection "COVEDELTA parent dictionary alias requires parent refs and digest")
  else if e.entryKind = deltaDictionaryEntryKindCanonicalHashHint then
    rejectIf (e.inlineValueRef ≠ deltaRefNone ∨ e.parentRef ≠ deltaRefNone ∨
        e.parentDictionaryId ≠ 0 ∨ e.parentCode ≠ 0 ∨ e.parentDictionaryDigestRef ≠ deltaRefNone)
      (.badSection "COVEDELTA canonical hash hint must not carry value or parent refs")
  else .error (.badSection "COVEDELTA dictionary overlay entry has unknown entry_kind")

def validateForObjectDelta (deltaRequiredFeatures sectionRequiredFeatures : UInt64)
    (parentRefs : List Nat) :
    Except CoveError Unit := do
  e.validateStructural
  if e.entryKind = deltaDictionaryEntryKindInlineValue then
    rejectIf (deltaRequiredFeatures &&& deltaFeatureInlineDictionary = 0 ∨
        sectionRequiredFeatures &&& deltaFeatureInlineDictionary = 0)
      (.badSection "COVEDELTA inline dictionary overlay requires inline dictionary feature")
  else if e.entryKind = deltaDictionaryEntryKindParentDictionaryAlias then
    rejectIf (deltaRequiredFeatures &&& deltaFeatureParentDictionaryAliases = 0 ∨
        sectionRequiredFeatures &&& deltaFeatureParentDictionaryAliases = 0)
      (.badSection "COVEDELTA parent dictionary alias requires parent dictionary alias feature")
    rejectIf (e.parentRef ∉ parentRefs)
      (.badSection "COVEDELTA parent dictionary alias references unknown parent_ref")
  else
    rejectIf (sectionRequiredFeatures ≠ 0)
      (.badSection "COVEDELTA canonical hash hint must not be required for materialization")
    rejectIf (e.canonicalHash128 = 0)
      (.badSection "COVEDELTA canonical hash hint requires non-zero canonical_hash128")

end DeltaDictionaryEntryV1

structure DeltaInlineValueV1 where
  (valueRef valueTag : Nat)

structure DeltaSidecarHintV1 where
  (hintRef hintKind parentRef : Nat)

structure DeltaScopeDescriptorV1 where
  scopeRef : Nat

structure DeltaSummaryDescriptorV1 where
  (summaryRef summaryKind : Nat)

structure DeltaObjectPointLookupV1 where
  scopeKind : Nat
  scopeId : Id16
  (objectTypeId branchIdentityRef : Nat)
  goid : Id16

structure DeltaTouchedObjectRangeV1 where
  scopeKind : Nat
  scopeId : Id16
  (objectTypeId branchIdentityRef : Nat)
  (minGoid maxGoid : Id16)
  (touchedCount propertyBitmapRef : Nat)

namespace DeltaTouchedObjectRangeV1

variable (r : DeltaTouchedObjectRangeV1)

def coversObjectPoint (p : DeltaObjectPointLookupV1) : Bool :=
  r.scopeKind = p.scopeKind && r.scopeId = p.scopeId && r.objectTypeId = p.objectTypeId &&
    r.branchIdentityRef = p.branchIdentityRef && r.minGoid ≤ p.goid && p.goid ≤ r.maxGoid

end DeltaTouchedObjectRangeV1

/-- The fields of the header that the object-delta and chain validations read. -/
structure CoveDeltaHeaderV1 where
  flags : UInt32
  (requiredDeltaFeatures optionalDeltaFeatures : UInt64)
  (deltaArtifactId datasetId snapshotId parentSnapshotId : Id16)
  (chainOrdinal chainDepth csnMin csnMax : Nat)
  (commitTimeRangeStartUs commitTimeRangeEndUs : Int)
  scopeKind : Nat
  scopeId : Id16
  (objectCatalogFingerprintRef schemaFingerprintRef semanticMapFingerprintRef : Nat)
  projectionFingerprintRef : Nat
  (sourcePublishRangeStartUs sourcePublishRangeEndUs : Int)

end CoveFormat.DeltaRecords
