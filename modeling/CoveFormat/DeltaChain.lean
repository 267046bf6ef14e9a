import CoveFormat.DeltaFile

namespace CoveFormat.DeltaChain

open ByteCodes ExceptRules CoveTypes Temporal SparsePatch DeltaRecords DeltaFile

def covmDeltaChainProfileIdV1 : Nat := 0x31434443
def covmDeltaChainProfileVersionMajorV1 : Nat := 1
def covmDeltaChainProfileVersionMinorV1 : Nat := 0
def covmDeltaChainSupportedRequiredFeatures : UInt64 :=
  covedeltaObjectTemporalSupportedRequiredFeatures

def covmDeltaChainSummaryKindNone : Nat := 0
def covmDeltaChainSummaryKindCds1 : Nat := 1
def covmDeltaChainSummaryMagic : Bytes := [0x43, 0x44, 0x53, 0x31]
def covmDeltaChainSummaryVersionMajorV1 : Nat := 1
def covmDeltaChainSummaryVersionMinorV1 : Nat := 0
def covmDeltaChainSummaryHeaderLen : Nat := 122

def deltaSummaryTimeCommitRangePresent : UInt32 := 0x00000001
def deltaSummaryTimeSourcePublishRangePresent : UInt32 := 0x00000002
def deltaSummaryExactnessSourcePublishConservative : UInt32 := 0x00000001
def deltaSummaryExactnessSourcePublishExact : UInt32 := 0x00000002

/-- `compute_digest`, which rests on digest packages outside the repository. -/
abbrev Digests := DigestAlgorithm → Bytes → Bytes

/-- The bytes of a delta artifact, known by their length, their digests and their parse. -/
structure DeltaArtifact where
  fileLen : Nat
  digest : DigestAlgorithm → Bytes
  parsed : Except CoveError CoveDeltaFile

def covmDeltaRequiredDigestAlgorithm (raw : Nat) (field : String) :
    Except CoveError DigestAlgorithm :=
  match (DigestAlgorithm.fromU16 raw).filter (· ≠ .none) with
  | some algorithm => .ok algorithm
  | none => .error (.badSection
      (field ++ " must be SHA-256 or BLAKE3, got " ++ toString raw))

structure CovmDeltaArtifactRefV1 where
  chainOrdinal : Nat
  flags : UInt32
  (artifactId snapshotId parentSnapshotId : Id16)
  (fileLen footerCrc32c digestAlgorithm digestLen : Nat)
  digest : Bytes
  (uriRef checksum : Nat)
  deriving DecidableEq

def idBytes (id : Id16) : Bytes := (leBytes 16 id).reverse

namespace CovmDeltaArtifactRefV1

variable (r : CovmDeltaArtifactRefV1)

def validateMandatoryDigest : Except CoveError Unit := do
  let algorithm ← covmDeltaRequiredDigestAlgorithm r.digestAlgorithm
    "COVM delta artifact ref digest_algorithm"
  rejectIf (r.digestLen ≠ covedeltaExpectedDigestLen algorithm) (.badSection
    ("COVM delta artifact ref digest_len must be " ++
      toString (covedeltaExpectedDigestLen algorithm) ++ ", got " ++ toString r.digestLen))

def digestBinding : Bytes :=
  leBytes 4 r.chainOrdinal ++ idBytes r.artifactId ++ idBytes r.snapshotId ++
    idBytes r.parentSnapshotId ++ leBytes 8 r.fileLen ++ leBytes 4 r.footerCrc32c ++
    leBytes 2 r.digestAlgorithm ++ leBytes 2 r.digestLen ++ r.digest

end CovmDeltaArtifactRefV1

structure CovmDeltaChainExtensionV1 where
  (deltaChainProfileId deltaChainProfileVersionMajor deltaChainProfileVersionMinor : Nat)
  requiredDeltaFeatures : UInt64
  (datasetId baseSnapshotId resultSnapshotId : Id16)
  baseArtifactRef : CovmDeltaArtifactRefV1
  orderedDeltaArtifactRefs : List CovmDeltaArtifactRefV1
  chainDigestAlgorithm : Nat
  chainDigest : Bytes
  (chainSummaryKind chainSummaryRef chainSummaryOffset chainSummaryLength chainSummaryCrc32c : Nat)
  chainSummaryDigestAlgorithm : Nat
  chainSummaryDigest : Bytes
  (effectiveSchemaFingerprintRef effectiveObjectCatalogFingerprintRef : Nat)
  (effectiveProjectionFingerprintRef effectiveSemanticMapFingerprintRef : Nat)
  (effectiveVisibilityFingerprintRef effectiveRedactionFingerprintRef csnMin csnMax : Nat)

/-- The loop over the ordered refs: index, ids seen and the expected parent snapshot.
The result is the snapshot that the last ref leads to. -/
def validateOrderedRefs : Nat → List Id16 → Id16 → List CovmDeltaArtifactRefV1 →
    Except CoveError Id16
  | _, _, expectedParentSnapshot, [] => .ok expectedParentSnapshot
  | idx, artifactIds, expectedParentSnapshot, r :: rs => do
      r.validateMandatoryDigest
      rejectIf (2 ^ 32 ≤ idx + 1) .offsetRange
      rejectIf (r.chainOrdinal ≠ idx + 1) (.badSection
        ("COVM delta artifact ref ordinal must be dense; expected " ++ toString (idx + 1) ++
          ", got " ++ toString r.chainOrdinal))
      rejectIf (r.parentSnapshotId ≠ expectedParentSnapshot) (.badSection
        "COVM delta artifact ref parent_snapshot_id does not match selected chain")
      rejectIf (r.artifactId ∈ artifactIds)
        (.badSection "COVM delta-chain artifact IDs must be unique")
      validateOrderedRefs (idx + 1) (r.artifactId :: artifactIds) r.snapshotId rs

namespace CovmDeltaChainExtensionV1

section

variable (e : CovmDeltaChainExtensionV1)

def validateSummaryFields : Except CoveError Unit :=
  if e.chainSummaryKind = covmDeltaChainSummaryKindNone then
    rejectIf (e.chainSummaryRef ≠ 0 ∨ e.chainSummaryOffset ≠ 0 ∨ e.chainSummaryLength ≠ 0 ∨
        e.chainSummaryCrc32c ≠ 0 ∨ e.chainSummaryDigestAlgorithm ≠ 0 ∨
        e.chainSummaryDigest ≠ [])
      (.badSection "COVM empty chain summary must not carry refs, ranges, CRC, or digest")
  else do
    rejectIf (e.chainSummaryKind ≠ covmDeltaChainSummaryKindCds1)
      (.badSection "COVM unsupported delta chain summary kind")
    let _ ← covmDeltaRequiredDigestAlgorithm e.chainSummaryDigestAlgorithm
      "COVM delta chain_summary_digest_algorithm"
    rejectIf (e.chainSummaryLength = 0 ∨ e.chainSummaryDigest = [])
      (.badSection "COVM non-empty chain summary requires length and digest")

def validateStructure (supported : UInt64) :
    Except CoveError Unit := do
  rejectIf (e.deltaChainProfileId ≠ covmDeltaChainProfileIdV1) .badExtension
  rejectIf (e.deltaChainProfileVersionMajor ≠ covmDeltaChainProfileVersionMajorV1) .badVersion
  rejectIf (covmDeltaChainProfileVersionMinorV1 < e.deltaChainProfileVersionMinor) .badVersion
  validateDeltaRequiredFeatures e.requiredDeltaFeatures supported
  e.baseArtifactRef.validateMandatoryDigest
  rejectIf (e.baseArtifactRef.chainOrdinal ≠ 0)
    (.badSection "COVM base artifact ref must have chain_ordinal 0")
  rejectIf (e.baseArtifactRef.snapshotId ≠ e.baseSnapshotId)
    (.badSection "COVM base artifact ref snapshot_id must match base_snapshot_id")
  rejectIf (e.orderedDeltaArtifactRefs = [])
    (.badSection "COVM delta-chain extension requires at least one delta artifact ref")
  rejectIf (e.csnMax < e.csnMin) (.badSection "COVM delta-chain csn_min must be <= csn_max")
  let lastSnapshot ← validateOrderedRefs 0 [e.baseArtifactRef.artifactId] e.baseSnapshotId
    e.orderedDeltaArtifactRefs
  rejectIf (lastSnapshot ≠ e.resultSnapshotId)
    (.badSection "COVM ordered delta artifact refs do not end at result_snapshot_id")
  e.validateSummaryFields

end

/-- `b"COVM_DELTA_CHAIN_DIGEST_V1\0"`. -/
def chainDigestLabel : Bytes :=
  [0x43, 0x4f, 0x56, 0x4d, 0x5f, 0x44, 0x45, 0x4c, 0x54, 0x41, 0x5f, 0x43, 0x48, 0x41, 0x49, 0x4e,
    0x5f, 0x44, 0x49, 0x47, 0x45, 0x53, 0x54, 0x5f, 0x56, 0x31, 0x00]

variable (e : CovmDeltaChainExtensionV1)

def chainDigestMaterial : Bytes :=
  chainDigestLabel ++ idBytes e.datasetId ++ idBytes e.baseSnapshotId ++
    e.baseArtifactRef.digestBinding ++
    e.orderedDeltaArtifactRefs.flatMap CovmDeltaArtifactRefV1.digestBinding ++
    idBytes e.resultSnapshotId ++ leBytes 8 e.requiredDeltaFeatures.toNat ++
    leBytes 4 e.effectiveSchemaFingerprintRef ++ leBytes 4 e.effectiveObjectCatalogFingerprintRef ++
    leBytes 4 e.effectiveProjectionFingerprintRef ++ leBytes 4 e.effectiveSemanticMapFingerprintRef ++
    leBytes 4 e.effectiveVisibilityFingerprintRef ++ leBytes 4 e.effectiveRedactionFingerprintRef

def computedChainDigest (computeDigest : Digests) :
    Except CoveError Bytes := do
  let algorithm ← covmDeltaRequiredDigestAlgorithm e.chainDigestAlgorithm
    "COVM delta chain_digest_algorithm"
  .ok (computeDigest algorithm e.chainDigestMaterial)

def validateWithSupportedRequiredDeltaFeatures (computeDigest : Digests) (supported : UInt64) :
    Except CoveError Unit := do
  e.validateStructure supported
  let expectedDigest ← e.computedChainDigest computeDigest
  rejectIf (e.chainDigest ≠ expectedDigest) .digestMismatch

end CovmDeltaChainExtensionV1

structure DeltaChainSummaryEntryV1 where
  chainOrdinal : Nat
  deltaArtifactRef : CovmDeltaArtifactRefV1
  deltaArtifactId : Id16
  (requiredDeltaFeatures optionalDeltaFeatures : UInt64)
  (csnMin csnMax : Nat)
  (commitTimeStartUs commitTimeEndUs : Int)
  (timeFieldPresenceFlags timeSummaryExactnessFlags : UInt32)
  (sourcePublishRangeStartUs sourcePublishRangeEndUs : Int)

namespace DeltaChainSummaryEntryV1

variable (e : DeltaChainSummaryEntryV1)

def commitRangePresent : Bool :=
  e.timeFieldPresenceFlags &&& deltaSummaryTimeCommitRangePresent != 0

def sourcePublishRangePresent : Bool :=
  e.timeFieldPresenceFlags &&& deltaSummaryTimeSourcePublishRangePresent != 0

def validate (supported : UInt64) : Except CoveError Unit := do
  validateDeltaRequiredFeatures e.requiredDeltaFeatures supported
  e.deltaArtifactRef.validateMandatoryDigest
  rejectIf (e.chainOrdinal = 0 ∨ e.deltaArtifactRef.chainOrdinal ≠ e.chainOrdinal)
    (.badSection "COVM delta summary entry ordinal must match delta artifact ref")
  rejectIf (e.deltaArtifactId ≠ e.deltaArtifactRef.artifactId)
    (.badSection "COVM delta summary entry artifact ID disagrees with artifact ref")
  rejectIf (e.csnMax < e.csnMin)
    (.badSection "COVM delta summary csn_min must be <= csn_max")
  rejectIf (e.timeFieldPresenceFlags &&& ~~~(deltaSummaryTimeCommitRangePresent |||
      deltaSummaryTimeSourcePublishRangePresent) ≠ 0)
    (.badSection "COVM delta summary contains unknown time presence flags")
  rejectIf (e.timeSummaryExactnessFlags &&& ~~~(deltaSummaryExactnessSourcePublishConservative |||
      deltaSummaryExactnessSourcePublishExact) ≠ 0)
    (.badSection "COVM delta summary contains unknown time exactness flags")
  rejectIf (e.commitRangePresent ∧ e.commitTimeEndUs < e.commitTimeStartUs)
    (.badSection "COVM delta summary commit-time range is inverted")
  rejectIf (¬ e.commitRangePresent ∧ (e.commitTimeStartUs ≠ 0 ∨ e.commitTimeEndUs ≠ 0))
    (.badSection "COVM delta summary commit-time fields require presence flag")
  rejectIf (e.sourcePublishRangePresent ∧ e.sourcePublishRangeEndUs < e.sourcePublishRangeStartUs)
    (.badSection "COVM delta summary source-publish range is inverted")
  rejectIf (¬ e.sourcePublishRangePresent ∧
      (e.sourcePublishRangeStartUs ≠ 0 ∨ e.sourcePublishRangeEndUs ≠ 0))
    (.badSection "COVM delta summary source-publish fields require presence flag")
  rejectIf (¬ e.sourcePublishRangePresent ∧ e.timeSummaryExactnessFlags ≠ 0)
    (.badSection "COVM delta summary source-publish exactness requires source-publish fields")

def sourcePublishSummaryProvesAbsence : Bool :=
  e.timeSummaryExactnessFlags &&& (deltaSummaryExactnessSourcePublishConservative |||
    deltaSummaryExactnessSourcePublishExact) != 0

end DeltaChainSummaryEntryV1

structure CovmDeltaChainSummaryV1 where
  magic : Bytes
  (versionMajor versionMinor headerLen : Nat)
  (datasetId resultSnapshotId : Id16)
  chainDigestAlgorithm : Nat
  chainDigest : Bytes
  (objectTypeSummaryCount branchSummaryCount temporalRoleSummaryCount : Nat)
  deltaSummaries : List DeltaChainSummaryEntryV1
  (objectTypeSummaries branchSummaries temporalRoleSummaries : Bytes)

/-- The loop over the summary entries: index, previous `csn_max`, previous commit range. -/
def validateSummaryEntries (supported : UInt64) : Nat → Option Nat → Option (Int × Int) →
    List DeltaChainSummaryEntryV1 → Except CoveError Unit
  | _, _, _, [] => .ok ()
  | idx, previousCsnMax, previousCommit, e :: es => do
      e.validate supported
      rejectIf (2 ^ 32 ≤ idx + 1) .offsetRange
      rejectIf (e.chainOrdinal ≠ idx + 1) (.badSection
        ("COVM delta summary entries must be dense and sorted; expected " ++ toString (idx + 1) ++
          ", got " ++ toString e.chainOrdinal))
      rejectIf (previousCsnMax.any (e.csnMin ≤ ·))
        (.badSection "COVM delta summary CSN ranges must be strictly append-only")
      rejectIf (e.commitRangePresent ∧
          previousCommit.any fun p => e.commitTimeStartUs < p.1 || e.commitTimeEndUs < p.2)
        (.badSection "COVM delta summary commit-time ranges must be monotonic")
      validateSummaryEntries supported (idx + 1) (some e.csnMax)
        (if e.commitRangePresent then some (e.commitTimeStartUs, e.commitTimeEndUs)
          else previousCommit) es

structure CovmDeltaPruneRequest where
  asOfCsn : Option Nat
  asOfCommitTimestampUs : Option Int
  sourcePublishRangeUs : Option (Int × Int)

inductive CovmDeltaPruneReason
  | asOfCsnBeforeDelta
  | asOfCommitBeforeDelta
  | sourcePublishRangeOutsideDelta

structure CovmDeltaPruneSkip where
  chainOrdinal : Nat
  reason : CovmDeltaPruneReason

structure CovmDeltaPruneDecision where
  selectedChainOrdinals : List Nat
  skipped : List CovmDeltaPruneSkip

section

variable (request : CovmDeltaPruneRequest)

def pruneBySourcePublish (e : DeltaChainSummaryEntryV1) :
    Except CoveError (Option CovmDeltaPruneReason) :=
  match request.sourcePublishRangeUs with
  | none => .ok none
  | some (start, finish) => do
      rejectIf (¬ e.sourcePublishRangePresent)
        (.badSection "COVM source-publish pruning requires source-publish summary fields")
      rejectIf (¬ e.sourcePublishSummaryProvesAbsence) (.badSection
        "COVM source-publish pruning requires conservative source-publish summary exactness")
      .ok (if finish < e.sourcePublishRangeStartUs ∨ e.sourcePublishRangeEndUs < start then
        some .sourcePublishRangeOutsideDelta else none)

def pruneByCommit (e : DeltaChainSummaryEntryV1) : Except CoveError (Option CovmDeltaPruneReason) :=
  match request.asOfCommitTimestampUs with
  | none => pruneBySourcePublish request e
  | some asOf => do
      rejectIf (¬ e.commitRangePresent)
        (.badSection "COVM commit-time pruning requires commit-time summary fields")
      if asOf < e.commitTimeStartUs then .ok (some .asOfCommitBeforeDelta)
      else pruneBySourcePublish request e

/-- The body of the loop of `prune_delta_chain`: the reason to skip the entry, if any. -/
def pruneEntry (e : DeltaChainSummaryEntryV1) : Except CoveError (Option CovmDeltaPruneReason) :=
  if request.asOfCsn.any (· < e.csnMin) then .ok (some .asOfCsnBeforeDelta)
  else pruneByCommit request e

end

def pruneEntries (request : CovmDeltaPruneRequest) : List DeltaChainSummaryEntryV1 →
    Except CoveError CovmDeltaPruneDecision
  | [] => .ok ⟨[], []⟩
  | e :: es => do
      let reason ← pruneEntry request e
      let rest ← pruneEntries request es
      match reason with
      | none => .ok ⟨e.chainOrdinal :: rest.selectedChainOrdinals, rest.skipped⟩
      | some why => .ok ⟨rest.selectedChainOrdinals, ⟨e.chainOrdinal, why⟩ :: rest.skipped⟩

namespace CovmDeltaChainSummaryV1

variable (s : CovmDeltaChainSummaryV1)

def validateStructure (supported : UInt64) :
    Except CoveError Unit := do
  rejectIf (s.magic ≠ covmDeltaChainSummaryMagic) .badMagic
  rejectIf (s.versionMajor ≠ covmDeltaChainSummaryVersionMajorV1) .badVersion
  rejectIf (covmDeltaChainSummaryVersionMinorV1 < s.versionMinor) .badVersion
  rejectIf (s.headerLen ≠ covmDeltaChainSummaryHeaderLen) (.badSection
    ("COVM delta chain summary header_len must be " ++ toString covmDeltaChainSummaryHeaderLen ++
      ", got " ++ toString s.headerLen))
  let _ ← covmDeltaRequiredDigestAlgorithm s.chainDigestAlgorithm
    "COVM delta chain summary chain_digest_algorithm"
  rejectIf (s.deltaSummaries = [])
    (.badSection "COVM delta chain summary requires at least one delta entry")
  validateSummaryEntries supported 0 none none s.deltaSummaries
  rejectIf (s.objectTypeSummaryCount = 0 ∧ s.objectTypeSummaries ≠ [] ∨
      s.branchSummaryCount = 0 ∧ s.branchSummaries ≠ [] ∨
      s.temporalRoleSummaryCount = 0 ∧ s.temporalRoleSummaries ≠ []) (.badSection
    "COVM delta summary raw summary bytes require a non-zero summary count")

def validateAgainstDeltaChainExtension (e : CovmDeltaChainExtensionV1) : Except CoveError Unit := do
  s.validateStructure covmDeltaChainSupportedRequiredFeatures
  rejectIf (s.datasetId ≠ e.datasetId ∨ s.resultSnapshotId ≠ e.resultSnapshotId ∨
      s.chainDigestAlgorithm ≠ e.chainDigestAlgorithm ∨ s.chainDigest ≠ e.chainDigest ∨
      s.deltaSummaries.length ≠ e.orderedDeltaArtifactRefs.length) .sidecarStale
  checkAll (fun p : DeltaChainSummaryEntryV1 × CovmDeltaArtifactRefV1 =>
    rejectIf (p.1.deltaArtifactRef ≠ p.2) .sidecarStale)
    (s.deltaSummaries.zip e.orderedDeltaArtifactRefs)

def pruneDeltaChain (request : CovmDeltaPruneRequest) :
    Except CoveError CovmDeltaPruneDecision := do
  s.validateStructure covmDeltaChainSupportedRequiredFeatures
  rejectIf (request.sourcePublishRangeUs.any fun p => p.2 < p.1)
    (.badSection "COVM source-publish pruning range is inverted")
  pruneEntries request s.deltaSummaries

end CovmDeltaChainSummaryV1

def verifyDeltaArtifactRefBytes (r : CovmDeltaArtifactRefV1) (a : DeltaArtifact) (label : String) :
    Except CoveError Unit := do
  r.validateMandatoryDigest
  rejectIf (a.fileLen ≠ r.fileLen) .sidecarStale
  let algorithm ← covmDeltaRequiredDigestAlgorithm r.digestAlgorithm "COVM artifact ref"
  rejectIf (a.digest algorithm ≠ r.digest.take (covedeltaExpectedDigestLen algorithm))
    .digestMismatch
  rejectIf (r.chainOrdinal = 0 ∧ r.parentSnapshotId ≠ 0)
    (.badSection ("COVM " ++ label ++ " base ref must not carry a parent snapshot"))

def sourcePublishFlag (f : CoveDeltaFile) : Bool :=
  f.header.flags &&& deltaFlagSourcePublishRangePresent != 0

def validateDeltaSummaryEntryAgainstDeltaFile (e : DeltaChainSummaryEntryV1) (f : CoveDeltaFile) :
    Except CoveError Unit := do
  rejectIf (e.requiredDeltaFeatures ≠ f.header.requiredDeltaFeatures ∨
      e.optionalDeltaFeatures ≠ f.header.optionalDeltaFeatures ∨
      f.header.csnMin < e.csnMin ∨ e.csnMax < f.header.csnMax) .sidecarStale
  rejectIf (¬ e.commitRangePresent ∨ f.header.commitTimeRangeStartUs < e.commitTimeStartUs ∨
      e.commitTimeEndUs < f.header.commitTimeRangeEndUs) .sidecarStale
  rejectIf (sourcePublishFlag f ∧ (¬ e.sourcePublishRangePresent ∨
      ¬ e.sourcePublishSummaryProvesAbsence ∨
      f.header.sourcePublishRangeStartUs < e.sourcePublishRangeStartUs ∨
      e.sourcePublishRangeEndUs < f.header.sourcePublishRangeEndUs)) .sidecarStale

/-- The comparison with the summary entry of the same index; the lengths agree by
`validate_against_delta_chain_extension`. -/
def validateSummaryEntryAt (summary : Option CovmDeltaChainSummaryV1) (idx : Nat)
    (f : CoveDeltaFile) : Except CoveError Unit :=
  match summary with
  | none => .ok ()
  | some s =>
    match s.deltaSummaries[idx]? with
    | some e => validateDeltaSummaryEntryAgainstDeltaFile e f
    | none => .error .offsetRange

def parseSelectedDeltas (e : CovmDeltaChainExtensionV1) (summary : Option CovmDeltaChainSummaryV1) :
    Nat → Id16 → List (DeltaArtifact × CovmDeltaArtifactRefV1) →
    Except CoveError (List CoveDeltaFile × Id16)
  | _, expectedParentSnapshot, [] => .ok ([], expectedParentSnapshot)
  | idx, expectedParentSnapshot, (a, r) :: rest => do
      let f ← a.parsed
      rejectIf (2 ^ 32 ≤ idx + 1) .offsetRange
      rejectIf (r.chainOrdinal ≠ idx + 1 ∨ f.header.chainOrdinal ≠ idx + 1 ∨
          f.header.datasetId ≠ e.datasetId ∨ f.header.deltaArtifactId ≠ r.artifactId ∨
          f.header.snapshotId ≠ r.snapshotId ∨ f.header.parentSnapshotId ≠ r.parentSnapshotId ∨
          f.header.parentSnapshotId ≠ expectedParentSnapshot ∨
          f.footer.footerCrc32c ≠ r.footerCrc32c ∨
          f.header.requiredDeltaFeatures &&& ~~~e.requiredDeltaFeatures ≠ 0) .sidecarStale
      verifyDeltaArtifactRefBytes r a "selected delta artifact"
      validateSummaryEntryAt summary idx f
      let (files, lastSnapshot) ← parseSelectedDeltas e summary (idx + 1) f.header.snapshotId rest
      .ok (f :: files, lastSnapshot)

def validateDeltaLineageParentRefAgainstArtifactRef (p : DeltaParentRefV1)
    (expected : CovmDeltaArtifactRefV1) : Except CoveError Unit := do
  rejectIf (p.digestRef = deltaRefNone)
    (.badSection "COVEDELTA lineage parent requires digest_ref")
  rejectIf (p.artifactId ≠ expected.artifactId ∨ p.snapshotId ≠ expected.snapshotId ∨
      p.fileLen ≠ expected.fileLen ∨ p.footerCrc32c ≠ expected.footerCrc32c ∨
      p.digestAlgorithm ≠ expected.digestAlgorithm ∨ p.digestLen ≠ expected.digestLen ∨
      p.uriRef ≠ expected.uriRef) .sidecarStale

def lineageParentRef (f : CoveDeltaFile) : Option DeltaParentRefV1 :=
  f.parentRefs.find? DeltaParentRefV1.isLineageParent

def validateLineageParent (f : CoveDeltaFile) (expected : CovmDeltaArtifactRefV1) :
    Except CoveError Unit :=
  match lineageParentRef f with
  | none => .error (.badSection "selected delta lacks lineage parent ref")
  | some p => validateDeltaLineageParentRefAgainstArtifactRef p expected

section

variable (e : CovmDeltaChainExtensionV1)

def validateDeltaLineageParentRefsAgainstSelectedArtifacts (files : List CoveDeltaFile) :
    Except CoveError Unit :=
  checkAll (fun p : CoveDeltaFile × CovmDeltaArtifactRefV1 => validateLineageParent p.1 p.2)
    (files.zip (e.baseArtifactRef :: e.orderedDeltaArtifactRefs))

def validateSummary (summary : Option CovmDeltaChainSummaryV1) : Except CoveError Unit :=
  match summary with
  | none => .ok ()
  | some s => s.validateAgainstDeltaChainExtension e

end

def validateSelectedDeltaChain (computeDigest : Digests) (e : CovmDeltaChainExtensionV1)
    (summary : Option CovmDeltaChainSummaryV1) (artifacts : List DeltaArtifact) :
    Except CoveError (List CoveDeltaFile) := do
  e.validateWithSupportedRequiredDeltaFeatures computeDigest covmDeltaChainSupportedRequiredFeatures
  rejectIf (e.chainSummaryKind ≠ covmDeltaChainSummaryKindNone ∧ summary = none)
    (.badSection "selected COVM delta chain requires declared chain summary bytes")
  validateSummary e summary
  rejectIf (artifacts.length ≠ e.orderedDeltaArtifactRefs.length)
    (.badSection "selected COVM delta chain artifact count does not match extension")
  let (files, lastSnapshot) ← parseSelectedDeltas e summary 0 e.baseSnapshotId
    (artifacts.zip e.orderedDeltaArtifactRefs)
  rejectIf (lastSnapshot ≠ e.resultSnapshotId) .sidecarStale
  validateDeltaLineageParentRefsAgainstSelectedArtifacts e files
  .ok files

end CoveFormat.DeltaChain
