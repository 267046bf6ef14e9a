import CoveFormat.DeltaChainWire

namespace CoveFormat.DeltaSummaryWire

open ByteCodes ExceptRules FixedFields TakeReaders CheckedArith CoveTypes DeltaChainWire
open List hiding Vector
open DeltaFileBytes (slice)
open DeltaRecords (covedeltaExpectedDigestLen)
open DeltaChain (Digests covmDeltaRequiredDigestAlgorithm covmDeltaChainSupportedRequiredFeatures
  covmDeltaChainSummaryMagic covmDeltaChainSummaryHeaderLen covmDeltaChainSummaryVersionMajorV1
  covmDeltaChainSummaryVersionMinorV1)

def covmDeltaChainSummaryEntryLen : Nat := 296

structure DeltaChainSummaryEntryV1 where
  chainOrdinal : UInt32
  deltaArtifactRef : CovmDeltaArtifactRefV1
  deltaArtifactId : Vector UInt8 16
  (requiredDeltaFeatures optionalDeltaFeatures csnMin csnMax : UInt64)
  (commitTimeStartUs commitTimeEndUs artifactCreatedAtUs firstPublishedAtUs : Int64)
  selectedSnapshotPublishedAtUs : Int64
  (timeFieldPresenceFlags timeSummaryExactnessFlags : UInt32)
  (sourcePublishRangeStartUs sourcePublishRangeEndUs : Int64)
  (scopeSummaryRef branchSummaryRef objectTypeSummaryRef goidRangeSummaryRef : UInt32)
  (touchedSummaryRef tombstoneSummaryRef propertySummaryRef temporalRoleSummaryRef : UInt32)
  (deltaHeaderRangeOffset deltaHeaderRangeLength hotSummaryRangeOffset : UInt64)
  hotSummaryRangeLength : UInt64
  checksum : UInt32

-- The CRC32C of the checksum package.
variable (crc32c : Bytes → UInt32)

namespace DeltaChainSummaryEntryV1

def view (e : DeltaChainSummaryEntryV1) : DeltaChain.DeltaChainSummaryEntryV1 where
  chainOrdinal := e.chainOrdinal.toNat
  deltaArtifactRef := e.deltaArtifactRef.view
  deltaArtifactId := idOf e.deltaArtifactId
  requiredDeltaFeatures := e.requiredDeltaFeatures
  optionalDeltaFeatures := e.optionalDeltaFeatures
  csnMin := e.csnMin.toNat
  csnMax := e.csnMax.toNat
  commitTimeStartUs := e.commitTimeStartUs.toInt
  commitTimeEndUs := e.commitTimeEndUs.toInt
  timeFieldPresenceFlags := e.timeFieldPresenceFlags
  timeSummaryExactnessFlags := e.timeSummaryExactnessFlags
  sourcePublishRangeStartUs := e.sourcePublishRangeStartUs.toInt
  sourcePublishRangeEndUs := e.sourcePublishRangeEndUs.toInt

def body (e : DeltaChainSummaryEntryV1) : Bytes :=
  [putU32 e.chainOrdinal, e.deltaArtifactRef.serialize crc32c, e.deltaArtifactId.toList,
    putU64 e.requiredDeltaFeatures, putU64 e.optionalDeltaFeatures, putU64 e.csnMin,
    putU64 e.csnMax, putI64 e.commitTimeStartUs, putI64 e.commitTimeEndUs,
    putI64 e.artifactCreatedAtUs, putI64 e.firstPublishedAtUs,
    putI64 e.selectedSnapshotPublishedAtUs, putU32 e.timeFieldPresenceFlags,
    putU32 e.timeSummaryExactnessFlags, putI64 e.sourcePublishRangeStartUs,
    putI64 e.sourcePublishRangeEndUs, putU32 e.scopeSummaryRef, putU32 e.branchSummaryRef,
    putU32 e.objectTypeSummaryRef, putU32 e.goidRangeSummaryRef, putU32 e.touchedSummaryRef,
    putU32 e.tombstoneSummaryRef, putU32 e.propertySummaryRef, putU32 e.temporalRoleSummaryRef,
    putU64 e.deltaHeaderRangeOffset, putU64 e.deltaHeaderRangeLength,
    putU64 e.hotSummaryRangeOffset, putU64 e.hotSummaryRangeLength].flatten

def serialize (e : DeltaChainSummaryEntryV1) : Except CoveError Bytes := do
  e.view.validate covmDeltaChainSupportedRequiredFeatures
  .ok (sealBytes crc32c (e.body crc32c))

def read : Reader DeltaChainSummaryEntryV1 := do
  let chainOrdinal ← takeU32
  let refBytes ← take covmDeltaArtifactRefLen
  let deltaArtifactRef ← StateT.lift (CovmDeltaArtifactRefV1.parse crc32c refBytes)
  let deltaArtifactId ← takeArray 16
  let requiredDeltaFeatures ← takeU64
  let optionalDeltaFeatures ← takeU64
  let csnMin ← takeU64
  let csnMax ← takeU64
  let commitTimeStartUs ← takeI64
  let commitTimeEndUs ← takeI64
  let artifactCreatedAtUs ← takeI64
  let firstPublishedAtUs ← takeI64
  let selectedSnapshotPublishedAtUs ← takeI64
  let timeFieldPresenceFlags ← takeU32
  let timeSummaryExactnessFlags ← takeU32
  let sourcePublishRangeStartUs ← takeI64
  let sourcePublishRangeEndUs ← takeI64
  let scopeSummaryRef ← takeU32
  let branchSummaryRef ← takeU32
  let objectTypeSummaryRef ← takeU32
  let goidRangeSummaryRef ← takeU32
  let touchedSummaryRef ← takeU32
  let tombstoneSummaryRef ← takeU32
  let propertySummaryRef ← takeU32
  let temporalRoleSummaryRef ← takeU32
  let deltaHeaderRangeOffset ← takeU64
  let deltaHeaderRangeLength ← takeU64
  let hotSummaryRangeOffset ← takeU64
  let hotSummaryRangeLength ← takeU64
  let checksum ← takeU32
  return ⟨chainOrdinal, deltaArtifactRef, deltaArtifactId, requiredDeltaFeatures,
    optionalDeltaFeatures, csnMin, csnMax, commitTimeStartUs, commitTimeEndUs, artifactCreatedAtUs,
    firstPublishedAtUs, selectedSnapshotPublishedAtUs, timeFieldPresenceFlags,
    timeSummaryExactnessFlags, sourcePublishRangeStartUs, sourcePublishRangeEndUs, scopeSummaryRef,
    branchSummaryRef, objectTypeSummaryRef, goidRangeSummaryRef, touchedSummaryRef,
    tombstoneSummaryRef, propertySummaryRef, temporalRoleSummaryRef, deltaHeaderRangeOffset,
    deltaHeaderRangeLength, hotSummaryRangeOffset, hotSummaryRangeLength, checksum⟩

def readFields (bytes : Bytes) : Except CoveError DeltaChainSummaryEntryV1 := do
  rejectIf (bytes.length < covmDeltaChainSummaryEntryLen) .bufferTooShort
  let bytes := bytes.take covmDeltaChainSummaryEntryLen
  checkSeal crc32c bytes (covmDeltaChainSummaryEntryLen - 4)
  (read crc32c).run' bytes

def parseWithSupportedRequiredDeltaFeatures (supported : UInt64) (bytes : Bytes) :
    Except CoveError DeltaChainSummaryEntryV1 := do
  let entry ← readFields crc32c bytes
  entry.view.validate supported
  .ok entry

def stamped (e : DeltaChainSummaryEntryV1) : DeltaChainSummaryEntryV1 :=
  { e with
    deltaArtifactRef := e.deltaArtifactRef.stamped crc32c
    checksum := sealOf crc32c (e.body crc32c) }

variable {crc32c} {e : DeltaChainSummaryEntryV1} {bytes : Bytes} {supported : UInt64}

@[simp] theorem body_length : (e.body crc32c).length = 292 := by
  simp [body, covmDeltaArtifactRefLen]

theorem mandatoryDigest_of_validate (h : e.view.validate supported = .ok ()) :
    e.deltaArtifactRef.view.validateMandatoryDigest = .ok () := by
  replace h := rest_ok h
  obtain ⟨hdigest, -⟩ := of_check h
  exact hdigest

theorem run_read (h : e.deltaArtifactRef.view.validateMandatoryDigest = .ok ()) (sum : UInt32) :
    (read crc32c).run (e.body crc32c ++ (putU32 sum ++ [])) = .ok ({ e with
      deltaArtifactRef := e.deltaArtifactRef.stamped crc32c
      checksum := sum }, []) := by
  have href : ∀ (f : Bytes → Reader DeltaChainSummaryEntryV1) (rest : Bytes),
      (take covmDeltaArtifactRefLen >>= f).run (e.deltaArtifactRef.serialize crc32c ++ rest) =
        (f (e.deltaArtifactRef.serialize crc32c)).run rest := fun f rest =>
    (take_reads CovmDeltaArtifactRefV1.serialize_length).run_bind
  rw [body, read]
  simp only [flatten_cons, flatten_nil, append_assoc, nil_append,
    run_takeArray, run_takeU32, run_takeU64, run_takeI64, href,
    CovmDeltaArtifactRefV1.parse_serialize h, run_lift_ok]
  rfl

theorem serialize_ok_iff : e.serialize crc32c = .ok bytes ↔
    e.view.validate covmDeltaChainSupportedRequiredFeatures = .ok () ∧
      sealBytes crc32c (e.body crc32c) = bytes := by
  rw [serialize, andThen_eq_ok_iff]
  constructor
  · rintro ⟨⟨⟩, hvalid, hbytes⟩
    exact ⟨hvalid, Except.ok.inj hbytes⟩
  · rintro ⟨hvalid, rfl⟩
    exact ⟨(), hvalid, rfl⟩

theorem parse_serialize (h : e.serialize crc32c = .ok bytes) :
    parseWithSupportedRequiredDeltaFeatures crc32c covmDeltaChainSupportedRequiredFeatures bytes =
      .ok (e.stamped crc32c) := by
  obtain ⟨hvalid, rfl⟩ := serialize_ok_iff.mp h
  have hbody : (e.body crc32c).length + 4 = covmDeltaChainSummaryEntryLen := by
    rw [body_length, covmDeltaChainSummaryEntryLen]
  have hread : readFields crc32c (sealBytes crc32c (e.body crc32c)) = .ok (e.stamped crc32c) := by
    exact parse_checkSeal (fun sum => { e with
      deltaArtifactRef := e.deltaArtifactRef.stamped crc32c
      checksum := sum }) hbody (run_read (mandatoryDigest_of_validate hvalid))
  have hstamped : (e.stamped crc32c).view.validate covmDeltaChainSupportedRequiredFeatures = .ok () :=
    hvalid
  rw [parseWithSupportedRequiredDeltaFeatures, hread]
  change (e.stamped crc32c).view.validate _ >>= _ = _
  rw [hstamped]
  rfl

end DeltaChainSummaryEntryV1

structure CovmDeltaChainSummaryV1 where
  magic : Vector UInt8 4
  (versionMajor versionMinor headerLen : UInt16)
  flags : UInt32
  (datasetId resultSnapshotId : Vector UInt8 16)
  chainDigestAlgorithm : UInt16
  chainDigest : Bytes
  (chainDigestRef deltaSummaryCount objectTypeSummaryCount branchSummaryCount : UInt32)
  temporalRoleSummaryCount : UInt32
  (deltaSummariesOffset objectTypeSummariesOffset branchSummariesOffset : UInt64)
  (temporalRoleSummariesOffset payloadOffset payloadLength : UInt64)
  deltaSummaries : List DeltaChainSummaryEntryV1
  (objectTypeSummaries branchSummaries temporalRoleSummaries payload : Bytes)
  checksum : UInt32

namespace CovmDeltaChainSummaryV1

def view (s : CovmDeltaChainSummaryV1) : DeltaChain.CovmDeltaChainSummaryV1 where
  magic := s.magic.toList
  versionMajor := s.versionMajor.toNat
  versionMinor := s.versionMinor.toNat
  headerLen := s.headerLen.toNat
  datasetId := idOf s.datasetId
  resultSnapshotId := idOf s.resultSnapshotId
  chainDigestAlgorithm := s.chainDigestAlgorithm.toNat
  chainDigest := s.chainDigest
  objectTypeSummaryCount := s.objectTypeSummaryCount.toNat
  branchSummaryCount := s.branchSummaryCount.toNat
  temporalRoleSummaryCount := s.temporalRoleSummaryCount.toNat
  deltaSummaries := s.deltaSummaries.map DeltaChainSummaryEntryV1.view
  objectTypeSummaries := s.objectTypeSummaries
  branchSummaries := s.branchSummaries
  temporalRoleSummaries := s.temporalRoleSummaries

def body (s : CovmDeltaChainSummaryV1) (chainDigestLen : UInt16) : Bytes :=
  [s.magic.toList, putU16 s.versionMajor, putU16 s.versionMinor, putU16 s.headerLen, putU32 s.flags,
    s.datasetId.toList, s.resultSnapshotId.toList, putU16 s.chainDigestAlgorithm,
    putU16 chainDigestLen, putU32 s.chainDigestRef, putU32 s.deltaSummaryCount,
    putU32 s.objectTypeSummaryCount, putU32 s.branchSummaryCount, putU32 s.temporalRoleSummaryCount,
    putU64 s.deltaSummariesOffset, putU64 s.objectTypeSummariesOffset,
    putU64 s.branchSummariesOffset, putU64 s.temporalRoleSummariesOffset, putU64 s.payloadOffset,
    putU64 s.payloadLength].flatten

def deltaSummariesAt (s : CovmDeltaChainSummaryV1) : Nat :=
  covmDeltaChainSummaryHeaderLen + s.chainDigest.length

def objectTypeSummariesAt (s : CovmDeltaChainSummaryV1) : Nat :=
  s.deltaSummariesAt + s.deltaSummaries.length * covmDeltaChainSummaryEntryLen

def branchSummariesAt (s : CovmDeltaChainSummaryV1) : Nat :=
  s.objectTypeSummariesAt + s.objectTypeSummaries.length

def temporalRoleSummariesAt (s : CovmDeltaChainSummaryV1) : Nat :=
  s.branchSummariesAt + s.branchSummaries.length

def payloadAt (s : CovmDeltaChainSummaryV1) : Nat :=
  s.temporalRoleSummariesAt + s.temporalRoleSummaries.length

/-- The summary with the offsets and the counts that `serialize` fills in. -/
def filled (s : CovmDeltaChainSummaryV1) : CovmDeltaChainSummaryV1 :=
  { s with
    chainDigestRef := UInt32.ofNat covmDeltaChainSummaryHeaderLen
    deltaSummaryCount := UInt32.ofNat s.deltaSummaries.length
    deltaSummariesOffset := UInt64.ofNat s.deltaSummariesAt
    objectTypeSummariesOffset := UInt64.ofNat s.objectTypeSummariesAt
    branchSummariesOffset := UInt64.ofNat s.branchSummariesAt
    temporalRoleSummariesOffset := UInt64.ofNat s.temporalRoleSummariesAt
    payloadOffset := UInt64.ofNat s.payloadAt
    payloadLength := UInt64.ofNat s.payload.length }

def badDigestLength (expected got : Nat) : CoveError := .badSection
  ("COVM delta chain summary chain digest length must be " ++ toString expected ++ ", got " ++
    toString got)

def serialize (s : CovmDeltaChainSummaryV1) : Except CoveError Bytes := do
  s.view.validateStructure covmDeltaChainSupportedRequiredFeatures
  let algorithm ← covmDeltaRequiredDigestAlgorithm s.chainDigestAlgorithm.toNat
    "COVM delta chain summary chain_digest_algorithm"
  let expectedLen := covedeltaExpectedDigestLen algorithm
  rejectIf (s.chainDigest.length ≠ expectedLen) (badDigestLength expectedLen s.chainDigest.length)
  let entries ← s.deltaSummaries.mapM (DeltaChainSummaryEntryV1.serialize crc32c)
  rejectIf (2 ^ 16 ≤ s.chainDigest.length) (.badSection "COVM summary digest too long")
  rejectIf (2 ^ 32 ≤ s.deltaSummaries.length) (.badSection "too many COVM delta summary entries")
  rejectIf (2 ^ 64 ≤ s.payloadAt + s.payload.length) .arithOverflow
  .ok [sealBytes crc32c (s.filled.body (UInt16.ofNat s.chainDigest.length)), s.chainDigest,
    entries.flatten, s.objectTypeSummaries, s.branchSummaries, s.temporalRoleSummaries,
    s.payload].flatten

def readHeader : Reader (CovmDeltaChainSummaryV1 × UInt16) := do
  let magic ← takeArray 4
  let versionMajor ← takeU16
  let versionMinor ← takeU16
  let headerLen ← takeU16
  let flags ← takeU32
  let datasetId ← takeArray 16
  let resultSnapshotId ← takeArray 16
  let chainDigestAlgorithm ← takeU16
  let chainDigestLen ← takeU16
  let chainDigestRef ← takeU32
  let deltaSummaryCount ← takeU32
  let objectTypeSummaryCount ← takeU32
  let branchSummaryCount ← takeU32
  let temporalRoleSummaryCount ← takeU32
  let deltaSummariesOffset ← takeU64
  let objectTypeSummariesOffset ← takeU64
  let branchSummariesOffset ← takeU64
  let temporalRoleSummariesOffset ← takeU64
  let payloadOffset ← takeU64
  let payloadLength ← takeU64
  let checksum ← takeU32
  return (⟨magic, versionMajor, versionMinor, headerLen, flags, datasetId, resultSnapshotId,
    chainDigestAlgorithm, [], chainDigestRef, deltaSummaryCount, objectTypeSummaryCount,
    branchSummaryCount, temporalRoleSummaryCount, deltaSummariesOffset, objectTypeSummariesOffset,
    branchSummariesOffset, temporalRoleSummariesOffset, payloadOffset, payloadLength, [], [], [], [],
    [], checksum⟩, chainDigestLen)

def parseHeader (bytes : Bytes) : Except CoveError (CovmDeltaChainSummaryV1 × UInt16) := do
  rejectIf (bytes.length < covmDeltaChainSummaryHeaderLen) .bufferTooShort
  let bytes := bytes.take covmDeltaChainSummaryHeaderLen
  checkSeal crc32c bytes (covmDeltaChainSummaryHeaderLen - 4)
  readHeader.run' bytes

def parseRegions (supported : UInt64) (bytes : Bytes) (s : CovmDeltaChainSummaryV1)
    (chainDigestLen : UInt16) : Except CoveError CovmDeltaChainSummaryV1 := do
  let algorithm ← covmDeltaRequiredDigestAlgorithm s.chainDigestAlgorithm.toNat
    "COVM delta chain summary chain_digest_algorithm"
  let expectedLen := covedeltaExpectedDigestLen algorithm
  rejectIf (chainDigestLen.toNat ≠ expectedLen) (badDigestLength expectedLen chainDigestLen.toNat)
  rejectIf (s.chainDigestRef.toNat ≠ covmDeltaChainSummaryHeaderLen)
    (.badSection "COVM delta chain summary digest must directly follow the header")
  let chainDigestEnd ← checkedAdd s.chainDigestRef.toNat chainDigestLen.toNat
  rejectIf (bytes.length < chainDigestEnd) .offsetRange
  rejectIf (s.deltaSummariesOffset.toNat ≠ chainDigestEnd)
    (.badSection "COVM delta summaries must directly follow the chain digest")
  let deltaSummariesEnd ← checkedAdd s.deltaSummariesOffset.toNat
    (s.deltaSummaryCount.toNat * covmDeltaChainSummaryEntryLen)
  rejectIf (bytes.length < deltaSummariesEnd) .offsetRange
  rejectIf (s.objectTypeSummariesOffset.toNat ≠ deltaSummariesEnd ∨
      s.branchSummariesOffset.toNat < s.objectTypeSummariesOffset.toNat ∨
      s.temporalRoleSummariesOffset.toNat < s.branchSummariesOffset.toNat ∨
      s.payloadOffset.toNat < s.temporalRoleSummariesOffset.toNat)
    (.badSection "COVM delta chain summary regions are not in canonical order")
  let payloadEnd ← checkedAdd s.payloadOffset.toNat s.payloadLength.toNat
  rejectIf (payloadEnd ≠ bytes.length)
    (.badSection "COVM delta chain summary has trailing or overlapping bytes")
  let deltaSummaries ← (chunksExact covmDeltaChainSummaryEntryLen s.deltaSummaryCount.toNat
    (slice bytes s.deltaSummariesOffset.toNat deltaSummariesEnd)).mapM
      (DeltaChainSummaryEntryV1.parseWithSupportedRequiredDeltaFeatures crc32c supported)
  .ok { s with
    chainDigest := slice bytes s.chainDigestRef.toNat chainDigestEnd
    deltaSummaries := deltaSummaries
    objectTypeSummaries :=
      slice bytes s.objectTypeSummariesOffset.toNat s.branchSummariesOffset.toNat
    branchSummaries := slice bytes s.branchSummariesOffset.toNat s.temporalRoleSummariesOffset.toNat
    temporalRoleSummaries := slice bytes s.temporalRoleSummariesOffset.toNat s.payloadOffset.toNat
    payload := slice bytes s.payloadOffset.toNat payloadEnd }

def parseWithSupportedRequiredDeltaFeatures (supported : UInt64) (bytes : Bytes) :
    Except CoveError CovmDeltaChainSummaryV1 := do
  let (header, chainDigestLen) ← parseHeader crc32c bytes
  rejectIf (header.magic.toList ≠ covmDeltaChainSummaryMagic) .badMagic
  rejectIf (header.versionMajor.toNat ≠ covmDeltaChainSummaryVersionMajorV1) .badVersion
  rejectIf (covmDeltaChainSummaryVersionMinorV1 < header.versionMinor.toNat) .badVersion
  rejectIf (header.headerLen.toNat ≠ covmDeltaChainSummaryHeaderLen) (.badSection
    ("COVM delta chain summary header_len must be " ++ toString covmDeltaChainSummaryHeaderLen ++
      ", got " ++ toString header.headerLen.toNat))
  let summary ← parseRegions crc32c supported bytes header chainDigestLen
  summary.view.validateStructure supported
  .ok summary

def parse (bytes : Bytes) : Except CoveError CovmDeltaChainSummaryV1 :=
  parseWithSupportedRequiredDeltaFeatures crc32c covmDeltaChainSupportedRequiredFeatures bytes

/-- What the header of a summary says of it. -/
def headerOnly (s : CovmDeltaChainSummaryV1) (checksum : UInt32) : CovmDeltaChainSummaryV1 :=
  { s with
    chainDigest := []
    deltaSummaries := []
    objectTypeSummaries := []
    branchSummaries := []
    temporalRoleSummaries := []
    payload := []
    checksum := checksum }

def stamped (s : CovmDeltaChainSummaryV1) (checksum : UInt32) : CovmDeltaChainSummaryV1 :=
  { s.filled with
    deltaSummaries := s.deltaSummaries.map fun e => e.stamped crc32c
    checksum := checksum }

variable {crc32c} {s : CovmDeltaChainSummaryV1} {digestLen : UInt16} {supported : UInt64}
variable {entries : List Bytes}

@[simp] theorem body_length : (s.body digestLen).length = 118 := by simp [body]

theorem run_readHeader (sum : UInt32) :
    readHeader.run (s.body digestLen ++ (putU32 sum ++ [])) =
      .ok ((s.headerOnly sum, digestLen), []) := by
  rw [body, readHeader]
  simp only [flatten_cons, flatten_nil, append_assoc, nil_append,
    run_takeArray, run_takeU16, run_takeU32, run_takeU64]
  rfl

theorem parseHeader_append (rest : Bytes) :
    parseHeader crc32c (sealBytes crc32c (s.body digestLen) ++ rest) =
      .ok (s.headerOnly (sealOf crc32c (s.body digestLen)), digestLen) := by
  have hbody : (s.body digestLen).length + 4 = covmDeltaChainSummaryHeaderLen := by
    rw [body_length, covmDeltaChainSummaryHeaderLen]
  have hlen : (sealBytes crc32c (s.body digestLen)).length = covmDeltaChainSummaryHeaderLen := by
    rw [sealBytes_length, hbody]
  have hshort : parseHeader crc32c (sealBytes crc32c (s.body digestLen) ++ rest) =
      parseHeader crc32c (sealBytes crc32c (s.body digestLen)) := by
    rw [parseHeader, parseHeader, take_left' hlen, take_of_length_le hlen.le, rejectIf,
      if_neg (by rw [length_append]; omega), rejectIf, if_neg (by omega)]
  rw [hshort]
  exact parse_checkSeal (fun sum => (s.headerOnly sum, digestLen)) hbody run_readHeader

section

variable (h : s.deltaSummaries.mapM (DeltaChainSummaryEntryV1.serialize crc32c) = .ok entries)
include h

theorem entry_length : ∀ chunk ∈ entries, chunk.length = covmDeltaChainSummaryEntryLen := by
  intro chunk hchunk
  obtain ⟨e, -, he⟩ := exists_of_mem_mapM h hchunk
  obtain ⟨-, rfl⟩ := DeltaChainSummaryEntryV1.serialize_ok_iff.mp he
  rw [sealBytes_length, DeltaChainSummaryEntryV1.body_length, covmDeltaChainSummaryEntryLen]

theorem entries_length : entries.length = s.deltaSummaries.length :=
  (mapM_eq_ok_iff.mp h).length_eq.symm

theorem parse_entries :
    (chunksExact covmDeltaChainSummaryEntryLen s.deltaSummaries.length entries.flatten).mapM
      (DeltaChainSummaryEntryV1.parseWithSupportedRequiredDeltaFeatures crc32c
        covmDeltaChainSupportedRequiredFeatures) =
          .ok (s.deltaSummaries.map fun e => e.stamped crc32c) := by
  rw [← entries_length h, chunksExact_flatten (entry_length h)]
  refine mapM_of_forall₂ (forall₂_map_right_iff.mpr ?_)
  exact (mapM_eq_ok_iff.mp h).flip.imp fun _ _ he => DeltaChainSummaryEntryV1.parse_serialize he

end

theorem validateSummaryEntries_stamped {es : List DeltaChainSummaryEntryV1} (idx : Nat)
    (csn : Option Nat) (commit : Option (Int × Int)) :
    DeltaChain.validateSummaryEntries supported idx csn commit
        ((es.map fun e => e.stamped crc32c).map DeltaChainSummaryEntryV1.view) =
      DeltaChain.validateSummaryEntries supported idx csn commit
        (es.map DeltaChainSummaryEntryV1.view) := by
  induction es generalizing idx csn commit with
  | nil => rfl
  | cons e es ih =>
    simp only [map_cons, DeltaChain.validateSummaryEntries, ih]
    rfl

theorem validateStructure_stamped {sum : UInt32} :
    (s.stamped crc32c sum).view.validateStructure supported = s.view.validateStructure supported := by
  have hloop := fun idx csn commit =>
    @validateSummaryEntries_stamped crc32c supported s.deltaSummaries idx csn commit
  have hempty : ((s.deltaSummaries.map fun e => e.stamped crc32c).map
      DeltaChainSummaryEntryV1.view = []) ↔ s.deltaSummaries.map DeltaChainSummaryEntryV1.view = [] := by
    simp only [map_eq_nil_iff]
  simp only [DeltaChain.CovmDeltaChainSummaryV1.validateStructure, view, stamped, filled, hloop, hempty]
  rfl

/-- The numbers in the header are the places of the regions. -/
structure LaidOut (s f : CovmDeltaChainSummaryV1) : Prop where
  digestRef : f.chainDigestRef.toNat = covmDeltaChainSummaryHeaderLen
  count : f.deltaSummaryCount.toNat = s.deltaSummaries.length
  deltaSummaries : f.deltaSummariesOffset.toNat = s.deltaSummariesAt
  objectTypeSummaries : f.objectTypeSummariesOffset.toNat = s.objectTypeSummariesAt
  branchSummaries : f.branchSummariesOffset.toNat = s.branchSummariesAt
  temporalRoleSummaries : f.temporalRoleSummariesOffset.toNat = s.temporalRoleSummariesAt
  payloadOffset : f.payloadOffset.toNat = s.payloadAt
  payloadLength : f.payloadLength.toNat = s.payload.length
  fits : s.payloadAt + s.payload.length < 2 ^ 64

theorem places_le (s : CovmDeltaChainSummaryV1) : s.deltaSummariesAt ≤ s.objectTypeSummariesAt ∧
    s.objectTypeSummariesAt ≤ s.branchSummariesAt ∧
      s.branchSummariesAt ≤ s.temporalRoleSummariesAt ∧ s.temporalRoleSummariesAt ≤ s.payloadAt :=
  ⟨Nat.le_add_right .., Nat.le_add_right .., Nat.le_add_right .., Nat.le_add_right ..⟩

theorem laidOut_filled (hcount : s.deltaSummaries.length < 2 ^ 32)
    (hfits : s.payloadAt + s.payload.length < 2 ^ 64) : LaidOut s s.filled := by
  have hplace : ∀ n ≤ s.payloadAt + s.payload.length, (UInt64.ofNat n).toNat = n := fun n hn =>
    UInt64.toNat_ofNat_of_lt' (show n < 2 ^ 64 by omega)
  obtain ⟨hdelta, hobject, hbranch, htemporal⟩ := s.places_le
  exact {
    digestRef := rfl
    count := UInt32.toNat_ofNat_of_lt' hcount
    deltaSummaries := hplace _ (by omega)
    objectTypeSummaries := hplace _ (by omega)
    branchSummaries := hplace _ (by omega)
    temporalRoleSummaries := hplace _ (by omega)
    payloadOffset := hplace _ (by omega)
    payloadLength := hplace _ (by omega)
    fits := hfits }

theorem parseRegions_ok {f : CovmDeltaChainSummaryV1} {header : Bytes} {algorithm : DigestAlgorithm}
    (hheader : header.length = covmDeltaChainSummaryHeaderLen) (hlayout : LaidOut s f)
    (hentries : s.deltaSummaries.mapM (DeltaChainSummaryEntryV1.serialize crc32c) = .ok entries)
    (halgorithm : covmDeltaRequiredDigestAlgorithm f.chainDigestAlgorithm.toNat
      "COVM delta chain summary chain_digest_algorithm" = .ok algorithm)
    (hdigest : s.chainDigest.length = covedeltaExpectedDigestLen algorithm)
    (hlen : digestLen.toNat = s.chainDigest.length) :
    parseRegions crc32c covmDeltaChainSupportedRequiredFeatures [header, s.chainDigest,
        entries.flatten, s.objectTypeSummaries, s.branchSummaries, s.temporalRoleSummaries,
        s.payload].flatten f digestLen = .ok { f with
      chainDigest := s.chainDigest
      deltaSummaries := s.deltaSummaries.map fun e => e.stamped crc32c
      objectTypeSummaries := s.objectTypeSummaries
      branchSummaries := s.branchSummaries
      temporalRoleSummaries := s.temporalRoleSummaries
      payload := s.payload } := by
  obtain ⟨hdigestRef, hcount, hdelta, hobject, hbranch, htemporal, hpayload, hpayloadLen, hfits⟩ :=
    hlayout
  have hentriesLen : entries.flatten.length =
      s.deltaSummaries.length * covmDeltaChainSummaryEntryLen := by
    rw [length_flatten_eq (entry_length hentries), entries_length hentries]
  let parts := [header, s.chainDigest, entries.flatten, s.objectTypeSummaries, s.branchSummaries,
    s.temporalRoleSummaries, s.payload]
  have hdigestSlice := @slice_flatten parts _ covmDeltaChainSummaryHeaderLen s.deltaSummariesAt 1 rfl
    (by simp [parts, hheader]) rfl
  have hentriesSlice := @slice_flatten parts _ s.deltaSummariesAt s.objectTypeSummariesAt 2 rfl
    (by simp [parts, hheader, deltaSummariesAt]) (congrArg (s.deltaSummariesAt + ·) hentriesLen)
  have hat : (parts.take 3).flatten.length = s.objectTypeSummariesAt := by
    simp [parts, hheader, hentriesLen, objectTypeSummariesAt, deltaSummariesAt, Nat.add_assoc]
  have hobjectSlice := @slice_flatten parts _ _ s.branchSummariesAt 3 rfl hat rfl
  have hbranchSlice := @slice_flatten parts _ s.branchSummariesAt s.temporalRoleSummariesAt 4 rfl
    (by rw [branchSummariesAt, ← hat]; simp [parts, Nat.add_assoc]) rfl
  have htemporalSlice := @slice_flatten parts _ s.temporalRoleSummariesAt s.payloadAt 5 rfl
    (by rw [temporalRoleSummariesAt, branchSummariesAt, ← hat]; simp [parts, Nat.add_assoc]) rfl
  have hpayloadAt : (parts.take 6).flatten.length = s.payloadAt := by
    rw [payloadAt, temporalRoleSummariesAt, branchSummariesAt, ← hat]
    simp [parts, Nat.add_assoc]
  have hpayloadSlice := @slice_flatten parts _ _ _ 6 rfl hpayloadAt rfl
  have hend : parts.flatten.length = s.payloadAt + s.payload.length := by
    rw [← hpayloadAt]
    simp [parts, Nat.add_assoc]
  change parseRegions crc32c _ parts.flatten f digestLen = _
  simp only [parseRegions, andThen_eq_ok_iff, rejectIf_eq_ok_iff, exists_const, checkedAdd_ok_iff,
    not_not, not_lt, hdigestRef, hcount, hdelta, hobject, hbranch, htemporal, hpayload, hpayloadLen,
    hend, halgorithm, hlen]
  obtain ⟨hle1, hle2, hle3, hle4⟩ := s.places_le
  refine ⟨algorithm, rfl, hdigest, trivial, s.deltaSummariesAt, ⟨?_, rfl⟩, by omega, rfl,
    s.objectTypeSummariesAt, ⟨?_, rfl⟩, by omega, ?_, _, ⟨hfits, rfl⟩, rfl,
    s.deltaSummaries.map fun e => e.stamped crc32c, ?_, ?_⟩
  · change s.deltaSummariesAt < 2 ^ 64
    omega
  · change s.objectTypeSummariesAt < 2 ^ 64
    omega
  · rw [not_or, not_or, not_or, not_not]
    exact ⟨rfl, by omega, by omega, by omega⟩
  · rw [hentriesSlice]
    exact parse_entries hentries
  · rw [hdigestSlice, hobjectSlice, hbranchSlice, htemporalSlice, hpayloadSlice]

theorem validateStructure_ok (h : s.view.validateStructure supported = .ok ()) :
    s.magic.toList = covmDeltaChainSummaryMagic ∧
      s.versionMajor.toNat = covmDeltaChainSummaryVersionMajorV1 ∧
      s.versionMinor.toNat ≤ covmDeltaChainSummaryVersionMinorV1 ∧
      s.headerLen.toNat = covmDeltaChainSummaryHeaderLen := by
  obtain ⟨hmagic, h⟩ := of_reject h
  obtain ⟨hmajor, h⟩ := of_reject h
  obtain ⟨hminor, h⟩ := of_reject h
  obtain ⟨hlen, -⟩ := of_reject h
  exact ⟨not_not.mp hmagic, not_not.mp hmajor, not_lt.mp hminor, not_not.mp hlen⟩

theorem parse_serialize {bytes : Bytes} (h : s.serialize crc32c = .ok bytes) :
    ∃ sum, parse crc32c bytes = .ok (s.stamped crc32c sum) := by
  obtain ⟨hvalid, h⟩ := of_check h
  obtain ⟨algorithm, halgorithm, h⟩ := of_andThen h
  obtain ⟨hdigest, h⟩ := of_check h
  obtain ⟨entries, hentries, h⟩ := of_andThen h
  obtain ⟨hdigestLen, h⟩ := of_check h
  obtain ⟨hcount, h⟩ := of_check h
  obtain ⟨hfits, h⟩ := of_check h
  rw [rejectIf_eq_ok_iff] at hdigest hdigestLen hcount hfits
  cases h
  obtain ⟨hmagic, hmajor, hminor, hheaderLen⟩ := validateStructure_ok hvalid
  generalize hd : UInt16.ofNat s.chainDigest.length = digestLen
  have hlen : digestLen.toNat = s.chainDigest.length := by
    rw [← hd, UInt16.toNat_ofNat_of_lt' (Nat.not_le.mp hdigestLen)]
  have hlayout := laidOut_filled (Nat.not_le.mp hcount) (Nat.not_le.mp hfits)
  have hheader := @parseHeader_append crc32c s.filled digestLen [s.chainDigest, entries.flatten,
    s.objectTypeSummaries, s.branchSummaries, s.temporalRoleSummaries, s.payload].flatten
  have hsealed : (sealBytes crc32c (s.filled.body digestLen)).length =
      covmDeltaChainSummaryHeaderLen := by
    rw [sealBytes_length, body_length, covmDeltaChainSummaryHeaderLen]
  refine ⟨sealOf crc32c (s.filled.body digestLen), ?_⟩
  rw [parse, parseWithSupportedRequiredDeltaFeatures, andThen_eq_ok_iff]
  refine ⟨_, hheader, ?_⟩
  simp only [andThen_eq_ok_iff, rejectIf_eq_ok_iff, exists_const, not_not, not_lt]
  have hplaces : LaidOut s (s.filled.headerOnly (sealOf crc32c (s.filled.body digestLen))) :=
    ⟨hlayout.1, hlayout.2, hlayout.3, hlayout.4, hlayout.5, hlayout.6, hlayout.7, hlayout.8, hlayout.9⟩
  refine ⟨hmagic, hmajor, hminor, hheaderLen,
    s.stamped crc32c (sealOf crc32c (s.filled.body digestLen)),
    parseRegions_ok hsealed hplaces hentries halgorithm (not_not.mp hdigest) hlen, (), ?_, rfl⟩
  rw [validateStructure_stamped, hvalid]

end CovmDeltaChainSummaryV1

/-- The metadata of a delta chain is read back as it was written, up to what is filled in, and
the material of its digest binds all but the flags, the addresses and the checksums of the
references. -/
theorem delta_metadata_round_trips (computeDigest : Digests) :
    (∀ (e : CovmDeltaChainExtensionV1) (bytes : Bytes), e.serialize crc32c computeDigest = .ok bytes →
      ∃ chainDigest sum, e.view.computedChainDigest computeDigest = .ok chainDigest ∧
        CovmDeltaChainExtensionV1.parse crc32c computeDigest bytes =
          .ok (e.stamped crc32c chainDigest sum)) ∧
    (∀ (s : CovmDeltaChainSummaryV1) (bytes : Bytes), s.serialize crc32c = .ok bytes →
      ∃ sum, CovmDeltaChainSummaryV1.parse crc32c bytes = .ok (s.stamped crc32c sum)) ∧
    ∀ e f : CovmDeltaChainExtensionV1, e.view.chainDigestMaterial = f.view.chainDigestMaterial →
      CovmDeltaChainExtensionV1.SameBinding e f :=
  ⟨fun _ _ => CovmDeltaChainExtensionV1.parse_serialize,
    fun _ _ => CovmDeltaChainSummaryV1.parse_serialize,
    fun _ _ => CovmDeltaChainExtensionV1.sameBinding_of_material⟩

def sealedExtension (flags : UInt32) : CovmDeltaChainExtensionV1 :=
  CovmDeltaChainExtensionV1.stamped castagnoli {
    deltaChainProfileId := 0x31434443
    deltaChainProfileVersionMajor := 1
    deltaChainProfileVersionMinor := 0
    requiredDeltaFeatures := 0
    optionalDeltaFeatures := 0
    datasetId := Vector.replicate 16 0
    baseSnapshotId := Vector.replicate 16 0
    resultSnapshotId := Vector.replicate 16 0
    baseArtifactRef := {
      chainOrdinal := 0
      flags := flags
      artifactId := Vector.replicate 16 0
      snapshotId := Vector.replicate 16 0
      parentSnapshotId := Vector.replicate 16 0
      fileLen := 0
      footerCrc32c := 0
      digestAlgorithm := 1
      digestLen := 32
      digest := Vector.replicate 32 0
      uriRef := 0
      checksum := 0 }
    orderedDeltaArtifactRefs := []
    chainDigestAlgorithm := 1
    chainDigest := []
    chainSummaryKind := 0
    chainSummaryRef := 0
    chainSummaryOffset := 0
    chainSummaryLength := 0
    chainSummaryCrc32c := 0
    chainSummaryDigestAlgorithm := 0
    chainSummaryDigest := []
    effectiveSchemaFingerprintRef := 0
    effectiveObjectCatalogFingerprintRef := 0
    effectiveProjectionFingerprintRef := 0
    effectiveSemanticMapFingerprintRef := 0
    effectiveVisibilityFingerprintRef := 0
    effectiveRedactionFingerprintRef := 0
    csnMin := 0
    csnMax := 0
    createdAtUs := 0
    checksum := 0 } [] 0

def oneDelta : CovmDeltaChainExtensionV1 :=
  let base := (sealedExtension 0).baseArtifactRef
  { sealedExtension 0 with
    orderedDeltaArtifactRefs := [{ base with chainOrdinal := 1, artifactId := Vector.replicate 16 1 }] }

def nines : Digests := fun _ _ => List.replicate 32 9

theorem delta_metadata_round_trips_oneDelta : ∃ bytes sum,
    oneDelta.serialize castagnoli nines = .ok bytes ∧
      CovmDeltaChainExtensionV1.parse castagnoli nines bytes =
        .ok (oneDelta.stamped castagnoli (List.replicate 32 9) sum) := by
  have hrun : (oneDelta.serialize castagnoli nines).toOption.isSome := by decide +kernel
  obtain ⟨bytes, hbytes⟩ := Option.isSome_iff_exists.mp hrun
  have hbytes := toOption_eq_some_iff.mp hbytes
  obtain ⟨chainDigest, sum, hdigest, hparse⟩ :=
    (@delta_metadata_round_trips castagnoli nines).1 _ bytes hbytes
  have hnines : oneDelta.view.computedChainDigest nines = .ok (List.replicate 32 9) := rfl
  obtain rfl := Except.ok.inj (hnines.symm.trans hdigest)
  exact ⟨bytes, sum, hbytes, hparse⟩

/-- References of one material may differ in the checksum that covers their flags. -/
theorem checksum_unbound :
    (sealedExtension 0).view.chainDigestMaterial = (sealedExtension 1).view.chainDigestMaterial ∧
      { (sealedExtension 0).baseArtifactRef with flags := 0, uriRef := 0 } ≠
        { (sealedExtension 1).baseArtifactRef with flags := 0, uriRef := 0 } := by
  decide +kernel

end CoveFormat.DeltaSummaryWire
