import CoveFormat.DeltaChain
import CoveFormat.DeltaFileBytes

namespace CoveFormat.DeltaChainWire

open ByteCodes ExceptRules FixedFields TakeReaders CheckedArith CoveTypes
open List hiding Vector
open Temporal (Id16)
open DeltaFileBytes (slice slice_append)
open DeltaRecords (covedeltaExpectedDigestLen)
open DeltaChain (Digests idBytes covmDeltaRequiredDigestAlgorithm
  covmDeltaChainSupportedRequiredFeatures)

def covmDeltaArtifactRefLen : Nat := 112
def covmDeltaChainExtensionHeaderLen : Nat := 298

def idOf (id : Vector UInt8 16) : Id16 := leNat id.toList.reverse

theorem idBytes_idOf (id : Vector UInt8 16) : idBytes (idOf id) = id.toList := by
  have hbytes := leBytes_leNat id.toList.reverse
  rw [length_reverse, id.length_toList] at hbytes
  rw [idBytes, idOf, hbytes, reverse_reverse]

theorem slice_flatten {parts : List Bytes} {part : Bytes} {start stop : Nat} (i : Nat)
    (hpart : parts[i]? = some part)
    (hstart : (parts.take i).flatten.length = start) (hstop : start + part.length = stop) :
    slice parts.flatten start stop = part := by
  have hdrop : parts.drop i = part :: parts.drop (i + 1) := by
    obtain ⟨hi, rfl⟩ := List.getElem?_eq_some_iff.mp hpart
    exact drop_eq_getElem_cons hi
  rw [← take_append_drop i parts, hdrop, flatten_append, flatten_cons]
  exact slice_append hstart hstop

structure CovmDeltaArtifactRefV1 where
  (chainOrdinal flags : UInt32)
  (artifactId snapshotId parentSnapshotId : Vector UInt8 16)
  fileLen : UInt64
  footerCrc32c : UInt32
  (digestAlgorithm digestLen : UInt16)
  digest : Vector UInt8 32
  (uriRef checksum : UInt32)
  deriving DecidableEq

-- The CRC32C of the checksum package.
variable (crc32c : Bytes → UInt32)

namespace CovmDeltaArtifactRefV1

def view (r : CovmDeltaArtifactRefV1) : DeltaChain.CovmDeltaArtifactRefV1 where
  chainOrdinal := r.chainOrdinal.toNat
  flags := r.flags
  artifactId := idOf r.artifactId
  snapshotId := idOf r.snapshotId
  parentSnapshotId := idOf r.parentSnapshotId
  fileLen := r.fileLen.toNat
  footerCrc32c := r.footerCrc32c.toNat
  digestAlgorithm := r.digestAlgorithm.toNat
  digestLen := r.digestLen.toNat
  digest := r.digest.toList
  uriRef := r.uriRef.toNat
  checksum := r.checksum.toNat

def body (r : CovmDeltaArtifactRefV1) : Bytes :=
  [putU32 r.chainOrdinal, putU32 r.flags, r.artifactId.toList, r.snapshotId.toList,
    r.parentSnapshotId.toList, putU64 r.fileLen, putU32 r.footerCrc32c, putU16 r.digestAlgorithm,
    putU16 r.digestLen, r.digest.toList, putU32 r.uriRef].flatten

def serialize (r : CovmDeltaArtifactRefV1) : Bytes := sealBytes crc32c r.body

def read : Reader CovmDeltaArtifactRefV1 := do
  let chainOrdinal ← takeU32
  let flags ← takeU32
  let artifactId ← takeArray 16
  let snapshotId ← takeArray 16
  let parentSnapshotId ← takeArray 16
  let fileLen ← takeU64
  let footerCrc32c ← takeU32
  let digestAlgorithm ← takeU16
  let digestLen ← takeU16
  let digest ← takeArray 32
  let uriRef ← takeU32
  let checksum ← takeU32
  return ⟨chainOrdinal, flags, artifactId, snapshotId, parentSnapshotId, fileLen, footerCrc32c,
    digestAlgorithm, digestLen, digest, uriRef, checksum⟩

def readFields (bytes : Bytes) : Except CoveError CovmDeltaArtifactRefV1 := do
  rejectIf (bytes.length < covmDeltaArtifactRefLen) .bufferTooShort
  let bytes := bytes.take covmDeltaArtifactRefLen
  checkSeal crc32c bytes (covmDeltaArtifactRefLen - 4)
  read.run' bytes

def parse (bytes : Bytes) : Except CoveError CovmDeltaArtifactRefV1 := do
  let reference ← readFields crc32c bytes
  reference.view.validateMandatoryDigest
  .ok reference

def stamped (r : CovmDeltaArtifactRefV1) : CovmDeltaArtifactRefV1 :=
  { r with checksum := sealOf crc32c r.body }

variable {crc32c} {r s : CovmDeltaArtifactRefV1}

@[simp] theorem body_length : r.body.length = 108 := by simp [body]

@[simp] theorem serialize_length : (r.serialize crc32c).length = covmDeltaArtifactRefLen := by
  simp [serialize, covmDeltaArtifactRefLen]

theorem readFields_serialize : readFields crc32c (r.serialize crc32c) = .ok (r.stamped crc32c) := by
  refine parse_checkSeal (fun sum => { r with checksum := sum })
    (show r.body.length + 4 = covmDeltaArtifactRefLen by rw [body_length]; rfl) fun sum => ?_
  rw [body, read]
  simp only [flatten_cons, flatten_nil, append_assoc, nil_append,
    run_takeArray, run_takeU16, run_takeU32, run_takeU64]
  rfl

theorem parse_serialize (h : r.view.validateMandatoryDigest = .ok ()) :
    parse crc32c (r.serialize crc32c) = .ok (r.stamped crc32c) := by
  have hdigest : (r.stamped crc32c).view.validateMandatoryDigest = .ok () := h
  rw [parse, readFields_serialize]
  change (r.stamped crc32c).view.validateMandatoryDigest >>= _ = _
  rw [hdigest]
  rfl

theorem digestBinding_length : r.view.digestBinding.length = 100 := by
  simp [DeltaChain.CovmDeltaArtifactRefV1.digestBinding, view, idBytes]

def bound (r : CovmDeltaArtifactRefV1) : CovmDeltaArtifactRefV1 :=
  { r with flags := 0, uriRef := 0, checksum := 0 }

theorem view_digestBinding : r.view.digestBinding =
    putU32 r.chainOrdinal ++ (r.artifactId.toList ++ (r.snapshotId.toList ++
      (r.parentSnapshotId.toList ++ (putU64 r.fileLen ++ (putU32 r.footerCrc32c ++
        (putU16 r.digestAlgorithm ++ (putU16 r.digestLen ++ r.digest.toList))))))) := by
  simp only [DeltaChain.CovmDeltaArtifactRefV1.digestBinding, view, idBytes_idOf, append_assoc]
  rfl

theorem bound_eq_of_digestBinding (h : r.view.digestBinding = s.view.digestBinding) :
    r.bound = s.bound := by
  rw [view_digestBinding, view_digestBinding] at h
  obtain ⟨hordinal, h⟩ := append_inj h (by simp)
  obtain ⟨hartifact, h⟩ := append_inj h (by simp)
  obtain ⟨hsnapshot, h⟩ := append_inj h (by simp)
  obtain ⟨hparent, h⟩ := append_inj h (by simp)
  obtain ⟨hfileLen, h⟩ := append_inj h (by simp)
  obtain ⟨hfooter, h⟩ := append_inj h (by simp)
  obtain ⟨halgorithm, h⟩ := append_inj h (by simp)
  obtain ⟨hdigestLen, hdigest⟩ := append_inj h (by simp)
  simp only [bound, putU32_inj hordinal, Vector.toList_inj.mp hartifact,
    Vector.toList_inj.mp hsnapshot, Vector.toList_inj.mp hparent, putU64_inj hfileLen,
    putU32_inj hfooter, putU16_inj halgorithm, putU16_inj hdigestLen, Vector.toList_inj.mp hdigest]

end CovmDeltaArtifactRefV1

structure CovmDeltaChainExtensionV1 where
  deltaChainProfileId : UInt32
  (deltaChainProfileVersionMajor deltaChainProfileVersionMinor : UInt16)
  (requiredDeltaFeatures optionalDeltaFeatures : UInt64)
  (datasetId baseSnapshotId resultSnapshotId : Vector UInt8 16)
  baseArtifactRef : CovmDeltaArtifactRefV1
  orderedDeltaArtifactRefs : List CovmDeltaArtifactRefV1
  chainDigestAlgorithm : UInt16
  chainDigest : Bytes
  chainSummaryKind : UInt16
  chainSummaryRef : UInt32
  (chainSummaryOffset chainSummaryLength : UInt64)
  chainSummaryCrc32c : UInt32
  chainSummaryDigestAlgorithm : UInt16
  chainSummaryDigest : Bytes
  (effectiveSchemaFingerprintRef effectiveObjectCatalogFingerprintRef : UInt32)
  (effectiveProjectionFingerprintRef effectiveSemanticMapFingerprintRef : UInt32)
  (effectiveVisibilityFingerprintRef effectiveRedactionFingerprintRef : UInt32)
  (csnMin csnMax : UInt64)
  createdAtUs : Int64
  checksum : UInt32

/-- Where the header says that the parts behind it are. -/
structure ExtensionLayout where
  orderedDeltaCount : UInt32
  (orderedRefsOffset orderedRefsLength : UInt64)
  chainDigestLen : UInt16
  chainDigestRef : UInt32
  chainSummaryDigestLen : UInt16
  chainSummaryDigestRef : UInt32

def covmDeltaOptionalDigestAlgorithm (raw : Nat) (field : String) :
    Except CoveError (Option DigestAlgorithm) :=
  match DigestAlgorithm.fromU16 raw with
  | some .none => .ok none
  | some algorithm => .ok (some algorithm)
  | none => .error (.badSection
      (field ++ " must be none, SHA-256, or BLAKE3, got " ++ toString raw))

def summaryDigestLen (algorithm : Option DigestAlgorithm) : Nat :=
  algorithm.elim 0 covedeltaExpectedDigestLen

namespace CovmDeltaChainExtensionV1

def view (e : CovmDeltaChainExtensionV1) : DeltaChain.CovmDeltaChainExtensionV1 where
  deltaChainProfileId := e.deltaChainProfileId.toNat
  deltaChainProfileVersionMajor := e.deltaChainProfileVersionMajor.toNat
  deltaChainProfileVersionMinor := e.deltaChainProfileVersionMinor.toNat
  requiredDeltaFeatures := e.requiredDeltaFeatures
  datasetId := idOf e.datasetId
  baseSnapshotId := idOf e.baseSnapshotId
  resultSnapshotId := idOf e.resultSnapshotId
  baseArtifactRef := e.baseArtifactRef.view
  orderedDeltaArtifactRefs := e.orderedDeltaArtifactRefs.map CovmDeltaArtifactRefV1.view
  chainDigestAlgorithm := e.chainDigestAlgorithm.toNat
  chainDigest := e.chainDigest
  chainSummaryKind := e.chainSummaryKind.toNat
  chainSummaryRef := e.chainSummaryRef.toNat
  chainSummaryOffset := e.chainSummaryOffset.toNat
  chainSummaryLength := e.chainSummaryLength.toNat
  chainSummaryCrc32c := e.chainSummaryCrc32c.toNat
  chainSummaryDigestAlgorithm := e.chainSummaryDigestAlgorithm.toNat
  chainSummaryDigest := e.chainSummaryDigest
  effectiveSchemaFingerprintRef := e.effectiveSchemaFingerprintRef.toNat
  effectiveObjectCatalogFingerprintRef := e.effectiveObjectCatalogFingerprintRef.toNat
  effectiveProjectionFingerprintRef := e.effectiveProjectionFingerprintRef.toNat
  effectiveSemanticMapFingerprintRef := e.effectiveSemanticMapFingerprintRef.toNat
  effectiveVisibilityFingerprintRef := e.effectiveVisibilityFingerprintRef.toNat
  effectiveRedactionFingerprintRef := e.effectiveRedactionFingerprintRef.toNat
  csnMin := e.csnMin.toNat
  csnMax := e.csnMax.toNat

def body (e : CovmDeltaChainExtensionV1) (layout : ExtensionLayout) : Bytes :=
  [putU32 e.deltaChainProfileId, putU16 e.deltaChainProfileVersionMajor,
    putU16 e.deltaChainProfileVersionMinor, putU64 e.requiredDeltaFeatures,
    putU64 e.optionalDeltaFeatures, e.datasetId.toList, e.baseSnapshotId.toList,
    e.resultSnapshotId.toList, e.baseArtifactRef.serialize crc32c, putU32 layout.orderedDeltaCount,
    putU64 layout.orderedRefsOffset, putU64 layout.orderedRefsLength, putU16 e.chainDigestAlgorithm,
    putU16 layout.chainDigestLen, putU32 layout.chainDigestRef, putU16 e.chainSummaryKind,
    putU32 e.chainSummaryRef, putU64 e.chainSummaryOffset, putU64 e.chainSummaryLength,
    putU32 e.chainSummaryCrc32c, putU16 e.chainSummaryDigestAlgorithm,
    putU16 layout.chainSummaryDigestLen, putU32 layout.chainSummaryDigestRef,
    putU32 e.effectiveSchemaFingerprintRef, putU32 e.effectiveObjectCatalogFingerprintRef,
    putU32 e.effectiveProjectionFingerprintRef, putU32 e.effectiveSemanticMapFingerprintRef,
    putU32 e.effectiveVisibilityFingerprintRef, putU32 e.effectiveRedactionFingerprintRef,
    putU64 e.csnMin, putU64 e.csnMax, putI64 e.createdAtUs].flatten

def orderedRefsBytes (e : CovmDeltaChainExtensionV1) : Bytes :=
  e.orderedDeltaArtifactRefs.flatMap fun r => r.serialize crc32c

def badSummaryDigestLength (expected got : Nat) : CoveError := .badSection
  ("COVM delta chain summary digest length must be " ++ toString expected ++ ", got " ++ toString got)

def serialize (computeDigest : Digests) (e : CovmDeltaChainExtensionV1) : Except CoveError Bytes := do
  e.view.validateStructure covmDeltaChainSupportedRequiredFeatures
  let chainDigest ← e.view.computedChainDigest computeDigest
  let algorithm ← covmDeltaRequiredDigestAlgorithm e.chainDigestAlgorithm.toNat
    "COVM delta chain_digest_algorithm"
  rejectIf (chainDigest.length ≠ covedeltaExpectedDigestLen algorithm)
    (.badSection "COVM delta chain digest has invalid length")
  let summaryAlgorithm ← covmDeltaOptionalDigestAlgorithm e.chainSummaryDigestAlgorithm.toNat
    "COVM delta chain_summary_digest_algorithm"
  rejectIf (e.chainSummaryDigest.length ≠ summaryDigestLen summaryAlgorithm)
    (match summaryAlgorithm with
      | some algorithm =>
        badSummaryDigestLength (covedeltaExpectedDigestLen algorithm) e.chainSummaryDigest.length
      | none => .badSection "COVM delta chain summary digest bytes require a digest algorithm")
  let orderedRefsLength := (e.orderedRefsBytes crc32c).length
  let chainDigestRef := covmDeltaChainExtensionHeaderLen + orderedRefsLength
  rejectIf (2 ^ 32 ≤ chainDigestRef) .offsetRange
  let chainSummaryDigestRef := chainDigestRef + chainDigest.length
  rejectIf (2 ^ 32 ≤ chainSummaryDigestRef) .offsetRange
  rejectIf (2 ^ 32 ≤ e.orderedDeltaArtifactRefs.length)
    (.badSection "too many COVM delta artifact refs")
  rejectIf (2 ^ 16 ≤ chainDigest.length) (.badSection "COVM chain digest too long")
  rejectIf (2 ^ 16 ≤ e.chainSummaryDigest.length) (.badSection "COVM chain summary digest too long")
  let layout : ExtensionLayout := {
    orderedDeltaCount := UInt32.ofNat e.orderedDeltaArtifactRefs.length
    orderedRefsOffset := UInt64.ofNat covmDeltaChainExtensionHeaderLen
    orderedRefsLength := UInt64.ofNat orderedRefsLength
    chainDigestLen := UInt16.ofNat chainDigest.length
    chainDigestRef := UInt32.ofNat chainDigestRef
    chainSummaryDigestLen := UInt16.ofNat e.chainSummaryDigest.length
    chainSummaryDigestRef := UInt32.ofNat chainSummaryDigestRef }
  rejectIf (2 ^ 64 ≤ chainSummaryDigestRef + e.chainSummaryDigest.length) .arithOverflow
  .ok [sealBytes crc32c (e.body crc32c layout), e.orderedRefsBytes crc32c, chainDigest,
    e.chainSummaryDigest].flatten

def readHeader : Reader (CovmDeltaChainExtensionV1 × ExtensionLayout) := do
  let deltaChainProfileId ← takeU32
  let deltaChainProfileVersionMajor ← takeU16
  let deltaChainProfileVersionMinor ← takeU16
  let requiredDeltaFeatures ← takeU64
  let optionalDeltaFeatures ← takeU64
  let datasetId ← takeArray 16
  let baseSnapshotId ← takeArray 16
  let resultSnapshotId ← takeArray 16
  let baseBytes ← take covmDeltaArtifactRefLen
  let baseArtifactRef ← StateT.lift (CovmDeltaArtifactRefV1.parse crc32c baseBytes)
  let orderedDeltaCount ← takeU32
  let orderedRefsOffset ← takeU64
  let orderedRefsLength ← takeU64
  let chainDigestAlgorithm ← takeU16
  let chainDigestLen ← takeU16
  let chainDigestRef ← takeU32
  let chainSummaryKind ← takeU16
  let chainSummaryRef ← takeU32
  let chainSummaryOffset ← takeU64
  let chainSummaryLength ← takeU64
  let chainSummaryCrc32c ← takeU32
  let chainSummaryDigestAlgorithm ← takeU16
  let chainSummaryDigestLen ← takeU16
  let chainSummaryDigestRef ← takeU32
  let effectiveSchemaFingerprintRef ← takeU32
  let effectiveObjectCatalogFingerprintRef ← takeU32
  let effectiveProjectionFingerprintRef ← takeU32
  let effectiveSemanticMapFingerprintRef ← takeU32
  let effectiveVisibilityFingerprintRef ← takeU32
  let effectiveRedactionFingerprintRef ← takeU32
  let csnMin ← takeU64
  let csnMax ← takeU64
  let createdAtUs ← takeI64
  let checksum ← takeU32
  return (⟨deltaChainProfileId, deltaChainProfileVersionMajor, deltaChainProfileVersionMinor,
    requiredDeltaFeatures, optionalDeltaFeatures, datasetId, baseSnapshotId, resultSnapshotId,
    baseArtifactRef, [], chainDigestAlgorithm, [], chainSummaryKind, chainSummaryRef,
    chainSummaryOffset, chainSummaryLength, chainSummaryCrc32c, chainSummaryDigestAlgorithm, [],
    effectiveSchemaFingerprintRef, effectiveObjectCatalogFingerprintRef,
    effectiveProjectionFingerprintRef, effectiveSemanticMapFingerprintRef,
    effectiveVisibilityFingerprintRef, effectiveRedactionFingerprintRef, csnMin, csnMax, createdAtUs,
    checksum⟩, ⟨orderedDeltaCount, orderedRefsOffset, orderedRefsLength, chainDigestLen,
    chainDigestRef, chainSummaryDigestLen, chainSummaryDigestRef⟩)

def parseHeader (bytes : Bytes) : Except CoveError (CovmDeltaChainExtensionV1 × ExtensionLayout) := do
  rejectIf (bytes.length < covmDeltaChainExtensionHeaderLen) .bufferTooShort
  let bytes := bytes.take covmDeltaChainExtensionHeaderLen
  checkSeal crc32c bytes (covmDeltaChainExtensionHeaderLen - 4)
  (readHeader crc32c).run' bytes

def parseParts (bytes : Bytes) (e : CovmDeltaChainExtensionV1) (layout : ExtensionLayout) :
    Except CoveError CovmDeltaChainExtensionV1 := do
  rejectIf (layout.orderedRefsLength.toNat ≠ layout.orderedDeltaCount.toNat * covmDeltaArtifactRefLen)
    (.badSection "COVM ordered delta artifact refs length does not match count")
  rejectIf (layout.orderedRefsOffset.toNat ≠ covmDeltaChainExtensionHeaderLen)
    (.badSection "COVM ordered delta artifact refs must directly follow the extension header")
  let orderedRefsEnd ← checkedAdd layout.orderedRefsOffset.toNat layout.orderedRefsLength.toNat
  rejectIf (bytes.length < orderedRefsEnd) .offsetRange
  rejectIf (layout.chainDigestRef.toNat ≠ orderedRefsEnd)
    (.badSection "COVM chain digest must directly follow ordered delta artifact refs")
  let algorithm ← covmDeltaRequiredDigestAlgorithm e.chainDigestAlgorithm.toNat
    "COVM delta chain_digest_algorithm"
  let expectedLen := covedeltaExpectedDigestLen algorithm
  rejectIf (layout.chainDigestLen.toNat ≠ expectedLen) (.badSection ("COVM chain digest length must be " ++
    toString expectedLen ++ ", got " ++ toString layout.chainDigestLen.toNat))
  let chainDigestEnd ← checkedAdd layout.chainDigestRef.toNat layout.chainDigestLen.toNat
  rejectIf (bytes.length < chainDigestEnd) .offsetRange
  rejectIf (layout.chainSummaryDigestRef.toNat ≠ chainDigestEnd)
    (.badSection "COVM chain summary digest must directly follow chain digest")
  let summaryAlgorithm ← covmDeltaOptionalDigestAlgorithm e.chainSummaryDigestAlgorithm.toNat
    "COVM delta chain_summary_digest_algorithm"
  rejectIf (layout.chainSummaryDigestLen.toNat ≠ summaryDigestLen summaryAlgorithm)
    (match summaryAlgorithm with
      | some algorithm => .badSection ("COVM chain summary digest length must be " ++
          toString (covedeltaExpectedDigestLen algorithm) ++ ", got " ++
            toString layout.chainSummaryDigestLen.toNat)
      | none => .badSection "COVM chain summary digest length requires a digest algorithm")
  let summaryDigestEnd ←
    checkedAdd layout.chainSummaryDigestRef.toNat layout.chainSummaryDigestLen.toNat
  rejectIf (summaryDigestEnd ≠ bytes.length)
    (.badSection "COVM delta-chain extension has trailing or overlapping bytes")
  let orderedRefs ← (chunksExact covmDeltaArtifactRefLen layout.orderedDeltaCount.toNat
    (slice bytes layout.orderedRefsOffset.toNat orderedRefsEnd)).mapM
      (CovmDeltaArtifactRefV1.parse crc32c)
  .ok { e with
    orderedDeltaArtifactRefs := orderedRefs
    chainDigest := slice bytes layout.chainDigestRef.toNat chainDigestEnd
    chainSummaryDigest := slice bytes layout.chainSummaryDigestRef.toNat summaryDigestEnd }

def parseWithSupportedRequiredDeltaFeatures (computeDigest : Digests) (supported : UInt64)
    (bytes : Bytes) : Except CoveError CovmDeltaChainExtensionV1 := do
  let (header, layout) ← parseHeader crc32c bytes
  rejectIf (header.deltaChainProfileId.toNat ≠ DeltaChain.covmDeltaChainProfileIdV1) .badExtension
  rejectIf (header.deltaChainProfileVersionMajor.toNat ≠ DeltaChain.covmDeltaChainProfileVersionMajorV1)
    .badVersion
  let extension ← parseParts crc32c bytes header layout
  extension.view.validateWithSupportedRequiredDeltaFeatures computeDigest supported
  .ok extension

def parse (computeDigest : Digests) (bytes : Bytes) : Except CoveError CovmDeltaChainExtensionV1 :=
  parseWithSupportedRequiredDeltaFeatures crc32c computeDigest
    covmDeltaChainSupportedRequiredFeatures bytes

/-- What the header of an extension says of it. -/
def headerOnly (e : CovmDeltaChainExtensionV1) (checksum : UInt32) : CovmDeltaChainExtensionV1 :=
  { e with
    baseArtifactRef := e.baseArtifactRef.stamped crc32c
    orderedDeltaArtifactRefs := []
    chainDigest := []
    chainSummaryDigest := []
    checksum := checksum }

def stamped (e : CovmDeltaChainExtensionV1) (chainDigest : Bytes) (checksum : UInt32) :
    CovmDeltaChainExtensionV1 :=
  { e with
    baseArtifactRef := e.baseArtifactRef.stamped crc32c
    orderedDeltaArtifactRefs :=
      e.orderedDeltaArtifactRefs.map fun r => r.stamped crc32c
    chainDigest := chainDigest
    checksum := checksum }

variable {crc32c} {e : CovmDeltaChainExtensionV1} {layout : ExtensionLayout}

@[simp] theorem body_length : (e.body crc32c layout).length = 294 := by
  simp [body, covmDeltaArtifactRefLen]

theorem run_readHeader (h : e.baseArtifactRef.view.validateMandatoryDigest = .ok ()) (sum : UInt32) :
    (readHeader crc32c).run (e.body crc32c layout ++ (putU32 sum ++ [])) =
      .ok ((e.headerOnly crc32c sum, layout), []) := by
  have hbase : ∀ (f : Bytes → Reader (CovmDeltaChainExtensionV1 × ExtensionLayout)) (rest : Bytes),
      (take covmDeltaArtifactRefLen >>= f).run (e.baseArtifactRef.serialize crc32c ++ rest) =
        (f (e.baseArtifactRef.serialize crc32c)).run rest := fun f rest =>
    (take_reads CovmDeltaArtifactRefV1.serialize_length).run_bind
  rw [body, readHeader]
  simp only [flatten_cons, flatten_nil, append_assoc, nil_append,
    run_takeArray, run_takeU16, run_takeU32, run_takeU64, run_takeI64, hbase,
    CovmDeltaArtifactRefV1.parse_serialize h, run_lift_ok]
  rfl

theorem parseHeader_append (h : e.baseArtifactRef.view.validateMandatoryDigest = .ok ())
    (rest : Bytes) :
    parseHeader crc32c (sealBytes crc32c (e.body crc32c layout) ++ rest) =
      .ok (e.headerOnly crc32c (sealOf crc32c (e.body crc32c layout)), layout) := by
  have hlen : (sealBytes crc32c (e.body crc32c layout)).length = covmDeltaChainExtensionHeaderLen := by
    rw [sealBytes_length, body_length, covmDeltaChainExtensionHeaderLen]
  have hshort : parseHeader crc32c (sealBytes crc32c (e.body crc32c layout) ++ rest) =
      parseHeader crc32c (sealBytes crc32c (e.body crc32c layout)) := by
    rw [parseHeader, parseHeader, take_left' hlen, take_of_length_le hlen.le, rejectIf,
      if_neg (by rw [length_append]; omega), rejectIf, if_neg (by omega)]
  have hbody : (e.body crc32c layout).length + 4 = covmDeltaChainExtensionHeaderLen := by
    rw [body_length, covmDeltaChainExtensionHeaderLen]
  rw [hshort]
  exact parse_checkSeal (fun sum => (e.headerOnly crc32c sum, layout)) hbody (run_readHeader h)

theorem orderedRefsBytes_eq : e.orderedRefsBytes crc32c =
    (e.orderedDeltaArtifactRefs.map fun r => r.serialize crc32c).flatten := flatMap_def ..

theorem orderedRef_length : ∀ chunk ∈ e.orderedDeltaArtifactRefs.map fun r => r.serialize crc32c,
    chunk.length = covmDeltaArtifactRefLen := by
  intro chunk hchunk
  obtain ⟨r, -, rfl⟩ := mem_map.mp hchunk
  exact CovmDeltaArtifactRefV1.serialize_length

theorem orderedRefsBytes_length : (e.orderedRefsBytes crc32c).length =
    e.orderedDeltaArtifactRefs.length * covmDeltaArtifactRefLen := by
  rw [orderedRefsBytes_eq, length_flatten_eq orderedRef_length, length_map]

theorem parse_orderedRefs
    (h : ∀ r ∈ e.orderedDeltaArtifactRefs, r.view.validateMandatoryDigest = .ok ()) :
    (chunksExact covmDeltaArtifactRefLen e.orderedDeltaArtifactRefs.length
      (e.orderedRefsBytes crc32c)).mapM (CovmDeltaArtifactRefV1.parse crc32c) =
        .ok (e.orderedDeltaArtifactRefs.map fun r => r.stamped crc32c) := by
  have hchunks := chunksExact_flatten (@orderedRef_length crc32c e)
  rw [length_map] at hchunks
  rw [orderedRefsBytes_eq, hchunks]
  refine mapM_of_forall₂ (forall₂_map_left_iff.mpr (forall₂_map_right_iff.mpr ?_))
  exact forall₂_same.mpr fun r hr => CovmDeltaArtifactRefV1.parse_serialize (h r hr)

/-- The layout says where `n` references and the two digests are. -/
structure LaidOut (layout : ExtensionLayout) (n : Nat) (chainDigest summaryDigest : Bytes) : Prop where
  count : layout.orderedDeltaCount.toNat = n
  refsOffset : layout.orderedRefsOffset.toNat = covmDeltaChainExtensionHeaderLen
  refsLength : layout.orderedRefsLength.toNat = n * covmDeltaArtifactRefLen
  digestRef : layout.chainDigestRef.toNat = covmDeltaChainExtensionHeaderLen + n * covmDeltaArtifactRefLen
  digestLen : layout.chainDigestLen.toNat = chainDigest.length
  summaryRef : layout.chainSummaryDigestRef.toNat =
    covmDeltaChainExtensionHeaderLen + n * covmDeltaArtifactRefLen + chainDigest.length
  summaryLen : layout.chainSummaryDigestLen.toNat = summaryDigest.length
  fits : covmDeltaChainExtensionHeaderLen + n * covmDeltaArtifactRefLen + chainDigest.length +
    summaryDigest.length < 2 ^ 64

theorem parseParts_ok {f : CovmDeltaChainExtensionV1} {header chainDigest : Bytes}
    {algorithm : DigestAlgorithm} {summaryAlgorithm : Option DigestAlgorithm}
    (hheader : header.length = covmDeltaChainExtensionHeaderLen)
    (hlayout : LaidOut layout e.orderedDeltaArtifactRefs.length chainDigest e.chainSummaryDigest)
    (hrefs : ∀ r ∈ e.orderedDeltaArtifactRefs, r.view.validateMandatoryDigest = .ok ())
    (halgorithm : covmDeltaRequiredDigestAlgorithm f.chainDigestAlgorithm.toNat
      "COVM delta chain_digest_algorithm" = .ok algorithm)
    (hdigest : chainDigest.length = covedeltaExpectedDigestLen algorithm)
    (hoptional : covmDeltaOptionalDigestAlgorithm f.chainSummaryDigestAlgorithm.toNat
      "COVM delta chain_summary_digest_algorithm" = .ok summaryAlgorithm)
    (hsummary : e.chainSummaryDigest.length = summaryDigestLen summaryAlgorithm) :
    parseParts crc32c [header, e.orderedRefsBytes crc32c, chainDigest, e.chainSummaryDigest].flatten
      f layout = .ok { f with
        orderedDeltaArtifactRefs := e.orderedDeltaArtifactRefs.map fun r => r.stamped crc32c
        chainDigest := chainDigest
        chainSummaryDigest := e.chainSummaryDigest } := by
  obtain ⟨hcount, hoffset, hlength, hdigestRef, hdigestLen, hsummaryRef, hsummaryLen, hfits⟩ := hlayout
  have hrefsLen := @orderedRefsBytes_length crc32c e
  let parts := [header, e.orderedRefsBytes crc32c, chainDigest, e.chainSummaryDigest]
  let refsEnd := covmDeltaChainExtensionHeaderLen + e.orderedDeltaArtifactRefs.length *
      covmDeltaArtifactRefLen
  have hrefsSlice := @slice_flatten parts _ covmDeltaChainExtensionHeaderLen refsEnd 1 rfl
      (by simp [parts, hheader])
    (congrArg (covmDeltaChainExtensionHeaderLen + ·) hrefsLen)
  have hdigestSlice := @slice_flatten parts _ refsEnd _ 2 rfl
      (by simp [parts, refsEnd, hheader, hrefsLen]) rfl
  have hsummarySlice := @slice_flatten parts _ (refsEnd + chainDigest.length) _ 3 rfl
    (by simp [parts, refsEnd, hheader, hrefsLen, Nat.add_assoc]) rfl
  have hend : parts.flatten.length = refsEnd + chainDigest.length + e.chainSummaryDigest.length := by
    simp [parts, refsEnd, hheader, hrefsLen, Nat.add_assoc]
  change parseParts crc32c parts.flatten f layout = _
  simp only [parseParts, andThen_eq_ok_iff, rejectIf_eq_ok_iff, exists_const, checkedAdd_ok_iff, not_not,
    not_lt, hcount, hoffset, hlength, hdigestRef, hdigestLen, hsummaryRef, hsummaryLen, hend,
      halgorithm, hoptional]
  refine ⟨trivial, trivial, _, ⟨by omega, rfl⟩, by omega, rfl, algorithm, rfl, hdigest, _,
    ⟨by omega, rfl⟩, by omega, rfl, summaryAlgorithm, rfl, hsummary, _, ⟨hfits, rfl⟩, rfl,
    e.orderedDeltaArtifactRefs.map fun r => r.stamped crc32c, ?_, ?_⟩
  · rw [hrefsSlice]
    exact parse_orderedRefs hrefs
  · rw [hdigestSlice, hsummarySlice]

section

variable {refs : List CovmDeltaArtifactRefV1} {chainDigest : Bytes} {sum : UInt32}

theorem validateOrderedRefs_stamped (idx : Nat) (seen : List Id16) (start : Id16) :
    DeltaChain.validateOrderedRefs idx seen start
        ((refs.map fun r => r.stamped crc32c).map CovmDeltaArtifactRefV1.view) =
      DeltaChain.validateOrderedRefs idx seen start (refs.map CovmDeltaArtifactRefV1.view) := by
  induction refs generalizing idx seen start with
  | nil => rfl
  | cons r rs ih =>
    simp only [map_cons, DeltaChain.validateOrderedRefs, ih]
    rfl

theorem mandatoryDigest_of_ordered {idx : Nat} {seen : List Id16} {start finish : Id16}
    (h : DeltaChain.validateOrderedRefs idx seen start (refs.map CovmDeltaArtifactRefV1.view) =
      .ok finish) : ∀ r ∈ refs, r.view.validateMandatoryDigest = .ok () := by
  induction refs generalizing idx seen start with
  | nil => exact forall_mem_nil _
  | cons r rs ih =>
    obtain ⟨hr, h⟩ := of_check h
    iterate 4 replace h := rest_ok h
    exact forall_mem_cons.mpr ⟨hr, ih h⟩

theorem validateStructure_stamped (supported : UInt64) :
    (e.stamped crc32c chainDigest sum).view.validateStructure supported =
      e.view.validateStructure supported := by
  have hloop := fun idx seen start =>
    @validateOrderedRefs_stamped crc32c e.orderedDeltaArtifactRefs idx seen start
  have hempty : ((e.orderedDeltaArtifactRefs.map fun r => r.stamped crc32c).map
      CovmDeltaArtifactRefV1.view = []) ↔
        e.orderedDeltaArtifactRefs.map CovmDeltaArtifactRefV1.view = [] := by
    simp only [map_eq_nil_iff]
  simp only [DeltaChain.CovmDeltaChainExtensionV1.validateStructure, view, stamped, hloop, hempty]
  rfl

theorem chainDigestMaterial_stamped : (e.stamped crc32c chainDigest sum).view.chainDigestMaterial =
    e.view.chainDigestMaterial := by
  simp only [DeltaChain.CovmDeltaChainExtensionV1.chainDigestMaterial, view, stamped, flatMap_map]
  rfl

end

theorem validateStructure_ok {supported : UInt64} (h : e.view.validateStructure supported = .ok ()) :
    e.deltaChainProfileId.toNat = DeltaChain.covmDeltaChainProfileIdV1 ∧
      e.deltaChainProfileVersionMajor.toNat = DeltaChain.covmDeltaChainProfileVersionMajorV1 ∧
      e.baseArtifactRef.view.validateMandatoryDigest = .ok () ∧
      ∀ r ∈ e.orderedDeltaArtifactRefs, r.view.validateMandatoryDigest = .ok () := by
  obtain ⟨hid, h⟩ := of_reject h
  obtain ⟨hmajor, h⟩ := of_reject h
  iterate 2 replace h := rest_ok h
  obtain ⟨hbase, h⟩ := of_check h
  iterate 4 replace h := rest_ok h
  obtain ⟨finish, hrefs, -⟩ := of_andThen h
  exact ⟨not_not.mp hid, not_not.mp hmajor, hbase, mandatoryDigest_of_ordered hrefs⟩

theorem parse_serialize {computeDigest : Digests} {bytes : Bytes}
    (h : e.serialize crc32c computeDigest = .ok bytes) :
    ∃ chainDigest sum, e.view.computedChainDigest computeDigest = .ok chainDigest ∧
      parse crc32c computeDigest bytes = .ok (e.stamped crc32c chainDigest sum) := by
  obtain ⟨hvalid, h⟩ := of_check h
  obtain ⟨chainDigest, hcomputed, h⟩ := of_andThen h
  obtain ⟨algorithm, halgorithm, h⟩ := of_andThen h
  obtain ⟨hdigest, h⟩ := of_check h
  obtain ⟨summaryAlgorithm, hoptional, h⟩ := of_andThen h
  obtain ⟨hsummary, h⟩ := of_check h
  obtain ⟨hdigestRef, h⟩ := of_check h
  obtain ⟨hsummaryRef, h⟩ := of_check h
  obtain ⟨hcount, h⟩ := of_check h
  obtain ⟨hdigestLen, h⟩ := of_check h
  obtain ⟨hsummaryLen, h⟩ := of_check h
  obtain ⟨hfits, h⟩ := of_check h
  rw [rejectIf_eq_ok_iff, orderedRefsBytes_length] at hdigestRef hsummaryRef hfits
  rw [rejectIf_eq_ok_iff] at hdigest hsummary hcount hdigestLen hsummaryLen
  have hdigest := not_not.mp hdigest
  have hsummary := not_not.mp hsummary
  obtain ⟨hid, hmajor, hbase, hrefs⟩ := validateStructure_ok hvalid
  generalize hl : ExtensionLayout.mk _ _ _ _ _ _ _ = layout at h
  cases h
  have hlayout : LaidOut layout e.orderedDeltaArtifactRefs.length chainDigest e.chainSummaryDigest := by
    rw [← hl, orderedRefsBytes_length]
    exact {
      count := UInt32.toNat_ofNat_of_lt' (Nat.not_le.mp hcount)
      refsOffset := rfl
      refsLength := UInt64.toNat_ofNat_of_lt' (show _ < 2 ^ 64 by omega)
      digestRef := UInt32.toNat_ofNat_of_lt' (Nat.not_le.mp hdigestRef)
      digestLen := UInt16.toNat_ofNat_of_lt' (Nat.not_le.mp hdigestLen)
      summaryRef := UInt32.toNat_ofNat_of_lt' (Nat.not_le.mp hsummaryRef)
      summaryLen := UInt16.toNat_ofNat_of_lt' (Nat.not_le.mp hsummaryLen)
      fits := Nat.not_le.mp hfits }
  refine ⟨chainDigest, sealOf crc32c (e.body crc32c layout), hcomputed, ?_⟩
  have hheader := @parseHeader_append crc32c e layout hbase
    [e.orderedRefsBytes crc32c, chainDigest, e.chainSummaryDigest].flatten
  have hlen : (sealBytes crc32c (e.body crc32c layout)).length = covmDeltaChainExtensionHeaderLen := by
    rw [sealBytes_length, body_length, covmDeltaChainExtensionHeaderLen]
  rw [parse, parseWithSupportedRequiredDeltaFeatures, andThen_eq_ok_iff]
  refine ⟨_, hheader, ?_⟩
  simp only [andThen_eq_ok_iff, rejectIf_eq_ok_iff, exists_const, not_not]
  refine ⟨hid, hmajor, e.stamped crc32c chainDigest (sealOf crc32c (e.body crc32c layout)),
    parseParts_ok hlen hlayout hrefs halgorithm hdigest hoptional hsummary, (), ?_, rfl⟩
  have hvalid' : (e.stamped crc32c chainDigest (sealOf crc32c (e.body crc32c layout))).view.validateStructure
      covmDeltaChainSupportedRequiredFeatures = .ok () := by rw [validateStructure_stamped, hvalid]
  have hcomputed' : (e.stamped crc32c chainDigest
      (sealOf crc32c (e.body crc32c layout))).view.computedChainDigest
      computeDigest = .ok chainDigest := by
    rw [← hcomputed, DeltaChain.CovmDeltaChainExtensionV1.computedChainDigest, chainDigestMaterial_stamped]
    rfl
  rw [DeltaChain.CovmDeltaChainExtensionV1.validateWithSupportedRequiredDeltaFeatures]
  simp only [andThen_eq_ok_iff, rejectIf_eq_ok_iff, not_not]
  exact ⟨(), hvalid', chainDigest, hcomputed', rfl⟩

section

variable {f : CovmDeltaChainExtensionV1} {refs others : List CovmDeltaArtifactRefV1}

/-- Equal in all that the digest of the chain binds. -/
structure SameBinding (e f : CovmDeltaChainExtensionV1) : Prop where
  datasetId : e.datasetId = f.datasetId
  baseSnapshotId : e.baseSnapshotId = f.baseSnapshotId
  baseArtifactRef : e.baseArtifactRef.bound = f.baseArtifactRef.bound
  orderedDeltaArtifactRefs : e.orderedDeltaArtifactRefs.map CovmDeltaArtifactRefV1.bound =
    f.orderedDeltaArtifactRefs.map CovmDeltaArtifactRefV1.bound
  resultSnapshotId : e.resultSnapshotId = f.resultSnapshotId
  requiredDeltaFeatures : e.requiredDeltaFeatures = f.requiredDeltaFeatures
  schemaRef : e.effectiveSchemaFingerprintRef = f.effectiveSchemaFingerprintRef
  objectCatalogRef : e.effectiveObjectCatalogFingerprintRef = f.effectiveObjectCatalogFingerprintRef
  projectionRef : e.effectiveProjectionFingerprintRef = f.effectiveProjectionFingerprintRef
  semanticMapRef : e.effectiveSemanticMapFingerprintRef = f.effectiveSemanticMapFingerprintRef
  visibilityRef : e.effectiveVisibilityFingerprintRef = f.effectiveVisibilityFingerprintRef
  redactionRef : e.effectiveRedactionFingerprintRef = f.effectiveRedactionFingerprintRef

def bindings (refs : List CovmDeltaArtifactRefV1) : Bytes :=
  refs.flatMap fun r => r.view.digestBinding

theorem bindings_length : (bindings refs).length = refs.length * 100 := by
  rw [bindings, flatMap_def, length_flatten_eq (fun chunk hchunk => ?_), length_map]
  obtain ⟨r, -, rfl⟩ := mem_map.mp hchunk
  exact CovmDeltaArtifactRefV1.digestBinding_length

theorem bound_eq_of_bindings (hlen : refs.length = others.length)
    (h : bindings refs = bindings others) :
    refs.map CovmDeltaArtifactRefV1.bound = others.map CovmDeltaArtifactRefV1.bound := by
  induction refs generalizing others with
  | nil => rw [length_eq_zero_iff.mp hlen.symm]
  | cons r rs ih =>
    cases others with
    | nil => cases hlen
    | cons s ss =>
      obtain ⟨hhead, htail⟩ := append_inj h (by
        rw [CovmDeltaArtifactRefV1.digestBinding_length, CovmDeltaArtifactRefV1.digestBinding_length])
      rw [map_cons, map_cons, CovmDeltaArtifactRefV1.bound_eq_of_digestBinding hhead,
        ih (Nat.succ.inj hlen) htail]

theorem chainDigestMaterial_eq : e.view.chainDigestMaterial =
    DeltaChain.CovmDeltaChainExtensionV1.chainDigestLabel ++ (e.datasetId.toList ++
      (e.baseSnapshotId.toList ++ (e.baseArtifactRef.view.digestBinding ++
        (bindings e.orderedDeltaArtifactRefs ++ (e.resultSnapshotId.toList ++
          (putU64 e.requiredDeltaFeatures ++ (putU32 e.effectiveSchemaFingerprintRef ++
            (putU32 e.effectiveObjectCatalogFingerprintRef ++
              (putU32 e.effectiveProjectionFingerprintRef ++
                (putU32 e.effectiveSemanticMapFingerprintRef ++
                  (putU32 e.effectiveVisibilityFingerprintRef ++
                    putU32 e.effectiveRedactionFingerprintRef))))))))))) := by
  simp only [DeltaChain.CovmDeltaChainExtensionV1.chainDigestMaterial, view, idBytes_idOf, bindings,
    flatMap_map, append_assoc]
  rfl

theorem sameBinding_of_material (h : e.view.chainDigestMaterial = f.view.chainDigestMaterial) :
    SameBinding e f := by
  rw [chainDigestMaterial_eq, chainDigestMaterial_eq] at h
  have hlen := congrArg List.length h
  simp only [length_append, Vector.length_toList, CovmDeltaArtifactRefV1.digestBinding_length,
    bindings_length, putU64_length, putU32_length] at hlen
  have hcount : e.orderedDeltaArtifactRefs.length = f.orderedDeltaArtifactRefs.length := by omega
  obtain ⟨-, h⟩ := append_inj h rfl
  obtain ⟨hdataset, h⟩ := append_inj h (by simp)
  obtain ⟨hbaseSnapshot, h⟩ := append_inj h (by simp)
  obtain ⟨hbase, h⟩ := append_inj h (by
    rw [CovmDeltaArtifactRefV1.digestBinding_length, CovmDeltaArtifactRefV1.digestBinding_length])
  obtain ⟨hrefs, h⟩ := append_inj h (by rw [bindings_length, bindings_length, hcount])
  obtain ⟨hresult, h⟩ := append_inj h (by simp)
  obtain ⟨hrequired, h⟩ := append_inj h (by simp)
  obtain ⟨hschema, h⟩ := append_inj h (by simp)
  obtain ⟨hcatalog, h⟩ := append_inj h (by simp)
  obtain ⟨hprojection, h⟩ := append_inj h (by simp)
  obtain ⟨hsemantic, h⟩ := append_inj h (by simp)
  obtain ⟨hvisibility, hredaction⟩ := append_inj h (by simp)
  exact {
    datasetId := Vector.toList_inj.mp hdataset
    baseSnapshotId := Vector.toList_inj.mp hbaseSnapshot
    baseArtifactRef := CovmDeltaArtifactRefV1.bound_eq_of_digestBinding hbase
    orderedDeltaArtifactRefs := bound_eq_of_bindings hcount hrefs
    resultSnapshotId := Vector.toList_inj.mp hresult
    requiredDeltaFeatures := putU64_inj hrequired
    schemaRef := putU32_inj hschema
    objectCatalogRef := putU32_inj hcatalog
    projectionRef := putU32_inj hprojection
    semanticMapRef := putU32_inj hsemantic
    visibilityRef := putU32_inj hvisibility
    redactionRef := putU32_inj hredaction }

end

end CovmDeltaChainExtensionV1

end CoveFormat.DeltaChainWire
