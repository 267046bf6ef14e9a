import CoveFormat.DeltaRecords
import CoveFormat.TakeReaders

namespace CoveFormat.DeltaWire

open ByteCodes ExceptRules FixedFields TakeReaders
open List hiding Vector
open DeltaRecords (deltaFlagSourcePublishRangePresent)

def magicCovedelta : Vector UInt8 4 := ⟨#[67, 86, 68, 50], rfl⟩

def covedeltaVersionMajorV1 : UInt16 := 1
def covedeltaVersionMinorV1 : UInt16 := 0
def covedeltaHeaderLen : Nat := 238
def covedeltaParentRefLen : Nat := 85
def covedeltaSectionDirectoryEntryLen : Nat := 68
def covedeltaFooterLen : Nat := 48
def covedeltaPostscriptLen : Nat := 44

structure CoveDeltaHeaderV1 where
  magic : Vector UInt8 4
  (versionMajor versionMinor headerLen : UInt16)
  flags : UInt32
  (requiredDeltaFeatures optionalDeltaFeatures : UInt64)
  (deltaArtifactId datasetId snapshotId parentSnapshotId : Vector UInt8 16)
  (chainOrdinal chainDepth parentRefCount sectionCount : UInt32)
  (csnMin csnMax : UInt64)
  (commitTimeRangeStartUs commitTimeRangeEndUs : Int64)
  (scopeKind reserved0 : UInt16)
  scopeId : Vector UInt8 16
  (objectCatalogFingerprintRef schemaFingerprintRef semanticMapFingerprintRef : UInt32)
  projectionFingerprintRef : UInt32
  (sectionDirectoryOffset sectionDirectoryLength parentRefsOffset parentRefsLength : UInt64)
  (createdAtUs sourcePublishRangeStartUs sourcePublishRangeEndUs : Int64)
  checksum : UInt32
  deriving DecidableEq

structure DeltaParentRefV1 where
  parentRef : UInt32
  parentKind : UInt8
  flags : UInt32
  (artifactId snapshotId : Vector UInt8 16)
  fileLen : UInt64
  footerCrc32c : UInt32
  (digestAlgorithm digestLen : UInt16)
  (digestRef uriRef schemaFingerprintRef objectCatalogFingerprintRef : UInt32)
  (semanticMapFingerprintRef projectionFingerprintRef checksum : UInt32)
  deriving DecidableEq

structure CoveDeltaSectionDirectoryEntryV1 where
  sectionId : UInt32
  (sectionKind flags : UInt16)
  (offset length uncompressedLength itemCount : UInt64)
  (compression encryption alignmentLog2 reserved0 : UInt8)
  (requiredDeltaFeatures optionalDeltaFeatures : UInt64)
  (crc32c checksum : UInt32)
  deriving DecidableEq

structure CoveDeltaFooterV1 where
  (headerOffset headerLength sectionDirectoryOffset sectionDirectoryLength : UInt64)
  (sectionCount parentRefCount footerCrc32c checksum : UInt32)
  deriving DecidableEq

structure CoveDeltaPostscriptV1 where
  (requiredDeltaFeatures optionalDeltaFeatures fileLen footerOffset footerLength : UInt64)
  checksum : UInt32
  deriving DecidableEq

-- The CRC32C of the checksum package.
variable (crc32c : Bytes → UInt32)

namespace CoveDeltaHeaderV1

def body (h : CoveDeltaHeaderV1) : Bytes :=
  [h.magic.toList, putU16 h.versionMajor, putU16 h.versionMinor, putU16 h.headerLen,
    putU32 h.flags, putU64 h.requiredDeltaFeatures, putU64 h.optionalDeltaFeatures,
    h.deltaArtifactId.toList, h.datasetId.toList, h.snapshotId.toList,
    h.parentSnapshotId.toList, putU32 h.chainOrdinal, putU32 h.chainDepth,
    putU32 h.parentRefCount, putU32 h.sectionCount, putU64 h.csnMin, putU64 h.csnMax,
    putI64 h.commitTimeRangeStartUs, putI64 h.commitTimeRangeEndUs, putU16 h.scopeKind,
    putU16 h.reserved0, h.scopeId.toList, putU32 h.objectCatalogFingerprintRef,
    putU32 h.schemaFingerprintRef, putU32 h.semanticMapFingerprintRef,
    putU32 h.projectionFingerprintRef, putU64 h.sectionDirectoryOffset,
    putU64 h.sectionDirectoryLength, putU64 h.parentRefsOffset, putU64 h.parentRefsLength,
    putI64 h.createdAtUs, putI64 h.sourcePublishRangeStartUs, putI64 h.sourcePublishRangeEndUs].flatten

def serialize (h : CoveDeltaHeaderV1) : Bytes := sealBytes crc32c h.body

def read (bytes : Bytes) : Reader CoveDeltaHeaderV1 := do
  let magic ← takeArray 4
  refuseIf (magic ≠ magicCovedelta) .badMagic
  let versionMajor ← takeU16
  let versionMinor ← takeU16
  refuseIf (versionMajor ≠ covedeltaVersionMajorV1 ∨ versionMinor ≠ covedeltaVersionMinorV1)
    .badVersion
  let headerLen ← takeU16
  refuseIf (headerLen.toNat ≠ covedeltaHeaderLen)
    (.badSection ("COVEDELTA header_len must be 238, got " ++ toString headerLen.toNat))
  let flags ← takeU32
  let requiredDeltaFeatures ← takeU64
  let optionalDeltaFeatures ← takeU64
  let deltaArtifactId ← takeArray 16
  let datasetId ← takeArray 16
  let snapshotId ← takeArray 16
  let parentSnapshotId ← takeArray 16
  let chainOrdinal ← takeU32
  let chainDepth ← takeU32
  let parentRefCount ← takeU32
  let sectionCount ← takeU32
  let csnMin ← takeU64
  let csnMax ← takeU64
  let commitTimeRangeStartUs ← takeI64
  let commitTimeRangeEndUs ← takeI64
  let scopeKind ← takeU16
  let reserved0 ← takeU16
  refuseIf (reserved0 ≠ 0) .reservedNotZero
  let scopeId ← takeArray 16
  let objectCatalogFingerprintRef ← takeU32
  let schemaFingerprintRef ← takeU32
  let semanticMapFingerprintRef ← takeU32
  let projectionFingerprintRef ← takeU32
  let sectionDirectoryOffset ← takeU64
  let sectionDirectoryLength ← takeU64
  let parentRefsOffset ← takeU64
  let parentRefsLength ← takeU64
  let createdAtUs ← takeI64
  let sourcePublishRangeStartUs ← takeI64
  let sourcePublishRangeEndUs ← takeI64
  let checksum ← takeU32
  refuseIf (crc32c (withoutChecksum bytes 234) ≠ checksum) .checksumMismatch
  refuseIf (flags &&& deltaFlagSourcePublishRangePresent = 0 ∧
      (sourcePublishRangeStartUs ≠ 0 ∨ sourcePublishRangeEndUs ≠ 0))
    (.badSection "source publish range fields require DELTA_FLAG_SOURCE_PUBLISH_RANGE_PRESENT")
  return ⟨magic, versionMajor, versionMinor, headerLen, flags, requiredDeltaFeatures,
    optionalDeltaFeatures, deltaArtifactId, datasetId, snapshotId, parentSnapshotId,
    chainOrdinal, chainDepth, parentRefCount, sectionCount, csnMin, csnMax,
    commitTimeRangeStartUs, commitTimeRangeEndUs, scopeKind, reserved0, scopeId,
    objectCatalogFingerprintRef, schemaFingerprintRef, semanticMapFingerprintRef,
    projectionFingerprintRef, sectionDirectoryOffset, sectionDirectoryLength,
    parentRefsOffset, parentRefsLength, createdAtUs, sourcePublishRangeStartUs,
    sourcePublishRangeEndUs, checksum⟩

def parse (bytes : Bytes) : Except CoveError CoveDeltaHeaderV1 := do
  rejectIf (bytes.length < covedeltaHeaderLen) .bufferTooShort
  let bytes := bytes.take covedeltaHeaderLen
  (read crc32c bytes).run' bytes

/-- What the reader demands of the fields. -/
structure Readable (h : CoveDeltaHeaderV1) : Prop where
  magic : h.magic = magicCovedelta
  major : h.versionMajor = covedeltaVersionMajorV1
  minor : h.versionMinor = covedeltaVersionMinorV1
  headerLen : h.headerLen.toNat = covedeltaHeaderLen
  reserved0 : h.reserved0 = 0
  publishRange : h.flags &&& deltaFlagSourcePublishRangePresent = 0 →
    h.sourcePublishRangeStartUs = 0 ∧ h.sourcePublishRangeEndUs = 0

def stamped (h : CoveDeltaHeaderV1) : CoveDeltaHeaderV1 :=
  { h with checksum := sealOf crc32c h.body }

variable {crc32c} {h p : CoveDeltaHeaderV1}

@[simp] theorem body_length : h.body.length = 234 := by simp [body]

@[simp] theorem serialize_length : (h.serialize crc32c).length = covedeltaHeaderLen := by
  simp [serialize, covedeltaHeaderLen]

theorem parse_serialize_ok_iff :
    parse crc32c (h.serialize crc32c) = .ok p ↔ h.Readable ∧ h.stamped crc32c = p := by
  refine parse_sealBytes_ok_iff (by rw [body_length, covedeltaHeaderLen]) fun bytes sum q => ?_
  rw [body_length, body, read]
  simp only [flatten_cons, flatten_nil, append_assoc, nil_append,
    run_takeArray, run_takeU16, run_takeU32, run_takeU64, run_takeI64, run_refuseIf,
    andThen_eq_ok_iff, rejectIf_eq_ok_iff, exists_const, run_pure_ok_iff, not_not, not_or, not_and]
  constructor
  · rintro ⟨hmagic, ⟨hmajor, hminor⟩, hlen, hreserved, hsum, hrange, hq⟩
    exact ⟨⟨hmagic, hmajor, hminor, hlen, hreserved, hrange⟩, hsum, hq⟩
  · rintro ⟨hr, hsum, hq⟩
    exact ⟨hr.magic, ⟨hr.major, hr.minor⟩, hr.headerLen, hr.reserved0, hsum, hr.publishRange, hq⟩

end CoveDeltaHeaderV1

namespace DeltaParentRefV1

def body (p : DeltaParentRefV1) : Bytes :=
  [putU32 p.parentRef, putU8 p.parentKind, putU32 p.flags, p.artifactId.toList,
    p.snapshotId.toList, putU64 p.fileLen, putU32 p.footerCrc32c, putU16 p.digestAlgorithm,
    putU16 p.digestLen, putU32 p.digestRef, putU32 p.uriRef, putU32 p.schemaFingerprintRef,
    putU32 p.objectCatalogFingerprintRef, putU32 p.semanticMapFingerprintRef,
    putU32 p.projectionFingerprintRef].flatten

def serialize (p : DeltaParentRefV1) : Bytes := sealBytes crc32c p.body

def read (bytes : Bytes) : Reader DeltaParentRefV1 := do
  let parentRef ← takeU32
  let parentKind ← takeU8
  let flags ← takeU32
  let artifactId ← takeArray 16
  let snapshotId ← takeArray 16
  let fileLen ← takeU64
  let footerCrc32c ← takeU32
  let digestAlgorithm ← takeU16
  let digestLen ← takeU16
  let digestRef ← takeU32
  let uriRef ← takeU32
  let schemaFingerprintRef ← takeU32
  let objectCatalogFingerprintRef ← takeU32
  let semanticMapFingerprintRef ← takeU32
  let projectionFingerprintRef ← takeU32
  let checksum ← takeU32
  refuseIf (crc32c (withoutChecksum bytes 81) ≠ checksum) .checksumMismatch
  return ⟨parentRef, parentKind, flags, artifactId, snapshotId, fileLen, footerCrc32c,
    digestAlgorithm, digestLen, digestRef, uriRef, schemaFingerprintRef,
    objectCatalogFingerprintRef, semanticMapFingerprintRef, projectionFingerprintRef,
    checksum⟩

def parse (bytes : Bytes) : Except CoveError DeltaParentRefV1 := do
  rejectIf (bytes.length < covedeltaParentRefLen) .bufferTooShort
  let bytes := bytes.take covedeltaParentRefLen
  (read crc32c bytes).run' bytes

def stamped (p : DeltaParentRefV1) : DeltaParentRefV1 :=
  { p with checksum := sealOf crc32c p.body }

variable {crc32c} {p q : DeltaParentRefV1}

@[simp] theorem body_length : p.body.length = 81 := by simp [body]

@[simp] theorem serialize_length : (p.serialize crc32c).length = covedeltaParentRefLen := by
  simp [serialize, covedeltaParentRefLen]

theorem parse_serialize : parse crc32c (p.serialize crc32c) = .ok (p.stamped crc32c) := by
  refine parse_sealBytes (by rw [body_length, covedeltaParentRefLen]) fun bytes sum q => ?_
  rw [body_length, body, read]
  simp only [flatten_cons, flatten_nil, append_assoc, nil_append,
    run_takeArray, run_takeU8, run_takeU16, run_takeU32, run_takeU64, run_refuseIf,
    andThen_eq_ok_iff, rejectIf_eq_ok_iff, exists_const, run_pure_ok_iff, not_not]

end DeltaParentRefV1

namespace CoveDeltaSectionDirectoryEntryV1

def body (e : CoveDeltaSectionDirectoryEntryV1) : Bytes :=
  [putU32 e.sectionId, putU16 e.sectionKind, putU16 e.flags, putU64 e.offset, putU64 e.length,
    putU64 e.uncompressedLength, putU64 e.itemCount, putU8 e.compression, putU8 e.encryption,
    putU8 e.alignmentLog2, putU8 e.reserved0, putU64 e.requiredDeltaFeatures,
    putU64 e.optionalDeltaFeatures, putU32 e.crc32c].flatten

def serialize (e : CoveDeltaSectionDirectoryEntryV1) : Bytes := sealBytes crc32c e.body

def read (bytes : Bytes) : Reader CoveDeltaSectionDirectoryEntryV1 := do
  let sectionId ← takeU32
  let sectionKind ← takeU16
  let flags ← takeU16
  let offset ← takeU64
  let length ← takeU64
  let uncompressedLength ← takeU64
  let itemCount ← takeU64
  let compression ← takeU8
  let encryption ← takeU8
  refuseIf (encryption ≠ 0)
    (.badSection "COVEDELTA section encryption must be 0 in v1")
  let alignmentLog2 ← takeU8
  let reserved0 ← takeU8
  refuseIf (reserved0 ≠ 0) .reservedNotZero
  let requiredDeltaFeatures ← takeU64
  let optionalDeltaFeatures ← takeU64
  let payloadCrc ← takeU32
  let checksum ← takeU32
  refuseIf (crc32c (withoutChecksum bytes 64) ≠ checksum) .checksumMismatch
  return ⟨sectionId, sectionKind, flags, offset, length, uncompressedLength, itemCount,
    compression, encryption, alignmentLog2, reserved0, requiredDeltaFeatures,
    optionalDeltaFeatures, payloadCrc, checksum⟩

def parse (bytes : Bytes) : Except CoveError CoveDeltaSectionDirectoryEntryV1 := do
  rejectIf (bytes.length < covedeltaSectionDirectoryEntryLen) .bufferTooShort
  let bytes := bytes.take covedeltaSectionDirectoryEntryLen
  (read crc32c bytes).run' bytes

def stamped (e : CoveDeltaSectionDirectoryEntryV1) : CoveDeltaSectionDirectoryEntryV1 :=
  { e with checksum := sealOf crc32c e.body }

variable {crc32c} {e p : CoveDeltaSectionDirectoryEntryV1}

@[simp] theorem body_length : e.body.length = 64 := by simp [body]

@[simp] theorem serialize_length :
    (e.serialize crc32c).length = covedeltaSectionDirectoryEntryLen := by
  simp [serialize, covedeltaSectionDirectoryEntryLen]

theorem parse_serialize_ok_iff : parse crc32c (e.serialize crc32c) = .ok p ↔
    (e.encryption = 0 ∧ e.reserved0 = 0) ∧ e.stamped crc32c = p := by
  refine parse_sealBytes_ok_iff (by rw [body_length, covedeltaSectionDirectoryEntryLen])
    fun bytes sum q => ?_
  rw [body_length, body, read]
  simp only [flatten_cons, flatten_nil, append_assoc, nil_append,
    run_takeU8, run_takeU16, run_takeU32, run_takeU64, run_refuseIf, andThen_eq_ok_iff,
    rejectIf_eq_ok_iff, exists_const, run_pure_ok_iff, not_not, and_assoc]

end CoveDeltaSectionDirectoryEntryV1

namespace CoveDeltaFooterV1

def body (f : CoveDeltaFooterV1) : Bytes :=
  [putU64 f.headerOffset, putU64 f.headerLength, putU64 f.sectionDirectoryOffset,
    putU64 f.sectionDirectoryLength, putU32 f.sectionCount, putU32 f.parentRefCount].flatten

def footerSeal (f : CoveDeltaFooterV1) : UInt32 := crc32c (f.body ++ replicate 8 0)

def serialize (f : CoveDeltaFooterV1) : Bytes :=
  sealBytes crc32c (f.body ++ putU32 (f.footerSeal crc32c))

def read (bytes : Bytes) : Reader CoveDeltaFooterV1 := do
  let headerOffset ← takeU64
  let headerLength ← takeU64
  let sectionDirectoryOffset ← takeU64
  let sectionDirectoryLength ← takeU64
  let sectionCount ← takeU32
  let parentRefCount ← takeU32
  let footerCrc32c ← takeU32
  let checksum ← takeU32
  refuseIf (crc32c (withoutChecksum (withoutChecksum bytes 40) 44) ≠ footerCrc32c)
    .checksumMismatch
  refuseIf (crc32c (withoutChecksum bytes 44) ≠ checksum) .checksumMismatch
  return ⟨headerOffset, headerLength, sectionDirectoryOffset, sectionDirectoryLength,
    sectionCount, parentRefCount, footerCrc32c, checksum⟩

def parse (bytes : Bytes) : Except CoveError CoveDeltaFooterV1 := do
  rejectIf (bytes.length < covedeltaFooterLen) .bufferTooShort
  let bytes := bytes.take covedeltaFooterLen
  (read crc32c bytes).run' bytes

def stamped (f : CoveDeltaFooterV1) : CoveDeltaFooterV1 :=
  { f with
    footerCrc32c := f.footerSeal crc32c
    checksum := sealOf crc32c (f.body ++ putU32 (f.footerSeal crc32c)) }

variable {crc32c} {f : CoveDeltaFooterV1}

@[simp] theorem body_length : f.body.length = 40 := by simp [body]

@[simp] theorem serialize_length : (f.serialize crc32c).length = covedeltaFooterLen := by
  simp [serialize, covedeltaFooterLen]

theorem footerSeal_serialize :
    crc32c (withoutChecksum (withoutChecksum (f.serialize crc32c) 40) 44) = f.footerSeal crc32c := by
  have hfirst : withoutChecksum (f.serialize crc32c) 40 = f.body ++ replicate 4 0 ++
        putU32 (sealOf crc32c (f.body ++ putU32 (f.footerSeal crc32c))) := by
    rw [withoutChecksum, serialize, sealBytes, drop_left' (by simp), append_assoc f.body,
      take_left' body_length]
  rw [hfirst, withoutChecksum, take_left' (by simp), drop_of_length_le (by simp),
    append_nil, append_assoc, footerSeal, replicate_append_replicate]

theorem parse_serialize : parse crc32c (f.serialize crc32c) = .ok (f.stamped crc32c) := by
  have hseal : crc32c (withoutChecksum (f.serialize crc32c) 44) =
      sealOf crc32c (f.body ++ putU32 (f.footerSeal crc32c)) := crc32c_sealBytes (by simp)
  have hbytes : f.serialize crc32c = f.body ++ (putU32 (f.footerSeal crc32c) ++
      (putU32 (sealOf crc32c (f.body ++ putU32 (f.footerSeal crc32c))) ++ [])) := by
    rw [serialize, sealBytes, append_nil, append_assoc]
  have hfooter := @footerSeal_serialize crc32c f
  refine (readExact_ok_iff serialize_length).mpr ⟨[], ?_⟩
  rw [read, congrArg (StateT.run _) hbytes, body]
  simp only [flatten_cons, flatten_nil, append_assoc, nil_append,
    run_takeU32, run_takeU64, run_refuseIf, andThen_eq_ok_iff, rejectIf_eq_ok_iff, exists_const,
    run_pure_ok_iff, not_not]
  exact ⟨hfooter, hseal, rfl⟩

end CoveDeltaFooterV1

namespace CoveDeltaPostscriptV1

def body (p : CoveDeltaPostscriptV1) : Bytes :=
  [putU64 p.requiredDeltaFeatures, putU64 p.optionalDeltaFeatures, putU64 p.fileLen,
    putU64 p.footerOffset, putU64 p.footerLength].flatten

def serialize (p : CoveDeltaPostscriptV1) : Bytes := sealBytes crc32c p.body

def read (bytes : Bytes) : Reader CoveDeltaPostscriptV1 := do
  let requiredDeltaFeatures ← takeU64
  let optionalDeltaFeatures ← takeU64
  let fileLen ← takeU64
  let footerOffset ← takeU64
  let footerLength ← takeU64
  let checksum ← takeU32
  refuseIf (crc32c (withoutChecksum bytes 40) ≠ checksum) .checksumMismatch
  return ⟨requiredDeltaFeatures, optionalDeltaFeatures, fileLen, footerOffset, footerLength,
    checksum⟩

def parse (bytes : Bytes) : Except CoveError CoveDeltaPostscriptV1 := do
  rejectIf (bytes.length < covedeltaPostscriptLen) .bufferTooShort
  let bytes := bytes.take covedeltaPostscriptLen
  (read crc32c bytes).run' bytes

def stamped (p : CoveDeltaPostscriptV1) : CoveDeltaPostscriptV1 :=
  { p with checksum := sealOf crc32c p.body }

variable {crc32c} {p : CoveDeltaPostscriptV1}

@[simp] theorem body_length : p.body.length = 40 := by simp [body]

@[simp] theorem serialize_length : (p.serialize crc32c).length = covedeltaPostscriptLen := by
  simp [serialize, covedeltaPostscriptLen]

theorem parse_serialize : parse crc32c (p.serialize crc32c) = .ok (p.stamped crc32c) := by
  refine parse_sealBytes (by rw [body_length, covedeltaPostscriptLen]) fun bytes sum q => ?_
  rw [body_length, body, read]
  simp only [flatten_cons, flatten_nil, append_assoc, nil_append,
    run_takeU32, run_takeU64, run_refuseIf, andThen_eq_ok_iff, rejectIf_eq_ok_iff, exists_const,
    run_pure_ok_iff, not_not]

end CoveDeltaPostscriptV1

end CoveFormat.DeltaWire
