import CoveFormat.DeltaFileBytes
import CoveFormat.ManifestPaths

namespace CoveFormat.ManifestBytes

open ByteCodes ExceptRules FixedFields TakeReaders
open List hiding Vector
open DeltaFileBytes (slice)

def magicCovm : Vector UInt8 4 := ⟨#[67, 86, 77, 50], rfl⟩

def covmHeaderLen : Nat := 82
def covmPostscriptLen : Nat := 48
def covmPostscriptVersionV1 : UInt16 := 2
def covmPostscriptTailSize : Nat := 8

/-- `as_bytes` of a string. -/
def asBytes (text : String) : Bytes := text.toByteArray.data.toList

/-- `str::from_utf8`. -/
def fromUtf8 (bytes : Bytes) : Option String := String.fromUTF8? ⟨bytes.toArray⟩

theorem fromUtf8_eq_some_iff {bytes : Bytes} {text : String} :
    fromUtf8 bytes = some text ↔ asBytes text = bytes := by
  rw [fromUtf8, String.fromUTF8?, asBytes]
  constructor
  · intro h
    split at h
    · cases h
      rfl
    · cases h
  · rintro rfl
    rw [dif_pos text.isValidUTF8]
    rfl

structure CovmHeaderV1 where
  magic : Vector UInt8 4
  (headerLen versionMajor versionMinor : UInt16)
  flags : UInt32
  datasetId : Vector UInt8 16
  (tableCount fileCount : UInt32)
  createdAtUs : Int64
  reserved : Vector UInt8 32
  checksum : UInt32

structure CovmFileEntryV1 where
  fileId : Vector UInt8 16
  uri : String
  fileLen : UInt64
  footerCrc32c : UInt32
  digestAlgorithm : UInt16
  digest : Bytes
  rowCount : UInt64
  (segmentCount fileStatsRef fileExactSetRef flags : UInt32)

structure CovmPostscriptV1 where
  (headerOffset headerLen entriesOffset entriesLen fileLen : UInt64)
  (flags checksum : UInt32)

structure CovmFile where
  header : CovmHeaderV1
  files : List CovmFileEntryV1
  postscript : CovmPostscriptV1

-- The CRC32C of the checksum package.
variable (crc32c : Bytes → UInt32)

namespace CovmHeaderV1

def body (h : CovmHeaderV1) : Bytes :=
  h.magic.toList ++ (putU16 h.headerLen ++ (putU16 h.versionMajor ++ (putU16 h.versionMinor ++
    (putU32 h.flags ++ (h.datasetId.toList ++ (putU32 h.tableCount ++ (putU32 h.fileCount ++
      (putI64 h.createdAtUs ++ h.reserved.toList))))))))

def serialize (h : CovmHeaderV1) : Bytes := sealBytes crc32c h.body

theorem serialize_length (h : CovmHeaderV1) : (h.serialize crc32c).length = covmHeaderLen := by
  simp [serialize, body, covmHeaderLen]

end CovmHeaderV1

def CovmFileEntryV1.serialize (e : CovmFileEntryV1) : Except CoveError Bytes := do
  rejectIf (65535 < (asBytes e.uri).length) (.badSection "COVM uri_len exceeds u16::MAX")
  rejectIf (65535 < e.digest.length) (.badSection "COVM digest_len exceeds u16::MAX")
  .ok (e.fileId.toList ++ (putU16 (UInt16.ofNat (asBytes e.uri).length) ++ (asBytes e.uri ++
    (putU64 e.fileLen ++ (putU32 e.footerCrc32c ++ (putU16 e.digestAlgorithm ++
      (putU16 (UInt16.ofNat e.digest.length) ++ (e.digest ++ (putU64 e.rowCount ++
        (putU32 e.segmentCount ++ (putU32 e.fileStatsRef ++ (putU32 e.fileExactSetRef ++
          putU32 e.flags))))))))))))

namespace CovmPostscriptV1

def body (p : CovmPostscriptV1) : Bytes :=
  putU64 p.headerOffset ++ (putU64 p.headerLen ++ (putU64 p.entriesOffset ++
    (putU64 p.entriesLen ++ (putU64 p.fileLen ++ putU32 p.flags))))

def serialize (p : CovmPostscriptV1) : Bytes := sealBytes crc32c p.body

def tailEnd : Bytes :=
  putU16 covmPostscriptVersionV1 ++ (putU16 (UInt16.ofNat covmPostscriptLen) ++ magicCovm.toList)

section

variable (p : CovmPostscriptV1)

def serializeTail : Bytes := p.serialize crc32c ++ tailEnd

theorem serialize_length : (p.serialize crc32c).length = covmPostscriptLen := by
  simp [serialize, body, covmPostscriptLen]

theorem serializeTail_length :
    (p.serializeTail crc32c).length = covmPostscriptLen + covmPostscriptTailSize := by
  rfl

end

/-- The fields of the payload, the checksum taken over the given bytes. -/
def read (bytes : Bytes) : Reader CovmPostscriptV1 := do
  let headerOffset ← takeU64
  let headerLen ← takeU64
  let entriesOffset ← takeU64
  let entriesLen ← takeU64
  let fileLen ← takeU64
  let flags ← takeU32
  let checksumField ← takeU32
  refuseIf (crc32c (withoutChecksum bytes 44) ≠ checksumField) .checksumMismatch
  return {
    headerOffset := headerOffset
    headerLen := headerLen
    entriesOffset := entriesOffset
    entriesLen := entriesLen
    fileLen := fileLen
    flags := flags
    checksum := checksumField }

def parseFromTail (fileData : Bytes) : Except CoveError CovmPostscriptV1 := do
  rejectIf (fileData.length < covmPostscriptLen + covmPostscriptTailSize) .bufferTooShort
  let tail := fileData.drop (fileData.length - (covmPostscriptLen + covmPostscriptTailSize))
  let version := readU16 tail covmPostscriptLen
  let len := readU16 tail (covmPostscriptLen + 2)
  rejectIf (slice tail (covmPostscriptLen + 4) (covmPostscriptLen + 8) ≠ magicCovm.toList) .badMagic
  rejectIf (version ≠ covmPostscriptVersionV1) .badVersion
  rejectIf (len.toNat ≠ covmPostscriptLen) (.badSection
    ("COVM postscript_len must be 48, got " ++ toString len.toNat))
  let payload := tail.take covmPostscriptLen
  (read crc32c payload).run' payload

def sealed (p : CovmPostscriptV1) : CovmPostscriptV1 := { p with checksum := sealOf crc32c p.body }

theorem read_serialize (p : CovmPostscriptV1) :
    (read crc32c (p.serialize crc32c)).run' (p.serialize crc32c) = .ok (p.sealed crc32c) := by
  have hcrc := @crc32c_sealBytes crc32c p.body 44 (by simp [body])
  have hrun : ∀ bytes, (read crc32c bytes).run (p.body ++ (putU32 (sealOf crc32c p.body) ++ [])) =
      .ok (p.sealed crc32c, []) ↔ crc32c (withoutChecksum bytes 44) = sealOf crc32c p.body := by
    intro bytes
    rw [body, read]
    simp only [append_assoc, run_takeU32, run_takeU64, run_refuseIf, andThen_eq_ok_iff,
      rejectIf_eq_ok_iff, exists_const, run_pure_ok_iff, not_not, sealed, body, and_true]
  rw [run'_eq_ok_iff]
  exact ⟨[], by rw [← (hrun _).mpr hcrc, append_nil, serialize, sealBytes]⟩

theorem readU16_tailEnd (at_ : Nat) (p : CovmPostscriptV1) :
    readU16 (p.serializeTail crc32c) (covmPostscriptLen + at_) = readU16 tailEnd at_ := by
  rw [serializeTail, readU16, ← p.serialize_length crc32c, readUint_append_right, readU16]

theorem slice_tailEnd (p : CovmPostscriptV1) :
    slice (p.serializeTail crc32c) (covmPostscriptLen + 4) (covmPostscriptLen + 8) =
      magicCovm.toList := by
  rfl

theorem parseFromTail_append (before : Bytes) (p : CovmPostscriptV1) :
    parseFromTail crc32c (before ++ p.serializeTail crc32c) = .ok (p.sealed crc32c) := by
  have hlen : (before ++ p.serializeTail crc32c).length =
      before.length + (covmPostscriptLen + covmPostscriptTailSize) := by
    rw [length_append, serializeTail_length]
  have htail : (before ++ p.serializeTail crc32c).drop before.length = p.serializeTail crc32c :=
    drop_left
  have hpayload : (p.serializeTail crc32c).take covmPostscriptLen = p.serialize crc32c := by
    rw [serializeTail, take_left' (p.serialize_length crc32c)]
  have hversion : readU16 (p.serializeTail crc32c) covmPostscriptLen = covmPostscriptVersionV1 :=
    (readU16_tailEnd crc32c 0 p).trans (by decide)
  have hpslen : readU16 (p.serializeTail crc32c) (covmPostscriptLen + 2) =
      UInt16.ofNat covmPostscriptLen := (readU16_tailEnd crc32c 2 p).trans (by decide)
  rw [parseFromTail, hlen, Nat.add_sub_cancel, htail]
  simp only [hversion, hpslen, slice_tailEnd, hpayload, read_serialize]
  rfl

end CovmPostscriptV1

namespace CovmFile

variable (f : CovmFile)

def entriesBytes : Except CoveError Bytes := do
  return (← f.files.mapM CovmFileEntryV1.serialize).flatten

def serializeWithExtensionRegion (extensionRegion : Bytes) :
    Except CoveError Bytes := do
  rejectIf (2 ^ 32 ≤ f.files.length) (.badSection "too many COVM file entries")
  let header := { f.header with fileCount := UInt32.ofNat f.files.length }
  let entriesBytes ← f.entriesBytes
  let fileLen := covmHeaderLen + entriesBytes.length + extensionRegion.length +
    (covmPostscriptLen + covmPostscriptTailSize)
  rejectIf (2 ^ 64 ≤ fileLen) .arithOverflow
  let postscript : CovmPostscriptV1 := {
    headerOffset := 0
    headerLen := UInt64.ofNat covmHeaderLen
    entriesOffset := UInt64.ofNat covmHeaderLen
    entriesLen := UInt64.ofNat entriesBytes.length
    fileLen := UInt64.ofNat fileLen
    flags := f.postscript.flags
    checksum := 0 }
  .ok (header.serialize crc32c ++ (entriesBytes ++
    (extensionRegion ++ postscript.serializeTail crc32c)))

end CovmFile

def covmExtensionRegion (fileData : Bytes) (postscript : CovmPostscriptV1) :
    Except CoveError Bytes := do
  let entriesEnd := postscript.entriesOffset.toNat + postscript.entriesLen.toNat
  rejectIf (2 ^ 64 ≤ entriesEnd) .arithOverflow
  rejectIf (fileData.length < covmPostscriptLen + covmPostscriptTailSize) .bufferTooShort
  let postscriptStart := fileData.length - (covmPostscriptLen + covmPostscriptTailSize)
  rejectIf (postscriptStart < entriesEnd) .offsetRange
  .ok (slice fileData entriesEnd postscriptStart)

theorem covmExtensionRegion_serialize {f : CovmFile} {extensionRegion bytes : Bytes}
    (h : f.serializeWithExtensionRegion crc32c extensionRegion = .ok bytes) :
    ∃ postscript, CovmPostscriptV1.parseFromTail crc32c bytes = .ok postscript ∧
      covmExtensionRegion bytes postscript = .ok extensionRegion := by
  replace h := rest_ok h
  obtain ⟨entries, -, h⟩ := of_andThen h
  obtain ⟨hfits, h⟩ := of_check h
  have hfits := of_rejectIf hfits
  have hbytes := Except.ok.inj h
  generalize hp : CovmPostscriptV1.mk _ _ _ _ _ _ _ = postscript at hbytes
  generalize hh : CovmHeaderV1.serialize crc32c _ = header at hbytes
  have hheader : header.length = covmHeaderLen := by rw [← hh, CovmHeaderV1.serialize_length]
  have hoffset : postscript.entriesOffset.toNat = covmHeaderLen := by
    rw [← hp]
    rfl
  have hlen : postscript.entriesLen.toNat = entries.length := by
    rw [← hp, UInt64.toNat_ofNat_of_lt' (show entries.length < 2 ^ 64 by omega)]
  rw [← append_assoc, ← append_assoc] at hbytes
  refine ⟨postscript.sealed crc32c, ?_, ?_⟩
  · rw [← hbytes, CovmPostscriptV1.parseFromTail_append]
  · have hstart : bytes.length - (covmPostscriptLen + covmPostscriptTailSize) =
        (header ++ entries ++ extensionRegion).length := by
      rw [← hbytes, length_append, CovmPostscriptV1.serializeTail_length, Nat.add_sub_cancel]
    have hend : (postscript.sealed crc32c).entriesOffset.toNat +
        (postscript.sealed crc32c).entriesLen.toNat = (header ++ entries).length := by
      rw [CovmPostscriptV1.sealed, hoffset, hlen, length_append, hheader]
    have hslice : slice bytes (header ++ entries).length
        (header ++ entries ++ extensionRegion).length = extensionRegion := by
      rw [slice, ← hbytes, append_assoc (header ++ entries), drop_left,
        @length_append _ _ extensionRegion, Nat.add_sub_cancel_left, take_left]
    have htail : covmPostscriptLen + covmPostscriptTailSize ≤ bytes.length := by
      rw [← hbytes, length_append, CovmPostscriptV1.serializeTail_length]
      omega
    have hshort : ¬ 2 ^ 64 ≤ (header ++ entries).length := by
      rw [length_append, hheader]
      omega
    have horder : ¬ (header ++ entries ++ extensionRegion).length < (header ++ entries).length := by
      rw [@length_append _ _ extensionRegion]
      omega
    rw [covmExtensionRegion, hend, hstart]
    simp only [hslice, rejectIf, if_neg hshort, if_neg horder, if_neg (by omega :
      ¬ bytes.length < covmPostscriptLen + covmPostscriptTailSize)]
    rfl

end CoveFormat.ManifestBytes
