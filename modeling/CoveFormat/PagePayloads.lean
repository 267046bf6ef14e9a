import CoveFormat.CoveTypes
import CoveFormat.TakeReaders

namespace CoveFormat.PagePayloads

open ByteCodes CheckedArith Except ExceptRules FixedFields TakeReaders
open List hiding Vector
open CoveTypes (CoveLogicalType CovePhysicalKind)

def columnPagePayloadMagic : Vector UInt8 4 := ⟨#[67, 80, 71, 50], rfl⟩
def columnPagePayloadVersionMajor : UInt16 := 2
def columnPagePayloadHeaderLen : Nat := 36
def coveEncodingNodeLen : Nat := 30
def pageBufferDescriptorLen : Nat := 32

inductive CoveEncodingKind
  | canonical
  | validity
  | constant
  | fileCode
  | numCode
  | localCodebook
  | rle
  | runEnd
  | bitPacked
  | delta
  | frameOfReference
  | patchedBase
  | sparse
  | sequence
  | plainFixed
  | plainVarint
  | varBytes
  | lz4Block
  | zstdBlock
  | registeredEncoding
  deriving DecidableEq

inductive PageBufferKind
  | nullBitmap
  | values
  | offsets
  | childLayout
  | other
  deriving DecidableEq

section

open CoveEncodingKind PageBufferKind

def encodingKinds : List CoveEncodingKind :=
  [canonical, validity, constant, fileCode, numCode, localCodebook, rle, runEnd, bitPacked, delta,
    frameOfReference, patchedBase, sparse, sequence, plainFixed, plainVarint, varBytes, lz4Block,
    zstdBlock, registeredEncoding]

/-- `CoveEncodingKind::from_u16`; the kinds are numbered in their order. -/
def encodingKindFromU16 (v : UInt16) : Option CoveEncodingKind := encodingKinds[v.toNat]?

/-- `kind as u16`. -/
def encodingKindCode (kind : CoveEncodingKind) : UInt16 := UInt16.ofNat kind.ctorIdx

def logicalTypeCode (logical : CoveLogicalType) : UInt16 := UInt16.ofNat logical.ctorIdx

def physicalKindFromU8 (v : UInt8) : Option CovePhysicalKind :=
  [CovePhysicalKind.fileCode, .numCode, .boolean, .fixedBytes, .varBytes, .list, .struct,
    .map][v.toNat]?

def physicalKindCode (physical : CovePhysicalKind) : UInt8 := UInt8.ofNat physical.ctorIdx

def bufferKindFromU16 (v : UInt16) : Option PageBufferKind :=
  if v = 255 then some other else [nullBitmap, values, offsets, childLayout][v.toNat]?

def bufferKindCode : PageBufferKind → UInt16
  | .nullBitmap => 0
  | .values => 1
  | .offsets => 2
  | .childLayout => 3
  | .other => 255

theorem encodingKindFromU16_code (kind : CoveEncodingKind) :
    encodingKindFromU16 (encodingKindCode kind) = some kind := by
  cases kind <;> rfl

theorem logicalTypeFromU16_code (logical : CoveLogicalType) :
    CoveLogicalType.fromU16 (logicalTypeCode logical).toNat = some logical := by
  cases logical <;> rfl

theorem physicalKindFromU8_code (physical : CovePhysicalKind) :
    physicalKindFromU8 (physicalKindCode physical) = some physical := by
  cases physical <;> rfl

theorem logicalTypeCode_inj {logical logical' : CoveLogicalType}
    (h : logicalTypeCode logical = logicalTypeCode logical') : logical = logical' := by
  have hread := logicalTypeFromU16_code logical
  rw [h, logicalTypeFromU16_code] at hread
  exact (Option.some.inj hread).symm

theorem physicalKindCode_inj {physical physical' : CovePhysicalKind}
    (h : physicalKindCode physical = physicalKindCode physical') : physical = physical' := by
  have hread := physicalKindFromU8_code physical
  rw [h, physicalKindFromU8_code] at hread
  exact (Option.some.inj hread).symm

theorem bufferKindFromU16_code (kind : PageBufferKind) :
    bufferKindFromU16 (bufferKindCode kind) = some kind := by
  cases kind <;> rfl

end

/-- `ok_or`. -/
def orError {α : Type} (e : CoveError) : Option α → Except CoveError α
  | some value => .ok value
  | none => .error e

variable {α : Type} {e : CoveError}

theorem orError_ok_iff {found : Option α} {value : α} :
    orError e found = .ok value ↔ found = some value := by
  cases found <;> simp [orError]

/-- `ok_or` between two reads. -/
def foundOr {α : Type} (e : CoveError) (found : Option α) : Reader α := StateT.lift (orError e found)

theorem run_foundOr_some {β : Type} {x : α} {f : α → Reader β} {bytes : Bytes} :
    (foundOr e (some x) >>= f).run bytes = (f x).run bytes := rfl

/-- An entry of the page index of a segment. -/
structure ColumnPageIndexEntryV1 where
  (morselId rowCount nonNullCount nullCount encodingRoot : UInt32)
  (pageOffset pageLength uncompressedLength : UInt64)
  (statsRef flags checksum : UInt32)

structure ColumnPagePayloadHeaderV1 where
  magic : Vector UInt8 4
  (versionMajor headerLen flags rootNodeId nodeCount bufferCount : UInt16)
  (rowCount nodesOffset bufferDirectoryOffset buffersOffset reserved : UInt32)
  deriving DecidableEq

structure CoveEncodingNodeV1 where
  nodeId : UInt16
  encodingKind : CoveEncodingKind
  logicalType : CoveLogicalType
  physicalKind : CovePhysicalKind
  flags : UInt8
  logicalLen : UInt32
  (childCount bufferCount : UInt16)
  (paramsOffset paramsLength statsId : UInt32)
  reserved : UInt16
  deriving DecidableEq

structure PageBufferDescriptorV1 where
  bufferId : UInt16
  kind : PageBufferKind
  flags : UInt32
  (offset length : UInt64)
  (checksum reserved : UInt32)
  deriving DecidableEq

structure ColumnPagePayloadV1 where
  header : ColumnPagePayloadHeaderV1
  nodes : List CoveEncodingNodeV1
  buffers : List PageBufferDescriptorV1
  data : Bytes
  deriving DecidableEq

namespace ColumnPagePayloadHeaderV1

def serialize (h : ColumnPagePayloadHeaderV1) : Bytes :=
  [h.magic.toList, putU16 h.versionMajor, putU16 h.headerLen, putU16 h.flags,
    putU16 h.rootNodeId, putU16 h.nodeCount, putU16 h.bufferCount, putU32 h.rowCount,
    putU32 h.nodesOffset, putU32 h.bufferDirectoryOffset, putU32 h.buffersOffset,
    putU32 h.reserved].flatten

def read : Reader ColumnPagePayloadHeaderV1 := do
  let magic ← takeArray 4
  refuseIf (magic ≠ columnPagePayloadMagic) .badMagic
  let versionMajor ← takeU16
  refuseIf (versionMajor ≠ columnPagePayloadVersionMajor) .badVersion
  let headerLen ← takeU16
  refuseIf (headerLen.toNat ≠ columnPagePayloadHeaderLen) (.badSection
    ("column page payload header_len must be 36, got " ++ toString headerLen.toNat))
  let flags ← takeU16
  refuseIf (flags ≠ 0)
    (.badSection "column page payload flags are reserved and must be zero")
  let rootNodeId ← takeU16
  let nodeCount ← takeU16
  let bufferCount ← takeU16
  let rowCount ← takeU32
  let nodesOffset ← takeU32
  let bufferDirectoryOffset ← takeU32
  let buffersOffset ← takeU32
  let reserved ← takeU32
  refuseIf (reserved ≠ 0) .reservedNotZero
  return ⟨magic, versionMajor, headerLen, flags, rootNodeId, nodeCount, bufferCount, rowCount,
    nodesOffset, bufferDirectoryOffset, buffersOffset, reserved⟩

def parse (bytes : Bytes) : Except CoveError ColumnPagePayloadHeaderV1 := do
  rejectIf (bytes.length < columnPagePayloadHeaderLen) .bufferTooShort
  let bytes := bytes.take columnPagePayloadHeaderLen
  read.run' bytes

variable {h : ColumnPagePayloadHeaderV1}

@[simp] theorem serialize_length : h.serialize.length = columnPagePayloadHeaderLen := by
  simp [serialize, columnPagePayloadHeaderLen]

theorem parse_serialize (hmagic : h.magic = columnPagePayloadMagic)
    (hversion : h.versionMajor = columnPagePayloadVersionMajor)
    (hlen : h.headerLen.toNat = columnPagePayloadHeaderLen) (hflags : h.flags = 0)
    (hreserved : h.reserved = 0) (rest : Bytes) : parse (h.serialize ++ rest) = .ok h := by
  have hshort : ¬ (h.serialize ++ rest).length < columnPagePayloadHeaderLen := by
    rw [length_append, serialize_length]
    omega
  rw [parse, rejectIf, if_neg hshort, take_left' serialize_length]
  refine run'_eq_ok_iff.mpr ⟨[], ?_⟩
  rw [serialize, read]
  simp only [flatten_cons, flatten_nil, run_takeArray, run_takeU16, run_takeU32,
    run_refuseIf, andThen_eq_ok_iff, rejectIf_eq_ok_iff, exists_const, run_pure_ok_iff, not_not]
  exact ⟨hmagic, hversion, hlen, hflags, hreserved, trivial⟩

end ColumnPagePayloadHeaderV1

namespace CoveEncodingNodeV1

def serialize (n : CoveEncodingNodeV1) : Bytes :=
  [putU16 n.nodeId, putU16 (encodingKindCode n.encodingKind), putU16 (logicalTypeCode n.logicalType),
    putU8 (physicalKindCode n.physicalKind), putU8 n.flags, putU32 n.logicalLen,
    putU16 n.childCount, putU16 n.bufferCount, putU32 n.paramsOffset, putU32 n.paramsLength,
    putU32 n.statsId, putU16 n.reserved].flatten

def read : Reader CoveEncodingNodeV1 := do
  let nodeId ← takeU16
  let encodingRaw ← takeU16
  let logicalRaw ← takeU16
  let physicalRaw ← takeU8
  let flags ← takeU8
  let logicalLen ← takeU32
  let childCount ← takeU16
  let bufferCount ← takeU16
  let paramsOffset ← takeU32
  let paramsLength ← takeU32
  let statsId ← takeU32
  let reserved ← takeU16
  let encodingKind ← foundOr (.unsupportedEncoding
    ("unknown encoding kind " ++ toString encodingRaw.toNat)) (encodingKindFromU16 encodingRaw)
  let logicalType ← foundOr (.badSchema
    ("unknown logical type " ++ toString logicalRaw.toNat))
      (CoveLogicalType.fromU16 logicalRaw.toNat)
  let physicalKind ← foundOr (.badSchema
    ("unknown physical kind " ++ toString physicalRaw.toNat)) (physicalKindFromU8 physicalRaw)
  refuseIf (reserved ≠ 0) .reservedNotZero
  return ⟨nodeId, encodingKind, logicalType, physicalKind, flags, logicalLen, childCount,
    bufferCount, paramsOffset, paramsLength, statsId, reserved⟩

def parse (bytes : Bytes) : Except CoveError CoveEncodingNodeV1 := do
  rejectIf (bytes.length < coveEncodingNodeLen) .bufferTooShort
  let bytes := bytes.take coveEncodingNodeLen
  read.run' bytes

variable {n : CoveEncodingNodeV1}

@[simp] theorem serialize_length : n.serialize.length = coveEncodingNodeLen := by
  simp [serialize, coveEncodingNodeLen]

theorem parse_serialize (h : n.reserved = 0) : parse n.serialize = .ok n := by
  have hshort : ¬ n.serialize.length < coveEncodingNodeLen := by simp
  rw [parse, rejectIf, if_neg hshort, take_of_length_le serialize_length.le]
  refine andThen_ok rfl (run'_eq_ok_iff.mpr ⟨[], ?_⟩)
  rw [serialize, read]
  simp only [flatten_cons, flatten_nil, run_takeU8, run_takeU16, run_takeU32,
    encodingKindFromU16_code, logicalTypeFromU16_code, physicalKindFromU8_code, run_foundOr_some,
    run_refuseIf, andThen_eq_ok_iff, rejectIf_eq_ok_iff, exists_const, run_pure_ok_iff, not_not]
  exact ⟨h, trivial⟩

end CoveEncodingNodeV1

namespace PageBufferDescriptorV1

def serialize (d : PageBufferDescriptorV1) : Bytes :=
  [putU16 d.bufferId, putU16 (bufferKindCode d.kind), putU32 d.flags, putU64 d.offset,
    putU64 d.length, putU32 d.checksum, putU32 d.reserved].flatten

def read : Reader PageBufferDescriptorV1 := do
  let bufferId ← takeU16
  let kindRaw ← takeU16
  let kind ← foundOr (.badSection
    ("unknown page buffer kind " ++ toString kindRaw.toNat)) (bufferKindFromU16 kindRaw)
  let flags ← takeU32
  refuseIf (flags ≠ 0) (.badSection "page buffer flags are reserved and must be zero")
  let offset ← takeU64
  let length ← takeU64
  let checksum ← takeU32
  let reserved ← takeU32
  refuseIf (reserved ≠ 0) .reservedNotZero
  return ⟨bufferId, kind, flags, offset, length, checksum, reserved⟩

def parse (bytes : Bytes) : Except CoveError PageBufferDescriptorV1 := do
  rejectIf (bytes.length < pageBufferDescriptorLen) .bufferTooShort
  let bytes := bytes.take pageBufferDescriptorLen
  read.run' bytes

variable {d : PageBufferDescriptorV1}

@[simp] theorem serialize_length : d.serialize.length = pageBufferDescriptorLen := by
  simp [serialize, pageBufferDescriptorLen]

theorem parse_serialize (hflags : d.flags = 0) (hreserved : d.reserved = 0) :
    parse d.serialize = .ok d := by
  have hshort : ¬ d.serialize.length < pageBufferDescriptorLen := by simp
  rw [parse, rejectIf, if_neg hshort, take_of_length_le serialize_length.le]
  refine andThen_ok rfl (run'_eq_ok_iff.mpr ⟨[], ?_⟩)
  rw [serialize, read]
  simp only [flatten_cons, flatten_nil, run_takeU16, run_takeU32, run_takeU64,
    bufferKindFromU16_code, run_foundOr_some, run_refuseIf, andThen_eq_ok_iff, rejectIf_eq_ok_iff,
    exists_const, run_pure_ok_iff, not_not]
  exact ⟨hflags, hreserved, trivial⟩

end PageBufferDescriptorV1

namespace ColumnPagePayloadV1

-- The CRC32C of the checksum package.
variable (crc32c : Bytes → UInt32)

/-- `data[start..end]`. -/
def slice (bytes : Bytes) (start stop : Nat) : Bytes := (bytes.drop start).take (stop - start)

def parseNodes (bytes : Bytes) : Nat → Nat → Except CoveError (List CoveEncodingNodeV1)
  | 0, _ => .ok []
  | count + 1, pos => do
      let node ← CoveEncodingNodeV1.parse (slice bytes pos (pos + coveEncodingNodeLen))
      let nodes ← parseNodes bytes count (pos + coveEncodingNodeLen)
      .ok (node :: nodes)

def findRoot (nodes : List CoveEncodingNodeV1) (rootNodeId : UInt16) :
    Except CoveError CoveEncodingNodeV1 :=
  match nodes.filter fun node => node.nodeId = rootNodeId with
  | [root] => .ok root
  | _ => .error .pageCorrupt

def parseBuffers (bytes : Bytes) (buffersOffset : Nat) :
    Nat → Nat → Nat → Nat → Except CoveError (List PageBufferDescriptorV1 × Nat)
  | 0, _, _, previousEnd => .ok ([], previousEnd)
  | count + 1, expectedId, pos, previousEnd => do
      let descriptor ← PageBufferDescriptorV1.parse
        (slice bytes pos (pos + pageBufferDescriptorLen))
      rejectIf (descriptor.bufferId.toNat ≠ expectedId) .pageCorrupt
      rejectIf (descriptor.offset.toNat < buffersOffset ∨ descriptor.offset.toNat < previousEnd)
        .pageCorrupt
      let finish ← checkedAdd descriptor.offset.toNat descriptor.length.toNat
      rejectIf (bytes.length < finish) .offsetRange
      rejectIf (crc32c (slice bytes descriptor.offset.toNat finish) ≠ descriptor.checksum)
        .checksumMismatch
      let rest ← parseBuffers bytes buffersOffset count (expectedId + 1)
        (pos + pageBufferDescriptorLen) finish
      .ok (descriptor :: rest.1, rest.2)

/-- `parse_column_page_payload_parts`, with the checksums of the buffers verified. -/
def parse (bytes : Bytes) : Except CoveError ColumnPagePayloadV1 := do
  let header ← ColumnPagePayloadHeaderV1.parse bytes
  let nodesOffset := header.nodesOffset.toNat
  let bufferDirectoryOffset := header.bufferDirectoryOffset.toNat
  let buffersOffset := header.buffersOffset.toNat
  rejectIf (nodesOffset ≠ columnPagePayloadHeaderLen ∨ bufferDirectoryOffset < nodesOffset ∨
    buffersOffset < bufferDirectoryOffset ∨ bytes.length < buffersOffset) .pageCorrupt
  rejectIf (bufferDirectoryOffset ≠ nodesOffset + header.nodeCount.toNat * coveEncodingNodeLen)
    .pageCorrupt
  rejectIf (buffersOffset ≠
    bufferDirectoryOffset + header.bufferCount.toNat * pageBufferDescriptorLen) .pageCorrupt
  rejectIf (header.nodeCount = 0) .pageCorrupt
  let nodes ← parseNodes bytes header.nodeCount.toNat nodesOffset
  rejectIf (¬ (nodes.map CoveEncodingNodeV1.nodeId).Nodup) .pageCorrupt
  let root ← findRoot nodes header.rootNodeId
  rejectIf (root.logicalLen ≠ header.rowCount) .pageCorrupt
  let buffers ← parseBuffers crc32c bytes buffersOffset header.bufferCount.toNat 0
    bufferDirectoryOffset buffersOffset
  rejectIf (buffers.2 ≠ bytes.length) .pageCorrupt
  .ok ⟨header, nodes, buffers.1, bytes⟩

def rootNode (p : ColumnPagePayloadV1) : Except CoveError CoveEncodingNodeV1 :=
  findRoot p.nodes p.header.rootNodeId

def bufferBytes (p : ColumnPagePayloadV1) (kind : PageBufferKind) :
    Except CoveError (Option Bytes) :=
  match p.buffers.find? fun buffer => buffer.kind = kind with
  | none => .ok none
  | some buffer => do
      let finish ← checkedAdd buffer.offset.toNat buffer.length.toNat
      .ok (some (slice p.data buffer.offset.toNat finish))

def describe : Nat → Nat → List (PageBufferKind × Bytes) → List PageBufferDescriptorV1
  | _, _, [] => []
  | bufferId, offset, (kind, bytes) :: buffers =>
    ⟨UInt16.ofNat bufferId, kind, 0, UInt64.ofNat offset, UInt64.ofNat bytes.length,
      crc32c bytes, 0⟩ :: describe (bufferId + 1) (offset + bytes.length) buffers

/-- The buffers of a page with one node; an empty buffer of values is left out. -/
def singleNodeBuffers (nullBitmap : Option Bytes) (values : Bytes) :
    List (PageBufferKind × Bytes) :=
  (nullBitmap.map fun bitmap => (PageBufferKind.nullBitmap, bitmap)).toList ++
    if values.isEmpty then [] else [(.values, values)]

def singleNodeHeader (rowCount : UInt32) (bufferCount : Nat) : ColumnPagePayloadHeaderV1 where
  magic := columnPagePayloadMagic
  versionMajor := columnPagePayloadVersionMajor
  headerLen := UInt16.ofNat columnPagePayloadHeaderLen
  flags := 0
  rootNodeId := 0
  nodeCount := 1
  bufferCount := UInt16.ofNat bufferCount
  rowCount := rowCount
  nodesOffset := UInt32.ofNat columnPagePayloadHeaderLen
  bufferDirectoryOffset := UInt32.ofNat (columnPagePayloadHeaderLen + coveEncodingNodeLen)
  buffersOffset := UInt32.ofNat
    (columnPagePayloadHeaderLen + coveEncodingNodeLen + bufferCount * pageBufferDescriptorLen)
  reserved := 0

def singleNode (rowCount : UInt32) (encodingKind : CoveEncodingKind)
    (logicalType : CoveLogicalType) (physicalKind : CovePhysicalKind) (bufferCount : Nat) :
    CoveEncodingNodeV1 where
  nodeId := 0
  encodingKind := encodingKind
  logicalType := logicalType
  physicalKind := physicalKind
  flags := 0
  logicalLen := rowCount
  childCount := 0
  bufferCount := UInt16.ofNat bufferCount
  paramsOffset := 0
  paramsLength := 0
  statsId := 0
  reserved := 0

def singleNodeBytes (rowCount : UInt32) (encodingKind : CoveEncodingKind)
    (logicalType : CoveLogicalType) (physicalKind : CovePhysicalKind)
    (buffers : List (PageBufferKind × Bytes)) : Bytes :=
  (singleNodeHeader rowCount buffers.length).serialize ++
    (singleNode rowCount encodingKind logicalType physicalKind buffers.length).serialize ++
    (describe crc32c 0 (columnPagePayloadHeaderLen + coveEncodingNodeLen +
      buffers.length * pageBufferDescriptorLen) buffers).flatMap PageBufferDescriptorV1.serialize ++
    buffers.flatMap Prod.snd

def buildSingleNode (rowCount : UInt32) (encodingKind : CoveEncodingKind)
    (logicalType : CoveLogicalType) (physicalKind : CovePhysicalKind)
    (nullBitmap : Option Bytes) (values : Bytes) : Except CoveError Bytes := do
  let out := singleNodeBytes crc32c rowCount encodingKind logicalType physicalKind
    (singleNodeBuffers nullBitmap values)
  let _ ← parse crc32c out
  .ok out

section

variable {crc32c} {bytes : Bytes} {buffers : List (PageBufferKind × Bytes)}
  {p : ColumnPagePayloadV1} {a b c : Bytes}

theorem slice_append (b c : Bytes) (hstart : a.length = start) (hstop : start + b.length = stop) :
    slice (a ++ b ++ c) start stop = b := by
  subst hstart hstop
  rw [slice, append_assoc, drop_left, Nat.add_sub_cancel_left, take_left]

variable {bufferId : Nat}

theorem parseBuffers_end {base count pos last : Nat} {out : List PageBufferDescriptorV1 × Nat}
    (hlast : last < 2 ^ 64) (h : parseBuffers crc32c bytes base count bufferId pos last = .ok out) :
      out.2 < 2 ^ 64 := by
  induction count generalizing bufferId pos last out with
  | zero =>
    cases h
    exact hlast
  | succ count ih =>
    obtain ⟨d, -, h⟩ := of_andThen h
    iterate 2 replace h := rest_ok h
    obtain ⟨finish, hfinish, h⟩ := of_andThen h
    iterate 2 replace h := rest_ok h
    obtain ⟨rest, hrest, h⟩ := of_andThen h
    cases h
    obtain ⟨hsum, rfl⟩ := checkedAdd_ok_iff.mp hfinish
    have hend : rest.2 < 2 ^ 64 := ih hsum hrest
    exact hend

theorem parse_length_lt (h : parse crc32c bytes = .ok p) : bytes.length < 2 ^ 64 := by
  obtain ⟨header, -, h⟩ := of_andThen h
  iterate 4 replace h := rest_ok h
  obtain ⟨nodes, -, h⟩ := of_andThen h
  replace h := rest_ok h
  obtain ⟨root, -, h⟩ := of_andThen h
  replace h := rest_ok h
  obtain ⟨read, hread, h⟩ := of_andThen h
  obtain ⟨hend, -⟩ := of_reject h
  rw [← not_not.mp hend]
  have hlt := header.buffersOffset.toNat_lt
  exact parseBuffers_end (by omega) hread

theorem length_describe (crc32c : Bytes → UInt32) (bufferId offset : Nat)
    (buffers : List (PageBufferKind × Bytes)) :
    (describe crc32c bufferId offset buffers).length = buffers.length := by
  induction buffers generalizing bufferId offset with
  | nil => rfl
  | cons b buffers ih => rw [describe, length_cons, ih, length_cons]

theorem length_flatMap_describe (crc32c : Bytes → UInt32) (bufferId offset : Nat)
    (buffers : List (PageBufferKind × Bytes)) :
    ((describe crc32c bufferId offset buffers).flatMap PageBufferDescriptorV1.serialize).length =
      buffers.length * pageBufferDescriptorLen := by
  rw [length_flatMap_const fun _ => PageBufferDescriptorV1.serialize_length, length_describe]

/-- The descriptor of the first of the buffers that a payload lays out gives its bytes. -/
theorem first_content {offset : Nat} (content : Bytes) {rest : Bytes}
    (hcontents : bytes = c ++ content ++ rest) (hoffset : c.length = offset)
    (hlen : bytes.length < 2 ^ 64) :
    offset + content.length ≤ bytes.length ∧ (UInt64.ofNat offset).toNat = offset ∧
      (UInt64.ofNat content.length).toNat = content.length ∧
      slice bytes offset (offset + content.length) = content := by
  have htotal := congrArg List.length hcontents
  simp only [length_append] at htotal
  refine ⟨by omega, UInt64.toNat_ofNat_of_lt' (show _ < 2 ^ 64 by omega),
    UInt64.toNat_ofNat_of_lt' (show _ < 2 ^ 64 by omega), ?_⟩
  rw [hcontents]
  exact slice_append _ _ hoffset rfl

theorem parseBuffers_describe {base bufferId pos offset : Nat} (hdirectory : bytes =
      a ++ (describe crc32c bufferId offset buffers).flatMap PageBufferDescriptorV1.serialize ++ b)
    (hpos : a.length = pos) (hcontents : bytes = c ++ buffers.flatMap Prod.snd)
    (hoffset : c.length = offset) (hlen : bytes.length < 2 ^ 64) (hbase : base ≤ offset)
    (hids : bufferId + buffers.length ≤ 2 ^ 16) :
    parseBuffers crc32c bytes base buffers.length bufferId pos offset =
      .ok (describe crc32c bufferId offset buffers, bytes.length) := by
  induction buffers generalizing bufferId pos offset a c with
  | nil =>
    rw [flatMap_nil, append_nil] at hcontents
    rw [length_nil, parseBuffers, describe, hcontents, hoffset]
  | cons buffer buffers ih =>
    obtain ⟨kind, content⟩ := buffer
    rw [flatMap_cons, ← append_assoc] at hcontents
    obtain ⟨hend, hstart, hlength, hcontent⟩ := first_content content hcontents hoffset hlen
    rw [length_cons] at hids
    have hid : (UInt16.ofNat bufferId).toNat = bufferId :=
      UInt16.toNat_ofNat_of_lt' (show _ < 2 ^ 16 by omega)
    rw [describe, flatMap_cons, ← append_assoc] at hdirectory
    have hrest : parseBuffers crc32c bytes base buffers.length (bufferId + 1)
        (pos + pageBufferDescriptorLen) (offset + content.length) =
        .ok (describe crc32c (bufferId + 1) (offset + content.length) buffers, bytes.length) :=
      ih hdirectory (by simp [hpos]) hcontents (by simp [hoffset]) (by omega) (by omega)
    have hslice : slice bytes pos (pos + pageBufferDescriptorLen) =
        PageBufferDescriptorV1.serialize ⟨UInt16.ofNat bufferId, kind, 0, UInt64.ofNat offset,
          UInt64.ofNat content.length, crc32c content, 0⟩ := by
      rw [hdirectory, append_assoc]
      exact slice_append _ _ hpos (by rw [PageBufferDescriptorV1.serialize_length])
    rw [length_cons, parseBuffers, hslice, PageBufferDescriptorV1.parse_serialize rfl rfl]
    refine andThen_ok rfl ?_
    refine unless_andThen hid ?_
    simp only [hstart, hlength]
    refine rejectIf_andThen (by omega) ?_
    refine andThen_ok (checkedAdd_ok_iff.mpr ⟨by omega, rfl⟩) ?_
    refine rejectIf_andThen (by omega) ?_
    rw [hcontent]
    refine unless_andThen rfl ?_
    exact andThen_ok hrest rfl

variable {header : ColumnPagePayloadHeaderV1} {offset : Nat}

theorem bufferBytes_describe {nodes : List CoveEncodingNodeV1} {kind : PageBufferKind}
    (hcontents : bytes = c ++ buffers.flatMap Prod.snd) (hoffset : c.length = offset)
    (hlen : bytes.length < 2 ^ 64) :
    bufferBytes ⟨header, nodes, describe crc32c bufferId offset buffers, bytes⟩ kind =
      .ok ((buffers.find? fun buffer => buffer.1 = kind).map Prod.snd) := by
  induction buffers generalizing bufferId offset c with
  | nil => rfl
  | cons buffer buffers ih =>
    obtain ⟨kind', content⟩ := buffer
    rw [flatMap_cons, ← append_assoc] at hcontents
    by_cases hkind : kind' = kind
    · obtain ⟨hend, hstart, hlength, hcontent⟩ := first_content content hcontents hoffset hlen
      rw [bufferBytes, describe, List.find?_cons_of_pos (by simpa using hkind),
        List.find?_cons_of_pos (by simpa using hkind)]
      simp only [hstart, hlength]
      exact andThen_ok (checkedAdd_ok_iff.mpr ⟨by omega, rfl⟩) (by rw [hcontent]; rfl)
    · have hrest := @ih (c ++ content) (bufferId + 1) (offset + content.length) hcontents
        (by simp [hoffset])
      rw [bufferBytes] at hrest ⊢
      rwa [describe, List.find?_cons_of_neg (by simpa using hkind),
        List.find?_cons_of_neg (by simpa using hkind)]

variable {rowCount : UInt32} {encodingKind : CoveEncodingKind} {logicalType : CoveLogicalType}
  {physicalKind : CovePhysicalKind} {nullBitmap : Option Bytes} {values : Bytes}

theorem front_length {node : CoveEncodingNodeV1} :
    (header.serialize ++ node.serialize ++
      (describe crc32c bufferId offset buffers).flatMap PageBufferDescriptorV1.serialize).length =
      columnPagePayloadHeaderLen + coveEncodingNodeLen +
        buffers.length * pageBufferDescriptorLen := by
  rw [length_append, length_append, length_flatMap_describe,
    ColumnPagePayloadHeaderV1.serialize_length, CoveEncodingNodeV1.serialize_length]

variable {out : Bytes}

theorem parse_singleNodeBytes (hbuffers : buffers.length ≤ 2)
    (hout : singleNodeBytes crc32c rowCount encodingKind logicalType physicalKind buffers = out)
    (h : parse crc32c out = .ok p) :
    p = ⟨singleNodeHeader rowCount buffers.length,
      [singleNode rowCount encodingKind logicalType physicalKind buffers.length],
      describe crc32c 0 (columnPagePayloadHeaderLen + coveEncodingNodeLen +
        buffers.length * pageBufferDescriptorLen) buffers, out⟩ := by
  have hlen := parse_length_lt h
  have hheader : ColumnPagePayloadHeaderV1.parse out =
      .ok (singleNodeHeader rowCount buffers.length) := by
    rw [← hout, singleNodeBytes, append_assoc, append_assoc]
    exact ColumnPagePayloadHeaderV1.parse_serialize rfl rfl rfl rfl rfl _
  have hnode : slice out columnPagePayloadHeaderLen
      (columnPagePayloadHeaderLen + coveEncodingNodeLen) =
      (singleNode rowCount encodingKind logicalType physicalKind buffers.length).serialize := by
    rw [← hout, singleNodeBytes, append_assoc]
    exact slice_append _ _ ColumnPagePayloadHeaderV1.serialize_length
      (by rw [CoveEncodingNodeV1.serialize_length])
  have hnodes : parseNodes out 1 columnPagePayloadHeaderLen =
      .ok [singleNode rowCount encodingKind logicalType physicalKind buffers.length] := by
    rw [parseNodes, hnode, CoveEncodingNodeV1.parse_serialize rfl]
    rfl
  have hcount : (singleNodeHeader rowCount buffers.length).bufferCount.toNat = buffers.length :=
    UInt16.toNat_ofNat_of_lt' (show _ < 2 ^ 16 by omega)
  have hbase : (singleNodeHeader rowCount buffers.length).buffersOffset.toNat =
      columnPagePayloadHeaderLen + coveEncodingNodeLen +
        buffers.length * pageBufferDescriptorLen := by
    refine UInt32.toNat_ofNat_of_lt' (show _ < 2 ^ 32 from ?_)
    simp only [columnPagePayloadHeaderLen, coveEncodingNodeLen, pageBufferDescriptorLen]
    omega
  have hdirectory : parseBuffers crc32c out (columnPagePayloadHeaderLen + coveEncodingNodeLen +
        buffers.length * pageBufferDescriptorLen) buffers.length 0
      (columnPagePayloadHeaderLen + coveEncodingNodeLen)
      (columnPagePayloadHeaderLen + coveEncodingNodeLen +
        buffers.length * pageBufferDescriptorLen) =
      .ok (describe crc32c 0 (columnPagePayloadHeaderLen + coveEncodingNodeLen +
        buffers.length * pageBufferDescriptorLen) buffers, out.length) :=
    parseBuffers_describe hout.symm (by simp) hout.symm front_length hlen le_rfl (by omega)
  obtain ⟨header, hh, h⟩ := of_andThen h
  obtain rfl := ok.inj (hheader.symm.trans hh)
  iterate 4 replace h := rest_ok h
  obtain ⟨nodes, hn, h⟩ := of_andThen h
  obtain rfl := ok.inj (hnodes.symm.trans hn)
  obtain ⟨root, -, h⟩ := of_andThen h
  replace h := rest_ok h
  obtain ⟨read, hread, h⟩ := of_andThen h
  rw [hcount, hbase] at hread
  obtain rfl := ok.inj (hdirectory.symm.trans hread)
  replace h := rest_ok h
  exact (ok.inj h).symm

theorem buildSingleNode_read
    (hout : buildSingleNode crc32c rowCount encodingKind logicalType physicalKind nullBitmap values = .ok out)
    (h : parse crc32c out = .ok p) :
    p.header.rowCount = rowCount ∧
    (∃ buffers, p.rootNode =
      .ok (singleNode rowCount encodingKind logicalType physicalKind buffers)) ∧
    p.bufferBytes .nullBitmap = .ok nullBitmap ∧
    p.bufferBytes .values = .ok (if values.isEmpty then none else some values) ∧
    values.length < 2 ^ 64 := by
  obtain ⟨p', -, heq⟩ := of_andThen hout
  cases heq
  have hlen := parse_length_lt h
  have hcount : (singleNodeBuffers nullBitmap values).length ≤ 2 := by
    cases nullBitmap <;> cases values <;> simp [singleNodeBuffers]
  obtain rfl := parse_singleNodeBytes hcount rfl h
  refine ⟨rfl, ⟨_, rfl⟩, (bufferBytes_describe rfl front_length hlen).trans ?_,
    (bufferBytes_describe rfl front_length hlen).trans ?_, ?_⟩
  · cases nullBitmap <;> cases values <;> simp [singleNodeBuffers]
  · cases nullBitmap <;> cases values <;> simp [singleNodeBuffers]
  · have hcontents : values.length ≤
        ((singleNodeBuffers nullBitmap values).flatMap Prod.snd).length := by
      cases nullBitmap <;> cases values <;> simp [singleNodeBuffers]
    rw [singleNodeBytes, length_append] at hlen
    omega

end

end ColumnPagePayloadV1

end CoveFormat.PagePayloads
