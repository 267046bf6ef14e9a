import CoveFormat.PageImages

namespace CoveFormat.PageSerialization

open ByteCodes CheckedArith ExceptRules FixedFields IntervalTiling List PageImages PagePayloads
  StackedRanges TakeReaders
open ColumnPagePayloadV1 (parse slice)

variable {bytes : Bytes} {p : ColumnPagePayloadV1}

section

-- The CRC32C of the checksum package.
variable (crc32c : Bytes → UInt32)

def bufferSlices (data : Bytes) : List PageBufferDescriptorV1 → Except CoveError Bytes
  | [] => .ok []
  | buffer :: buffers => do
      let finish ← checkedAdd buffer.offset.toNat buffer.length.toNat
      rejectIf (data.length < finish) .offsetRange
      let rest ← bufferSlices data buffers
      .ok (slice data buffer.offset.toNat finish ++ rest)

def serialize (p : ColumnPagePayloadV1) : Except CoveError Bytes := do
  rejectIf (p.nodes = []) .pageCorrupt
  let contents ← bufferSlices p.data p.buffers
  let parsed ← parse crc32c (front p ++ contents)
  .ok parsed.data

end

section

variable {crc32c : Bytes → UInt32} {data contents : Bytes} {stop expectedId last : Nat}
  {ds : List PageBufferDescriptorV1}

def bufferStart (d : PageBufferDescriptorV1) : Nat := d.offset.toNat

def bufferLen (d : PageBufferDescriptorV1) : Nat := d.length.toNat

/-- Every byte from `buffers_offset` on belongs to one buffer, and only to one. The bytes are
counted from there. -/
def TilesData (p : ColumnPagePayloadV1) : Prop :=
  Tiles (fun d => bufferStart d - p.header.buffersOffset.toNat) bufferLen
    (p.data.length - p.header.buffersOffset.toNat) p.buffers

section

variable (h : Directory crc32c bytes stop expectedId last ds)
include h

theorem Directory.le_stop : last + (ds.map bufferLen).sum ≤ stop := by
  induction ds generalizing expectedId last with
  | nil => exact Nat.le_of_eq h
  | cons d ds ih =>
    have hrest := ih h.2
    have hstart := h.1.start
    rw [map_cons, sum_cons, bufferLen]
    omega

theorem Directory.stacks_iff :
    Stacks bufferStart bufferLen last ds ↔ last + (ds.map bufferLen).sum = stop := by
  induction ds generalizing expectedId last with
  | nil => exact iff_of_true trivial h
  | cons d ds ih =>
    have hstacks := ih h.2
    have hle := Directory.le_stop h.2
    have hstart := h.1.start
    rw [Stacks, map_cons, sum_cons, bufferStart, bufferLen]
    constructor
    · rintro ⟨rfl, hrest⟩
      have hsum := hstacks.mp hrest
      omega
    · intro hsum
      have heq : d.offset.toNat = last := by omega
      refine ⟨heq, ?_⟩
      rw [← heq]
      exact hstacks.mpr (by omega)

end

theorem bufferSlices_length (h : bufferSlices data ds = .ok contents) :
    contents.length = (ds.map bufferLen).sum := by
  induction ds generalizing contents with
  | nil =>
    cases h
    rfl
  | cons d ds ih =>
    obtain ⟨finish, hfinish, h⟩ := of_andThen h
    obtain ⟨hinside, h⟩ := of_reject h
    obtain ⟨rest, hrest, h⟩ := of_andThen h
    cases h
    obtain ⟨-, rfl⟩ := checkedAdd_ok_iff.mp hfinish
    rw [length_append, ih hrest, map_cons, sum_cons, bufferLen, slice,
      length_take, length_drop]
    omega

theorem Directory.bufferSlices_ok (h : Directory crc32c bytes bytes.length expectedId last ds)
    (hstacks : Stacks bufferStart bufferLen last ds) :
    bufferSlices bytes ds = .ok (bytes.drop last) := by
  induction ds generalizing expectedId last with
  | nil =>
    have hlast : last = bytes.length := h
    rw [bufferSlices, hlast, drop_length]
  | cons d ds ih =>
    obtain ⟨hd, hds⟩ := h
    obtain ⟨hstart, hrest⟩ := hstacks
    have hstart : d.offset.toNat = last := hstart
    have hstop : bufferLen d = d.length.toNat := rfl
    rw [hstart] at hds
    have hfinish := hd.finish
    have hinside := hd.inside
    refine andThen_ok (checkedAdd_ok_iff.mpr ⟨hd.finish, rfl⟩) ?_
    refine rejectIf_andThen (not_lt.mpr hd.inside) ?_
    refine andThen_ok (ih hds hrest) ?_
    rw [hstart, slice, Nat.add_sub_cancel_left, ← drop_drop, take_append_drop]

theorem tilesData_of_stacks
    (hsum : p.header.buffersOffset.toNat + (p.buffers.map bufferLen).sum = p.data.length)
    (hstacks : Stacks bufferStart bufferLen p.header.buffersOffset.toNat p.buffers) :
    TilesData p := by
  refine tiles_of_covered (by omega) fun x hx => ?_
  obtain ⟨d, hd, hlow, hhigh⟩ := hstacks.covers (Nat.le_add_right _ x) (by omega)
  refine ⟨d, hd, ?_, ?_⟩
  · change bufferStart d - p.header.buffersOffset.toNat ≤ x
    omega
  · change x < bufferStart d - p.header.buffersOffset.toNat + bufferLen d
    omega

theorem accounted_iff (h : Accepted crc32c bytes p) :
    (TilesData p ∧ serialize crc32c p = .ok bytes) ↔
      p.header.buffersOffset.toNat + (p.buffers.map bufferLen).sum = bytes.length := by
  have hdata := h.data
  constructor
  · rintro ⟨-, hserialize⟩
    replace hserialize := rest_ok hserialize
    obtain ⟨contents, hcontents, hserialize⟩ := of_andThen hserialize
    obtain ⟨parsed, hparsed, heq⟩ := of_andThen hserialize
    have hout : front p ++ contents = bytes := (parse_ok_iff.mp hparsed).data.symm.trans
      (Except.ok.inj heq)
    rw [← bufferSlices_length hcontents, ← h.regions.front_length, ← length_append, hout]
  · intro hsum
    have hstacks := (Directory.stacks_iff h.directory).mpr hsum
    rw [← hdata] at hsum
    refine ⟨tilesData_of_stacks hsum hstacks, ?_⟩
    refine rejectIf_andThen h.nodes.nonempty ?_
    refine andThen_eq_ok_iff.mpr ⟨bytes.drop p.header.buffersOffset.toNat, ?_, ?_⟩
    · rw [hdata]
      exact Directory.bufferSlices_ok h.directory hstacks
    · rw [← h.front]
      exact andThen_ok (parse_ok_iff.mpr h) (by rw [hdata])

end

section

variable {crc32c : Bytes → UInt32} {before after : Bytes}

def declaredLengths (bytes : Bytes) : List Nat :=
  (range (readU16 bytes 14).toNat).map fun i =>
    (readU64 bytes ((readU32 bytes 24).toNat + i * pageBufferDescriptorLen + 16)).toNat

/-- The declared lengths add up to the length of the data region. -/
def LeavesNoGap (bytes : Bytes) : Prop :=
  (readU32 bytes 28).toNat + (declaredLengths bytes).sum = bytes.length

instance : Decidable (LeavesNoGap bytes) := inferInstanceAs (Decidable (_ = _))

variable {offset : Nat}

section

variable (hoffset : before.length = offset)
include hoffset

theorem readUint_at {width n : Nat} :
    readUint width (before ++ (leBytes width n ++ after)) offset = n % 256 ^ width := by
  rw [readUint, drop_left' hoffset, take_left' (leBytes_length width n), leNat_leBytes]

theorem readU16_at {x : UInt16} : readU16 (before ++ (putU16 x ++ after)) offset = x := by
  rw [readU16, putU16, readUint_at hoffset, Nat.mod_eq_of_lt (by simpa using x.toNat_lt),
    UInt16.ofNat_toNat]

theorem readU32_at {x : UInt32} : readU32 (before ++ (putU32 x ++ after)) offset = x := by
  rw [readU32, putU32, readUint_at hoffset, Nat.mod_eq_of_lt (by simpa using x.toNat_lt),
    UInt32.ofNat_toNat]

theorem readU64_at {x : UInt64} : readU64 (before ++ (putU64 x ++ after)) offset = x := by
  rw [readU64, putU64, readUint_at hoffset, Nat.mod_eq_of_lt (by simpa using x.toNat_lt),
    UInt64.ofNat_toNat]

end

theorem header_counts (h : ColumnPagePayloadHeaderV1) (rest : Bytes) :
    readU16 (h.serialize ++ rest) 14 = h.bufferCount ∧
      readU32 (h.serialize ++ rest) 24 = h.bufferDirectoryOffset ∧
      readU32 (h.serialize ++ rest) 28 = h.buffersOffset := by
  have hsplit : h.serialize ++ rest = [h.magic.toList, putU16 h.versionMajor, putU16 h.headerLen,
      putU16 h.flags, putU16 h.rootNodeId, putU16 h.nodeCount].flatten ++ (putU16 h.bufferCount ++
      ([putU32 h.rowCount, putU32 h.nodesOffset].flatten ++ (putU32 h.bufferDirectoryOffset ++
      (putU32 h.buffersOffset ++ (putU32 h.reserved ++ rest))))) := by
    simp [ColumnPagePayloadHeaderV1.serialize]
  rw [hsplit]
  refine ⟨readU16_at (by simp), ?_, ?_⟩
  · rw [← append_assoc, ← append_assoc]
    exact readU32_at (by simp)
  · rw [← append_assoc, ← append_assoc, ← append_assoc]
    exact readU32_at (by simp)

theorem descriptor_length (d : PageBufferDescriptorV1) (before rest : Bytes) :
    readU64 (before ++ (d.serialize ++ rest)) (before.length + 16) = d.length := by
  have hsplit : before ++ (d.serialize ++ rest) = (before ++ [putU16 d.bufferId,
      putU16 (bufferKindCode d.kind), putU32 d.flags, putU64 d.offset].flatten) ++
      (putU64 d.length ++ ([putU32 d.checksum, putU32 d.reserved].flatten ++ rest)) := by
    simp [PageBufferDescriptorV1.serialize]
  rw [hsplit]
  exact readU64_at (by simp)

theorem descriptor_lengths (ds : List PageBufferDescriptorV1) (before rest : Bytes) :
    ((List.range ds.length).map fun i => (readU64
      (before ++ (ds.flatMap PageBufferDescriptorV1.serialize ++ rest))
        (before.length + i * pageBufferDescriptorLen + 16)).toNat) = ds.map bufferLen := by
  induction ds generalizing before with
  | nil => rfl
  | cons d ds ih =>
    have htail := ih (before ++ d.serialize)
    rw [length_cons, range_succ_eq_map, map_cons, map_map, map_cons,
      flatMap_cons, append_assoc]
    refine congrArg₂ List.cons ?_ ?_
    · rw [Nat.zero_mul, Nat.add_zero, descriptor_length, bufferLen]
    · rw [← htail]
      refine map_congr_left fun i _ => ?_
      rw [append_assoc, length_append, PageBufferDescriptorV1.serialize_length,
        next_record]
      rfl

theorem leavesNoGap_iff (h : Accepted crc32c bytes p) : LeavesNoGap bytes ↔
    p.header.buffersOffset.toNat + (p.buffers.map bufferLen).sum = bytes.length := by
  have hfront : bytes = p.header.serialize ++ p.nodes.flatMap CoveEncodingNodeV1.serialize ++
      (p.buffers.flatMap PageBufferDescriptorV1.serialize ++
        bytes.drop p.header.buffersOffset.toNat) := by
    rw [← append_assoc]
    exact h.front
  have hlength : (p.header.serialize ++ p.nodes.flatMap CoveEncodingNodeV1.serialize).length =
      p.header.bufferDirectoryOffset.toNat := by
    rw [length_append, ColumnPagePayloadHeaderV1.serialize_length, nodes_length,
      h.regions.bufferDirectoryOffset, h.regions.nodesOffset, h.regions.nodeCount]
  obtain ⟨hcount, hdirectory, hbase⟩ := header_counts p.header
    (p.nodes.flatMap CoveEncodingNodeV1.serialize ++
      (p.buffers.flatMap PageBufferDescriptorV1.serialize ++
        bytes.drop p.header.buffersOffset.toNat))
  rw [← append_assoc, ← hfront] at hcount hdirectory hbase
  have hlengths := descriptor_lengths p.buffers
    (p.header.serialize ++ p.nodes.flatMap CoveEncodingNodeV1.serialize)
    (bytes.drop p.header.buffersOffset.toNat)
  rw [← hfront, hlength, h.regions.bufferCount] at hlengths
  rw [LeavesNoGap, declaredLengths, hcount, hdirectory, hbase, hlengths]

/-- An accepted payload is accounted for, and serialized to itself, when the lengths of its buffers
add up to the data region. Gaps between the buffers are accepted too. -/
theorem accepted_accounted_iff (h : parse crc32c bytes = .ok p) :
    (TilesData p ∧ serialize crc32c p = .ok bytes) ↔ LeavesNoGap bytes := by
  rw [accounted_iff (parse_ok_iff.mp h), leavesNoGap_iff (parse_ok_iff.mp h)]

/-- A page of no rows with one buffer, in the last `length` of its 99 bytes. -/
def pageWith (length : UInt64) : ColumnPagePayloadV1 where
  header := ⟨columnPagePayloadMagic, 2, 36, 0, 0, 1, 1, 0, 36, 66, 98, 0⟩
  nodes := [ColumnPagePayloadV1.singleNode 0 .varBytes .utf8 .varBytes 1]
  buffers := [⟨0, .values, 0, 99 - length, length, 0, 0⟩]
  data := front ⟨⟨columnPagePayloadMagic, 2, 36, 0, 0, 1, 1, 0, 36, 66, 98, 0⟩,
    [ColumnPagePayloadV1.singleNode 0 .varBytes .utf8 .varBytes 1],
    [⟨0, .values, 0, 99 - length, length, 0, 0⟩], []⟩ ++ [7]

/-- An empty buffer at the end of the page leaves the byte before it to no buffer. -/
theorem gap_accepted :
    parse (fun _ => 0) (pageWith 0).data = .ok (pageWith 0) ∧ ¬ TilesData (pageWith 0) ∧
      serialize (fun _ => 0) (pageWith 0) = .error .offsetRange := by
  refine ⟨by decide +kernel, fun htiles => ?_, by decide +kernel⟩
  obtain ⟨d, hd, hheld⟩ := (htiles.cover 0).mpr (by decide +kernel)
  obtain rfl := mem_singleton.mp hd
  exact absurd hheld (by decide +kernel)

theorem accepted_accounted_iff_exact : TilesData (pageWith 1) ∧
      serialize (fun _ => 0) (pageWith 1) = .ok (pageWith 1).data :=
  (accepted_accounted_iff (show parse (fun _ => 0) (pageWith 1).data = .ok (pageWith 1) by
    decide +kernel)).mpr (by decide +kernel)

end

end CoveFormat.PageSerialization
