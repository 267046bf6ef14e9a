import CoveFormat.PagePayloads
import CoveFormat.StackedRanges

namespace CoveFormat.PageImages

open ByteCodes CheckedArith Except ExceptRules FixedFields List PagePayloads TakeReaders
open ColumnPagePayloadV1 (findRoot parse parseBuffers parseNodes slice)
open CoveTypes (CoveLogicalType CovePhysicalKind)

variable {bytes : Bytes} {crc32c : Bytes → UInt32}

section

variable {v : UInt16}

theorem encodingKindCode_of_fromU16 {kind : CoveEncodingKind}
    (h : encodingKindFromU16 v = some kind) : encodingKindCode kind = v := by
  have hcodes : ∀ i : Fin encodingKinds.length, encodingKinds[i].ctorIdx = i.val := by decide
  obtain ⟨hi, rfl⟩ := List.getElem?_eq_some_iff.mp h
  have hcode : encodingKinds[v.toNat].ctorIdx = v.toNat := hcodes ⟨v.toNat, hi⟩
  rw [encodingKindCode, hcode, UInt16.ofNat_toNat]

theorem logicalTypeCode_of_fromU16 {logical : CoveLogicalType}
    (h : CoveLogicalType.fromU16 v.toNat = some logical) : logicalTypeCode logical = v := by
  have hcodes : ∀ n, CoveLogicalType.fromU16 n = some logical → logical.ctorIdx = n := by
    intro n
    fun_cases CoveLogicalType.fromU16 n <;> rintro ⟨⟩ <;> rfl
  rw [logicalTypeCode, hcodes v.toNat h, UInt16.ofNat_toNat]

theorem physicalKindCode_of_fromU8 {v : UInt8} {physical : CovePhysicalKind}
    (h : physicalKindFromU8 v = some physical) : physicalKindCode physical = v := by
  obtain ⟨hi, hphysical⟩ := List.getElem?_eq_some_iff.mp h
  have hcodes : ∀ i : Fin 8, [CovePhysicalKind.fileCode, .numCode, .boolean, .fixedBytes, .varBytes,
      .list, .struct, .map][i].ctorIdx = i.val := by decide
  have hcode : physical.ctorIdx = v.toNat := by
    rw [← hphysical]
    exact hcodes ⟨v.toNat, hi⟩
  rw [physicalKindCode, hcode, UInt8.ofNat_toNat]

theorem bufferKindCode_of_fromU16 {kind : PageBufferKind} (h : bufferKindFromU16 v = some kind) :
    bufferKindCode kind = v := by
  rw [bufferKindFromU16] at h
  split at h
  · rename_i hother
    cases h
    exact hother.symm
  · obtain ⟨hi, hkind⟩ := List.getElem?_eq_some_iff.mp h
    have hcodes : ∀ i : Fin 4, bufferKindCode [PageBufferKind.nullBitmap, .values, .offsets,
        .childLayout][i] = UInt16.ofNat i.val := by decide
    have hcode := hcodes ⟨v.toNat, hi⟩
    rw [UInt16.ofNat_toNat] at hcode
    rw [← hkind]
    exact hcode

variable {h : ColumnPagePayloadHeaderV1} {n : CoveEncodingNodeV1} {d : PageBufferDescriptorV1}

theorem run_foundOr_ok_iff {α β : Type} {e : CoveError} {found : Option α} {f : α → Reader β}
    {p : β × Bytes} : (foundOr e found >>= f).run bytes = .ok p ↔
      ∃ x, found = some x ∧ (f x).run bytes = .ok p := by
  simp only [foundOr, run_lift_ok_iff, orError_ok_iff]

theorem parse_start {α : Type} {r : Reader α} {len : Nat} {e : CoveError} {x : α}
    {image rest : Bytes} (hlen : image.length = len)
    (h : (do rejectIf (image.length < len) e
             let bytes := image.take len
             r.run' bytes) = .ok x) :
    (do rejectIf ((image ++ rest).length < len) e
        let bytes := (image ++ rest).take len
        r.run' bytes) = .ok x := by
  obtain ⟨⟨⟩, -, hread⟩ := of_andThen h
  rw [take_of_length_le hlen.le] at hread
  refine rejectIf_andThen ?_ ?_
  · rw [length_append]
    omega
  · rw [take_left' hlen]
    exact hread

/-- The values of the fields that every header has. -/
structure HeaderMarks (h : ColumnPagePayloadHeaderV1) : Prop where
  magic : h.magic = columnPagePayloadMagic
  version : h.versionMajor = columnPagePayloadVersionMajor
  headerLen : h.headerLen.toNat = columnPagePayloadHeaderLen
  flags : h.flags = 0
  reserved : h.reserved = 0

theorem header_parse_ok_iff : ColumnPagePayloadHeaderV1.parse bytes = .ok h ↔
    HeaderMarks h ∧ ∃ rest, bytes = h.serialize ++ rest := by
  constructor
  · intro hparse
    obtain ⟨⟨⟩, -, hread⟩ := of_andThen hparse
    obtain ⟨left, hread⟩ := run'_eq_ok_iff.mp hread
    simp only [ColumnPagePayloadHeaderV1.read, (takeArray_decodes 4).bind_ok_iff,
      run_refuseIf_ok_iff, takeU16_decodes.bind_ok_iff, takeU32_decodes.bind_ok_iff,
      run_pure_ok_iff, not_not] at hread
    obtain ⟨magic, _, htake, hmagic, version, _, rfl, hversion, headerLen, _, rfl, hlen, flags, _,
      rfl, hflags, root, _, rfl, nodeCount, _, rfl, bufferCount, _, rfl, rowCount, _, rfl, nodes, _,
      rfl, directory, _, rfl, buffers, _, rfl, reserved, rest, rfl, hreserved, hout⟩ := hread
    obtain rfl := (Prod.mk.inj hout).1
    refine ⟨⟨hmagic, hversion, hlen, hflags, hreserved⟩, rest ++ bytes.drop columnPagePayloadHeaderLen,
      ?_⟩
    refine (take_append_drop columnPagePayloadHeaderLen bytes).symm.trans ?_
    rw [htake]
    simp [ColumnPagePayloadHeaderV1.serialize]
  · rintro ⟨hmarks, rest, rfl⟩
    exact ColumnPagePayloadHeaderV1.parse_serialize hmarks.magic hmarks.version hmarks.headerLen
      hmarks.flags hmarks.reserved rest

theorem node_parse_ok_iff : CoveEncodingNodeV1.parse bytes = .ok n ↔
    n.reserved = 0 ∧ ∃ rest, bytes = n.serialize ++ rest := by
  constructor
  · intro hparse
    obtain ⟨⟨⟩, -, hread⟩ := of_andThen hparse
    obtain ⟨left, hread⟩ := run'_eq_ok_iff.mp hread
    simp only [CoveEncodingNodeV1.read, takeU8_decodes.bind_ok_iff, takeU16_decodes.bind_ok_iff,
      takeU32_decodes.bind_ok_iff, run_foundOr_ok_iff, run_refuseIf_ok_iff, run_pure_ok_iff,
      not_not] at hread
    obtain ⟨id, _, htake, encoding, _, rfl, logical, _, rfl, physical, _, rfl, flags, _, rfl,
      logicalLen, _, rfl, children, _, rfl, buffers, _, rfl, paramsOffset, _, rfl, paramsLength, _,
      rfl, stats, _, rfl, reserved, rest, rfl, encodingKind, hencoding, logicalType, hlogical,
      physicalKind, hphysical, hreserved, hout⟩ := hread
    obtain rfl := (Prod.mk.inj hout).1
    refine ⟨hreserved, rest ++ bytes.drop coveEncodingNodeLen, ?_⟩
    refine (take_append_drop coveEncodingNodeLen bytes).symm.trans ?_
    rw [htake, ← encodingKindCode_of_fromU16 hencoding,
      ← logicalTypeCode_of_fromU16 hlogical, ← physicalKindCode_of_fromU8 hphysical]
    simp [CoveEncodingNodeV1.serialize]
  · rintro ⟨hreserved, rest, rfl⟩
    exact parse_start CoveEncodingNodeV1.serialize_length
      (CoveEncodingNodeV1.parse_serialize hreserved)

theorem descriptor_parse_ok_iff : PageBufferDescriptorV1.parse bytes = .ok d ↔
    (d.flags = 0 ∧ d.reserved = 0) ∧ ∃ rest, bytes = d.serialize ++ rest := by
  constructor
  · intro hparse
    obtain ⟨⟨⟩, -, hread⟩ := of_andThen hparse
    obtain ⟨left, hread⟩ := run'_eq_ok_iff.mp hread
    simp only [PageBufferDescriptorV1.read, takeU16_decodes.bind_ok_iff,
      takeU32_decodes.bind_ok_iff, takeU64_decodes.bind_ok_iff, run_foundOr_ok_iff,
      run_refuseIf_ok_iff, run_pure_ok_iff, not_not] at hread
    obtain ⟨id, _, htake, kindRaw, _, rfl, kind, hkind, flags, _, rfl, hflags, offset, _, rfl,
      length, _, rfl, checksum, _, rfl, reserved, rest, rfl, hreserved, hout⟩ := hread
    obtain rfl := (Prod.mk.inj hout).1
    refine ⟨⟨hflags, hreserved⟩, rest ++ bytes.drop pageBufferDescriptorLen, ?_⟩
    refine (take_append_drop pageBufferDescriptorLen bytes).symm.trans ?_
    rw [htake, ← bufferKindCode_of_fromU16 hkind]
    simp [PageBufferDescriptorV1.serialize]
  · rintro ⟨⟨hflags, hreserved⟩, rest, rfl⟩
    exact parse_start PageBufferDescriptorV1.serialize_length
      (PageBufferDescriptorV1.parse_serialize hflags hreserved)

variable {pos : Nat}

theorem slice_eq_iff {image : Bytes} {stop : Nat} (hstop : pos + image.length = stop) :
    (∃ rest, slice bytes pos stop = image ++ rest) ↔ bytes.drop pos = image ++ bytes.drop stop := by
  have hwhole : bytes.drop pos = slice bytes pos stop ++ bytes.drop stop := by
    rw [slice, ← hstop, Nat.add_sub_cancel_left, ← drop_drop, take_append_drop]
  constructor
  · rintro ⟨rest, hrest⟩
    have hle : (slice bytes pos stop).length ≤ image.length := by
      rw [slice, length_take]
      omega
    rw [hrest, length_append] at hle
    obtain rfl : rest = [] := length_eq_zero_iff.mp (by omega)
    rw [hwhole, hrest, append_nil]
  · intro h
    refine ⟨[], ?_⟩
    rw [append_nil, slice, h]
    exact take_left' (by omega)

theorem drop_eq_append_iff {image images : Bytes} {pos next stop : Nat}
    (hnext : pos + image.length = next) :
    bytes.drop pos = image ++ images ++ bytes.drop stop ↔
      (∃ rest, slice bytes pos next = image ++ rest) ∧
        bytes.drop next = images ++ bytes.drop stop := by
  rw [slice_eq_iff hnext, append_assoc]
  constructor
  · intro h
    have htail : bytes.drop next = images ++ bytes.drop stop := by
      rw [← hnext, ← drop_drop, h, drop_left]
    exact ⟨by rw [h, htail], htail⟩
  · rintro ⟨h, htail⟩
    rw [h, htail]

theorem next_record (pos count len : Nat) : pos + len + count * len = pos + (count + 1) * len := by
  rw [Nat.succ_mul]
  omega

theorem parseNodes_ok_iff {count : Nat} {nodes : List CoveEncodingNodeV1} :
    parseNodes bytes count pos = .ok nodes ↔
      nodes.length = count ∧ (∀ node ∈ nodes, node.reserved = 0) ∧
        bytes.drop pos = nodes.flatMap CoveEncodingNodeV1.serialize ++
          bytes.drop (pos + count * coveEncodingNodeLen) := by
  induction count generalizing pos nodes with
  | zero =>
    rw [parseNodes, ok.injEq, Nat.zero_mul, Nat.add_zero]
    constructor
    · rintro rfl
      exact ⟨rfl, forall_mem_nil _, rfl⟩
    · rintro ⟨hlen, -, -⟩
      exact (length_eq_zero_iff.mp hlen).symm
  | succ count ih =>
    have hpeel := fun node : CoveEncodingNodeV1 => @drop_eq_append_iff bytes node.serialize
    simp only [parseNodes, andThen_eq_ok_iff, node_parse_ok_iff, ih, next_record, ok.injEq]
    constructor
    · rintro ⟨node, ⟨hnode, hslice⟩, rest, ⟨hlen, hrest, hdrop⟩, rfl⟩
      refine ⟨by rw [length_cons, hlen], forall_mem_cons.mpr ⟨hnode, hrest⟩, ?_⟩
      exact (hpeel node (by rw [CoveEncodingNodeV1.serialize_length])).mpr ⟨hslice, hdrop⟩
    · rintro ⟨hlen, hreserved, hdrop⟩
      cases nodes with
      | nil => cases hlen
      | cons node nodes =>
        obtain ⟨hslice, hrest⟩ :=
          (hpeel node (by rw [CoveEncodingNodeV1.serialize_length])).mp hdrop
        obtain ⟨hhead, htail⟩ := forall_mem_cons.mp hreserved
        exact ⟨node, ⟨hhead, hslice⟩, nodes, ⟨Nat.succ.inj hlen, htail, hrest⟩, rfl⟩

variable {base : Nat}

/-- A buffer that a directory may list next: the ids are in order and the buffers do not overlap. -/
structure Listed (crc32c : Bytes → UInt32) (bytes : Bytes) (expectedId last : Nat)
    (d : PageBufferDescriptorV1) : Prop where
  reserved : d.flags = 0 ∧ d.reserved = 0
  id : d.bufferId.toNat = expectedId
  start : last ≤ d.offset.toNat
  finish : d.offset.toNat + d.length.toNat < 2 ^ 64
  inside : d.offset.toNat + d.length.toNat ≤ bytes.length
  checksum : crc32c (slice bytes d.offset.toNat (d.offset.toNat + d.length.toNat)) = d.checksum

/-- The buffers of a directory, the last of which ends at `stop`. -/
def Directory (crc32c : Bytes → UInt32) (bytes : Bytes) (stop : Nat) :
    Nat → Nat → List PageBufferDescriptorV1 → Prop
  | _, last, [] => last = stop
  | expectedId, last, d :: ds => Listed crc32c bytes expectedId last d ∧
      Directory crc32c bytes stop (expectedId + 1) (d.offset.toNat + d.length.toNat) ds

theorem parseBuffers_ok_iff {count expectedId pos last stop : Nat}
    {ds : List PageBufferDescriptorV1} (hbase : base ≤ last) :
    parseBuffers crc32c bytes base count expectedId pos last = .ok (ds, stop) ↔
      ds.length = count ∧ Directory crc32c bytes stop expectedId last ds ∧
        bytes.drop pos = ds.flatMap PageBufferDescriptorV1.serialize ++
          bytes.drop (pos + count * pageBufferDescriptorLen) := by
  induction count generalizing expectedId pos last ds with
  | zero =>
    rw [parseBuffers, ok.injEq, Prod.mk.injEq, Nat.zero_mul, Nat.add_zero]
    constructor
    · rintro ⟨rfl, rfl⟩
      exact ⟨rfl, rfl, rfl⟩
    · rintro ⟨hlen, hds, -⟩
      obtain rfl := length_eq_zero_iff.mp hlen
      exact ⟨rfl, hds⟩
  | succ count ih =>
    have hpeel := fun d : PageBufferDescriptorV1 => @drop_eq_append_iff bytes d.serialize
    simp only [parseBuffers, andThen_eq_ok_iff, descriptor_parse_ok_iff, rejectIf_eq_ok_iff,
      checkedAdd_ok_iff, not_not, not_or, not_lt, ok.injEq, Prod.mk.injEq, exists_const]
    constructor
    · rintro ⟨d, ⟨hreserved, hslice⟩, hid, ⟨hstart, hlast⟩, finish, ⟨hfit, rfl⟩, hinside, hsum,
        ⟨rest, stop'⟩, hrest, rfl, rfl⟩
      obtain ⟨hlen, hdirectory, hdrop⟩ := (ih (by omega)).mp hrest
      rw [next_record] at hdrop
      refine ⟨by rw [length_cons, hlen],
        ⟨⟨hreserved, hid, hlast, hfit, hinside, hsum⟩, hdirectory⟩, ?_⟩
      exact (hpeel d (by rw [PageBufferDescriptorV1.serialize_length])).mpr ⟨hslice, hdrop⟩
    · rintro ⟨hlen, hdirectory, hdrop⟩
      cases ds with
      | nil => cases hlen
      | cons d ds =>
        obtain ⟨hd, hds⟩ := hdirectory
        have hstart := hd.start
        obtain ⟨hslice, hrest⟩ :=
          (hpeel d (by rw [PageBufferDescriptorV1.serialize_length])).mp hdrop
        rw [← next_record] at hrest
        exact ⟨d, ⟨hd.reserved, hslice⟩, hd.id, ⟨by omega, hstart⟩, _, ⟨hd.finish, rfl⟩,
          hd.inside, hd.checksum, (ds, stop),
          (ih (by omega)).mpr ⟨Nat.succ.inj hlen, hds, hrest⟩, rfl, rfl⟩

variable {data : Bytes} {p : ColumnPagePayloadV1}

def front (p : ColumnPagePayloadV1) : Bytes :=
  p.header.serialize ++ p.nodes.flatMap CoveEncodingNodeV1.serialize ++
    p.buffers.flatMap PageBufferDescriptorV1.serialize

/-- The regions follow one another without gaps. -/
structure Regions (p : ColumnPagePayloadV1) : Prop where
  nodesOffset : p.header.nodesOffset.toNat = columnPagePayloadHeaderLen
  bufferDirectoryOffset : p.header.bufferDirectoryOffset.toNat =
    p.header.nodesOffset.toNat + p.header.nodeCount.toNat * coveEncodingNodeLen
  buffersOffset : p.header.buffersOffset.toNat =
    p.header.bufferDirectoryOffset.toNat + p.header.bufferCount.toNat * pageBufferDescriptorLen
  nodeCount : p.nodes.length = p.header.nodeCount.toNat
  bufferCount : p.buffers.length = p.header.bufferCount.toNat

/-- The nodes that a payload may have. -/
structure NodesFit (p : ColumnPagePayloadV1) : Prop where
  nonempty : p.nodes ≠ []
  reserved : ∀ node ∈ p.nodes, node.reserved = 0
  ids : (p.nodes.map CoveEncodingNodeV1.nodeId).Nodup
  root : ∃ root, findRoot p.nodes p.header.rootNodeId = .ok root ∧
    root.logicalLen = p.header.rowCount

/-- All that the parser asks of a payload. -/
structure Accepted (crc32c : Bytes → UInt32) (bytes : Bytes) (p : ColumnPagePayloadV1) : Prop where
  marks : HeaderMarks p.header
  regions : Regions p
  nodes : NodesFit p
  directory : Directory crc32c bytes bytes.length 0 p.header.buffersOffset.toNat p.buffers
  front : bytes = front p ++ bytes.drop p.header.buffersOffset.toNat
  data : p.data = bytes

theorem nodes_length (nodes : List CoveEncodingNodeV1) :
    (nodes.flatMap CoveEncodingNodeV1.serialize).length = nodes.length * coveEncodingNodeLen :=
  length_flatMap_const (fun _ => CoveEncodingNodeV1.serialize_length) nodes

theorem descriptors_length (ds : List PageBufferDescriptorV1) :
    (ds.flatMap PageBufferDescriptorV1.serialize).length = ds.length * pageBufferDescriptorLen :=
  length_flatMap_const (fun _ => PageBufferDescriptorV1.serialize_length) ds

theorem Regions.front_length (h : Regions p) :
    (PageImages.front p).length = p.header.buffersOffset.toNat := by
  rw [PageImages.front, length_append, length_append,
    ColumnPagePayloadHeaderV1.serialize_length, nodes_length, descriptors_length, h.buffersOffset,
    h.bufferDirectoryOffset, h.nodesOffset, h.nodeCount, h.bufferCount]

theorem parse_ok_iff : parse crc32c bytes = .ok p ↔ Accepted crc32c bytes p := by
  simp only [parse, andThen_eq_ok_iff, rejectIf_eq_ok_iff, header_parse_ok_iff, parseNodes_ok_iff,
    not_or, not_not, not_lt, ok.injEq, exists_const]
  constructor
  · rintro ⟨header, ⟨hmarks, rest, hbytes⟩, ⟨hnodesOffset, -, -, hlen⟩, hdirectoryOffset,
      hbuffersOffset, hcount, nodes, ⟨hnodes, hreserved, hdrop⟩, hids, root, hroot, hrows,
      ⟨buffers, stop⟩, hbuffers, hstop, rfl⟩
    obtain ⟨hlength, hdirectory, hdrop'⟩ := (parseBuffers_ok_iff le_rfl).mp hbuffers
    obtain rfl : stop = bytes.length := hstop
    rw [← hbuffersOffset] at hdrop'
    rw [← hdirectoryOffset, hdrop', hnodesOffset] at hdrop
    have hheader : rest = bytes.drop columnPagePayloadHeaderLen := by
      rw [hbytes, drop_left' ColumnPagePayloadHeaderV1.serialize_length]
    refine ⟨hmarks, ⟨hnodesOffset, hdirectoryOffset, hbuffersOffset, hnodes, hlength⟩,
      ⟨?_, hreserved, hids, root, hroot, hrows⟩, hdirectory, ?_, rfl⟩
    · rintro rfl
      exact hcount (UInt16.toNat_inj.mp hnodes.symm)
    · rw [front, append_assoc, append_assoc, ← hdrop, ← hheader]
      exact hbytes
  · rintro ⟨hmarks, hregions, ⟨hnonempty, hreserved, hids, root, hroot, hrows⟩, hdirectory, hfront,
      rfl⟩
    have hlen := congrArg List.length hfront
    rw [length_append, hregions.front_length] at hlen
    have hheader : p.data = p.header.serialize ++ (p.nodes.flatMap CoveEncodingNodeV1.serialize ++
        (p.buffers.flatMap PageBufferDescriptorV1.serialize ++
          p.data.drop p.header.buffersOffset.toNat)) := by
      rw [← append_assoc, ← append_assoc]
      exact hfront
    have hnodes : p.data.drop p.header.nodesOffset.toNat =
        p.nodes.flatMap CoveEncodingNodeV1.serialize ++
          (p.buffers.flatMap PageBufferDescriptorV1.serialize ++
            p.data.drop p.header.buffersOffset.toNat) := by
      rw [hheader, hregions.nodesOffset, drop_left' ColumnPagePayloadHeaderV1.serialize_length,
        ← hheader]
    have hbuffers : p.data.drop p.header.bufferDirectoryOffset.toNat =
        p.buffers.flatMap PageBufferDescriptorV1.serialize ++
          p.data.drop p.header.buffersOffset.toNat := by
      rw [hregions.bufferDirectoryOffset, ← drop_drop, hnodes, ← hregions.nodeCount,
        drop_left' (nodes_length p.nodes)]
    have hdirectoryOffset := hregions.bufferDirectoryOffset
    have hbuffersOffset := hregions.buffersOffset
    refine ⟨p.header, ⟨hmarks, _, hheader⟩,
      ⟨hregions.nodesOffset, by omega, by omega, by omega⟩, hdirectoryOffset, hbuffersOffset, ?_,
      p.nodes, ⟨hregions.nodeCount, hreserved, ?_⟩, hids, root, hroot, hrows,
      (p.buffers, p.data.length),
      (parseBuffers_ok_iff le_rfl).mpr ⟨hregions.bufferCount, hdirectory, ?_⟩, rfl, rfl⟩
    · intro hzero
      refine hnonempty (length_eq_zero_iff.mp ?_)
      rw [hregions.nodeCount, hzero]
      rfl
    · rw [hnodes, ← hdirectoryOffset, hbuffers]
    · rw [← hbuffersOffset]
      exact hbuffers

end

end CoveFormat.PageImages
