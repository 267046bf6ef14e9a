import CoveFormat.PageImages
import CoveFormat.PreorderTrees

namespace CoveFormat.PageTrees

open ByteCodes ExceptRules List PageImages PagePayloads PreorderTrees
open ColumnPagePayloadV1 (describe length_describe parse parseBuffers slice)

/-- A node of a tree, with the buffers it owns. -/
structure OwnedNode where
  node : CoveEncodingNodeV1
  buffers : List PageBufferDescriptorV1

abbrev PagePayloadTreeNode := LabelTree OwnedNode

/-- The nodes and the buffers from the two positions on. -/
structure Cursors where
  nodes : List CoveEncodingNodeV1
  buffers : List PageBufferDescriptorV1

section

def takeOwned (c : Cursors) : Except CoveError (OwnedNode × Cursors) :=
  match c.nodes with
  | [] => .error .pageCorrupt
  | node :: nodes =>
    if c.buffers.length < node.bufferCount.toNat then .error .pageCorrupt
    else .ok (⟨node, c.buffers.take node.bufferCount.toNat⟩,
      ⟨nodes, c.buffers.drop node.bufferCount.toNat⟩)

def childCount (o : OwnedNode) : Nat := o.node.childCount.toNat

def nodesLeft (c : Cursors) : Nat := c.nodes.length

variable {nodes : List CoveEncodingNodeV1} {buffers : List PageBufferDescriptorV1}
  {rootNodeId : UInt16} {c c' : Cursors} {o : OwnedNode} {os : List OwnedNode}
  {t : PagePayloadTreeNode}

theorem takeOwned_ok_iff : takeOwned c = .ok (o, c') ↔
    c.nodes = o.node :: c'.nodes ∧ c.buffers = o.buffers ++ c'.buffers ∧
      o.node.bufferCount.toNat = o.buffers.length := by
  rw [takeOwned]
  constructor
  · intro h
    split at h
    · cases h
    · rename_i hnodes
      split at h
      · cases h
      · cases h
        rename_i hlong
        refine ⟨hnodes, (take_append_drop _ _).symm, ?_⟩
        exact (length_take_of_le (not_lt.mp hlong)).symm
  · rintro ⟨hnodes, hbuffers, hcount⟩
    have hlong : ¬ c.buffers.length < o.node.bufferCount.toNat := by
      rw [hbuffers, length_append]
      omega
    rw [hnodes]
    simp only
    rw [if_neg hlong, hbuffers, hcount, take_left, drop_left]

theorem takeOwned_left (c : Cursors) (o : OwnedNode) (c' : Cursors)
    (h : takeOwned c = .ok (o, c')) : nodesLeft c' < nodesLeft c := by
  rw [nodesLeft, nodesLeft, (takeOwned_ok_iff.mp h).1]
  exact Nat.lt_succ_self _

/-- `parse_payload_subtree`; every call takes a node, so the calls end. -/
def parsePayloadSubtree (c : Cursors) :
    Except CoveError (PagePayloadTreeNode × { c' // nodesLeft c' < nodesLeft c }) :=
  readTree takeOwned childCount nodesLeft takeOwned_left c

def payloadTree (nodes : List CoveEncodingNodeV1) (buffers : List PageBufferDescriptorV1)
    (rootNodeId : UInt16) : Except CoveError PagePayloadTreeNode := do
  rejectIf (nodes.head?.map CoveEncodingNodeV1.nodeId ≠ some rootNodeId) .pageCorrupt
  let root ← parsePayloadSubtree ⟨nodes, buffers⟩
  rejectIf (root.2.1.nodes ≠ [] ∨ root.2.1.buffers ≠ []) .pageCorrupt
  .ok root.1

def tree (p : ColumnPagePayloadV1) : Except CoveError PagePayloadTreeNode :=
  payloadTree p.nodes p.buffers p.header.rootNodeId

theorem reads_iff : Reads takeOwned c os c' ↔ c.nodes = os.map OwnedNode.node ++ c'.nodes ∧
      c.buffers = os.flatMap OwnedNode.buffers ++ c'.buffers ∧
      ∀ o ∈ os, o.node.bufferCount.toNat = o.buffers.length := by
  induction os generalizing c with
  | nil =>
    constructor
    · rintro rfl
      exact ⟨rfl, rfl, forall_mem_nil _⟩
    · rintro ⟨hnodes, hbuffers, -⟩
      cases c
      cases c'
      simp_all [Reads]
  | cons o os ih =>
    simp only [Reads, takeOwned_ok_iff, ih, map_cons, cons_append, flatMap_cons,
      append_assoc, forall_mem_cons]
    constructor
    · rintro ⟨m, ⟨hnode, hbuffer, hcount⟩, hnodes, hbuffers, hcounts⟩
      rw [hnode, hbuffer, hnodes, hbuffers]
      exact ⟨rfl, rfl, hcount, hcounts⟩
    · rintro ⟨hnodes, hbuffers, hcount, hcounts⟩
      exact ⟨⟨_, _⟩, ⟨hnodes, hbuffers, hcount⟩, rfl, rfl, hcounts⟩

/-- The tree of a payload has every node and every buffer once, in their order, and the children
and buffers that the nodes count. -/
structure TreeOf (nodes : List CoveEncodingNodeV1) (buffers : List PageBufferDescriptorV1)
    (t : PagePayloadTreeNode) : Prop where
  nodes : t.preorder.map OwnedNode.node = nodes
  buffers : t.preorder.flatMap OwnedNode.buffers = buffers
  children : t.Counted childCount
  owned : ∀ o ∈ t.preorder, o.node.bufferCount.toNat = o.buffers.length

theorem head_preorder (t : PagePayloadTreeNode) :
    (t.preorder.map OwnedNode.node).head? = some t.label.node := by
  cases t
  rfl

theorem payloadTree_ok_iff : payloadTree nodes buffers rootNodeId = .ok t ↔
    t.label.node.nodeId = rootNodeId ∧ TreeOf nodes buffers t := by
  simp only [payloadTree, andThen_eq_ok_iff, rejectIf_eq_ok_iff, not_or, not_not, exists_const,
    Except.ok.injEq]
  constructor
  · rintro ⟨hroot, ⟨t', c', hc⟩, hread, ⟨hnodes, hbuffers⟩, rfl⟩
    obtain ⟨hcounted, hreads⟩ := readTree_iff.mp ⟨hc, hread⟩
    obtain ⟨hn, hb, howned⟩ := reads_iff.mp hreads
    change c'.nodes = [] at hnodes
    change c'.buffers = [] at hbuffers
    rw [hnodes, append_nil] at hn
    rw [hbuffers, append_nil] at hb
    change nodes = _ at hn
    change buffers = _ at hb
    refine ⟨?_, hn.symm, hb.symm, hcounted, howned⟩
    rw [hn, head_preorder] at hroot
    exact Option.some.inj hroot
  · rintro ⟨hroot, rfl, rfl, hcounted, howned⟩
    have hreads : Reads takeOwned ⟨t.preorder.map OwnedNode.node,
        t.preorder.flatMap OwnedNode.buffers⟩ t.preorder ⟨[], []⟩ :=
      reads_iff.mpr ⟨(append_nil _).symm, (append_nil _).symm, howned⟩
    obtain ⟨h, hread⟩ := readTree_iff.mpr ⟨hcounted, hreads⟩
    refine ⟨?_, _, hread, ⟨rfl, rfl⟩, rfl⟩
    rw [head_preorder, Option.map_some, hroot]

end

/-- A node with the kinds and the contents of its buffers. -/
structure WrittenNode where
  node : CoveEncodingNodeV1
  buffers : List (PageBufferKind × Bytes)

section

-- The CRC32C of the checksum package.
variable (crc32c : Bytes → UInt32)

/-- `u16::try_from`. -/
def u16TryFrom (n : Nat) : Except CoveError UInt16 := do
  rejectIf (2 ^ 16 ≤ n) .arithOverflow
  .ok (UInt16.ofNat n)

/-- The result of a checked operation on `u32`. -/
def checkedU32 (n : Nat) : Except CoveError Nat := do
  rejectIf (2 ^ 32 ≤ n) .arithOverflow
  .ok n

def treeHeader (rowCount : UInt32) (rootNodeId nodeCount bufferCount : UInt16)
    (bufferDirectoryOffset buffersOffset : Nat) : ColumnPagePayloadHeaderV1 where
  magic := columnPagePayloadMagic
  versionMajor := columnPagePayloadVersionMajor
  headerLen := UInt16.ofNat columnPagePayloadHeaderLen
  flags := 0
  rootNodeId := rootNodeId
  nodeCount := nodeCount
  bufferCount := bufferCount
  rowCount := rowCount
  nodesOffset := UInt32.ofNat columnPagePayloadHeaderLen
  bufferDirectoryOffset := UInt32.ofNat bufferDirectoryOffset
  buffersOffset := UInt32.ofNat buffersOffset
  reserved := 0

def buildTree (rowCount : UInt32) (rootNodeId : UInt16) (nodes : List CoveEncodingNodeV1)
    (buffers : List (PageBufferKind × Bytes)) : Except CoveError Bytes := do
  rejectIf (nodes = []) .pageCorrupt
  let nodeCount ← u16TryFrom nodes.length
  let bufferCount ← u16TryFrom buffers.length
  let nodeRegionLen ← checkedU32 (nodeCount.toNat * coveEncodingNodeLen)
  let bufferDirectoryOffset ← checkedU32 (columnPagePayloadHeaderLen + nodeRegionLen)
  let bufferRegionLen ← checkedU32 (bufferCount.toNat * pageBufferDescriptorLen)
  let buffersOffset ← checkedU32 (bufferDirectoryOffset + bufferRegionLen)
  let header := treeHeader rowCount rootNodeId nodeCount bufferCount bufferDirectoryOffset
    buffersOffset
  let descriptors := describe crc32c 0 buffersOffset buffers
  let out := front ⟨header, nodes, descriptors, []⟩ ++ buffers.flatMap Prod.snd
  let parsed ← parse crc32c out
  let _ ← tree parsed
  .ok out

variable {crc32c : Bytes → UInt32} {data before : Bytes} {rowCount : UInt32}
  {w : LabelTree WrittenNode} {p : ColumnPagePayloadV1}

def contentsOf (data : Bytes) (d : PageBufferDescriptorV1) : PageBufferKind × Bytes :=
  (d.kind, slice data d.offset.toNat (d.offset.toNat + d.length.toNat))

def readBack (data : Bytes) (o : OwnedNode) : WrittenNode := ⟨o.node, o.buffers.map (contentsOf data)⟩

def writtenNodes (w : LabelTree WrittenNode) : List CoveEncodingNodeV1 := w.preorder.map (·.node)

def writtenBuffers (w : LabelTree WrittenNode) : List (PageBufferKind × Bytes) :=
  w.preorder.flatMap (·.buffers)

theorem contents_describe {buffers : List (PageBufferKind × Bytes)} (bufferId : Nat) {offset : Nat}
    (hdata : data = before ++ buffers.flatMap Prod.snd) (hoffset : before.length = offset)
    (hlen : data.length < 2 ^ 64) :
    (describe crc32c bufferId offset buffers).map (contentsOf data) = buffers := by
  induction buffers generalizing bufferId offset before with
  | nil => rfl
  | cons b buffers ih =>
    obtain ⟨kind, content⟩ := b
    rw [flatMap_cons, ← append_assoc] at hdata
    obtain ⟨-, hstart, hlength, hcontent⟩ :=
      ColumnPagePayloadV1.first_content content hdata hoffset hlen
    rw [describe, map_cons, ih (bufferId + 1) hdata (by simp [hoffset]), contentsOf]
    simp only [hstart, hlength, hcontent]

theorem exists_owned (data : Bytes) :
    (∀ (w : LabelTree WrittenNode) ds, ds.map (contentsOf data) = writtenBuffers w →
      ∃ t : PagePayloadTreeNode, t.map (readBack data) = w ∧
        t.preorder.flatMap OwnedNode.buffers = ds) ∧
    ∀ (ws : List (LabelTree WrittenNode)) ds,
      ds.map (contentsOf data) = (preorders ws).flatMap (·.buffers) →
      ∃ ts : List PagePayloadTreeNode, mapTrees (readBack data) ts = ws ∧
        (preorders ts).flatMap OwnedNode.buffers = ds := by
  apply LabelTree.forest_induction
  · intro a ws ih ds hds
    obtain ⟨own, rest, rfl, hown, hrest⟩ := map_eq_append_iff.mp hds
    obtain ⟨ts, hts, hbuffers⟩ := ih rest hrest
    refine ⟨.node ⟨a.node, own⟩ ts, ?_, ?_⟩
    · rw [LabelTree.map, hts, readBack, hown]
    · rw [LabelTree.preorder, flatMap_cons, hbuffers]
  · intro ds hds
    exact ⟨[], rfl, (map_eq_nil_iff.mp hds).symm⟩
  · intro w ws ihw ihws ds hds
    rw [preorders, flatMap_append] at hds
    obtain ⟨own, rest, rfl, hown, hrest⟩ := map_eq_append_iff.mp hds
    obtain ⟨t, rfl, hbuffers⟩ := ihw own hown
    obtain ⟨ts, rfl, hbuffers'⟩ := ihws rest hrest
    refine ⟨t :: ts, rfl, ?_⟩
    rw [preorders, flatMap_append, hbuffers, hbuffers']

/-- A tree of nodes with distinct ids that count their children and their buffers, of a size that
the fields of a payload can give. -/
structure TreeFits (rowCount : UInt32) (w : LabelTree WrittenNode) : Prop where
  ids : ((writtenNodes w).map CoveEncodingNodeV1.nodeId).Nodup
  children : w.Counted fun a => a.node.childCount.toNat
  owned : ∀ a ∈ w.preorder, a.node.bufferCount.toNat = a.buffers.length
  rows : w.label.node.logicalLen = rowCount
  nodeCount : (writtenNodes w).length < 2 ^ 16
  bufferCount : (writtenBuffers w).length < 2 ^ 16
  size : columnPagePayloadHeaderLen + (writtenNodes w).length * coveEncodingNodeLen +
    (writtenBuffers w).length * pageBufferDescriptorLen +
      ((writtenBuffers w).flatMap Prod.snd).length < 2 ^ 64

def directoryOffset (w : LabelTree WrittenNode) : Nat :=
  columnPagePayloadHeaderLen + (writtenNodes w).length * coveEncodingNodeLen

def dataOffset (w : LabelTree WrittenNode) : Nat :=
  directoryOffset w + (writtenBuffers w).length * pageBufferDescriptorLen

def laidOut (crc32c : Bytes → UInt32) (rowCount : UInt32) (w : LabelTree WrittenNode) :
    ColumnPagePayloadV1 where
  header := treeHeader rowCount w.label.node.nodeId (UInt16.ofNat (writtenNodes w).length)
    (UInt16.ofNat (writtenBuffers w).length) (directoryOffset w) (dataOffset w)
  nodes := writtenNodes w
  buffers := describe crc32c 0 (dataOffset w) (writtenBuffers w)
  data := []

def treeBytes (crc32c : Bytes → UInt32) (rowCount : UInt32) (w : LabelTree WrittenNode) : Bytes :=
  front (laidOut crc32c rowCount w) ++ (writtenBuffers w).flatMap Prod.snd

theorem writtenNodes_eq_cons (w : LabelTree WrittenNode) :
    ∃ rest, writtenNodes w = w.label.node :: rest := by
  obtain ⟨rest, hpreorder⟩ := preorder_eq_cons w
  exact ⟨rest.map (·.node), by rw [writtenNodes, hpreorder, map_cons]⟩

theorem writtenNodes_ne_nil (w : LabelTree WrittenNode) : writtenNodes w ≠ [] := by
  obtain ⟨rest, hnodes⟩ := writtenNodes_eq_cons w
  rw [hnodes]
  exact cons_ne_nil _ _

theorem TreeFits.counts (h : TreeFits rowCount w) :
    (UInt16.ofNat (writtenNodes w).length).toNat = (writtenNodes w).length ∧
      (UInt16.ofNat (writtenBuffers w).length).toNat = (writtenBuffers w).length :=
  ⟨UInt16.toNat_ofNat_of_lt' h.nodeCount, UInt16.toNat_ofNat_of_lt' h.bufferCount⟩

theorem TreeFits.offsets_lt (h : TreeFits rowCount w) :
    directoryOffset w < 2 ^ 32 ∧ dataOffset w < 2 ^ 32 := by
  have hnodes := h.nodeCount
  have hbuffers := h.bufferCount
  simp only [dataOffset, directoryOffset, columnPagePayloadHeaderLen, coveEncodingNodeLen,
    pageBufferDescriptorLen]
  omega

theorem laidOut_regions (crc32c : Bytes → UInt32) (h : TreeFits rowCount w) :
    Regions (laidOut crc32c rowCount w) := by
  obtain ⟨hnodeCount, hbufferCount⟩ := h.counts
  have hdirectory := UInt32.toNat_ofNat_of_lt' h.offsets_lt.1
  have hdata := UInt32.toNat_ofNat_of_lt' h.offsets_lt.2
  constructor
  · rfl
  · simp only [laidOut, treeHeader, hdirectory, hnodeCount]
    rfl
  · simp only [laidOut, treeHeader, hdirectory, hdata, hbufferCount]
    rfl
  · exact hnodeCount.symm
  · rw [laidOut, length_describe]
    exact hbufferCount.symm

theorem dataOffset_eq (crc32c : Bytes → UInt32) (h : TreeFits rowCount w) :
    (laidOut crc32c rowCount w).header.buffersOffset.toNat = dataOffset w := by
  have hregions := laidOut_regions crc32c h
  rw [hregions.buffersOffset, hregions.bufferDirectoryOffset, hregions.nodesOffset,
    ← hregions.nodeCount, ← hregions.bufferCount, laidOut, length_describe]
  rfl

theorem findRoot_head {node : CoveEncodingNodeV1} {nodes : List CoveEncodingNodeV1}
    (h : ((node :: nodes).map CoveEncodingNodeV1.nodeId).Nodup) :
    ColumnPagePayloadV1.findRoot (node :: nodes) node.nodeId = .ok node := by
  have hothers : (nodes.filter fun other => other.nodeId = node.nodeId) = [] := by
    refine filter_eq_nil_iff.mpr fun other hother heq => ?_
    refine (nodup_cons.mp h).1 (mem_map.mpr ⟨other, hother, ?_⟩)
    exact of_decide_eq_true heq
  rw [ColumnPagePayloadV1.findRoot, filter_cons_of_pos (by simp), hothers]

theorem treeBytes_length (crc32c : Bytes → UInt32) (h : TreeFits rowCount w) :
    (treeBytes crc32c rowCount w).length =
      dataOffset w + ((writtenBuffers w).flatMap Prod.snd).length := by
  rw [treeBytes, length_append, (laidOut_regions crc32c h).front_length, dataOffset_eq crc32c h]

theorem laidOut_directory (crc32c : Bytes → UInt32) (h : TreeFits rowCount w) :
    Directory crc32c (treeBytes crc32c rowCount w) (treeBytes crc32c rowCount w).length 0
      (dataOffset w) (describe crc32c 0 (dataOffset w) (writtenBuffers w)) := by
  have hlen := treeBytes_length crc32c h
  have hbuffers := h.bufferCount
  have hsize := h.size
  have hfront := (laidOut_regions crc32c h).front_length
  have hparsed : parseBuffers crc32c (treeBytes crc32c rowCount w) (dataOffset w)
      (writtenBuffers w).length 0 (directoryOffset w) (dataOffset w) =
      .ok (describe crc32c 0 (dataOffset w) (writtenBuffers w),
        (treeBytes crc32c rowCount w).length) := by
    refine ColumnPagePayloadV1.parseBuffers_describe (a := (laidOut crc32c rowCount w).header.serialize ++
      (writtenNodes w).flatMap CoveEncodingNodeV1.serialize) rfl ?_ rfl ?_ ?_ le_rfl ?_
    · rw [length_append, ColumnPagePayloadHeaderV1.serialize_length, nodes_length]
      rfl
    · rw [hfront, dataOffset_eq crc32c h]
    · rw [hlen, dataOffset, directoryOffset]
      exact hsize
    · omega
  exact ((parseBuffers_ok_iff le_rfl).mp hparsed).2.1

theorem laidOut_accepted (crc32c : Bytes → UInt32) (h : TreeFits rowCount w)
    (hreserved : ∀ a ∈ w.preorder, a.node.reserved = 0) :
    Accepted crc32c (treeBytes crc32c rowCount w)
      { laidOut crc32c rowCount w with data := treeBytes crc32c rowCount w } := by
  have hregions := laidOut_regions crc32c h
  refine ⟨⟨rfl, rfl, rfl, rfl, rfl⟩, ⟨hregions.nodesOffset, hregions.bufferDirectoryOffset,
    hregions.buffersOffset, hregions.nodeCount, hregions.bufferCount⟩,
    ⟨writtenNodes_ne_nil w, ?_, h.ids, ?_⟩, ?_, ?_, rfl⟩
  · exact forall_mem_map.mpr hreserved
  · obtain ⟨rest, hnodes⟩ := writtenNodes_eq_cons w
    refine ⟨w.label.node, ?_, h.rows⟩
    have hids := h.ids
    rw [hnodes] at hids
    change ColumnPagePayloadV1.findRoot (writtenNodes w) w.label.node.nodeId = _
    rw [hnodes]
    exact findRoot_head hids
  · change Directory crc32c _ _ 0 (laidOut crc32c rowCount w).header.buffersOffset.toNat _
    rw [dataOffset_eq crc32c h]
    exact laidOut_directory crc32c h
  · change treeBytes crc32c rowCount w = front (laidOut crc32c rowCount w) ++
      (treeBytes crc32c rowCount w).drop (laidOut crc32c rowCount w).header.buffersOffset.toNat
    rw [treeBytes, drop_left' hregions.front_length]

theorem u16TryFrom_ok {n : Nat} (h : n < 2 ^ 16) : u16TryFrom n = .ok (UInt16.ofNat n) :=
  rejectIf_andThen (not_le.mpr h) rfl

theorem checkedU32_ok {n m : Nat} (h : m < 2 ^ 32) (heq : n = m) : checkedU32 n = .ok m :=
  rejectIf_andThen (not_le.mpr (heq ▸ h)) (congrArg _ heq)

theorem buildTree_of_parsed {t : PagePayloadTreeNode} (h : TreeFits rowCount w)
    (hparse : parse crc32c (treeBytes crc32c rowCount w) = .ok p) (htree : tree p = .ok t) :
    buildTree crc32c rowCount w.label.node.nodeId (writtenNodes w) (writtenBuffers w) =
      .ok (treeBytes crc32c rowCount w) := by
  obtain ⟨hnodeCount, hbufferCount⟩ := h.counts
  obtain ⟨hdirectory, hdata⟩ := h.offsets_lt
  rw [buildTree]
  refine rejectIf_andThen (writtenNodes_ne_nil w) ?_
  refine andThen_ok (u16TryFrom_ok h.nodeCount) ?_
  refine andThen_ok (u16TryFrom_ok h.bufferCount) ?_
  rw [hnodeCount, hbufferCount]
  refine andThen_ok (checkedU32_ok (by rw [directoryOffset] at hdirectory; omega) rfl) ?_
  refine andThen_ok (checkedU32_ok hdirectory rfl) ?_
  refine andThen_ok (checkedU32_ok (by rw [dataOffset] at hdata; omega) rfl) ?_
  refine andThen_ok (checkedU32_ok hdata rfl) ?_
  exact andThen_ok hparse (andThen_ok htree rfl)

/-- A tree whose nodes have no reserved bits is built, and read back with the contents of the buffers
at the nodes that own them. The tree of an accepted payload takes each node and each buffer once. -/
theorem page_trees_round_trip (crc32c : Bytes → UInt32) :
    (∀ rowCount w, TreeFits rowCount w → (∀ a ∈ w.preorder, a.node.reserved = 0) → ∃ bytes p t,
        buildTree crc32c rowCount w.label.node.nodeId (writtenNodes w) (writtenBuffers w) =
          .ok bytes ∧
        parse crc32c bytes = .ok p ∧ tree p = .ok t ∧ t.map (readBack p.data) = w) ∧
    ∀ bytes p t, parse crc32c bytes = .ok p → tree p = .ok t →
      TreeOf p.nodes p.buffers t ∧ (p.nodes.map CoveEncodingNodeV1.nodeId).Nodup := by
  refine ⟨fun rowCount w hfits hreserved => ?_, fun bytes p t hparse htree => ?_⟩
  · have haccepted := laidOut_accepted crc32c hfits hreserved
    have hparse := parse_ok_iff.mpr haccepted
    have hlen := treeBytes_length crc32c hfits
    have hcontents : (describe crc32c 0 (dataOffset w) (writtenBuffers w)).map
        (contentsOf (treeBytes crc32c rowCount w)) = writtenBuffers w := by
      refine contents_describe 0 rfl
        ((laidOut_regions crc32c hfits).front_length.trans (dataOffset_eq crc32c hfits)) ?_
      rw [hlen, dataOffset, directoryOffset]
      exact hfits.size
    obtain ⟨t, ht, hbuffers⟩ := (exists_owned (treeBytes crc32c rowCount w)).1 w _ hcontents
    have hpreorder : w.preorder = t.preorder.map (readBack (treeBytes crc32c rowCount w)) :=
      (congrArg LabelTree.preorder ht).symm.trans preorder_map
    have hlabel : w.label = readBack (treeBytes crc32c rowCount w) t.label :=
      (congrArg LabelTree.label ht).symm.trans label_map
    have htree : tree { laidOut crc32c rowCount w with data := treeBytes crc32c rowCount w } =
        .ok t := by
      refine payloadTree_ok_iff.mpr ⟨?_, ?_, hbuffers, ?_, fun o ho => ?_⟩
      · exact (congrArg (fun a : WrittenNode => a.node.nodeId) hlabel).symm
      · change _ = writtenNodes w
        rw [writtenNodes, hpreorder, map_map]
        rfl
      · have hcounted : (t.map (readBack (treeBytes crc32c rowCount w))).Counted
            fun a => a.node.childCount.toNat := by
          rw [ht]
          exact hfits.children
        rw [counted_map] at hcounted
        exact hcounted
      · have howned := hfits.owned (readBack (treeBytes crc32c rowCount w) o)
          (by rw [hpreorder]; exact mem_map_of_mem ho)
        rwa [readBack, length_map] at howned
    exact ⟨_, _, t, buildTree_of_parsed hfits hparse htree, hparse, htree, ht⟩
  · exact ⟨(payloadTree_ok_iff.mp htree).2, (parse_ok_iff.mp hparse).nodes.ids⟩

def pageNode (nodeId childCount bufferCount reserved : UInt16) : CoveEncodingNodeV1 :=
  ⟨nodeId, .canonical, .list, .list, 0, 3, childCount, bufferCount, 0, 0, 0, reserved⟩

def listPage : LabelTree WrittenNode :=
  .node ⟨pageNode 0 1 1 0, [(.childLayout, [0, 2])]⟩ [.node ⟨pageNode 1 0 1 0, [(.values, [10, 11])]⟩ []]

theorem page_trees_round_trip_list : ∃ bytes p t,
    buildTree (fun _ => 0) 3 0 [pageNode 0 1 1 0, pageNode 1 0 1 0]
      [(.childLayout, [0, 2]), (.values, [10, 11])] = .ok bytes ∧
    parse (fun _ => 0) bytes = .ok p ∧ tree p = .ok t ∧ t.map (readBack p.data) = listPage ∧
      TreeOf p.nodes p.buffers t := by
  obtain ⟨hbuilt, haccepted⟩ := page_trees_round_trip fun _ => 0
  have hfits : TreeFits 3 listPage := ⟨by decide, ⟨rfl, ⟨rfl, trivial⟩, trivial⟩,
    by decide, rfl, by decide, by decide, by decide⟩
  obtain ⟨bytes, p, t, hbuild, hparse, htree, hback⟩ := hbuilt 3 listPage hfits (by decide)
  exact ⟨bytes, p, t, hbuild, hparse, htree, hback, (haccepted bytes p t hparse htree).1⟩

/-- The reserved field of a node has to be zero. -/
theorem reserved_node_rejected : TreeFits 3 (.node ⟨pageNode 0 0 0 1, []⟩ []) ∧
      buildTree (fun _ => 0) 3 0 [pageNode 0 0 0 1] [] = .error .reservedNotZero :=
  ⟨⟨by decide, ⟨rfl, trivial⟩, by decide, rfl, by decide, by decide, by decide⟩, by decide +kernel⟩

end

end CoveFormat.PageTrees
