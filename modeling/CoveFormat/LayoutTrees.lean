import CoveFormat.LayoutPlans
import CoveFormat.SegmentIndexes

namespace CoveFormat.LayoutTrees

open ExceptRules Grouping LayoutPlans List ParentForests Relation ScanSplits SegmentIndexes
  StackedRanges

/-- Every node is reached from the root by child ranges, and a node other than the root lies in the
child range of its parent and in no other. -/
structure IsTree (header : LayoutPlanHeaderV2) (nodes : List LayoutPlanNodeV2) : Prop where
  distinct : (nodes.map (·.nodeId)).Nodup
  reached : ∀ node ∈ nodes, ∃ root ∈ nodes, root.nodeId = header.rootNodeId ∧
    ReflTransGen (fun a b => b ∈ childRange nodes a) root node
  child : ∀ node ∈ nodes, node.nodeId ≠ header.rootNodeId → ∃ parent ∈ nodes,
    parent.nodeId = node.parentNodeId ∧ ∀ p ∈ nodes, node ∈ childRange nodes p ↔ p = parent

/-- The step from a node other than the root to its parent. -/
def StepsUp (header : LayoutPlanHeaderV2) (nodes : List LayoutPlanNodeV2)
    (node parent : LayoutPlanNodeV2) : Prop :=
  node.nodeId ≠ header.rootNodeId ∧ parent ∈ nodes ∧ parent.nodeId = node.parentNodeId

/-- A node other than the root that carries the id which stands for no parent is not its own
ancestor. -/
def SentinelApart (header : LayoutPlanHeaderV2) (nodes : List LayoutPlanNodeV2) : Prop :=
  ∀ node ∈ nodes, node.nodeId = absentId → node.nodeId ≠ header.rootNodeId →
    ¬ TransGen (StepsUp header nodes) node node

section

variable {header : LayoutPlanHeaderV2} {nodes : List LayoutPlanNodeV2}
  {root node child parent : LayoutPlanNodeV2} {hops : Nat}

theorem childRange_subset (hchild : child ∈ childRange nodes node) : child ∈ nodes :=
  mem_of_mem_drop (mem_of_mem_take hchild)

section

variable (h : (nodes.map (·.nodeId)).Nodup)
include h

theorem eq_of_nodeId (hnode : node ∈ nodes) (hparent : parent ∈ nodes)
    (heq : node.nodeId = parent.nodeId) : node = parent :=
  inj_on_of_nodup_map h hnode hparent heq

theorem stepsUp_functional : Functional (StepsUp header nodes) := by
  rintro a b c ⟨-, hb, hba⟩ ⟨-, hc, hca⟩
  exact eq_of_nodeId h hb hc (hba.trans hca.symm)

end

theorem not_stepsUp_root (hroot : root.nodeId = header.rootNodeId) (b : LayoutPlanNodeV2) :
    ¬ StepsUp header nodes root b := fun h => h.1 hroot

variable (h : Accepted header nodes)
include h

theorem stepsUp_of_child (hnode : node ∈ nodes) (hchild : child ∈ childRange nodes node)
    (hne : child.nodeId ≠ header.rootNodeId) : StepsUp header nodes child node :=
  ⟨hne, hnode, (h.children node hnode child hchild).symm⟩

theorem mem_childRange_of_stepsUp (hchild : child ∈ nodes) (hup : StepsUp header nodes child node) :
    child ∈ childRange nodes node := by
  obtain ⟨hne, hnode, hid⟩ := hup
  obtain ⟨twin, htwin, heq⟩ := mem_map.mp (h.declared child hchild hne)
  obtain ⟨parent, hparent, hrange⟩ := mem_flatMap.mp htwin
  obtain rfl := eq_of_nodeId h.distinct (childRange_subset hrange) hchild heq
  have hsame := h.children parent hparent twin hrange
  obtain rfl := eq_of_nodeId h.distinct hparent hnode (hsame.symm.trans hid.symm)
  exact hrange

theorem exists_end (hnode : node ∈ nodes)
    (hwalk : walkParents nodes hops node.parentNodeId = .ok ()) :
    ∃ last ∈ nodes, ReflTransGen (StepsUp header nodes) node last ∧
      last.parentNodeId = absentId := by
  induction hops generalizing node with
  | zero =>
    rw [walkParents] at hwalk
    split at hwalk
    · rename_i habsent
      exact ⟨node, hnode, .refl, habsent⟩
    · cases hwalk
  | succ hops ih =>
    rw [walkParents] at hwalk
    split at hwalk
    · rename_i habsent
      exact ⟨node, hnode, .refl, habsent⟩
    · rename_i hpresent
      split at hwalk
      · cases hwalk
      · rename_i parent hfind
        have hparent := mem_of_find?_eq_some hfind
        have hid : parent.nodeId = node.parentNodeId := by simpa using List.find?_some hfind
        have hne : node.nodeId ≠ header.rootNodeId :=
          fun hroot => hpresent (h.rootParent node hnode hroot).1
        obtain ⟨last, hlast, hup, habsent⟩ := ih hparent hwalk
        exact ⟨last, hlast, hup.head ⟨hne, hparent, hid⟩, habsent⟩

theorem root_or_sentinel (hroot : root ∈ nodes) (hid : root.nodeId = header.rootNodeId)
    (hnode : node ∈ nodes) :
    ∃ last ∈ nodes, ReflTransGen (StepsUp header nodes) node last ∧
      (last = root ∨ ∃ sentinel ∈ nodes, sentinel.nodeId = absentId ∧
        sentinel.nodeId ≠ header.rootNodeId ∧ StepsUp header nodes last sentinel) := by
  obtain ⟨last, hlast, hup, habsent⟩ := exists_end h hnode (h.walks node hnode)
  by_cases hlastRoot : last.nodeId = header.rootNodeId
  · exact ⟨last, hlast, hup, .inl (eq_of_nodeId h.distinct hlast hroot (hlastRoot.trans hid.symm))⟩
  · obtain ⟨sentinel, hsentinel, hsid⟩ := mem_map.mp (h.parent last hlast hlastRoot)
    have hstep : StepsUp header nodes last sentinel := ⟨hlastRoot, hsentinel, hsid⟩
    by_cases hsroot : sentinel.nodeId = header.rootNodeId
    · obtain rfl := eq_of_nodeId h.distinct hsentinel hroot (hsroot.trans hid.symm)
      exact ⟨sentinel, hroot, hup.tail hstep, .inl rfl⟩
    · exact ⟨last, hlast, hup, .inr ⟨sentinel, hsentinel, hsid.trans habsent, hsroot, hstep⟩⟩

theorem stepsUp_to_root (hapart : SentinelApart header nodes) (hroot : root ∈ nodes)
    (hid : root.nodeId = header.rootNodeId) (hnode : node ∈ nodes) :
    ReflTransGen (StepsUp header nodes) node root := by
  by_cases hsentinel : ∃ sentinel ∈ nodes, sentinel.nodeId = absentId ∧
      sentinel.nodeId ≠ header.rootNodeId
  · obtain ⟨sentinel, hmem, hsid, hsroot⟩ := hsentinel
    have hcycle := hapart sentinel hmem hsid hsroot
    refine @reaches_root _ _ root sentinel node (· ∈ nodes) (fun a ha => ?_) hmem hcycle hnode
    obtain ⟨last, -, hup, hend⟩ := root_or_sentinel h hroot hid ha
    refine ⟨last, hup, hend.imp_right ?_⟩
    rintro ⟨other, hother, hoid, -, hstep⟩
    obtain rfl := eq_of_nodeId h.distinct hother hmem (hoid.trans hsid.symm)
    exact hstep
  · obtain ⟨last, -, hup, rfl | ⟨sentinel, hmem, hsid, hsroot, -⟩⟩ := root_or_sentinel h hroot hid hnode
    · exact hup
    · exact absurd ⟨sentinel, hmem, hsid, hsroot⟩ hsentinel

theorem reached_of_stepsUp (hnode : node ∈ nodes)
    (hup : ReflTransGen (StepsUp header nodes) node root) :
    ReflTransGen (fun a b => b ∈ childRange nodes a) root node := by
  induction hup using ReflTransGen.head_induction_on with
  | refl => exact .refl
  | head hstep _ ih => exact (ih hstep.2.1).tail (mem_childRange_of_stepsUp h hnode hstep)

theorem stepsUp_of_reached (hroot : root ∈ nodes) (hid : root.nodeId = header.rootNodeId)
    (hreach : ReflTransGen (fun a b => b ∈ childRange nodes a) root node) :
    node ∈ nodes ∧ ReflTransGen (StepsUp header nodes) node root := by
  induction hreach with
  | refl => exact ⟨hroot, .refl⟩
  | tail _ hchild ih =>
    have hmem := childRange_subset hchild
    refine ⟨hmem, ?_⟩
    rename_i parent child _
    by_cases hne : child.nodeId = header.rootNodeId
    · rw [eq_of_nodeId h.distinct hmem hroot (hne.trans hid.symm)]
    · exact ih.2.head (stepsUp_of_child h ih.1 hchild hne)

theorem child_of_accepted (hnode : node ∈ nodes) (hne : node.nodeId ≠ header.rootNodeId) : ∃ parent ∈ nodes,
      parent.nodeId = node.parentNodeId ∧ ∀ p ∈ nodes, node ∈ childRange nodes p ↔ p = parent := by
  obtain ⟨parent, hparent, hid⟩ := mem_map.mp (h.parent node hnode hne)
  refine ⟨parent, hparent, hid, fun p hp => ⟨fun hrange => ?_, ?_⟩⟩
  · exact eq_of_nodeId h.distinct hp hparent ((h.children p hp node hrange).symm.trans hid.symm)
  · rintro rfl
    exact mem_childRange_of_stepsUp h hnode ⟨hne, hparent, hid⟩

theorem isTree_iff : IsTree header nodes ↔ SentinelApart header nodes := by
  obtain ⟨root, hroot, hid⟩ := mem_map.mp h.root
  constructor
  · intro htree node hnode _ _
    obtain ⟨top, htop, htopid, hreach⟩ := htree.reached node hnode
    exact not_ancestor_of_reaches (stepsUp_functional h.distinct) (not_stepsUp_root htopid)
      (stepsUp_of_reached h htop htopid hreach).2
  · intro hapart
    exact ⟨h.distinct, fun node hnode => ⟨root, hroot, hid, reached_of_stepsUp h hnode
      (stepsUp_to_root h hapart hroot hid hnode)⟩, fun node hnode => child_of_accepted h hnode⟩

end

section

variable {table : CountedTable} {scanSplits : Option ScanSplitIndexV2} {index : TableSegmentIndex}
  {nodes out : List LayoutPlanNodeV2} {segments : List TableSegmentIndexEntryV1}
  {plan : LayoutPlanV2}

def segmentNodes (table : CountedTable) (scanSplits : Option ScanSplitIndexV2) (first : Nat)
    (segments : List TableSegmentIndexEntryV1) : List LayoutPlanNodeV2 :=
  (segments.zipIdx first).map fun e => segmentNode table scanSplits e.2 e.1

theorem pushSegments_ok_iff (hnodes : nodes.length < 2 ^ 32) :
    pushSegments table scanSplits nodes segments = .ok out ↔
      nodes.length + segments.length < 2 ^ 32 ∧
        out = nodes ++ segmentNodes table scanSplits (nodes.length + 1) segments := by
  induction segments generalizing nodes with
  | nil =>
    simp only [pushSegments, segmentNodes, Except.ok.injEq, length_nil, Nat.add_zero, hnodes,
      zipIdx_nil, map_nil, append_nil, true_and]
    exact eq_comm
  | cons segment segments ih =>
    simp only [pushSegments, andThen_eq_ok_iff, rejectIf_eq_ok_iff, not_le]
    constructor
    · rintro ⟨-, hlt, h⟩
      obtain ⟨hlen, rfl⟩ := (ih (by simpa using hlt)).mp h
      rw [length_append, length_singleton] at hlen
      refine ⟨by rw [length_cons]; omega, ?_⟩
      simp [segmentNodes]
    · rintro ⟨hlen, rfl⟩
      rw [length_cons] at hlen
      refine ⟨(), by omega, (ih (by simp; omega)).mpr ⟨by simp; omega, ?_⟩⟩
      simp [segmentNodes]

theorem segmentNodes_length (first : Nat) :
    (segmentNodes table scanSplits first segments).length = segments.length := by
  simp [segmentNodes]

theorem segmentNodes_ids (first : Nat) : (segmentNodes table scanSplits first segments).map
    (·.nodeId) = List.range' first segments.length := by
  rw [segmentNodes, List.map_map, ← List.zipIdx_map_snd first segments]
  rfl

theorem exists_segment_of_node {first : Nat} {node : LayoutPlanNodeV2}
    (h : node ∈ segmentNodes table scanSplits first segments) :
    ∃ segment ∈ segments, ∃ id, first ≤ id ∧ node = segmentNode table scanSplits id segment := by
  obtain ⟨e, he, rfl⟩ := mem_map.mp h
  obtain ⟨hle, -, hget⟩ := mem_zipIdx he
  exact ⟨e.1, hget ▸ getElem_mem _, e.2, hle, rfl⟩

theorem segment_fits (h : index.validate = .ok ()) {e : TableSegmentIndexEntryV1}
    (he : e ∈ index.entries) : e.rowStart + e.rowCount < 2 ^ 64 := by
  obtain ⟨⟨hnodup, htiles⟩, -⟩ := validate_ok_iff.mp h
  obtain ⟨order, horder, hstack⟩ := htiles e.tableId
  have hmem : e ∈ order := horder.symm.subset (mem_under.mpr ⟨he, rfl⟩)
  have hend := hstack.ends e hmem
  have hsum := sum_rowCount_lt (fun e he => index.rowCount_lt e (mem_under.mp he).1)
    (nodup_segmentIds hnodup e.tableId)
  rw [(horder.map _).sum_eq] at hend
  omega

def defaultNodes (table : CountedTable) (scanSplits : Option ScanSplitIndexV2)
    (segments : List TableSegmentIndexEntryV1) : List LayoutPlanNodeV2 :=
  rootNode table :: tableNode table segments.length :: segmentNodes table scanSplits 3 segments

theorem forall_default {p : LayoutPlanNodeV2 → Prop} (hroot : p (rootNode table))
    (htable : p (tableNode table segments.length))
    (hsegments : ∀ segment ∈ segments, ∀ id, 3 ≤ id → p (segmentNode table scanSplits id segment)) :
    ∀ node ∈ defaultNodes table scanSplits segments, p node := by
  refine forall_mem_cons.mpr ⟨hroot, forall_mem_cons.mpr ⟨htable, fun node hnode => ?_⟩⟩
  obtain ⟨segment, hsegment, id, hid, rfl⟩ := exists_segment_of_node hnode
  exact hsegments segment hsegment id hid

theorem defaultNodes_ids : (defaultNodes table scanSplits segments).map (·.nodeId) =
    List.range' 1 (segments.length + 2) := by
  rw [defaultNodes, map_cons, map_cons, segmentNodes_ids, List.range'_succ,
    List.range'_succ]
  rfl

theorem childRange_root : childRange (defaultNodes table scanSplits segments) (rootNode table) =
      [tableNode table segments.length] := rfl

theorem childRange_table (hlen : segments.length + 2 < 2 ^ 32) :
    childRange (defaultNodes table scanSplits segments) (tableNode table segments.length) =
      segmentNodes table scanSplits 3 segments := by
  have hmod : segments.length % 2 ^ 32 = segments.length := Nat.mod_eq_of_lt (by omega)
  have hall : (segmentNodes table scanSplits 3 segments).length = segments.length :=
    segmentNodes_length 3
  change (segmentNodes table scanSplits 3 segments).take (segments.length % 2 ^ 32) = _
  rw [hmod, ← hall, take_length]

theorem children_default (hlen : segments.length + 2 < 2 ^ 32) :
    (defaultNodes table scanSplits segments).flatMap
        (childRange (defaultNodes table scanSplits segments)) =
      tableNode table segments.length :: segmentNodes table scanSplits 3 segments := by
  have hleaves : (segmentNodes table scanSplits 3 segments).flatMap
      (childRange (defaultNodes table scanSplits segments)) = [] := by
    refine flatMap_eq_nil_iff.mpr fun node hnode => ?_
    obtain ⟨segment, -, id, -, rfl⟩ := exists_segment_of_node hnode
    exact take_zero
  have hall : defaultNodes table scanSplits segments = rootNode table ::
    tableNode table segments.length :: segmentNodes table scanSplits 3 segments := rfl
  rw [congrArg (List.flatMap _) hall, flatMap_cons, flatMap_cons, hleaves, childRange_root,
    childRange_table hlen, append_nil]
  rfl

theorem walk_default (hops : Nat) :
    walkParents (defaultNodes table scanSplits segments) hops absentId = .ok () ∧
    walkParents (defaultNodes table scanSplits segments) (hops + 1) 1 = .ok () ∧
    walkParents (defaultNodes table scanSplits segments) (hops + 2) 2 = .ok () := by
  have habsent : ∀ hops,
      walkParents (defaultNodes table scanSplits segments) hops absentId = .ok () := by
    intro hops
    cases hops <;> exact if_pos rfl
  have hroot : ∀ hops,
      walkParents (defaultNodes table scanSplits segments) (hops + 1) 1 = .ok () := by
    intro hops
    exact habsent hops
  refine ⟨habsent hops, hroot hops, ?_⟩
  exact hroot hops

theorem accepted_default (hlen : segments.length + 2 < 2 ^ 32)
    (hrows : ∀ segment ∈ segments, segment.rowStart + segment.rowCount < 2 ^ 64) :
    Accepted ⟨1, (segments.length + 2) % 2 ^ 32, 1, 0, 0⟩ (defaultNodes table scanSplits segments) := by
  have hmod : segments.length % 2 ^ 32 = segments.length := Nat.mod_eq_of_lt (by omega)
  have hcount : (defaultNodes table scanSplits segments).length = segments.length + 2 := by
    rw [defaultNodes, length_cons, length_cons, segmentNodes_length]
  have hids := @defaultNodes_ids table scanSplits segments
  have hwalk := @walk_default table scanSplits segments
  have htable := table.rowCount_lt
  refine ⟨?_, ?_, ?_, ?_, ?_, ?_, ?_, ?_, ?_, ?_⟩
  · rw [hcount]
    exact Nat.mod_eq_of_lt hlen
  · rw [hids]
    exact nodup_range'
  · rw [hcount]
    refine forall_default ?_ ?_ fun segment hsegment id _ => ?_
    · exact ⟨by simpa [rootNode] using htable, by simp [rootNode], by simp [rootNode]⟩
    · simp only [tableNode, hmod]
      exact ⟨by omega, by omega, by omega⟩
    · exact ⟨hrows segment hsegment, by simp [segmentNode], by simp [segmentNode]⟩
  · rw [hids]
    exact mem_range'_1.mpr ⟨Nat.le_refl _, by change 1 < _; omega⟩
  · refine forall_default (fun _ => ⟨rfl, rfl⟩) (fun h => absurd h (show 2 ≠ 1 by decide))
      fun segment _ id hid h => ?_
    exact absurd h (show id ≠ 1 by omega)
  · rw [hids]
    refine forall_default (fun h => absurd rfl h) (fun _ => ?_) fun segment _ id _ _ => ?_
    · exact mem_range'_1.mpr ⟨Nat.le_refl _, by change 1 < _; omega⟩
    · exact mem_range'_1.mpr ⟨by change 1 ≤ 2; omega, by change 2 < _; omega⟩
  · rw [hcount]
    exact forall_default (hwalk _).1 (hwalk _).2.1 fun segment _ id _ => (hwalk _).2.2
  · refine forall_default ?_ ?_ fun segment _ id _ => ?_
    · rw [childRange_root]
      exact forall_mem_singleton.mpr rfl
    · rw [childRange_table hlen]
      intro child hchild
      obtain ⟨segment, -, id, -, rfl⟩ := exists_segment_of_node hchild
      rfl
    · intro child hchild
      cases hchild
  · rw [children_default hlen, map_cons, segmentNodes_ids]
    exact (List.range'_succ ▸ nodup_range' : (List.range' 2 (segments.length + 1)).Nodup)
  · rw [children_default hlen]
    intro node hnode hne
    rcases mem_cons.mp hnode with rfl | hrest
    · exact absurd rfl hne
    · exact mem_map_of_mem hrest

theorem buildDefaultLayoutPlan_ok_iff (h : index.validate = .ok ()) :
    buildDefaultLayoutPlan table scanSplits index.entries = .ok plan ↔
      (segmentsOf table index.entries).length + 2 < 2 ^ 32 ∧
        plan = ⟨⟨1, ((segmentsOf table index.entries).length + 2) % 2 ^ 32, 1, 0, 0⟩,
          defaultNodes table scanSplits (segmentsOf table index.entries)⟩ := by
  have hrows : ∀ segment ∈ segmentsOf table index.entries,
      segment.rowStart + segment.rowCount < 2 ^ 64 :=
    fun segment hsegment => segment_fits h (mem_of_mem_filter hsegment)
  have hpush : ∀ nodes, pushSegments table scanSplits
      [rootNode table, tableNode table (segmentsOf table index.entries).length]
      (segmentsOf table index.entries) = .ok nodes ↔
        2 + (segmentsOf table index.entries).length < 2 ^ 32 ∧
          nodes = defaultNodes table scanSplits (segmentsOf table index.entries) :=
    fun nodes => pushSegments_ok_iff (show 2 < 2 ^ 32 by decide)
  have hlength : (defaultNodes table scanSplits (segmentsOf table index.entries)).length =
      (segmentsOf table index.entries).length + 2 := by
    rw [defaultNodes, length_cons, length_cons, segmentNodes_length]
  simp only [buildDefaultLayoutPlan, andThen_eq_ok_iff, hpush, Except.ok.injEq]
  constructor
  · rintro ⟨nodes, ⟨hlen, rfl⟩, -, -, rfl⟩
    exact ⟨by omega, by rw [hlength]⟩
  · rintro ⟨hlen, rfl⟩
    refine ⟨_, ⟨by omega, rfl⟩, (), validateLayoutNodes_ok_iff.mpr ?_, ?_⟩
    · rw [hlength]
      exact accepted_default hlen hrows
    · rw [hlength]

theorem accepted_of_build {segments : List TableSegmentIndexEntryV1}
    (h : buildDefaultLayoutPlan table scanSplits segments = .ok plan) :
    Accepted plan.header plan.nodes := by
  obtain ⟨nodes, -, h⟩ := of_andThen h
  obtain ⟨hvalid, h⟩ := of_check h
  cases h
  exact validateLayoutNodes_ok_iff.mp hvalid

end

/-- An accepted plan is a tree exactly if no node but the root with the id that stands for no parent
is its own ancestor. Default plans are accepted, and for a valid segment index they are built as long
as the ids of their nodes are 32 bits wide. -/
theorem validateLayoutNodes_tree_iff (header : LayoutPlanHeaderV2) (nodes : List LayoutPlanNodeV2)
    (table : CountedTable) (scanSplits : Option ScanSplitIndexV2) (index : TableSegmentIndex) :
    (validateLayoutNodes header nodes = .ok () →
      (IsTree header nodes ↔ SentinelApart header nodes)) ∧
    (∀ plan, buildDefaultLayoutPlan table scanSplits index.entries = .ok plan →
      validateLayoutNodes plan.header plan.nodes = .ok ()) ∧
    (index.validate = .ok () →
      ((∃ plan, buildDefaultLayoutPlan table scanSplits index.entries = .ok plan) ↔
        (segmentsOf table index.entries).length + 2 < 2 ^ 32)) := by
  refine ⟨fun h => isTree_iff (validateLayoutNodes_ok_iff.mp h),
    fun plan h => validateLayoutNodes_ok_iff.mpr (accepted_of_build h), fun h => ?_⟩
  simp only [buildDefaultLayoutPlan_ok_iff h, exists_and_left, exists_eq, and_true]

def twoSegments : TableSegmentIndex where
  flags := 0
  entries := [⟨1, 1, 0, 5, 1, 5, 0, 0, one_lt_u32, one_lt_u32, five_lt_u32⟩,
    ⟨1, 2, 5, 3, 1, 5, 0, 0, two_lt_u32, one_lt_u32, five_lt_u32⟩]
  rowCount_lt := by decide

/-- The default plan of a table with two segments is built and accepted, and it is a tree. -/
theorem validateLayoutNodes_tree_iff_default : ∃ plan,
    buildDefaultLayoutPlan ⟨⟨1⟩, 8, by decide⟩ none twoSegments.entries = .ok plan ∧
      validateLayoutNodes plan.header plan.nodes = .ok () ∧ IsTree plan.header plan.nodes := by
  have hrun : (buildDefaultLayoutPlan ⟨⟨1⟩, 8, by decide⟩ none
      twoSegments.entries).toOption.any fun plan =>
        decide (∀ node ∈ plan.nodes, node.nodeId ≠ absentId) := by decide +kernel
  obtain ⟨plan, hplan, hids⟩ := (Option.any_eq_true _ _).mp hrun
  have hplan := toOption_eq_some_iff.mp hplan
  obtain ⟨htree, haccepted, -⟩ :=
    validateLayoutNodes_tree_iff plan.header plan.nodes ⟨⟨1⟩, 8, by decide⟩ none twoSegments
  have haccepted := haccepted plan hplan
  exact ⟨plan, hplan, haccepted, (htree haccepted).mpr fun node hnode hid =>
    absurd hid (of_decide_eq_true hids node hnode)⟩

def selfParentNodes : List LayoutPlanNodeV2 :=
  [⟨1, absentId, 0, 0, 0, 0, 0, 0, 0, 0, 0, 0, 0, 0, 0, 0, 0, 0⟩,
    ⟨absentId, absentId, 1, 0, 0, 0, 0, 0, 0, 0, 0, 0, 0, 1, 1, 0, 0, 0⟩]

theorem self_parent_accepted : validateLayoutNodes ⟨1, 2, 1, 0, 0⟩ selfParentNodes = .ok () ∧
    ¬ IsTree ⟨1, 2, 1, 0, 0⟩ selfParentNodes := by
  have haccepted : validateLayoutNodes ⟨1, 2, 1, 0, 0⟩ selfParentNodes = .ok () := by decide +kernel
  refine ⟨haccepted, fun htree => ?_⟩
  have hcycle := (isTree_iff (validateLayoutNodes_ok_iff.mp haccepted)).mp htree selfParentNodes[1]
    (by decide) rfl (by decide)
  exact hcycle (.single ⟨by decide, by decide, rfl⟩)

end CoveFormat.LayoutTrees
