import CoveFormat.ParentForests
import CoveFormat.ScanSplits

namespace CoveFormat.LayoutPlans

open CheckedArith ExceptRules List Relation ScanSplits

def absentId : Nat := 2 ^ 32 - 1

structure LayoutPlanHeaderV2 where
  (layoutId nodeCount rootNodeId flags checksum : Nat)

structure LayoutPlanNodeV2 where
  (nodeId parentNodeId nodeKind flags tableId columnId segmentId firstMorselId morselCount : Nat)
  (rowStart rowCount sectionId clusterId firstChildIndex childCount statsRef splitRef : Nat)
  checksum : Nat
  deriving DecidableEq

structure LayoutPlanV2 where
  header : LayoutPlanHeaderV2
  nodes : List LayoutPlanNodeV2

/-- `nodes[start..end]`. -/
def slice (nodes : List LayoutPlanNodeV2) (start stop : Nat) : List LayoutPlanNodeV2 :=
  (nodes.drop start).take (stop - start)

def collectIds (count : Nat) : List Nat → List LayoutPlanNodeV2 → Except CoveError (List Nat)
  | ids, [] => .ok ids
  | ids, node :: nodes => do
      rejectIf (node.nodeId ∈ ids) .badLayoutPlan
      let _ ← checkedAdd node.rowStart node.rowCount
      let childEnd ← checkedAdd32 node.firstChildIndex node.childCount
      rejectIf (count < childEnd) .badLayoutPlan
      collectIds count (node.nodeId :: ids) nodes

def checkParent (header : LayoutPlanHeaderV2) (ids : List Nat) (node : LayoutPlanNodeV2) :
    Except CoveError Unit :=
  if node.nodeId = header.rootNodeId then
    rejectIf (node.parentNodeId ≠ absentId ∨ node.nodeKind ≠ 0) .badLayoutPlan
  else rejectIf (node.parentNodeId ∉ ids) .badLayoutPlan

def walkParents (nodes : List LayoutPlanNodeV2) : Nat → Nat → Except CoveError Unit
  | hops, parent =>
    if parent = absentId then .ok ()
    else
      match hops with
      | 0 => .error .badLayoutPlan
      | hops + 1 =>
        match nodes.find? fun candidate => candidate.nodeId = parent with
        | none => .error .badLayoutPlan
        | some node => walkParents nodes hops node.parentNodeId

def declareChildren (node : LayoutPlanNodeV2) :
    List Nat → List LayoutPlanNodeV2 → Except CoveError (List Nat)
  | declared, [] => .ok declared
  | declared, child :: children => do
      rejectIf (child.parentNodeId ≠ node.nodeId) .badLayoutPlan
      rejectIf (child.nodeId ∈ declared) .badLayoutPlan
      declareChildren node (child.nodeId :: declared) children

def declareRanges (nodes : List LayoutPlanNodeV2) :
    List Nat → List LayoutPlanNodeV2 → Except CoveError (List Nat)
  | declared, [] => .ok declared
  | declared, node :: rest => do
      let childEnd ← checkedAdd32 node.firstChildIndex node.childCount
      let declared ← declareChildren node declared (slice nodes node.firstChildIndex childEnd)
      declareRanges nodes declared rest

def validateLayoutNodes (header : LayoutPlanHeaderV2) (nodes : List LayoutPlanNodeV2) :
    Except CoveError Unit := do
  rejectIf (header.nodeCount ≠ nodes.length) .badLayoutPlan
  let ids ← collectIds nodes.length [] nodes
  rejectIf (header.rootNodeId ∉ ids) .badLayoutPlan
  checkAll (checkParent header ids) nodes
  checkAll (fun node => walkParents nodes nodes.length node.parentNodeId) nodes
  let declared ← declareRanges nodes [] nodes
  checkAll (fun node : LayoutPlanNodeV2 =>
    rejectIf (node.nodeId ≠ header.rootNodeId ∧ node.nodeId ∉ declared) .badLayoutPlan) nodes

/-- The entry of a table with its number of rows, which is 64 bits wide. -/
structure CountedTable extends TableEntry where
  rowCount : Nat
  rowCount_lt : rowCount < 2 ^ 64 := by decide

section

variable (table : CountedTable) (scanSplits : Option ScanSplitIndexV2)

def rootNode : LayoutPlanNodeV2 where
  nodeId := 1
  parentNodeId := absentId
  nodeKind := 0
  flags := 0
  tableId := absentId
  columnId := absentId
  segmentId := absentId
  firstMorselId := 0
  morselCount := 0
  rowStart := 0
  rowCount := table.rowCount
  sectionId := 0
  clusterId := 0
  firstChildIndex := 1
  childCount := 1
  statsRef := absentId
  splitRef := absentId
  checksum := 0

def tableNode (segmentCount : Nat) : LayoutPlanNodeV2 where
  nodeId := 2
  parentNodeId := 1
  nodeKind := 1
  flags := 0
  tableId := table.tableId
  columnId := absentId
  segmentId := absentId
  firstMorselId := 0
  morselCount := 0
  rowStart := 0
  rowCount := table.rowCount
  sectionId := 0
  clusterId := 0
  firstChildIndex := 2
  childCount := segmentCount % 2 ^ 32
  statsRef := absentId
  splitRef := absentId
  checksum := 0

def splitRefFor (segmentId : Nat) : Nat :=
  match scanSplits with
  | none => absentId
  | some splits =>
    ((splits.entries.find? fun split => split.firstSegmentId = segmentId).map
      (·.splitId)).getD absentId

def segmentNode (nodeId : Nat) (segment : TableSegmentIndexEntryV1) : LayoutPlanNodeV2 where
  nodeId := nodeId
  parentNodeId := 2
  nodeKind := 3
  flags := 0
  tableId := table.tableId
  columnId := absentId
  segmentId := segment.segmentId
  firstMorselId := 0
  morselCount := segment.morselCount
  rowStart := segment.rowStart
  rowCount := segment.rowCount
  sectionId := 0
  clusterId := 0
  firstChildIndex := 0
  childCount := 0
  statsRef := segment.statsRef
  splitRef := splitRefFor scanSplits segment.segmentId
  checksum := 0

def pushSegments : List LayoutPlanNodeV2 → List TableSegmentIndexEntryV1 →
    Except CoveError (List LayoutPlanNodeV2)
  | nodes, [] => .ok nodes
  | nodes, segment :: segments => do
      rejectIf (2 ^ 32 ≤ nodes.length + 1) .arithOverflow
      pushSegments (nodes ++ [segmentNode table scanSplits (nodes.length + 1) segment]) segments

variable (segments : List TableSegmentIndexEntryV1)

def segmentsOf : List TableSegmentIndexEntryV1 :=
  segments.filter fun segment => segment.tableId = table.tableId

def buildDefaultLayoutPlan :
    Except CoveError LayoutPlanV2 := do
  let nodes ← pushSegments table scanSplits
    [rootNode table, tableNode table (segmentsOf table segments).length] (segmentsOf table segments)
  let plan : LayoutPlanV2 := ⟨⟨1, nodes.length % 2 ^ 32, 1, 0, 0⟩, nodes⟩
  validateLayoutNodes plan.header plan.nodes
  .ok plan

end

def childRange (nodes : List LayoutPlanNodeV2) (node : LayoutPlanNodeV2) : List LayoutPlanNodeV2 :=
  (nodes.drop node.firstChildIndex).take node.childCount

/-- What the validation has checked when it accepts. -/
structure Accepted (header : LayoutPlanHeaderV2) (nodes : List LayoutPlanNodeV2) : Prop where
  count : header.nodeCount = nodes.length
  distinct : (nodes.map (·.nodeId)).Nodup
  bounds : ∀ node ∈ nodes, node.rowStart + node.rowCount < 2 ^ 64 ∧
    node.firstChildIndex + node.childCount < 2 ^ 32 ∧
    node.firstChildIndex + node.childCount ≤ nodes.length
  root : header.rootNodeId ∈ nodes.map (·.nodeId)
  rootParent : ∀ node ∈ nodes, node.nodeId = header.rootNodeId →
    node.parentNodeId = absentId ∧ node.nodeKind = 0
  parent : ∀ node ∈ nodes, node.nodeId ≠ header.rootNodeId →
    node.parentNodeId ∈ nodes.map (·.nodeId)
  walks : ∀ node ∈ nodes, walkParents nodes nodes.length node.parentNodeId = .ok ()
  children : ∀ node ∈ nodes, ∀ child ∈ childRange nodes node, child.parentNodeId = node.nodeId
  declaredOnce : ((nodes.flatMap (childRange nodes)).map (·.nodeId)).Nodup
  declared : ∀ node ∈ nodes, node.nodeId ≠ header.rootNodeId →
    node.nodeId ∈ (nodes.flatMap (childRange nodes)).map (·.nodeId)

section

variable {header : LayoutPlanHeaderV2} {nodes rest children : List LayoutPlanNodeV2}
  {ids declared out : List Nat} {node : LayoutPlanNodeV2} {count : Nat}

theorem nodup_reverse_append_cons {a : Nat} {as bs : List Nat} :
    (as.reverse ++ a :: bs).Nodup ↔ ((a :: as).reverse ++ bs).Nodup := by
  rw [reverse_cons, append_assoc, singleton_append]

theorem collectIds_ok_iff (hids : ids.Nodup) :
    collectIds count ids rest = .ok out ↔ (ids.reverse ++ rest.map (·.nodeId)).Nodup ∧
      (∀ node ∈ rest, node.rowStart + node.rowCount < 2 ^ 64 ∧
        node.firstChildIndex + node.childCount < 2 ^ 32 ∧
        node.firstChildIndex + node.childCount ≤ count) ∧
      (rest.map (·.nodeId)).reverse ++ ids = out := by
  induction rest generalizing ids with
  | nil => simp [collectIds, hids]
  | cons node rest ih =>
    simp only [collectIds, andThen_eq_ok_iff, rejectIf_eq_ok_iff, checkedAdd_ok_iff,
      checkedAdd32_ok_iff, not_lt, map_cons, forall_mem_cons, reverse_cons,
      append_assoc, singleton_append]
    constructor
    · rintro ⟨-, hfresh, end64, ⟨hrow, -⟩, -, ⟨hchild, rfl⟩, -, hcount, h⟩
      obtain ⟨hnodup, hrest, rfl⟩ := (ih (nodup_cons.mpr ⟨hfresh, hids⟩)).mp h
      exact ⟨nodup_reverse_append_cons.mpr hnodup, ⟨⟨hrow, hchild, hcount⟩, hrest⟩, rfl⟩
    · rintro ⟨hnodup, ⟨⟨hrow, hchild, hcount⟩, hrest⟩, rfl⟩
      have hfresh : node.nodeId ∉ ids := fun hmem =>
        disjoint_of_nodup_append hnodup (mem_reverse.mpr hmem) mem_cons_self
      refine ⟨(), hfresh, _, ⟨hrow, rfl⟩, _, ⟨hchild, rfl⟩, (), hcount, ?_⟩
      exact (ih (nodup_cons.mpr ⟨hfresh, hids⟩)).mpr
        ⟨nodup_reverse_append_cons.mp hnodup, hrest, rfl⟩

theorem declareChildren_ok_iff (hdeclared : declared.Nodup) :
    declareChildren node declared children = .ok out ↔
      (∀ child ∈ children, child.parentNodeId = node.nodeId) ∧
      (declared.reverse ++ children.map (·.nodeId)).Nodup ∧
      (children.map (·.nodeId)).reverse ++ declared = out := by
  induction children generalizing declared with
  | nil => simp [declareChildren, hdeclared]
  | cons child children ih =>
    simp only [declareChildren, andThen_eq_ok_iff, rejectIf_eq_ok_iff, not_not, map_cons,
      forall_mem_cons, reverse_cons, append_assoc, singleton_append]
    constructor
    · rintro ⟨-, hparent, -, hfresh, h⟩
      obtain ⟨hparents, hnodup, rfl⟩ := (ih (nodup_cons.mpr ⟨hfresh, hdeclared⟩)).mp h
      exact ⟨⟨hparent, hparents⟩, nodup_reverse_append_cons.mpr hnodup, rfl⟩
    · rintro ⟨⟨hparent, hparents⟩, hnodup, rfl⟩
      have hfresh : child.nodeId ∉ declared := fun hmem =>
        disjoint_of_nodup_append hnodup (mem_reverse.mpr hmem) mem_cons_self
      exact ⟨(), hparent, (), hfresh, (ih (nodup_cons.mpr ⟨hfresh, hdeclared⟩)).mpr
        ⟨hparents, nodup_reverse_append_cons.mp hnodup, rfl⟩⟩

theorem slice_childEnd (nodes : List LayoutPlanNodeV2) (node : LayoutPlanNodeV2) :
    slice nodes node.firstChildIndex (node.firstChildIndex + node.childCount) =
      childRange nodes node := by
  rw [slice, childRange, Nat.add_sub_cancel_left]

theorem declareRanges_ok_iff (hdeclared : declared.Nodup)
    (hbounds : ∀ node ∈ rest, node.firstChildIndex + node.childCount < 2 ^ 32) :
    declareRanges nodes declared rest = .ok out ↔
      (∀ node ∈ rest, ∀ child ∈ childRange nodes node, child.parentNodeId = node.nodeId) ∧
      (declared.reverse ++ (rest.flatMap (childRange nodes)).map (·.nodeId)).Nodup ∧
      ((rest.flatMap (childRange nodes)).map (·.nodeId)).reverse ++ declared = out := by
  induction rest generalizing declared with
  | nil => simp [declareRanges, hdeclared]
  | cons node rest ih =>
    obtain ⟨hbound, hbounds⟩ := forall_mem_cons.mp hbounds
    simp only [declareRanges, andThen_eq_ok_iff, checkedAdd32_ok_iff, hbound, true_and,
      exists_eq_left, slice_childEnd, declareChildren_ok_iff hdeclared, forall_mem_cons,
      flatMap_cons, map_append, reverse_append, append_assoc]
    constructor
    · rintro ⟨mid, ⟨hparents, hnodup, rfl⟩, h⟩
      have hmid : ((childRange nodes node).map (·.nodeId)).reverse ++ declared |>.Nodup := by
        rw [← nodup_reverse, reverse_append, reverse_reverse]
        exact hnodup
      obtain ⟨hrest, hnodup, rfl⟩ := (ih hmid hbounds).mp h
      rw [reverse_append, reverse_reverse, append_assoc] at hnodup
      exact ⟨⟨hparents, hrest⟩, hnodup, rfl⟩
    · rintro ⟨⟨hparents, hrest⟩, hnodup, rfl⟩
      have hfirst := hnodup
      rw [← append_assoc] at hfirst
      have hmid : ((childRange nodes node).map (·.nodeId)).reverse ++ declared |>.Nodup := by
        rw [← nodup_reverse, reverse_append, reverse_reverse]
        exact (nodup_append.mp hfirst).1
      refine ⟨_, ⟨hparents, (nodup_append.mp hfirst).1, rfl⟩, (ih hmid hbounds).mpr
        ⟨hrest, ?_, rfl⟩⟩
      rw [reverse_append, reverse_reverse, append_assoc]
      exact hnodup

theorem checkParent_ok_iff : checkParent header ids node = .ok () ↔
      (node.nodeId = header.rootNodeId → node.parentNodeId = absentId ∧ node.nodeKind = 0) ∧
      (node.nodeId ≠ header.rootNodeId → node.parentNodeId ∈ ids) := by
  rw [checkParent]
  split
  · rename_i h
    simp [h, rejectIf_eq_ok_iff]
  · rename_i h
    simp [h, rejectIf_eq_ok_iff]

theorem validateLayoutNodes_ok_iff :
    validateLayoutNodes header nodes = .ok () ↔ Accepted header nodes := by
  simp only [validateLayoutNodes, andThen_eq_ok_iff, rejectIf_eq_ok_iff, not_not,
    collectIds_ok_iff nodup_nil, checkAll_eq_ok_iff, checkParent_ok_iff, not_and,
    reverse_nil, nil_append, append_nil]
  constructor
  · rintro ⟨-, hcount, ids, ⟨hnodup, hbounds, rfl⟩, -, hroot, -, hparents, -, hwalks, declared,
      hranges, hdeclared⟩
    obtain ⟨hchildren, honce, rfl⟩ := (declareRanges_ok_iff nodup_nil
      fun node hnode => (hbounds node hnode).2.1).mp hranges
    simp only [append_nil, mem_reverse] at hroot hparents hdeclared
    exact ⟨hcount, hnodup, hbounds, hroot, fun node hnode => (hparents node hnode).1,
      fun node hnode => (hparents node hnode).2, hwalks, hchildren, honce, hdeclared⟩
  · intro h
    have hranges := (declareRanges_ok_iff nodup_nil
      fun node hnode => (h.bounds node hnode).2.1).mpr ⟨h.children, h.declaredOnce, rfl⟩
    refine ⟨(), h.count, _, ⟨h.distinct, h.bounds, rfl⟩, (), ?_, (), ?_, (), h.walks, _, hranges, ?_⟩
    · exact mem_reverse.mpr h.root
    · intro node hnode
      exact ⟨h.rootParent node hnode, fun hne => mem_reverse.mpr (h.parent node hnode hne)⟩
    · intro node hnode hne
      rw [append_nil, mem_reverse]
      exact h.declared node hnode hne

end

end CoveFormat.LayoutPlans
