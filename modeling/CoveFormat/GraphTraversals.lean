import CoveFormat.GraphAdjacency
import Mathlib.Data.String.Basic

namespace CoveFormat.GraphTraversals

open ExceptRules GraphAdjacencies List

inductive GraphTraversalMode
  | walk
  | trail
  | simplePath

inductive GraphTraversalDistinctPolicy
  | none
  | path
  | endNode

structure GraphPath where
  (startGoid currentGoid : String)
  (nodeGoids edgeGoids : List String)
  depth : ℕ
  deriving DecidableEq

namespace GraphPath

def new (startGoid : String) : GraphPath := ⟨startGoid, startGoid, [startGoid], [], 0⟩

def extend (path : GraphPath) (edgeGoid targetGoid : String) : GraphPath where
  startGoid := path.startGoid
  currentGoid := targetGoid
  nodeGoids := path.nodeGoids ++ [targetGoid]
  edgeGoids := path.edgeGoids ++ [edgeGoid]
  depth := path.depth + 1

end GraphPath

structure GraphTraversalRow (τ : Type) where
  payload : τ
  path : GraphPath
  deriving DecidableEq

structure GraphTraversalLimits where
  (maxFanoutPerNode maxPaths maxFrontier : ℕ)

structure GraphTraversalSpec where
  (minDepth maxDepth : ℕ)
  mode : GraphTraversalMode
  distinct : GraphTraversalDistinctPolicy
  limits : GraphTraversalLimits

/-- The payload of a longer path; the rows without one are left out. -/
abbrev RenderNext (τ : Type) := τ → GraphEdge String → GraphPath → Option τ

def traversalModeAllows (path : GraphPath) (edgeGoid targetGoid : String) : GraphTraversalMode → Bool
  | .walk => true
  | .trail => !path.edgeGoids.any (· == edgeGoid)
  | .simplePath => !path.edgeGoids.any (· == edgeGoid) && !path.nodeGoids.any (· == targetGoid)

def rowKey (path : GraphPath) : GraphTraversalDistinctPolicy → Option String
  | .none => none
  | .path => some (path.startGoid ++ "|" ++ String.intercalate ">" path.edgeGoids)
  | .endNode => some (path.startGoid ++ "|" ++ path.currentGoid)

/-- The keys that were seen, and the rows that are emitted. -/
structure Emission (τ : Type) where
  seen : Finset String
  emitted : List (GraphTraversalRow τ)

variable {τ : Type}

def pushEmittedRow (distinct : GraphTraversalDistinctPolicy) (s : Emission τ) (row : GraphTraversalRow τ) :
    Emission τ :=
  match rowKey row.path distinct with
  | none => ⟨s.seen, s.emitted ++ [row]⟩
  | some key =>
    if key ∈ s.seen then s else ⟨insert key s.seen, s.emitted ++ [row]⟩

/-- The rows of the next depth so far, and the emission. -/
structure Expansion (τ : Type) where
  next : List (GraphTraversalRow τ)
  emission : Emission τ

def expandEdges (spec : GraphTraversalSpec) (renderNext : RenderNext τ) (row : GraphTraversalRow τ) :
    List (GraphEdge String) → ℕ → Expansion τ → Except GraphExecutionError (Expansion τ)
  | [], _, s => .ok s
  | edge :: edges, fanout, s =>
    if edge.source ≠ row.path.currentGoid then expandEdges spec renderNext row edges fanout s
    else if traversalModeAllows row.path edge.edgeId edge.target spec.mode = false then
      expandEdges spec renderNext row edges fanout s
    else do
      rejectIf (spec.limits.maxFanoutPerNode < fanout + 1)
        ⟨"maximum_graph_traversal_fanout", fanout + 1⟩
      let nextPath := row.path.extend edge.edgeId edge.target
      match renderNext row.payload edge nextPath with
      | none => expandEdges spec renderNext row edges (fanout + 1) s
      | some payload => do
          let candidate : GraphTraversalRow τ := ⟨payload, nextPath⟩
          let emission := if spec.minDepth ≤ candidate.path.depth then
            pushEmittedRow spec.distinct s.emission candidate else s.emission
          rejectIf (spec.minDepth ≤ candidate.path.depth ∧ spec.limits.maxPaths < emission.emitted.length)
            ⟨"maximum_graph_traversal_paths", emission.emitted.length⟩
          let next := s.next ++ [candidate]
          rejectIf (spec.limits.maxFrontier < next.length)
            ⟨"maximum_graph_traversal_frontier", next.length⟩
          expandEdges spec renderNext row edges (fanout + 1) ⟨next, emission⟩

def expandRows (edges : List (GraphEdge String)) (spec : GraphTraversalSpec) (renderNext : RenderNext τ) :
    List (GraphTraversalRow τ) → Expansion τ → Except GraphExecutionError (Expansion τ)
  | [], s => .ok s
  | row :: rows, s => do
      let s ← expandEdges spec renderNext row edges 0 s
      expandRows edges spec renderNext rows s

def expandDepths (edges : List (GraphEdge String)) (spec : GraphTraversalSpec)
    (budget : GraphExecutionBudget) (renderNext : RenderNext τ) :
    ℕ → List (GraphTraversalRow τ) → Emission τ → ℕ → Except GraphExecutionError (Emission τ)
  | 0, _, emission, _ => .ok emission
  | depths + 1, frontier, emission, clock => do
      budget.checkTime clock
      let s ← expandRows edges spec renderNext frontier ⟨[], emission⟩
      if s.next.isEmpty then .ok s.emission
      else expandDepths edges spec budget renderNext depths s.next s.emission (clock + 1)

def expandTraversalRows (rows : List (GraphTraversalRow τ)) (edges : List (GraphEdge String))
    (spec : GraphTraversalSpec) (budget : GraphExecutionBudget) (renderNext : RenderNext τ) :
    Except GraphExecutionError (List (GraphTraversalRow τ)) :=
  let start : Emission τ := ⟨∅, []⟩
  let emission := if spec.minDepth = 0 then rows.foldl (pushEmittedRow spec.distinct) start else start
  (expandDepths edges spec budget renderNext spec.maxDepth rows emission 0).map Emission.emitted

def endOf (start : String) (es : List (GraphEdge String)) : String := es.foldl (fun _ e => e.target) start

def pathOf (start : String) (es : List (GraphEdge String)) : GraphPath :=
  ⟨start, endOf start es, start :: es.map GraphEdge.target, es.map GraphEdge.edgeId, es.length⟩

/-- Each edge goes on where the one before ends. -/
def Follows (edges : List (GraphEdge String)) : String → List (GraphEdge String) → Prop
  | _, [] => True
  | start, e :: es => e ∈ edges ∧ e.source = start ∧ Follows edges e.target es

def Admits (start : String) (es : List (GraphEdge String)) : GraphTraversalMode → Prop
  | .walk => True
  | .trail => (es.map GraphEdge.edgeId).Nodup
  | .simplePath =>
    (es.map GraphEdge.edgeId).Nodup ∧ (start :: es.map GraphEdge.target).Nodup

/-- The path along these edges is one of those that were asked for. -/
structure Requested (edges : List (GraphEdge String)) (spec : GraphTraversalSpec) (start : String)
    (es : List (GraphEdge String)) : Prop where
  follows : Follows edges start es
  admits : Admits start es spec.mode
  minDepth_le : spec.minDepth ≤ es.length
  le_maxDepth : es.length ≤ spec.maxDepth

def extendRow (renderNext : RenderNext τ) (row : GraphTraversalRow τ) (e : GraphEdge String) :
    Option (GraphTraversalRow τ) :=
  (renderNext row.payload e (row.path.extend e.edgeId e.target)).map fun payload =>
    ⟨payload, row.path.extend e.edgeId e.target⟩

def rendered (renderNext : RenderNext τ) (row : GraphTraversalRow τ) (es : List (GraphEdge String)) :
    Option (GraphTraversalRow τ) :=
  es.foldlM (extendRow renderNext) row

section

variable {edges : List (GraphEdge String)} {spec : GraphTraversalSpec} {budget : GraphExecutionBudget}
  {renderNext : RenderNext τ} {row : GraphTraversalRow τ} {rows frontier : List (GraphTraversalRow τ)}
  {s s' : Expansion τ} {emission emission' : Emission τ} {fanout depths clock : ℕ}

def goesOn (mode : GraphTraversalMode) (path : GraphPath) (e : GraphEdge String) : Bool :=
  e.source = path.currentGoid ∧ traversalModeAllows path e.edgeId e.target mode = true

def nextRows (edges : List (GraphEdge String)) (mode : GraphTraversalMode) (renderNext : RenderNext τ)
    (row : GraphTraversalRow τ) : List (GraphTraversalRow τ) :=
  (edges.filter (goesOn mode row.path)).filterMap (extendRow renderNext row)

def rowsAt (edges : List (GraphEdge String)) (mode : GraphTraversalMode) (renderNext : RenderNext τ)
    (frontier : List (GraphTraversalRow τ)) : ℕ → List (GraphTraversalRow τ)
  | 0 => frontier
  | k + 1 => (rowsAt edges mode renderNext frontier k).flatMap (nextRows edges mode renderNext)

def deepEnough (spec : GraphTraversalSpec) (row : GraphTraversalRow τ) : Bool :=
  spec.minDepth ≤ row.path.depth

theorem nextRows_cons (e : GraphEdge String) (mode : GraphTraversalMode) :
    nextRows (e :: edges) mode renderNext row =
      (if goesOn mode row.path e then (extendRow renderNext row e).toList else []) ++
        nextRows edges mode renderNext row := by
  rw [nextRows, filter_cons]
  split
  · rw [filterMap_cons]
    cases extendRow renderNext row e <;> rfl
  · rfl

theorem expandEdges_ok (h : expandEdges spec renderNext row edges fanout s = .ok s') :
    s'.next = s.next ++ nextRows edges spec.mode renderNext row ∧
      s'.emission = ((nextRows edges spec.mode renderNext row).filter (deepEnough spec)).foldl
        (pushEmittedRow spec.distinct) s.emission := by
  induction edges generalizing fanout s with
  | nil =>
    cases h
    simp [nextRows]
  | cons e edges ih =>
    rw [nextRows_cons]
    by_cases hgoes : goesOn spec.mode row.path e
    · obtain ⟨hsource, hmode⟩ := of_decide_eq_true hgoes
      rw [expandEdges, if_neg (not_not.mpr hsource), if_neg (by simp [hmode])] at h
      replace h := rest_ok h
      rw [if_pos hgoes, extendRow]
      dsimp only at h
      split at h
      · rename_i hnone
        rw [hnone]
        exact ih h
      · rename_i payload hsome
        iterate 2 replace h := rest_ok h
        obtain ⟨hnext, hemission⟩ := ih h
        rw [hsome]
        refine ⟨by rw [hnext, append_assoc]; rfl, ?_⟩
        rw [hemission, Option.map_some, Option.toList_some, singleton_append, filter_cons]
        by_cases hdeep : spec.minDepth ≤ (row.path.extend e.edgeId e.target).depth
        · rw [if_pos hdeep, if_pos (by exact decide_eq_true hdeep), foldl_cons]
        · rw [if_neg hdeep, if_neg (by exact fun hd => hdeep (of_decide_eq_true hd))]
    · rw [if_neg hgoes, nil_append]
      rw [expandEdges] at h
      split at h
      · exact ih h
      · rename_i hsource
        rw [if_pos] at h
        · exact ih h
        · by_contra hmode
          exact hgoes (decide_eq_true ⟨not_not.mp hsource, by simpa using hmode⟩)

theorem expandRows_ok (h : expandRows edges spec renderNext rows s = .ok s') :
    s'.next = s.next ++ rows.flatMap (nextRows edges spec.mode renderNext) ∧
      s'.emission = ((rows.flatMap (nextRows edges spec.mode renderNext)).filter (deepEnough spec)).foldl
        (pushEmittedRow spec.distinct) s.emission := by
  induction rows generalizing s with
  | nil =>
    cases h
    simp
  | cons row rows ih =>
    obtain ⟨middle, hrow, hrest⟩ := bind_eq_ok_iff.mp h
    obtain ⟨hnext, hemission⟩ := expandEdges_ok hrow
    obtain ⟨hnext', hemission'⟩ := ih hrest
    rw [hnext', hemission', hnext, hemission, flatMap_cons, filter_append, List.foldl_append,
      append_assoc]
    exact ⟨rfl, rfl⟩

theorem rowsAt_succ (mode : GraphTraversalMode) (k : ℕ) :
    rowsAt edges mode renderNext (frontier.flatMap (nextRows edges mode renderNext)) k =
      rowsAt edges mode renderNext frontier (k + 1) := by
  induction k with
  | zero => rfl
  | succ k ih =>
    rw [rowsAt, ih]
    rfl

theorem rowsAt_nil (mode : GraphTraversalMode) (k : ℕ) : rowsAt edges mode renderNext [] k = [] := by
  induction k with
  | zero => rfl
  | succ k ih => rw [rowsAt, ih, flatMap_nil]

def rowsUpTo (edges : List (GraphEdge String)) (spec : GraphTraversalSpec) (renderNext : RenderNext τ)
    (frontier : List (GraphTraversalRow τ)) (depths : List ℕ) : List (GraphTraversalRow τ) :=
  depths.flatMap fun k => (rowsAt edges spec.mode renderNext frontier k).filter (deepEnough spec)

theorem expandDepths_ok
    (h : expandDepths edges spec budget renderNext depths frontier emission clock = .ok emission') :
    emission' = (rowsUpTo edges spec renderNext frontier ((List.range depths).map Nat.succ)).foldl
      (pushEmittedRow spec.distinct) emission := by
  induction depths generalizing frontier emission clock with
  | zero => exact (Except.ok.inj h).symm
  | succ depths ih =>
    replace h := rest_ok h
    obtain ⟨s, hrows, h⟩ := bind_eq_ok_iff.mp h
    obtain ⟨hnext, hemission⟩ := expandRows_ok hrows
    have hrest : ∀ k, rowsAt edges spec.mode renderNext s.next k =
        rowsAt edges spec.mode renderNext frontier (k + 1) := fun k => hnext ▸ rowsAt_succ spec.mode k
    have hsplit : rowsUpTo edges spec renderNext frontier ((List.range (depths + 1)).map Nat.succ) =
        (frontier.flatMap (nextRows edges spec.mode renderNext)).filter (deepEnough spec) ++
          rowsUpTo edges spec renderNext s.next ((List.range depths).map Nat.succ) := by
      rw [range_succ_eq_map, map_cons, rowsUpTo, flatMap_cons, rowsUpTo, flatMap_map,
        flatMap_map, flatMap_map]
      simp only [hrest]
      rfl
    rw [hsplit, List.foldl_append, ← hemission]
    split at h
    · rename_i hempty
      have hnone : rowsUpTo edges spec renderNext s.next ((List.range depths).map Nat.succ) = [] := by
        rw [rowsUpTo, List.isEmpty_iff.mp hempty]
        simp [rowsAt_nil]
      rw [hnone]
      exact (Except.ok.inj h).symm
    · exact ih h

theorem expandTraversalRows_ok {out : List (GraphTraversalRow τ)} (hrows : ∀ row ∈ rows, row.path.depth = 0)
    (h : expandTraversalRows rows edges spec budget renderNext = .ok out) :
    out = ((rowsUpTo edges spec renderNext rows (List.range (spec.maxDepth + 1))).foldl
      (pushEmittedRow spec.distinct) ⟨∅, []⟩).emitted := by
  obtain ⟨emission, hdepths, rfl⟩ := map_eq_ok_iff.mp h
  have hfirst : (if spec.minDepth = 0 then rows.foldl (pushEmittedRow spec.distinct) ⟨∅, []⟩ else ⟨∅, []⟩) =
      (rows.filter (deepEnough spec)).foldl (pushEmittedRow spec.distinct) (⟨∅, []⟩ : Emission τ) := by
    by_cases hmin : spec.minDepth = 0
    · rw [if_pos hmin, filter_eq_self.mpr fun row _ => by simp [deepEnough, hmin]]
    · rw [if_neg hmin, filter_eq_nil_iff.mpr fun row hrow => by simp [deepEnough, hrows row hrow, hmin]]
      rfl
  rw [expandDepths_ok hdepths, hfirst, ← List.foldl_append, range_succ_eq_map, rowsUpTo, rowsUpTo,
    flatMap_cons]
  rfl

variable {mode : GraphTraversalMode} {start : String} {es es' : List (GraphEdge String)}
  {e : GraphEdge String} {k : ℕ} {r : GraphTraversalRow τ}

def walksOf (edges : List (GraphEdge String)) (mode : GraphTraversalMode) (start : String) :
    ℕ → List (List (GraphEdge String))
  | 0 => [[]]
  | k + 1 => (walksOf edges mode start k).flatMap fun es =>
    (edges.filter (goesOn mode (pathOf start es))).map (es ++ [·])

theorem pathOf_snoc (start : String) (es : List (GraphEdge String)) (e : GraphEdge String) :
    pathOf start (es ++ [e]) = (pathOf start es).extend e.edgeId e.target := by
  simp [pathOf, GraphPath.extend, endOf]

theorem follows_snoc : Follows edges start (es ++ [e]) ↔
    Follows edges start es ∧ e ∈ edges ∧ e.source = endOf start es := by
  induction es generalizing start with
  | nil => simp [Follows, endOf]
  | cons f es ih => simp only [cons_append, Follows, ih, endOf, foldl_cons, and_assoc]

theorem admits_snoc : Admits start (es ++ [e]) mode ↔
    Admits start es mode ∧ traversalModeAllows (pathOf start es) e.edgeId e.target mode = true := by
  cases mode with
  | walk => simp [Admits, traversalModeAllows]
  | trail => simp [Admits, traversalModeAllows, pathOf, nodup_append]
  | simplePath =>
    simp only [Admits, traversalModeAllows, pathOf, map_append, map_singleton,
      ← cons_append, nodup_append, nodup_singleton, mem_singleton, forall_eq, true_and,
      Bool.and_eq_true, Bool.not_eq_true', any_eq_false, beq_iff_eq]
    tauto

theorem mem_walksOf : es ∈ walksOf edges mode start k ↔
    es.length = k ∧ Follows edges start es ∧ Admits start es mode := by
  induction k generalizing es with
  | zero =>
    rw [walksOf, mem_singleton, length_eq_zero_iff]
    refine ⟨?_, fun h => h.1⟩
    rintro rfl
    cases mode <;> simp [Follows, Admits]
  | succ k ih =>
    rw [walksOf, mem_flatMap]
    constructor
    · rintro ⟨front, hfront, hmem⟩
      obtain ⟨e, he, rfl⟩ := mem_map.mp hmem
      obtain ⟨hlen, hfollows, hadmits⟩ := ih.mp hfront
      obtain ⟨hmem, hgoes⟩ := mem_filter.mp he
      obtain ⟨hsource, hmode⟩ := of_decide_eq_true hgoes
      exact ⟨by rw [length_append, hlen]; rfl, follows_snoc.mpr ⟨hfollows, hmem, hsource⟩,
        admits_snoc.mpr ⟨hadmits, hmode⟩⟩
    · rintro ⟨hlen, hfollows, hadmits⟩
      rcases eq_nil_or_concat es with rfl | ⟨front, e, rfl⟩
      · cases hlen
      · rw [concat_eq_append] at *
        obtain ⟨hfollows, he, hsource⟩ := follows_snoc.mp hfollows
        obtain ⟨hadmits, hmode⟩ := admits_snoc.mp hadmits
        rw [length_append] at hlen
        exact ⟨front, ih.mpr ⟨Nat.succ.inj hlen, hfollows, hadmits⟩, mem_map_of_mem
          (mem_filter.mpr ⟨he, decide_eq_true ⟨hsource, hmode⟩⟩)⟩

theorem walksOf_nodup (hedges : edges.Nodup) (mode : GraphTraversalMode) (start : String) (k : ℕ) :
    (walksOf edges mode start k).Nodup := by
  induction k with
  | zero => exact nodup_singleton _
  | succ k ih =>
    rw [walksOf, nodup_flatMap]
    refine ⟨fun es _ => (hedges.filter _).map fun e e' h => by simpa using h,
      ih.imp fun {es es'} hne => ?_⟩
    refine disjoint_left.mpr fun fs hfs hfs' => ?_
    obtain ⟨e, -, rfl⟩ := mem_map.mp hfs
    obtain ⟨e', -, heq⟩ := mem_map.mp hfs'
    exact hne (append_inj' heq rfl).1.symm

theorem rendered_snoc (renderNext : RenderNext τ) (row : GraphTraversalRow τ) (es : List (GraphEdge String))
    (e : GraphEdge String) :
    rendered renderNext row (es ++ [e]) = (rendered renderNext row es).bind (extendRow renderNext · e) := by
  rw [rendered, foldlM_append]
  refine congrArg _ (funext fun r => ?_)
  rw [foldlM_cons]
  cases extendRow renderNext r e <;> rfl

theorem rendered_path (hrow : row.path = .new row.path.startGoid)
    (h : rendered renderNext row es = some r) : r.path = pathOf row.path.startGoid es := by
  induction es using reverseRecOn generalizing r with
  | nil =>
    cases h
    exact hrow
  | append_singleton es e ih =>
    rw [rendered_snoc] at h
    obtain ⟨before, hbefore, h⟩ := Option.bind_eq_some_iff.mp h
    obtain ⟨payload, -, rfl⟩ := Option.map_eq_some_iff.mp h
    rw [pathOf_snoc, ← ih hbefore]

theorem rendered_isSome (hrender : ∀ payload e path, (renderNext payload e path).isSome)
    (row : GraphTraversalRow τ) (es : List (GraphEdge String)) : (rendered renderNext row es).isSome := by
  induction es using reverseRecOn with
  | nil => rfl
  | append_singleton es e ih =>
    obtain ⟨r, hr⟩ := Option.isSome_iff_exists.mp ih
    rw [rendered_snoc, hr, Option.bind_some, extendRow, Option.isSome_map]
    exact hrender _ _ _

theorem rowsAt_eq (hrows : ∀ row ∈ rows, row.path = .new row.path.startGoid) (k : ℕ) :
    rowsAt edges mode renderNext rows k =
      rows.flatMap fun row => (walksOf edges mode row.path.startGoid k).filterMap
        (rendered renderNext row) := by
  induction k with
  | zero =>
    have hone : ∀ row : GraphTraversalRow τ,
        (walksOf edges mode row.path.startGoid 0).filterMap (rendered renderNext row) = [row] :=
      fun _ => rfl
    simp only [hone, flatMap_singleton']
    rfl
  | succ k ih =>
    rw [rowsAt, ih, flatMap_assoc]
    refine flatMap_congr fun row hrow => ?_
    rw [walksOf, filterMap_flatMap]
    generalize walksOf edges mode row.path.startGoid k = walks
    induction walks with
    | nil => rfl
    | cons es walks ih =>
      rw [filterMap_cons, flatMap_cons, ← ih, filterMap_map]
      have hcomp : rendered renderNext row ∘ (es ++ [·]) =
          fun e => (rendered renderNext row es).bind (extendRow renderNext · e) :=
        funext fun e => rendered_snoc renderNext row es e
      rw [hcomp]
      cases hes : rendered renderNext row es with
      | none => simp
      | some r =>
        rw [flatMap_cons, nextRows, rendered_path (hrows row hrow) hes]
        rfl

variable {distinct : GraphTraversalDistinctPolicy} {key : GraphPath → String}
  {pushed : List (GraphTraversalRow τ)} {s : Emission τ}

/-- What an emission has kept of the rows that were pushed. -/
structure Kept (key : GraphPath → String) (pushed : List (GraphTraversalRow τ)) (s : Emission τ) : Prop where
  mem_seen : ∀ k, k ∈ s.seen ↔ ∃ row ∈ s.emitted, key row.path = k
  sublist : s.emitted.Sublist pushed
  nodup : (s.emitted.map fun row => key row.path).Nodup
  covers : ∀ row ∈ pushed, ∃ kept ∈ s.emitted,
    key kept.path = key row.path ∧ kept.path.depth ≤ row.path.depth

theorem Kept.push (hkey : rowKey row.path distinct = some (key row.path))
    (hsorted : ∀ r ∈ pushed, r.path.depth ≤ row.path.depth) (hs : Kept key pushed s) :
    Kept key (pushed ++ [row]) (pushEmittedRow distinct s row) := by
  rw [pushEmittedRow, hkey]
  by_cases hseen : key row.path ∈ s.seen
  · simp only [hseen, if_true]
    refine ⟨hs.mem_seen, hs.sublist.trans (sublist_append_left ..), hs.nodup, fun r hr => ?_⟩
    rcases mem_append.mp hr with hr | hr
    · exact hs.covers r hr
    · obtain rfl := mem_singleton.mp hr
      obtain ⟨kept, hkept, heq⟩ := (hs.mem_seen _).mp hseen
      exact ⟨kept, hkept, heq, hsorted kept (hs.sublist.subset hkept)⟩
  · simp only [hseen, if_false]
    refine ⟨fun k => ?_, hs.sublist.append_right _, ?_, fun r hr => ?_⟩
    · rw [Finset.mem_insert, hs.mem_seen]
      simp [or_and_right, exists_or, or_comm, eq_comm]
    · rw [map_append, map_singleton, nodup_append]
      refine ⟨hs.nodup, nodup_singleton _, ?_⟩
      rintro _ hk _ hk' rfl
      obtain ⟨kept, hkept, rfl⟩ := mem_map.mp hk
      exact hseen ((hs.mem_seen _).mpr ⟨kept, hkept, mem_singleton.mp hk'⟩)
    · rcases mem_append.mp hr with hr | hr
      · obtain ⟨kept, hkept, hk⟩ := hs.covers r hr
        exact ⟨kept, mem_append_left _ hkept, hk⟩
      · obtain rfl := mem_singleton.mp hr
        exact ⟨r, mem_append_right _ mem_cons_self, rfl, le_rfl⟩

theorem kept_pushAll (hkey : ∀ path, rowKey path distinct = some (key path))
    (hsorted : pushed.Pairwise fun r r' => r.path.depth ≤ r'.path.depth) :
    Kept key pushed (pushed.foldl (pushEmittedRow distinct) ⟨∅, []⟩) := by
  induction pushed using reverseRecOn with
  | nil => exact ⟨by simp, List.Sublist.refl _, nodup_nil, by simp⟩
  | append_singleton pushed row ih =>
    obtain ⟨hfront, -, hlast⟩ := pairwise_append.mp hsorted
    rw [List.foldl_append]
    exact (ih hfront).push (hkey _) fun r hr => hlast r hr row mem_cons_self

theorem Kept.covers_iff {β : Type} {what : GraphPath → β} {f : β → String}
    (hkey : ∀ path, key path = f (what path))
    (hs : Kept key pushed s) :
    ((s.emitted.map fun row => what row.path).Nodup ∧ ∀ r ∈ pushed, ∃ kept ∈ s.emitted,
      what kept.path = what r.path ∧ kept.path.depth ≤ r.path.depth) ↔
      ∀ r ∈ pushed, ∀ r' ∈ pushed, key r.path = key r'.path → what r.path = what r'.path := by
  constructor
  · rintro ⟨-, hcovers⟩ r hr r' hr' heq
    obtain ⟨kept, hkept, hwhat, -⟩ := hcovers r hr
    obtain ⟨kept', hkept', hwhat', -⟩ := hcovers r' hr'
    have hsame : key kept.path = key kept'.path := by
      rw [hkey, hwhat, ← hkey, heq, hkey, ← hwhat', ← hkey]
    rw [← hwhat, ← hwhat', inj_on_of_nodup_map hs.nodup hkept hkept' hsame]
  · intro happart
    refine ⟨List.Nodup.of_map f ?_, fun r hr => ?_⟩
    · rw [map_map]
      have hkeys : (fun row : GraphTraversalRow τ => key row.path) = f ∘ fun row => what row.path :=
        funext fun row => hkey row.path
      exact hkeys ▸ hs.nodup
    · obtain ⟨kept, hkept, heq, hdepth⟩ := hs.covers r hr
      exact ⟨kept, hkept, happart kept (hs.sublist.subset hkept) r hr heq, hdepth⟩

theorem pushAll_none (pushed : List (GraphTraversalRow τ)) (s : Emission τ) :
    (pushed.foldl (pushEmittedRow .none) s).emitted = s.emitted ++ pushed := by
  induction pushed generalizing s with
  | nil => simp
  | cons row pushed ih =>
    rw [foldl_cons, ih]
    simp [pushEmittedRow, rowKey]

def depthsOf (spec : GraphTraversalSpec) : List ℕ :=
  (range (spec.maxDepth + 1)).filter (spec.minDepth ≤ ·)

def requestedWalks (edges : List (GraphEdge String)) (spec : GraphTraversalSpec) (start : String) :
    List (List (GraphEdge String)) :=
  (depthsOf spec).flatMap (walksOf edges spec.mode start)

theorem mem_depthsOf {k : ℕ} : k ∈ depthsOf spec ↔ spec.minDepth ≤ k ∧ k ≤ spec.maxDepth := by
  rw [depthsOf, mem_filter, mem_range, decide_eq_true_eq, and_comm, Nat.lt_add_one_iff]

theorem mem_requestedWalks : es ∈ requestedWalks edges spec start ↔ Requested edges spec start es := by
  rw [requestedWalks, mem_flatMap]
  constructor
  · rintro ⟨k, hk, hes⟩
    obtain ⟨rfl, hfollows, hadmits⟩ := mem_walksOf.mp hes
    obtain ⟨hmin, hmax⟩ := mem_depthsOf.mp hk
    exact ⟨hfollows, hadmits, hmin, hmax⟩
  · rintro ⟨hfollows, hadmits, hmin, hmax⟩
    exact ⟨es.length, mem_depthsOf.mpr ⟨hmin, hmax⟩, mem_walksOf.mpr ⟨rfl, hfollows, hadmits⟩⟩

theorem requestedWalks_nodup (hedges : edges.Nodup) (spec : GraphTraversalSpec) (start : String) :
    (requestedWalks edges spec start).Nodup := by
  refine nodup_flatMap.mpr ⟨fun k _ => walksOf_nodup hedges _ _ _,
    (nodup_range.filter _).imp fun {k k'} hne => ?_⟩
  refine disjoint_left.mpr fun es hes hes' => hne ?_
  rw [← (mem_walksOf.mp hes).1, (mem_walksOf.mp hes').1]

section

variable (hrows : ∀ row ∈ rows, row.path = .new row.path.startGoid)
include hrows

theorem mem_rowsAt {k : ℕ} :
    r ∈ rowsAt edges spec.mode renderNext rows k ↔
      ∃ row ∈ rows, ∃ es ∈ walksOf edges spec.mode row.path.startGoid k,
        rendered renderNext row es = some r := by
  simp only [rowsAt_eq hrows, mem_flatMap, mem_filterMap]

theorem depth_of_mem_rowsAt {k : ℕ} (hr : r ∈ rowsAt edges spec.mode renderNext rows k) :
    r.path.depth = k := by
  obtain ⟨row, hrow, es, hes, hr⟩ := (mem_rowsAt hrows).mp hr
  rw [rendered_path (hrows row hrow) hr, ← (mem_walksOf.mp hes).1]
  rfl

theorem rowsUpTo_eq :
    rowsUpTo edges spec renderNext rows (List.range (spec.maxDepth + 1)) =
      (depthsOf spec).flatMap (rowsAt edges spec.mode renderNext rows) := by
  rw [rowsUpTo, depthsOf]
  induction List.range (spec.maxDepth + 1) with
  | nil => rfl
  | cons k depths ih =>
    rw [flatMap_cons, ih, filter_cons]
    by_cases hk : spec.minDepth ≤ k
    · rw [if_pos (decide_eq_true hk), flatMap_cons, filter_eq_self.mpr fun r hr => ?_]
      simp [deepEnough, depth_of_mem_rowsAt hrows hr, hk]
    · rw [if_neg (by simpa using hk), filter_eq_nil_iff.mpr fun r hr => ?_, nil_append]
      simp [deepEnough, depth_of_mem_rowsAt hrows hr, hk]

theorem mem_enumerated :
    r ∈ (depthsOf spec).flatMap (rowsAt edges spec.mode renderNext rows) ↔
      ∃ row ∈ rows, ∃ es, Requested edges spec row.path.startGoid es ∧
        rendered renderNext row es = some r := by
  simp only [mem_flatMap, mem_rowsAt hrows, ← mem_requestedWalks, requestedWalks]
  constructor
  · rintro ⟨k, hk, row, hrow, es, hes, hr⟩
    exact ⟨row, hrow, es, ⟨k, hk, hes⟩, hr⟩
  · rintro ⟨row, hrow, es, ⟨k, hk, hes⟩, hr⟩
    exact ⟨k, hk, row, hrow, es, hes, hr⟩

theorem enumerated_sorted :
    ((depthsOf spec).flatMap (rowsAt edges spec.mode renderNext rows)).Pairwise
      fun r r' => r.path.depth ≤ r'.path.depth := by
  have hsorted : (depthsOf spec).Pairwise (· < ·) := pairwise_lt_range.filter _
  refine pairwise_flatMap.mpr ⟨fun k _ => ?_, hsorted.imp fun hlt r hr r' hr' => ?_⟩
  · refine pairwise_of_forall_mem_list fun r hr r' hr' => ?_
    rw [depth_of_mem_rowsAt hrows hr, depth_of_mem_rowsAt hrows hr']
  · rw [depth_of_mem_rowsAt hrows hr, depth_of_mem_rowsAt hrows hr']
    exact hlt.le

end

theorem enumerated_perm (hrows : ∀ row ∈ rows, row.path = .new row.path.startGoid)
    (hrender : ∀ payload e path, (renderNext payload e path).isSome) :
    (((depthsOf spec).flatMap (rowsAt edges spec.mode renderNext rows)).map some).Perm
      (rows.flatMap fun row =>
        (requestedWalks edges spec row.path.startGoid).map (rendered renderNext row)) := by
  have hsome : ∀ (row : GraphTraversalRow τ) (walks : List (List (GraphEdge String))),
      (walks.filterMap (rendered renderNext row)).map some = walks.map (rendered renderNext row) := by
    intro row walks
    induction walks with
    | nil => rfl
    | cons es walks ih =>
      obtain ⟨r, hr⟩ := Option.isSome_iff_exists.mp (rendered_isSome hrender row es)
      rw [filterMap_cons, hr, map_cons, map_cons, ih, hr]
  have hleft : ((depthsOf spec).flatMap (rowsAt edges spec.mode renderNext rows)).map some =
      (depthsOf spec).flatMap fun k => rows.flatMap fun row =>
        (walksOf edges spec.mode row.path.startGoid k).map (rendered renderNext row) := by
    rw [map_flatMap]
    refine flatMap_congr fun k _ => ?_
    rw [rowsAt_eq hrows, map_flatMap]
    exact flatMap_congr fun row _ => hsome row _
  have hright : ∀ row : GraphTraversalRow τ,
      (requestedWalks edges spec row.path.startGoid).map (rendered renderNext row) =
        (depthsOf spec).flatMap fun k =>
          (walksOf edges spec.mode row.path.startGoid k).map (rendered renderNext row) := fun row => by
    rw [requestedWalks, map_flatMap]
  rw [hleft]
  simp only [hright, ← Multiset.coe_eq_coe, ← Multiset.coe_bind]
  exact Multiset.bind_bind _ _

end

section

variable {edges : List (GraphEdge String)} {spec : GraphTraversalSpec} {budget : GraphExecutionBudget}
  {renderNext : RenderNext τ} {rows out : List (GraphTraversalRow τ)}

/-- Every requested path from every start row stands in the output once, the shorter ones first. -/
structure EachOnce (edges : List (GraphEdge String)) (spec : GraphTraversalSpec) (renderNext : RenderNext τ)
    (rows out : List (GraphTraversalRow τ)) : Prop where
  enumerates : ∃ walks : String → List (List (GraphEdge String)),
    (∀ start, (walks start).Nodup ∧ ∀ es, es ∈ walks start ↔ Requested edges spec start es) ∧
      (out.map some).Perm (rows.flatMap fun row => (walks row.path.startGoid).map (rendered renderNext row)) ∧
      (out.map GraphTraversalRow.path).Perm
        (rows.flatMap fun row => (walks row.path.startGoid).map (pathOf row.path.startGoid))
  shorterFirst : out.Pairwise fun o o' => o.path.depth ≤ o'.path.depth

/-- The output has one row, as short as any, for each value that the requested paths have. -/
structure OnePer {β : Type} (what : GraphPath → β) (edges : List (GraphEdge String))
    (spec : GraphTraversalSpec)
    (renderNext : RenderNext τ) (rows out : List (GraphTraversalRow τ)) : Prop where
  requested : ∀ o ∈ out, ∃ row ∈ rows, ∃ es,
    Requested edges spec row.path.startGoid es ∧ rendered renderNext row es = some o
  nodup : (out.map fun o => what o.path).Nodup
  covers : ∀ row ∈ rows, ∀ es, Requested edges spec row.path.startGoid es → ∃ o ∈ out,
    what o.path = what (pathOf row.path.startGoid es) ∧ o.path.depth ≤ es.length

def MeetsPolicy (edges : List (GraphEdge String)) (spec : GraphTraversalSpec) (renderNext : RenderNext τ)
    (rows out : List (GraphTraversalRow τ)) : Prop :=
  match spec.distinct with
  | .none => EachOnce edges spec renderNext rows out
  | .path => OnePer (fun path => (path.startGoid, path.edgeGoids)) edges spec renderNext rows out
  | .endNode => OnePer (fun path => (path.startGoid, path.currentGoid)) edges spec renderNext rows out

/-- Joining the ids with `|` and `>` does not make the keys of two requested paths the same. -/
def KeysApart (edges : List (GraphEdge String)) (spec : GraphTraversalSpec)
    (rows : List (GraphTraversalRow τ)) : Prop :=
  ∀ row ∈ rows, ∀ row' ∈ rows, ∀ es es', Requested edges spec row.path.startGoid es →
    Requested edges spec row'.path.startGoid es' →
    match spec.distinct with
    | .none => True
    | .path =>
      row.path.startGoid ++ "|" ++ String.intercalate ">" (es.map GraphEdge.edgeId) =
        row'.path.startGoid ++ "|" ++ String.intercalate ">" (es'.map GraphEdge.edgeId) →
      row.path.startGoid = row'.path.startGoid ∧ es.map GraphEdge.edgeId = es'.map GraphEdge.edgeId
    | .endNode =>
      row.path.startGoid ++ "|" ++ endOf row.path.startGoid es =
        row'.path.startGoid ++ "|" ++ endOf row'.path.startGoid es' →
      row.path.startGoid = row'.path.startGoid ∧
        endOf row.path.startGoid es = endOf row'.path.startGoid es'

theorem eachOnce_enumerated (hrows : ∀ row ∈ rows, row.path = .new row.path.startGoid) (hedges : edges.Nodup)
    (hrender : ∀ payload e path, (renderNext payload e path).isSome) :
    EachOnce edges spec renderNext rows
      ((depthsOf spec).flatMap (rowsAt edges spec.mode renderNext rows)) := by
  have hperm := @enumerated_perm _ edges spec _ _ hrows hrender
  refine ⟨⟨requestedWalks edges spec, fun start => ⟨requestedWalks_nodup hedges spec start,
    fun es => mem_requestedWalks⟩, hperm, ?_⟩, enumerated_sorted hrows⟩
  have hpaths := hperm.map (Option.map GraphTraversalRow.path)
  have hright : (rows.flatMap fun row => (requestedWalks edges spec row.path.startGoid).map
      (rendered renderNext row)).map (Option.map GraphTraversalRow.path) =
      (rows.flatMap fun row =>
        (requestedWalks edges spec row.path.startGoid).map (pathOf row.path.startGoid)).map some := by
    rw [map_flatMap, map_flatMap]
    refine flatMap_congr fun row hrow => ?_
    rw [map_map, map_map]
    refine map_congr_left fun es _ => ?_
    obtain ⟨r, hr⟩ := Option.isSome_iff_exists.mp (rendered_isSome hrender row es)
    rw [Function.comp_apply, hr, Option.map_some, rendered_path (hrows row hrow) hr, Function.comp_apply]
  rw [hright, map_map] at hpaths
  have hleft : (Option.map GraphTraversalRow.path ∘ some : GraphTraversalRow τ → Option GraphPath) =
      some ∘ GraphTraversalRow.path := rfl
  rw [hleft, ← map_map] at hpaths
  exact (map_perm_map_iff (Option.some_injective _)).mp hpaths

theorem onePer_iff {β : Type} {what : GraphPath → β} {f : β → String}
    {distinct : GraphTraversalDistinctPolicy}
    (hrows : ∀ row ∈ rows, row.path = .new row.path.startGoid)
    (hrender : ∀ payload e path, (renderNext payload e path).isSome)
    (hkey : ∀ path, rowKey path distinct = some (f (what path)))
    (hout : out = (((depthsOf spec).flatMap (rowsAt edges spec.mode renderNext rows)).foldl
      (pushEmittedRow distinct) ⟨∅, []⟩).emitted) :
    OnePer what edges spec renderNext rows out ↔
      ∀ row ∈ rows, ∀ row' ∈ rows, ∀ es es', Requested edges spec row.path.startGoid es →
        Requested edges spec row'.path.startGoid es' →
        f (what (pathOf row.path.startGoid es)) = f (what (pathOf row'.path.startGoid es')) →
          what (pathOf row.path.startGoid es) = what (pathOf row'.path.startGoid es') := by
  subst hout
  have hkept : Kept (fun path => f (what path))
      ((depthsOf spec).flatMap (rowsAt edges spec.mode renderNext rows)) _ :=
    kept_pushAll hkey (enumerated_sorted hrows)
  have hiff := @Kept.covers_iff _ _ _ _ β what f (fun _ => rfl) hkept
  constructor
  · rintro ⟨-, hnodup, hcovers⟩ row hrow row' hrow' es es' hes hes' heq
    obtain ⟨r, hr⟩ := Option.isSome_iff_exists.mp (rendered_isSome hrender row es)
    obtain ⟨r', hr'⟩ := Option.isSome_iff_exists.mp (rendered_isSome hrender row' es')
    have happart := hiff.mp ⟨hnodup, fun o ho => ?_⟩ r ((mem_enumerated hrows).mpr ⟨row, hrow, es, hes, hr⟩)
      r' ((mem_enumerated hrows).mpr ⟨row', hrow', es', hes', hr'⟩)
    · rw [rendered_path (hrows row hrow) hr, rendered_path (hrows row' hrow') hr'] at happart
      exact happart heq
    · obtain ⟨row, hrow, es, hes, ho⟩ := (mem_enumerated hrows).mp ho
      rw [rendered_path (hrows row hrow) ho]
      exact hcovers row hrow es hes
  · intro happart
    obtain ⟨hnodup, hcovers⟩ := hiff.mpr fun r hr r' hr' heq => by
      obtain ⟨row, hrow, es, hes, hr⟩ := (mem_enumerated hrows).mp hr
      obtain ⟨row', hrow', es', hes', hr'⟩ := (mem_enumerated hrows).mp hr'
      rw [rendered_path (hrows row hrow) hr, rendered_path (hrows row' hrow') hr'] at heq ⊢
      exact happart row hrow row' hrow' es es' hes hes' heq
    refine ⟨fun o ho => (mem_enumerated hrows).mp (hkept.sublist.subset ho), hnodup,
      fun row hrow es hes => ?_⟩
    obtain ⟨r, hr⟩ := Option.isSome_iff_exists.mp (rendered_isSome hrender row es)
    obtain ⟨o, ho, hwhat, hdepth⟩ := hcovers r ((mem_enumerated hrows).mpr ⟨row, hrow, es, hes, hr⟩)
    rw [rendered_path (hrows row hrow) hr] at hwhat hdepth
    exact ⟨o, ho, hwhat, hdepth⟩

theorem Follows.subset {start : String} {es : List (GraphEdge String)}
    (h : Follows edges start es) : es ⊆ edges := by
  induction es generalizing start with
  | nil => exact nil_subset _
  | cons e es ih => exact cons_subset.mpr ⟨h.1, ih h.2.2⟩

theorem join_bar_inj {a a' b b' : String} (ha : '|' ∉ a.toList) (ha' : '|' ∉ a'.toList)
    (h : a ++ "|" ++ b = a' ++ "|" ++ b') : a = a' ∧ b = b' := by
  have hlists : a.toList ++ '|' :: b.toList = a'.toList ++ '|' :: b'.toList := by
    simpa using congrArg String.toList h
  have hsplit := congrArg (List.splitOn '|') hlists
  rw [splitOn_append_cons_self_of_not_mem ha, splitOn_append_cons_self_of_not_mem ha'] at hsplit
  have hfront : a.toList = a'.toList := (List.cons.inj hsplit).1
  rw [hfront] at hlists
  have hrest : b.toList = b'.toList := (List.cons.inj (append_cancel_left hlists)).2
  exact ⟨String.toList_inj.mp hfront, String.toList_inj.mp hrest⟩

theorem join_arrow_inj {ids ids' : List String} (hids : ∀ id ∈ ids, id ≠ "" ∧ '>' ∉ id.toList)
    (hids' : ∀ id ∈ ids', id ≠ "" ∧ '>' ∉ id.toList)
    (h : String.intercalate ">" ids = String.intercalate ">" ids') : ids = ids' := by
  have hsplit : ∀ ids : List String, (∀ id ∈ ids, id ≠ "" ∧ '>' ∉ id.toList) →
      ids.map String.toList = ((String.intercalate ">" ids).toList.splitOn '>').filter (· ≠ []) := by
    intro ids hids
    rw [String.toList_intercalate]
    by_cases hnil : ids = []
    · subst hnil
      rfl
    · have htexts : ∀ l ∈ ids.map String.toList, '>' ∉ l := by
        simpa using fun id hid => (hids id hid).2
      have hsome : ∀ l ∈ ids.map String.toList, l ≠ [] := by
        simpa using fun id hid => (hids id hid).1
      have hkept : (ids.map String.toList).filter (· ≠ []) = ids.map String.toList :=
        filter_eq_self.mpr fun l hl => decide_eq_true (hsome l hl)
      rw [show (">" : String).toList = ['>'] from rfl,
        splitOn_intercalate '>' htexts (by simpa using hnil), hkept]
  have hlists := (hsplit ids hids).trans ((h ▸ hsplit ids' hids').symm)
  exact map_injective_iff.mpr (fun _ _ h => String.toList_inj.mp h) hlists

theorem keysApart_of_plain (hstarts : ∀ row ∈ rows, '|' ∉ row.path.startGoid.toList)
    (hids : ∀ e ∈ edges, e.edgeId ≠ "" ∧ '>' ∉ e.edgeId.toList) : KeysApart edges spec rows := by
  intro row hrow row' hrow' es es' hes hes'
  have hplain : ∀ {start : String} {es : List (GraphEdge String)}, Requested edges spec start es →
      ∀ id ∈ es.map GraphEdge.edgeId, id ≠ "" ∧ '>' ∉ id.toList := by
    intro start es hes id hid
    obtain ⟨e, he, rfl⟩ := mem_map.mp hid
    exact hids e (hes.follows.subset he)
  cases spec.distinct with
  | none => trivial
  | path =>
    intro h
    obtain ⟨hstart, hjoined⟩ := join_bar_inj (hstarts row hrow) (hstarts row' hrow') h
    exact ⟨hstart, join_arrow_inj (hplain hes) (hplain hes') hjoined⟩
  | endNode => exact join_bar_inj (hstarts row hrow) (hstarts row' hrow')

def fork : List (GraphEdge String) := [⟨"x", "a", "b"⟩, ⟨"y", "a", "c"⟩, ⟨"z", "b", "c"⟩]

def forkSpec (distinct : GraphTraversalDistinctPolicy) : GraphTraversalSpec :=
  ⟨1, 2, .trail, distinct, ⟨10, 10, 10⟩⟩

/-- Three walks from one start, of which two have one end. -/
theorem keysApart_of_plain_fork :
    (∀ es ∈ [[⟨"x", "a", "b"⟩], [⟨"y", "a", "c"⟩], [⟨"x", "a", "b"⟩, ⟨"z", "b", "c"⟩]],
      Requested fork (forkSpec .path) "a" es) ∧
    KeysApart fork (forkSpec .path) [(⟨(), .new "a"⟩ : GraphTraversalRow Unit)] ∧
      KeysApart fork (forkSpec .endNode) [(⟨(), .new "a"⟩ : GraphTraversalRow Unit)] := by
  refine ⟨fun es hes => ?_, keysApart_of_plain (by decide) (by decide),
    keysApart_of_plain (by decide) (by decide)⟩
  simp only [mem_cons, not_mem_nil, or_false] at hes
  rcases hes with rfl | rfl | rfl <;> constructor <;> simp [fork, forkSpec, Follows, Admits]

/-- A traversal gives the paths of its policy just when the keys of the requested paths stay apart. -/
theorem expandTraversalRows_meets_iff (hrows : ∀ row ∈ rows, row.path = .new row.path.startGoid)
    (hids : (edges.map GraphEdge.edgeId).Nodup)
    (hrender : ∀ payload e path, (renderNext payload e path).isSome)
    (h : expandTraversalRows rows edges spec budget renderNext = .ok out) :
    MeetsPolicy edges spec renderNext rows out ↔ KeysApart edges spec rows := by
  have hzero : ∀ row ∈ rows, row.path.depth = 0 := fun row hrow => by
    rw [hrows row hrow]
    rfl
  have hout := expandTraversalRows_ok hzero h
  rw [rowsUpTo_eq hrows] at hout
  unfold MeetsPolicy KeysApart
  cases hdistinct : spec.distinct <;> rw [hdistinct] at hout <;> dsimp only
  · rw [pushAll_none, nil_append] at hout
    subst hout
    have honce := @eachOnce_enumerated _ edges spec _ _ hrows hids.of_map hrender
    exact ⟨fun _ _ _ _ _ _ _ _ _ => trivial, fun _ => honce⟩
  · rw [onePer_iff (f := fun p => p.1 ++ "|" ++ String.intercalate ">" p.2) hrows hrender (fun _ => rfl) hout]
    simp only [Prod.mk.injEq]
    rfl
  · rw [onePer_iff (f := fun p => p.1 ++ "|" ++ p.2) hrows hrender (fun _ => rfl) hout]
    simp only [Prod.mk.injEq]
    rfl

/-- Two edges from `a` to `b`, the id of one of which could be that of a path of two. -/
def ambiguousEdges : List (GraphEdge String) :=
  [⟨"x>y", "a", "b"⟩, ⟨"x", "a", "b"⟩, ⟨"y", "b", "c"⟩]

def traversalOf (distinct : GraphTraversalDistinctPolicy) : GraphTraversalSpec :=
  ⟨1, 2, .trail, distinct, ⟨10, 10, 10⟩⟩

def unhurried : GraphExecutionBudget := ⟨fun _ => 0, 1000⟩

theorem expandTraversalRows_meets_iff_ambiguous :
    ∃ out, expandTraversalRows [⟨(), .new "a"⟩] ambiguousEdges (traversalOf .endNode) unhurried
        (fun _ _ _ => some ()) = .ok out ∧
      (MeetsPolicy ambiguousEdges (traversalOf .endNode) (fun _ _ _ => some ()) [⟨(), .new "a"⟩] out ↔
        KeysApart ambiguousEdges (traversalOf .endNode) [(⟨(), .new "a"⟩ : GraphTraversalRow Unit)]) :=
  have hrun : expandTraversalRows [⟨(), .new "a"⟩] ambiguousEdges (traversalOf .endNode) unhurried
      (fun _ _ _ => some ()) = .ok [⟨(), pathOf "a" [⟨"x>y", "a", "b"⟩]⟩,
        ⟨(), pathOf "a" [⟨"x>y", "a", "b"⟩, ⟨"y", "b", "c"⟩]⟩] := by decide +kernel
  ⟨_, hrun, expandTraversalRows_meets_iff (by simp [GraphPath.new]) (by decide +kernel)
    (fun _ _ _ => rfl) hrun⟩

/-- The path along `x` and `y` has the key of the one along `x>y`, and is left out. -/
theorem ambiguous_path_dropped : (ambiguousEdges.map GraphEdge.edgeId).Nodup ∧
      ∃ out, expandTraversalRows [⟨(), .new "a"⟩] ambiguousEdges (traversalOf .path) unhurried
          (fun _ _ _ => some ()) = .ok out ∧
        Requested ambiguousEdges (traversalOf .path) "a" [⟨"x", "a", "b"⟩, ⟨"y", "b", "c"⟩] ∧
        (∀ o ∈ out, o.path ≠ pathOf "a" [⟨"x", "a", "b"⟩, ⟨"y", "b", "c"⟩]) ∧
        ¬ MeetsPolicy ambiguousEdges (traversalOf .path) (fun _ _ _ => some ())
          [(⟨(), .new "a"⟩ : GraphTraversalRow Unit)] out := by
  have hrun : expandTraversalRows [⟨(), .new "a"⟩] ambiguousEdges (traversalOf .path) unhurried
      (fun _ _ _ => some ()) = .ok [⟨(), pathOf "a" [⟨"x>y", "a", "b"⟩]⟩, ⟨(), pathOf "a" [⟨"x", "a", "b"⟩]⟩,
        ⟨(), pathOf "a" [⟨"x>y", "a", "b"⟩, ⟨"y", "b", "c"⟩]⟩] := by decide +kernel
  have hrequested : Requested ambiguousEdges (traversalOf .path) "a" [⟨"x", "a", "b"⟩, ⟨"y", "b", "c"⟩] := by
    refine ⟨⟨?_, rfl, ?_, rfl, trivial⟩, ?_, ?_, le_rfl⟩
    · simp [ambiguousEdges]
    · simp [ambiguousEdges]
    · simp [Admits, traversalOf]
    · simp [traversalOf]
  refine ⟨by decide +kernel, _, hrun, hrequested, by decide +kernel, fun h => ?_⟩
  obtain ⟨o, ho, heq, -⟩ := OnePer.covers h _ mem_cons_self _ hrequested
  exact absurd heq (by revert o; decide +kernel)

end

end CoveFormat.GraphTraversals
