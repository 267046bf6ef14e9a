import CoveFormat.ExceptRules
import CoveFormat.OrderedMaps
import CoveFormat.SortedKeys
import Mathlib.Algebra.GroupWithZero.Nat
import Mathlib.Algebra.Order.BigOperators.Group.Finset
import Mathlib.Data.Rat.Init

namespace CoveFormat.GraphAdjacencies

open ExceptRules List OrderedMaps SortedKeys

variable {α : Type} [LinearOrder α]

/-- `ResourceLimitExceeded`, the one error of the module. -/
structure GraphExecutionError where
  limit : String
  actual : ℕ
  deriving DecidableEq

/-- The milliseconds that have gone by are read off a clock; `elapsed` has its readings in order. -/
structure GraphExecutionBudget where
  elapsed : ℕ → ℕ
  maximumExecutionTimeMs : ℕ

def GraphExecutionBudget.checkTime (budget : GraphExecutionBudget) (clock : ℕ) :
    Except GraphExecutionError Unit :=
  rejectIf (budget.maximumExecutionTimeMs < budget.elapsed clock % 2 ^ 64)
    ⟨"maximum_execution_time_ms", budget.elapsed clock % 2 ^ 64⟩

inductive GraphAlgorithmKind
  | reachable
  | shortestPath
  | allPaths
  | kShortestPaths
  | connectedComponents
  | degree
  | pageRank
  | hits
  | centrality
  | triangleCount
  | clusteringCoefficient
  | community
  | spanningTree
  deriving DecidableEq

/-- The doubles of the algorithms are read as rational numbers. -/
structure GraphAlgorithmSpec where
  kind : GraphAlgorithmKind
  variant : String
  (maxDepth maxPaths maxIterations : ℕ)
  tolerance : ℚ

structure GraphEdge (α : Type) where
  edgeId : String
  (source target : α)

structure GraphAdjacency (α : Type) [LinearOrder α] where
  (outgoing incoming : OrderedMap α (List α))

namespace GraphAdjacency

def default : GraphAdjacency α := ⟨.empty, .empty⟩

def addEdge (graph : GraphAdjacency α) (source target : α) : GraphAdjacency α where
  outgoing := graph.outgoing.entryOr source [] (· ++ [target])
  incoming := graph.incoming.entryOr target [] (· ++ [source])

def sortDedup (nodes : List α) : List α := dedupAdjacent (sortByKey id nodes)

def normalize (graph : GraphAdjacency α) : GraphAdjacency α where
  outgoing := graph.outgoing.mapValues sortDedup
  incoming := graph.incoming.mapValues sortDedup

def fromEdges (edges : List (GraphEdge α)) : GraphAdjacency α :=
  (edges.foldl (fun graph edge => graph.addEdge edge.source edge.target) default).normalize

variable (graph : GraphAdjacency α)

/-- What a loop over `outgoing.get(node)` runs through. -/
def targets (node : α) : List α := (graph.outgoing.get node).getD []

def sources (node : α) : List α := (graph.incoming.get node).getD []

def size : ℕ := (graph.outgoing.values.map List.length).sum + (graph.incoming.values.map List.length).sum

def Edge (a b : α) : Prop := b ∈ graph.targets a

instance (a b : α) : Decidable (graph.Edge a b) := inferInstanceAs (Decidable (b ∈ graph.targets a))

/-- What every adjacency that is built from edges has. -/
structure Normalized : Prop where
  targets_sorted : ∀ node, (graph.targets node).Pairwise (· < ·)
  sources_sorted : ∀ node, (graph.sources node).Pairwise (· < ·)
  targets_ne : ∀ node, graph.outgoing.get node ≠ some []
  sources_ne : ∀ node, graph.incoming.get node ≠ some []
  reverse : ∀ a b, a ∈ graph.sources b ↔ graph.Edge a b

end GraphAdjacency

open GraphAdjacency

section

variable {graph : GraphAdjacency α} {source target a b : α} {nodes : List α} {edges : List (GraphEdge α)}

theorem mem_sortDedup : a ∈ sortDedup nodes ↔ a ∈ nodes := by
  rw [sortDedup, mem_dedupAdjacent, (sortByKey_perm id nodes).mem_iff]

theorem sortDedup_sorted (nodes : List α) : (sortDedup nodes).Pairwise (· < ·) :=
  dedupAdjacent_strict Function.injective_id (sortByKey_pairwise id nodes)

theorem targets_addEdge : (graph.addEdge source target).targets a =
    if source = a then graph.targets a ++ [target] else graph.targets a := by
  rw [targets, targets, addEdge, OrderedMap.get_entryOr]
  split
  · rename_i h
    rw [h, Option.getD_some]
  · rfl

theorem sources_addEdge : (graph.addEdge source target).sources a =
    if target = a then graph.sources a ++ [source] else graph.sources a := by
  rw [sources, sources, addEdge, OrderedMap.get_entryOr]
  split
  · rename_i h
    rw [h, Option.getD_some]
  · rfl

theorem edge_addEdge : (graph.addEdge source target).Edge a b ↔
    graph.Edge a b ∨ source = a ∧ target = b := by
  rw [Edge, targets_addEdge, Edge]
  by_cases h : source = a
  · simp [h, eq_comm]
  · simp [h]

theorem targets_normalize : graph.normalize.targets a = sortDedup (graph.targets a) := by
  rw [targets, targets, GraphAdjacency.normalize, OrderedMap.get_mapValues]
  cases graph.outgoing.get a <;> rfl

theorem sources_normalize : graph.normalize.sources a = sortDedup (graph.sources a) := by
  rw [sources, sources, GraphAdjacency.normalize, OrderedMap.get_mapValues]
  cases graph.incoming.get a <;> rfl

theorem edge_normalize : graph.normalize.Edge a b ↔ graph.Edge a b := by
  rw [Edge, targets_normalize, mem_sortDedup, Edge]

/-- What holds while edges are added: each is in both maps, and no entry is empty. -/
structure Mirrored (graph : GraphAdjacency α) : Prop where
  targets_ne : ∀ node, graph.outgoing.get node ≠ some []
  sources_ne : ∀ node, graph.incoming.get node ≠ some []
  reverse : ∀ a b, a ∈ graph.sources b ↔ graph.Edge a b

theorem mirrored_default : Mirrored (default : GraphAdjacency α) :=
  ⟨fun _ => nofun, fun _ => nofun, fun _ _ => iff_of_false not_mem_nil not_mem_nil⟩

theorem get_entryOr_ne {m : OrderedMap α (List α)} (h : ∀ node, m.get node ≠ some []) (node : α) :
    (m.entryOr source [] (· ++ [target])).get node ≠ some [] := by
  rw [OrderedMap.get_entryOr]
  split
  · simp
  · exact h node

theorem Mirrored.addEdge (h : Mirrored graph) : Mirrored (graph.addEdge source target) where
  targets_ne := get_entryOr_ne h.targets_ne
  sources_ne := get_entryOr_ne h.sources_ne
  reverse a b := by
    rw [edge_addEdge, ← h.reverse, sources_addEdge]
    by_cases hb : target = b
    · simp [hb, eq_comm]
    · simp [hb]

theorem sortDedup_eq_nil : sortDedup nodes = [] ↔ nodes = [] := by
  simp only [eq_nil_iff_forall_not_mem, mem_sortDedup]

theorem get_normalize_ne {m : OrderedMap α (List α)} (h : ∀ node, m.get node ≠ some []) (node : α) :
    (m.mapValues sortDedup).get node ≠ some [] := by
  rw [OrderedMap.get_mapValues]
  intro heq
  obtain ⟨nodes, hnodes, hempty⟩ := Option.map_eq_some_iff.mp heq
  exact h node (sortDedup_eq_nil.mp hempty ▸ hnodes)

theorem Mirrored.normalized (h : Mirrored graph) : graph.normalize.Normalized where
  targets_sorted node := @targets_normalize _ _ graph node ▸ sortDedup_sorted _
  sources_sorted node := @sources_normalize _ _ graph node ▸ sortDedup_sorted _
  targets_ne := get_normalize_ne h.targets_ne
  sources_ne := get_normalize_ne h.sources_ne
  reverse a b := by rw [sources_normalize, mem_sortDedup, edge_normalize, h.reverse]

theorem mirrored_foldl (h : Mirrored graph) :
    Mirrored (edges.foldl (fun graph edge => graph.addEdge edge.source edge.target) graph) := by
  induction edges generalizing graph with
  | nil => exact h
  | cons edge edges ih => exact ih h.addEdge

theorem edge_foldl :
    (edges.foldl (fun graph edge => graph.addEdge edge.source edge.target) graph).Edge a b ↔
      graph.Edge a b ∨ ∃ edge ∈ edges, edge.source = a ∧ edge.target = b := by
  induction edges generalizing graph with
  | nil => simp
  | cons edge edges ih =>
    rw [foldl_cons, ih, edge_addEdge, exists_mem_cons_iff]
    tauto

theorem fromEdges_normalized (edges : List (GraphEdge α)) : (fromEdges edges).Normalized :=
  (mirrored_foldl mirrored_default).normalized

theorem edge_fromEdges :
    (fromEdges edges).Edge a b ↔ ∃ edge ∈ edges, edge.source = a ∧ edge.target = b := by
  rw [fromEdges, edge_normalize, edge_foldl]
  exact or_iff_right not_mem_nil

end

section

variable {graph : GraphAdjacency α} {a b : α}

theorem GraphAdjacency.Normalized.targets_nodup (h : graph.Normalized) (node : α) :
    (graph.targets node).Nodup :=
  (h.targets_sorted node).imp ne_of_lt

def GraphAdjacency.reached (graph : GraphAdjacency α) : Finset α :=
  graph.outgoing.values.flatten.toFinset

theorem mem_reached (h : graph.Edge a b) : b ∈ graph.reached := by
  rw [GraphAdjacency.reached, List.mem_toFinset, mem_flatten]
  rw [GraphAdjacency.Edge, targets] at h
  cases hget : graph.outgoing.get a with
  | none => simp [hget] at h
  | some nodes =>
    rw [hget] at h
    exact ⟨nodes, mem_map_of_mem (OrderedMap.mem_entries_iff.mpr hget), h⟩

theorem card_reached_le (graph : GraphAdjacency α) : graph.reached.card ≤ graph.size := by
  refine (toFinset_card_le _).trans ?_
  rw [length_flatten, size]
  exact Nat.le_add_right _ _

theorem sum_values {ν μ : Type} [AddCommMonoid μ] (entries : OrderedMap α ν) (f : ν → μ) :
    (entries.values.map f).sum = ∑ node ∈ entries.keys.toFinset, ((entries.get node).map f).getD 0 := by
  rw [OrderedMap.keys, OrderedMap.values, sum_toFinset _ (entries.sorted.imp ne_of_lt),
    map_map, map_map]
  refine congrArg List.sum (map_congr_left fun entry hentry => ?_)
  have hget : entries.get entry.1 = some entry.2 := OrderedMap.mem_entries_iff.mp hentry
  simp [hget]

theorem sum_entries_le (entries : OrderedMap α (List α)) (known : Finset α) :
    ∑ node ∈ known, ((entries.get node).getD []).length ≤ (entries.values.map List.length).sum := by
  have hlength : ∀ node, ((entries.get node).map List.length).getD 0 =
      ((entries.get node).getD []).length := by
    intro node
    cases entries.get node <;> rfl
  simp only [sum_values, hlength]
  refine Finset.sum_le_sum_of_ne_zero fun node _ hne => ?_
  rw [List.mem_toFinset, OrderedMap.mem_keys_iff]
  cases hget : entries.get node with
  | none => simp [hget] at hne
  | some next => rfl

end

end CoveFormat.GraphAdjacencies
