import CoveFormat.RootPointers
import CoveFormat.SearchForests

namespace CoveFormat.MinWeightForests

open DirectedWalks GraphAdjacencies List Option OrderedMaps OrderedSets ParentForests Relation
  RootPointers SearchForests SortedKeys SpanningForests WhileLoops

variable {α ω : Type} [LinearOrder α]

structure GraphWeightedEdge (α ω : Type) where
  (source target : α)
  weight : ω

/-- Where the pointer of a node leads, to itself where it has none. -/
def parentOf (parents : OrderedMap α α) (node : α) : α := (parents.get node).getD node

def graphFindRoot : ℕ → OrderedMap α α → α → Option (α × OrderedMap α α)
  | 0, _, _ => none
  | fuel + 1, parents, node =>
    let parent := parentOf parents node
    if parent = node then some (parent, parents)
    else (graphFindRoot fuel parents parent).map fun found => (found.1, found.2.insert node found.1)

def findRoot (parents : OrderedMap α α) (node : α) :
    Except (Option GraphExecutionError) (α × OrderedMap α α) :=
  orOutOfFuel (graphFindRoot (parents.entries.length + 1) parents node)

/-- The loop over the edges as it goes on. -/
structure Kruskal (α : Type) [LinearOrder α] where
  disjoint : OrderedMap α α
  tree : GraphAdjacency α
  clock : ℕ

def joinEdge (budget : GraphExecutionBudget) (s : Kruskal α) (edge : GraphWeightedEdge α ω) :
    Except (Option GraphExecutionError) (Kruskal α) := do
  (budget.checkTime s.clock).mapError some
  let source ← findRoot s.disjoint edge.source
  let target ← findRoot source.2 edge.target
  if source.1 = target.1 then .ok ⟨target.2, s.tree, s.clock + 1⟩
  else .ok ⟨target.2.insert target.1 source.1,
    (s.tree.addEdge edge.source edge.target).addEdge edge.target edge.source, s.clock + 1⟩

def joinEdges (budget : GraphExecutionBudget) :
    List (GraphWeightedEdge α ω) → Kruskal α → Except (Option GraphExecutionError) (Kruskal α)
  | [], s => .ok s
  | edge :: edges, s => do
      let s ← joinEdge budget s edge
      joinEdges budget edges s

def sortedEdges [LinearOrder ω] (edges : List (GraphWeightedEdge α ω)) : List (GraphWeightedEdge α ω) :=
  sortByKey (fun edge => toLex (edge.weight, toLex (edge.source, edge.target))) edges

def graphMinWeightSpanningForest [LinearOrder ω] (nodes : OrderedSet α)
    (weightedEdges : List (GraphWeightedEdge α ω)) (budget : GraphExecutionBudget) (clock : ℕ) :
    Except (Option GraphExecutionError) (Forest α × ℕ) := do
  let s ← joinEdges budget (sortedEdges weightedEdges) ⟨.fill nodes id, .default, clock⟩
  let forest ← orOutOfFuel (graphSearchSpanningForest s.tree.normalize nodes false)
  .ok (forest, s.clock)

section

variable {parents parents' : OrderedMap α α} {nodes : OrderedSet α} {node r j k : α} {fuel n : ℕ}

theorem parentOf_insert (parents : OrderedMap α α) (node r : α) :
    parentOf (parents.insert node r) = Function.update (parentOf parents) node r := by
  funext k
  rw [parentOf, OrderedMap.get_insert, Function.update_apply]
  by_cases h : node = k
  · simp [h]
  · simp [h, Ne.symm h, parentOf]

/-- The pointers of the nodes stay among them, and each leads to a root. -/
structure Partition (nodes : OrderedSet α) (parents : OrderedMap α α) : Prop where
  keys : ∀ k, (parents.get k).isSome ↔ k ∈ nodes
  inside : ∀ k ∈ nodes, parentOf parents k ∈ nodes
  rooted : ∀ k ∈ nodes, ∃ r, Rooted (parentOf parents) k r

def SameRoot (parents : OrderedMap α α) (j k : α) : Prop :=
  ∃ r, Rooted (parentOf parents) j r ∧ Rooted (parentOf parents) k r

variable (h : Partition nodes parents)
include h

theorem Partition.root_mem (hk : k ∈ nodes) (hroot : Rooted (parentOf parents) k r) : r ∈ nodes := by
  obtain ⟨n, hchain⟩ := hroot
  induction hchain with
  | here _ => exact hk
  | step _ _ ih => exact ih (h.inside _ hk)

theorem Partition.insert (hnode : node ∈ nodes) (hr : r ∈ nodes)
    (hrooted : ∀ k ∈ nodes, ∃ s, Rooted (Function.update (parentOf parents) node r) k s) :
    Partition nodes (parents.insert node r) where
  keys k := by
    rw [OrderedMap.isSome_insert, h.keys]
    exact ⟨fun hor => hor.elim (· ▸ hnode) id, .inr⟩
  inside k hk := by
    rw [parentOf_insert, Function.update_apply]
    split
    · exact hr
    · exact h.inside k hk
  rooted := by
    rw [parentOf_insert]
    exact hrooted

theorem graphFindRoot_spec (hnode : node ∈ nodes) (hchain : Chain (parentOf parents) n node r)
    (hfuel : n < fuel) :
    ∃ parents', graphFindRoot fuel parents node = some (r, parents') ∧ Partition nodes parents' ∧
      ∀ j s, Rooted (parentOf parents) j s → Rooted (parentOf parents') j s := by
  induction fuel generalizing node n with
  | zero => exact absurd hfuel (Nat.not_lt_zero n)
  | succ fuel ih =>
    rw [graphFindRoot]
    cases hchain with
    | here hself =>
      refine ⟨parents, ?_, h, fun _ _ hj => hj⟩
      rw [if_pos hself, hself]
    | @step n _ _ hne hrest =>
      obtain ⟨middle, hfound, hpartition, hkeep⟩ := ih (h.inside node hnode) hrest (by omega)
      have hroot : Rooted (parentOf middle) node r := hkeep node r ⟨_, .step hne hrest⟩
      have hall : ∀ j s, Rooted (parentOf middle) j s →
          Rooted (Function.update (parentOf middle) node r) j s := fun j s => hroot.shorten
      refine ⟨middle.insert node r, ?_, hpartition.insert hnode (hpartition.root_mem hnode hroot)
        fun k hk => ?_, fun j s hj => ?_⟩
      · rw [if_neg hne, hfound]
        rfl
      · obtain ⟨s, hs⟩ := hpartition.rooted k hk
        exact ⟨s, hall k s hs⟩
      · rw [parentOf_insert]
        exact hall j s (hkeep j s hj)

theorem findRoot_spec (hnode : node ∈ nodes) :
    ∃ r parents', findRoot parents node = .ok (r, parents') ∧ Rooted (parentOf parents) node r ∧
      Partition nodes parents' ∧
      ∀ j s, Rooted (parentOf parents) j s → Rooted (parentOf parents') j s := by
  obtain ⟨r, n, hchain⟩ := h.rooted node hnode
  have hkeys : ∀ k, k ∈ parents.keys ↔ k ∈ nodes := fun k => OrderedMap.mem_keys_iff.trans (h.keys k)
  have hlt := hchain.lt_card (S := nodes.toFinset) h.inside hnode
  have hcard : nodes.toFinset.card ≤ parents.entries.length := by
    rw [OrderedSet.card_toFinset, ← @length_map _ _ parents.entries Prod.fst]
    exact (nodes.nodup.subperm fun k hk => (hkeys k).mpr hk).length_le
  obtain ⟨parents', hfound, hpartition, hkeep⟩ :=
    graphFindRoot_spec h hnode hchain (show n < parents.entries.length + 1 by omega)
  exact ⟨r, parents', orOutOfFuel_eq_ok_iff.mpr hfound, ⟨n, hchain⟩, hpartition, hkeep⟩

theorem Partition.sameRoot_kept
    (hkeep : ∀ j s, Rooted (parentOf parents) j s → Rooted (parentOf parents') j s) (hj : j ∈ nodes)
    (hk : k ∈ nodes) : SameRoot parents' j k ↔ SameRoot parents j k := by
  constructor
  · rintro ⟨r, hjr, hkr⟩
    obtain ⟨s, hs⟩ := h.rooted j hj
    obtain ⟨t, ht⟩ := h.rooted k hk
    obtain rfl := hjr.unique (hkeep j s hs)
    obtain rfl := hkr.unique (hkeep k t ht)
    exact ⟨r, hs, ht⟩
  · rintro ⟨r, hjr, hkr⟩
    exact ⟨r, hkeep j r hjr, hkeep k r hkr⟩

end

section

variable {nodes : OrderedSet α} {C : Finset (Sym2 α)} {s s' : Kruskal α} {budget : GraphExecutionBudget}
  {edge : GraphWeightedEdge α ω} {edges : List (GraphWeightedEdge α ω)}

/-- How the loop stands: the nodes with one root are those the chosen edges join, and the tree has
these edges, in both directions. -/
structure Merged (nodes : OrderedSet α) (C : Finset (Sym2 α)) (s : Kruskal α) : Prop where
  partition : Partition nodes s.disjoint
  joined : ∀ j ∈ nodes, ∀ k ∈ nodes, SameRoot s.disjoint j k ↔ Joined C j k
  tree : ∀ a b, s.tree.Edge a b ↔ s(a, b) ∈ C

open Classical in
/-- What one edge adds to the chosen ones. -/
noncomputable def choose (C : Finset (Sym2 α)) (edge : GraphWeightedEdge α ω) : Finset (Sym2 α) :=
  if Joined C edge.source edge.target then C else insert s(edge.source, edge.target) C

/-- One edge is taken if its ends are not joined; only the clock can stop the loop. -/
theorem joinEdge_spec (budget : GraphExecutionBudget) (h : Merged nodes C s) (hsource : edge.source ∈ nodes)
    (htarget : edge.target ∈ nodes) :
    (∃ e reading, budget.checkTime reading = .error e ∧ joinEdge budget s edge = .error (some e)) ∨
      ∃ s', joinEdge budget s edge = .ok s' ∧ Merged nodes (choose C edge) s' := by
  rw [joinEdge]
  cases hclock : budget.checkTime s.clock with
  | error e => exact .inl ⟨e, s.clock, hclock, rfl⟩
  | ok =>
    right
    obtain ⟨a, first, hfirst, ha, hpartition, hkeep⟩ := findRoot_spec h.partition hsource
    obtain ⟨b, second, hsecond, hb, hpartition', hkeep'⟩ := findRoot_spec hpartition htarget
    have hkeep'' : ∀ j t, Rooted (parentOf s.disjoint) j t → Rooted (parentOf second) j t :=
      fun j t hj => hkeep' j t (hkeep j t hj)
    have ha' := hkeep'' _ _ ha
    have hb' := hkeep' _ _ hb
    have hroots : a = b ↔ Joined C edge.source edge.target := by
      rw [← h.joined _ hsource _ htarget, ← h.partition.sameRoot_kept hkeep'' hsource htarget]
      constructor
      · rintro rfl
        exact ⟨a, ha', hb'⟩
      · rintro ⟨r, hr, hr'⟩
        rw [ha'.unique hr, hb'.unique hr']
    simp only [Except.mapError, hfirst, hsecond, bind, Except.bind]
    by_cases heq : a = b
    · rw [if_pos heq, choose, if_pos (hroots.mp heq)]
      exact ⟨_, rfl, hpartition', fun j hj k hk =>
        (h.partition.sameRoot_kept hkeep'' hj hk).trans (h.joined j hj k hk), h.tree⟩
    · rw [if_neg heq, choose, if_neg (mt hroots.mpr heq)]
      have hmoved : ∀ j t, Rooted (parentOf second) j t →
          Rooted (parentOf (second.insert b a)) j (if t = b then a else t) := fun j t hj => by
        rw [parentOf_insert]
        exact hj.link ha'.fixed hb'.fixed heq
      have hlinked : Partition nodes (second.insert b a) := by
        refine hpartition'.insert (hpartition'.root_mem htarget hb')
          (hpartition'.root_mem hsource ha') fun k hk => ?_
        obtain ⟨t, ht⟩ := hpartition'.rooted k hk
        exact ⟨_, ht.link ha'.fixed hb'.fixed heq⟩
      refine ⟨_, rfl, hlinked, fun j hj k hk => ?_, fun u v => ?_⟩
      · -- the roots are the old ones, but for that of the target, which is now that of the source
        obtain ⟨t, ht⟩ := hpartition'.rooted j hj
        obtain ⟨u, hu⟩ := hpartition'.rooted k hk
        have hnew : SameRoot (second.insert b a) j k ↔
            (if t = b then a else t) = if u = b then a else u := by
          constructor
          · rintro ⟨r, hr, hr'⟩
            rw [(hmoved j t ht).unique hr, (hmoved k u hu).unique hr']
          · intro hsame
            exact ⟨_, hmoved j t ht, hsame ▸ hmoved k u hu⟩
        have hold : ∀ {x y v w}, x ∈ nodes → y ∈ nodes → Rooted (parentOf second) x v →
            Rooted (parentOf second) y w → (Joined C x y ↔ v = w) := by
          intro x y v w hx hy hv hw
          rw [← h.joined x hx y hy, ← h.partition.sameRoot_kept hkeep'' hx hy]
          constructor
          · rintro ⟨r, hr, hr'⟩
            rw [hv.unique hr, hw.unique hr']
          · rintro rfl
            exact ⟨v, hv, hw⟩
        rw [hnew, joined_insert_iff, hold hj hk ht hu, hold hj hsource ht ha',
          hold htarget hk hb' hu, hold hj htarget ht hb', hold hsource hk ha' hu]
        by_cases htb : t = b
        · by_cases hub : u = b
          · simp [htb, hub]
          · simp [htb, hub, Ne.symm hub, Ne.symm heq]
        · by_cases hub : u = b
          · simp [htb, hub]
          · simp [htb, hub, Ne.symm hub]
      · rw [edge_addEdge, edge_addEdge, h.tree, Finset.mem_insert, Sym2.eq_iff]
        tauto

theorem joinEdges_spec (budget : GraphExecutionBudget) (h : Merged nodes C s)
    (hends : ∀ edge ∈ edges, edge.source ∈ nodes ∧ edge.target ∈ nodes) :
    (∃ e reading, budget.checkTime reading = .error e ∧ joinEdges budget edges s = .error (some e)) ∨
      ∃ s', joinEdges budget edges s = .ok s' ∧
        Merged nodes (greedy GraphWeightedEdge.source GraphWeightedEdge.target C edges) s' := by
  induction edges generalizing C s with
  | nil => exact .inr ⟨s, rfl, h⟩
  | cons edge edges ih =>
    obtain ⟨⟨hsource, htarget⟩, hends⟩ := forall_mem_cons.mp hends
    have hgreedy : greedy GraphWeightedEdge.source GraphWeightedEdge.target C (edge :: edges) =
        greedy GraphWeightedEdge.source GraphWeightedEdge.target (choose C edge) edges := by
      rw [greedy, choose]
      split <;> rfl
    rw [hgreedy, joinEdges]
    rcases joinEdge_spec budget h hsource htarget with
      ⟨e, reading, hclock, herr⟩ | ⟨s', hok, h'⟩
    · exact .inl ⟨e, reading, hclock, by rw [herr]; rfl⟩
    · rw [hok]
      exact ih h' hends

theorem merged_start (nodes : OrderedSet α) (clock : ℕ) :
    Merged nodes ∅ ⟨.fill nodes id, .default, clock⟩ := by
  have hself : ∀ k, parentOf (.fill nodes id) k = k := by
    intro k
    rw [parentOf, OrderedMap.get_fill]
    split <;> rfl
  refine ⟨⟨fun k => ?_, fun k hk => ?_, fun k _ => ⟨k, rooted_of_fixed (hself k)⟩⟩,
    fun j _ k _ => ?_, fun a b => ?_⟩
  · rw [OrderedMap.get_fill]
    split
    · rename_i hk
      simp [hk]
    · rename_i hk
      simp [hk]
  · rwa [hself]
  · constructor
    · rintro ⟨r, hj, hk⟩
      rw [(rooted_of_fixed (hself j)).unique hj, (rooted_of_fixed (hself k)).unique hk]
      exact .refl r
    · intro hjoined
      have hbot : (graphOf (∅ : Finset (Sym2 α))).Reachable j k := hjoined
      rw [graphOf, Finset.coe_empty, SimpleGraph.fromEdgeSet_empty, SimpleGraph.reachable_bot] at hbot
      exact ⟨j, rooted_of_fixed (hself j), hbot ▸ rooted_of_fixed (hself j)⟩
  · exact iff_of_false not_mem_nil (Finset.notMem_empty _)

end

section

variable [AddCommGroup ω] [LinearOrder ω] (edges : List (GraphWeightedEdge α ω)) (forest : Forest α)

def ends (edge : GraphWeightedEdge α ω) : Sym2 α := s(edge.source, edge.target)

def edgeGraph : SimpleGraph α := .fromRel fun a b => ∃ edge ∈ edges, edge.source = a ∧ edge.target = b

def leastWeight (pair : Sym2 α) : ω :=
  (((edges.filter fun edge => ends edge = pair).map GraphWeightedEdge.weight).min?).getD 0

/-- Edges that make no cycle and join all nodes that the edges of the graph join. -/
structure IsSpanningForest (S : Finset (Sym2 α)) : Prop where
  subgraph : ∀ f ∈ S, f ∈ (edgeGraph edges).edgeSet
  acyclic : (graphOf S).IsAcyclic
  spans : ∀ a b, (edgeGraph edges).Reachable a b → (graphOf S).Reachable a b

def linkEdges : List (Sym2 α) :=
  forest.entries.filterMap fun entry => entry.2.1.map fun parent => s(entry.1, parent)

def totalWeight : ω := ((linkEdges forest).map (leastWeight edges)).sum

/-- A forest on the nodes, rooted at those without a parent, whose links are a spanning forest of
the edges that weighs the least. -/
structure MinimumSpanningForest (nodes : OrderedSet α) : Prop where
  covers : forest.keys = nodes.elems
  rooted : ∀ node parent depth, forest.get node = some (parent, depth) →
    ∃ root path, forest.get root = some (none, 0) ∧ Walk (Link forest) node path root ∧
      path.length = depth
  along : ∀ child parent, Link forest child parent → ∃ edge ∈ edges, ends edge = s(child, parent)
  same_tree : ∀ a ∈ nodes, ∀ b ∈ nodes, (∃ root, RootOf forest root a ∧ RootOf forest root b) ↔
    (edgeGraph edges).Reachable a b
  nodup : (linkEdges forest).Nodup
  spanning : IsSpanningForest edges (linkEdges forest).toFinset
  minimal : ∀ S, IsSpanningForest edges S →
    totalWeight edges forest ≤ ∑ f ∈ S, leastWeight edges f

end

section

variable {edges : List (GraphWeightedEdge α ω)} {edge : GraphWeightedEdge α ω} {f : Sym2 α} {a b : α}

omit [LinearOrder α] in
theorem edgeGraph_adj : (edgeGraph edges).Adj a b ↔ a ≠ b ∧ ∃ edge ∈ edges, ends edge = s(a, b) := by
  rw [edgeGraph, SimpleGraph.fromRel_adj, and_congr_right_iff]
  intro _
  simp only [ends, Sym2.eq_iff]
  constructor
  · rintro (⟨edge, hedge, h⟩ | ⟨edge, hedge, h⟩)
    · exact ⟨edge, hedge, .inl h⟩
    · exact ⟨edge, hedge, .inr h⟩
  · rintro ⟨edge, hedge, h | h⟩
    · exact .inl ⟨edge, hedge, h⟩
    · exact .inr ⟨edge, hedge, h⟩

omit [LinearOrder α] in
theorem mem_edgeSet_edgeGraph :
    f ∈ (edgeGraph edges).edgeSet ↔ ¬ f.IsDiag ∧ ∃ edge ∈ edges, ends edge = f := by
  induction f using Sym2.ind with
  | _ a b => exact edgeGraph_adj

omit [LinearOrder α] in
theorem ends_mem {S : Set α} (hends : ∀ edge ∈ edges, edge.source ∈ S ∧ edge.target ∈ S)
    (h : ∃ edge ∈ edges, ends edge = s(a, b)) : a ∈ S ∧ b ∈ S := by
  obtain ⟨edge, hedge, heq⟩ := h
  rcases Sym2.eq_iff.mp heq with ⟨rfl, rfl⟩ | ⟨rfl, rfl⟩
  · exact hends edge hedge
  · exact (hends edge hedge).symm

variable [LinearOrder ω]

theorem mem_sortedEdges : edge ∈ sortedEdges edges ↔ edge ∈ edges :=
  (sortByKey_perm _ edges).mem_iff

theorem sortedEdges_weight (edges : List (GraphWeightedEdge α ω)) :
    (sortedEdges edges).Pairwise fun e e' => e.weight ≤ e'.weight :=
  (sortByKey_pairwise _ edges).imp fun {e e'} hle => by
    rcases Prod.Lex.toLex_le_toLex.mp hle with hlt | ⟨heq, -⟩
    · exact hlt.le
    · exact heq.le

variable [AddCommGroup ω]

theorem leastWeight_spec (h : edge ∈ edges) : leastWeight edges (ends edge) ≤ edge.weight ∧
    ∃ e ∈ edges, ends e = ends edge ∧ e.weight = leastWeight edges (ends edge) := by
  have hmem : edge.weight ∈ (edges.filter fun e => ends e = ends edge).map GraphWeightedEdge.weight :=
    mem_map_of_mem (mem_filter.mpr ⟨h, by simp⟩)
  rw [leastWeight]
  cases hmin : ((edges.filter fun e => ends e = ends edge).map GraphWeightedEdge.weight).min? with
  | none => simp [List.min?_eq_none_iff.mp hmin] at hmem
  | some least =>
    obtain ⟨hleast, hle⟩ := List.min?_eq_some_iff.mp hmin
    obtain ⟨e, he, hweight⟩ := mem_map.mp hleast
    obtain ⟨hin, hends⟩ := mem_filter.mp he
    exact ⟨hle _ hmem, e, hin, of_decide_eq_true hends, hweight⟩

/-- The edges that are chosen. -/
noncomputable def chosen (edges : List (GraphWeightedEdge α ω)) : Finset (Sym2 α) :=
  greedy GraphWeightedEdge.source GraphWeightedEdge.target ∅ (sortedEdges edges)

omit [AddCommGroup ω] in
theorem chosen_isSpanningForest (edges : List (GraphWeightedEdge α ω)) :
    IsSpanningForest edges (chosen edges) where
  subgraph f hf := by
    rcases mem_greedy hf with hf | ⟨edge, hedge, hne, hends⟩
    · simp at hf
    · exact mem_edgeSet_edgeGraph.mpr ⟨hends ▸ hne, edge, mem_sortedEdges.mp hedge, hends⟩
  acyclic := isAcyclic_greedy isAcyclic_graphOf_empty
  spans a b h := by
    induction (SimpleGraph.reachable_iff_reflTransGen a b).mp h with
    | refl => exact .refl a
    | @tail b c hb hadj ih =>
      refine (ih ((SimpleGraph.reachable_iff_reflTransGen a b).mpr hb)).trans ?_
      obtain ⟨-, edge, hedge, hends⟩ := edgeGraph_adj.mp hadj
      have hjoined := @joined_greedy _ _ _ GraphWeightedEdge.source GraphWeightedEdge.target ∅ _
        edge (mem_sortedEdges.mpr hedge)
      rcases Sym2.eq_iff.mp hends with ⟨hs, ht⟩ | ⟨hs, ht⟩
      · rw [hs, ht] at hjoined
        exact hjoined
      · rw [hs, ht] at hjoined
        exact hjoined.symm

variable [IsOrderedAddMonoid ω]

/-- No spanning forest weighs less than the chosen edges. -/
theorem chosen_le {S : Finset (Sym2 α)} (hS : IsSpanningForest edges S) :
    ∑ f ∈ chosen edges, leastWeight edges f ≤ ∑ f ∈ S, leastWeight edges f := by
  refine greedy_le (sortedEdges_weight edges)
    (fun edge hedge => (leastWeight_spec (mem_sortedEdges.mp hedge)).1) hS.acyclic
    (fun f hf => (mem_edgeSet_edgeGraph.mp (hS.subgraph f hf)).1) (Finset.empty_subset S)
    (fun f hf => .inr ?_) fun edge hedge => hS.spans _ _ ?_
  · obtain ⟨-, edge, hedge, rfl⟩ := mem_edgeSet_edgeGraph.mp (hS.subgraph f hf)
    obtain ⟨e, he, hends, hweight⟩ := (leastWeight_spec hedge).2
    exact ⟨e, mem_sortedEdges.mpr he, hends, hweight⟩
  · by_cases hne : edge.source = edge.target
    · exact hne ▸ .refl _
    · exact (edgeGraph_adj.mpr ⟨hne, edge, mem_sortedEdges.mp hedge, rfl⟩).reachable

end

section

variable {adjacency : GraphAdjacency α} {nodes : OrderedSet α} {root : α → α} {done : Set α}
  {current : WithBot α} {forest : Forest α} {f : Sym2 α} {w : α}

theorem mem_linkEdges :
    f ∈ linkEdges forest ↔ ∃ child parent, Link forest child parent ∧ s(child, parent) = f := by
  rw [linkEdges, mem_filterMap]
  constructor
  · rintro ⟨⟨child, parent, depth⟩, hmem, hparent⟩
    obtain ⟨p, rfl, rfl⟩ := map_eq_some_iff.mp hparent
    exact ⟨child, p, ⟨depth, OrderedMap.mem_entries_iff.mp hmem⟩, rfl⟩
  · rintro ⟨child, parent, ⟨depth, hget⟩, rfl⟩
    exact ⟨(child, some parent, depth), OrderedMap.mem_entries_iff.mpr hget, rfl⟩

variable (h : Searched adjacency nodes root done current ⟨forest, []⟩)
include h

theorem nodup_linkEdges : (linkEdges forest).Nodup := by
  rw [linkEdges, List.Nodup, pairwise_filterMap]
  refine (pairwise_map.mp forest.sorted).imp_of_mem fun {entry other} hentry hother hlt => ?_
  intro f hf g hg heq
  obtain ⟨child, parent, depth⟩ := entry
  obtain ⟨child', parent', depth'⟩ := other
  obtain ⟨p, rfl, rfl⟩ := map_eq_some_iff.mp hf
  obtain ⟨q, rfl, rfl⟩ := map_eq_some_iff.mp hg
  have hlink : Link forest child p := ⟨depth, OrderedMap.mem_entries_iff.mp hentry⟩
  have hlink' : Link forest child' q := ⟨depth', OrderedMap.mem_entries_iff.mp hother⟩
  rcases Sym2.eq_iff.mp heq with ⟨rfl, -⟩ | ⟨rfl, rfl⟩
  · exact lt_irrefl _ hlt
  · exact lt_irrefl _ (h.depth_lt ((TransGen.single hlink).tail hlink'))

theorem exists_links (hw : forest.get w ≠ none) :
    ∃ path, Walk (Link forest) w path (root w) ∧ path.length = depthOf forest w := by
  refine h.induct (P := fun w => ∃ path, Walk (Link forest) w path (root w) ∧
    path.length = depthOf forest w) (fun w hget hroot => ?_) (fun c p hget _ _ hroot ih => ?_) hw
  · rw [hroot, depthOf_eq hget]
    exact ⟨[], .nil, rfl⟩
  · obtain ⟨path, hpath, hlen⟩ := ih
    rw [hroot, depthOf_eq hget]
    exact ⟨p :: path, hpath.cons ⟨_, hget⟩, by rw [length_cons, hlen]⟩

end

section

variable [AddCommGroup ω] [LinearOrder ω] [IsOrderedAddMonoid ω] {nodes : OrderedSet α}
  {edges : List (GraphWeightedEdge α ω)} {adjacency : GraphAdjacency α} {forest : Forest α}
  {root : α → α} {done : Set α} {current : WithBot α}

theorem minimum_of_searched (hends : ∀ edge ∈ edges, edge.source ∈ nodes ∧ edge.target ∈ nodes)
    (htree : ∀ a b, adjacency.Edge a b ↔ s(a, b) ∈ chosen edges)
    (h : Searched adjacency nodes root done current ⟨forest, []⟩)
    (hall : ∀ w ∈ nodes, forest.get w ≠ none) : MinimumSpanningForest edges forest nodes := by
  have hspanning := chosen_isSpanningForest edges
  have hinput : ∀ a b, s(a, b) ∈ chosen edges → a ≠ b ∧ ∃ edge ∈ edges, ends edge = s(a, b) :=
    fun a b hmem => mem_edgeSet_edgeGraph.mp (hspanning.subgraph _ hmem)
  have hinside : ∀ a b, adjacency.Edge a b → a ∈ nodes ∧ b ∈ nodes := fun a b hedge =>
    ends_mem (S := {k | k ∈ nodes}) hends (hinput a b ((htree a b).mp hedge)).2
  have hsymm : IsSymmetric adjacency := fun a b hedge =>
    (htree b a).mpr (Sym2.eq_swap ▸ (htree a b).mp hedge)
  have hle : undirected adjacency ≤ graphOf (chosen edges) := by
    intro a b hadj
    obtain ⟨hne, hedge⟩ := (SimpleGraph.fromRel_adj _ a b).mp hadj
    exact graphOf_adj.mpr ⟨(htree a b).mp (hedge.elim id (hsymm b a)), hne⟩
  have hgraph : graphOf (chosen edges) ≤ edgeGraph edges := by
    intro a b hadj
    exact edgeGraph_adj.mpr (hinput a b (graphOf_adj.mp hadj).1)
  have hlinks : (linkEdges forest).toFinset = chosen edges := by
    ext f
    rw [List.mem_toFinset, mem_linkEdges]
    constructor
    · rintro ⟨child, parent, ⟨depth, hget⟩, rfl⟩
      exact Sym2.eq_swap ▸ (htree parent child).mp (h.along child parent depth hget).1
    · intro hmem
      induction f using Sym2.ind with
      | _ a b =>
        rcases h.link_of_edge hall hinside hsymm (hspanning.acyclic.anti hle) ((htree a b).mpr hmem)
          (hinput a b hmem).1 with hlink | hlink
        · exact ⟨a, b, hlink, rfl⟩
        · exact ⟨b, a, hlink, Sym2.eq_swap⟩
  have hnodup := nodup_linkEdges h
  refine ⟨(h.spans hall).covers, fun w parent depth hget => ?_, fun c p hlink => ?_,
    fun a ha b hb => ⟨?_, fun hreach => ?_⟩, hnodup, hlinks ▸ hspanning, fun S hS => ?_⟩
  · have hw : forest.get w ≠ none := by simp [hget]
    obtain ⟨path, hpath, hlen⟩ := exists_links h hw
    exact ⟨root w, path, (h.rootOf hw).1, hpath, hlen.trans (depthOf_eq hget)⟩
  · obtain ⟨depth, hget⟩ := hlink
    exact (hinput c p (Sym2.eq_swap ▸ (htree p c).mp (h.along c p depth hget).1)).2
  · rintro ⟨r, ⟨-, hup⟩, -, hup'⟩
    exact ((reachable_of_ancestor hup).trans (reachable_of_ancestor hup').symm).mono
      ((h.links_le.trans hle).trans hgraph)
  · have hroots : ∀ c, ReflTransGen (graphOf (chosen edges)).Adj a c → root a = root c := by
      intro c hc
      induction hc with
      | refl => rfl
      | tail _ hadj ih =>
        exact ih.trans (h.root_eq hall hinside hsymm ((htree _ _).mpr (graphOf_adj.mp hadj).1))
    have hsame := hroots b ((SimpleGraph.reachable_iff_reflTransGen a b).mp (hspanning.spans a b hreach))
    exact ⟨root a, h.rootOf (hall a ha), hsame ▸ h.rootOf (hall b hb)⟩
  · rw [totalWeight, ← sum_toFinset _ hnodup, hlinks]
    exact chosen_le hS

/-- Unless the time runs out, the forest is a minimum spanning forest of the edges. -/
theorem graphMinWeightSpanningForest_minimum
    (hends : ∀ edge ∈ edges, edge.source ∈ nodes ∧ edge.target ∈ nodes) (budget : GraphExecutionBudget)
    (clock : ℕ) :
    (∃ e reading, budget.checkTime reading = .error e ∧
        graphMinWeightSpanningForest nodes edges budget clock = .error (some e)) ∨
      ∃ forest clock', graphMinWeightSpanningForest nodes edges budget clock = .ok (forest, clock') ∧
        MinimumSpanningForest edges forest nodes := by
  rw [graphMinWeightSpanningForest]
  rcases joinEdges_spec budget (merged_start nodes clock)
    (fun edge hedge => hends edge (mem_sortedEdges.mp hedge)) with ⟨e, reading, hclock, herr⟩ | ⟨s, hok, h⟩
  · exact .inl ⟨e, reading, hclock, by rw [herr]; rfl⟩
  · right
    have htree : ∀ a b, s.tree.normalize.Edge a b ↔ s(a, b) ∈ chosen edges :=
      fun a b => edge_normalize.trans (h.tree a b)
    have hinside : ∀ a b, s.tree.normalize.Edge a b → a ∈ nodes ∧ b ∈ nodes := fun a b hedge =>
      ends_mem (S := {k | k ∈ nodes}) hends (mem_edgeSet_edgeGraph.mp
        ((chosen_isSpanningForest edges).subgraph _ ((htree a b).mp hedge))).2
    obtain ⟨forest, root, done, current, hrun, hs, -, hall⟩ := graphSearchSpanningForest_ends hinside false
    refine ⟨forest, s.clock, ?_, minimum_of_searched hends htree hs hall⟩
    rw [hok]
    simp only [bind, Except.bind, hrun, orOutOfFuel]

def squareEdges : List (GraphWeightedEdge String ℤ) :=
  [⟨"a", "b", 4⟩, ⟨"b", "a", 1⟩, ⟨"b", "c", 2⟩, ⟨"c", "d", 5⟩, ⟨"a", "d", 3⟩, ⟨"a", "c", 6⟩, ⟨"b", "b", 0⟩]

def squareNodes : OrderedSet String := ⟨["a", "b", "c", "d", "e"], by decide⟩

theorem graphMinWeightSpanningForest_minimum_square :
    ∃ forest clock', graphMinWeightSpanningForest squareNodes squareEdges ⟨fun _ => 0, 60000⟩ 0 =
      .ok (forest, clock') ∧ MinimumSpanningForest squareEdges forest squareNodes := by
  refine (graphMinWeightSpanningForest_minimum (by decide) ⟨fun _ => 0, 60000⟩ 0).resolve_left ?_
  rintro ⟨e, reading, hclock, -⟩
  cases hclock

end

end CoveFormat.MinWeightForests
