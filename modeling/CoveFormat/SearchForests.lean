import CoveFormat.DirectedWalks
import CoveFormat.SpanningForests
import CoveFormat.GraphAdjacency
import CoveFormat.WhileLoops
import Mathlib.Data.String.Basic

namespace CoveFormat.SearchForests

open DirectedWalks GraphAdjacencies List Option OrderedMaps OrderedSets ParentForests
  Relation WhileLoops

variable {depthFirst : Bool}

variable {α : Type} [LinearOrder α]

abbrev Forest (α : Type) [LinearOrder α] := OrderedMap α (Option α × ℕ)

/-- The search of one tree as it goes on; the next node is the head of the frontier. -/
structure Search (α : Type) [LinearOrder α] where
  forest : Forest α
  frontier : List α

def depthOf (forest : Forest α) (node : α) : ℕ := ((forest.get node).map Prod.snd).getD 0

def visitTarget (depthFirst : Bool) (node : α) (depth : ℕ) (s : Search α) (target : α) : Search α :=
  if (s.forest.get target).isSome then s
  else ⟨s.forest.insert target (some node, depth + 1),
    if depthFirst then target :: s.frontier else s.frontier ++ [target]⟩

def searchRound (G : GraphAdjacency α) (depthFirst : Bool) (s : Search α) :
    Option (Search α) :=
  match s.frontier with
  | [] => none
  | node :: frontier =>
    let targets := G.targets node
    some ((if depthFirst then targets.reverse else targets).foldl
      (visitTarget depthFirst node (depthOf s.forest node)) ⟨s.forest, frontier⟩)

def searchTree (G : GraphAdjacency α) (depthFirst : Bool) (forest : Forest α) (root : α) :
    Option (Forest α) :=
  if (forest.get root).isSome then some forest
  else (drain (searchRound G depthFirst) (G.size + 2)
    ⟨forest.insert root (none, 0), [root]⟩).map Search.forest

def searchTrees (G : GraphAdjacency α) (depthFirst : Bool) :
    List α → Forest α → Option (Forest α)
  | [], forest => some forest
  | root :: roots, forest =>
    (searchTree G depthFirst forest root).bind (searchTrees G depthFirst roots)

/-- `none` would be a loop that runs out of fuel. -/
def graphSearchSpanningForest (G : GraphAdjacency α) (nodes : OrderedSet α)
    (depthFirst : Bool) : Option (Forest α) :=
  searchTrees G depthFirst nodes.elems .empty

/-- The second node is the parent of the first. -/
def Link (forest : Forest α) (child parent : α) : Prop :=
  ∃ depth, forest.get child = some (some parent, depth)

/-- Each node is in the forest, and only these; each parent link goes back along an edge, to a node
whose depth is one less; a node without a parent has the depth zero. -/
structure Spans (G : GraphAdjacency α) (nodes : OrderedSet α) (forest : Forest α) : Prop where
  covers : forest.keys = nodes.elems
  root_depth : ∀ node depth, forest.get node = some (none, depth) → depth = 0
  along : ∀ child parent depth, forest.get child = some (some parent, depth) →
    G.Edge parent child ∧ ∃ above, forest.get parent = some (above, depth - 1) ∧ 0 < depth

/-- The first node is the root of the tree the second is in. -/
def RootOf (forest : Forest α) (root node : α) : Prop :=
  forest.get root = some (none, 0) ∧ ReflTransGen (Link forest) node root

/-- The edges that do not lead into a tree with a smaller root, one that was searched before. -/
def EdgeAfter (G : GraphAdjacency α) (forest : Forest α) (root a b : α) : Prop :=
  G.Edge a b ∧ ∀ earlier, RootOf forest earlier b → root ≤ earlier

/-- The depth of a node is the length of a shortest way to it from the root of its tree. -/
def BreadthFirst (G : GraphAdjacency α) (forest : Forest α) : Prop :=
  ∀ root node parent depth, RootOf forest root node → forest.get node = some (parent, depth) →
    IsDistance (EdgeAfter G forest root) root node depth

/-- Every edge joins a node to an ancestor or a descendant. -/
def DepthFirst (G : GraphAdjacency α) (forest : Forest α) : Prop :=
  ∀ a b, G.Edge a b →
    ReflTransGen (Link forest) a b ∨ ReflTransGen (Link forest) b a

def IsSymmetric (G : GraphAdjacency α) : Prop :=
  ∀ a b, G.Edge a b → G.Edge b a

def undirected (G : GraphAdjacency α) : SimpleGraph α := .fromRel G.Edge

section

variable {G : GraphAdjacency α} {node w : α} {depth : ℕ} {s s' : Search α} {targets : List α}

/-- The nodes a round adds to the forest, and where they wait. -/
structure Visits (depthFirst : Bool) (node : α) (depth : ℕ) (targets : List α) (s s' : Search α) :
    Prop where
  get : ∀ w, s'.forest.get w =
    if w ∈ targets ∧ s.forest.get w = none then some (some node, depth + 1) else s.forest.get w
  frontier : ∃ new : List α, new.Nodup ∧ (∀ w, w ∈ new ↔ w ∈ targets ∧ s.forest.get w = none) ∧
    s'.frontier = if depthFirst then new ++ s.frontier else s.frontier ++ new

theorem visitTargets (depthFirst : Bool) (node : α) (depth : ℕ) (targets : List α) (s : Search α) :
    Visits depthFirst node depth targets s (targets.foldl (visitTarget depthFirst node depth) s) := by
  induction targets using reverseRecOn with
  | nil => exact ⟨by simp, [], .nil, by simp, by cases depthFirst <;> simp⟩
  | append_singleton targets target ih =>
    obtain ⟨hget, new, hnodup, hnew, hfrontier⟩ := ih
    rw [List.foldl_append, foldl_cons, foldl_nil, visitTarget]
    generalize targets.foldl (visitTarget depthFirst node depth) s = middle at hget hfrontier
    by_cases hseen : (middle.forest.get target).isSome
    · rw [if_pos hseen]
      have hold : target ∈ targets ∨ s.forest.get target ≠ none := by
        by_contra hnot
        rw [not_or, not_not] at hnot
        rw [hget, if_neg fun h => hnot.1 h.1, hnot.2] at hseen
        cases hseen
      have hmem : ∀ w, (w ∈ targets ++ [target] ∧ s.forest.get w = none) ↔
          (w ∈ targets ∧ s.forest.get w = none) := by
        intro w
        rw [mem_append, mem_singleton]
        constructor
        · rintro ⟨h | rfl, hnone⟩
          · exact ⟨h, hnone⟩
          · exact ⟨hold.resolve_right fun h => h hnone, hnone⟩
        · exact fun h => ⟨.inl h.1, h.2⟩
      refine ⟨fun w => ?_, new, hnodup, fun w => ?_, hfrontier⟩
      · rw [hget]
        simp only [hmem]
      · rw [hnew, hmem]
    · rw [if_neg hseen]
      rw [not_isSome_iff_eq_none] at hseen
      have hfresh : target ∉ targets ∧ s.forest.get target = none := by
        rw [hget] at hseen
        split at hseen
        · cases hseen
        · rename_i hnot
          exact ⟨fun h => hnot ⟨h, hseen⟩, hseen⟩
      have hnot : target ∉ new := fun h => hfresh.1 ((hnew target).mp h).1
      have hmem : ∀ w, (w ∈ targets ++ [target] ∧ s.forest.get w = none) ↔
          (w ∈ targets ∧ s.forest.get w = none) ∨ w = target := by
        intro w
        rw [mem_append, mem_singleton]
        constructor
        · rintro ⟨h | h, hnone⟩
          exacts [.inl ⟨h, hnone⟩, .inr h]
        · rintro (h | rfl)
          exacts [⟨.inl h.1, h.2⟩, ⟨.inr rfl, hfresh.2⟩]
      refine ⟨fun w => ?_, if depthFirst then target :: new else new ++ [target], ?_, fun w => ?_, ?_⟩
      · rw [OrderedMap.get_insert, hget]
        simp only [hmem]
        by_cases hw : target = w
        · simp [hw]
        · simp [hw, Ne.symm hw]
      · cases depthFirst
        · exact hnodup.append (nodup_singleton target) (disjoint_singleton.mpr hnot)
        · exact nodup_cons.mpr ⟨hnot, hnodup⟩
      · rw [hmem, ← hnew]
        cases depthFirst <;> simp [or_comm]
      · cases depthFirst <;> simp [hfrontier]

theorem searchRound_cases (h : searchRound G depthFirst s = some s') :
    ∃ node frontier, s.frontier = node :: frontier ∧
      Visits depthFirst node (depthOf s.forest node) (G.targets node)
        ⟨s.forest, frontier⟩ s' := by
  rw [searchRound] at h
  split at h
  · cases h
  · rename_i node frontier hfrontier
    refine ⟨node, frontier, hfrontier, ?_⟩
    cases h
    have hvisits := visitTargets depthFirst node (depthOf s.forest node)
      (if depthFirst then (G.targets node).reverse else G.targets node)
      ⟨s.forest, frontier⟩
    have hmem : ∀ w, w ∈ (if depthFirst then (G.targets node).reverse
        else G.targets node) ↔ w ∈ G.targets node := by
      intro w
      cases depthFirst <;> simp
    exact ⟨fun w => by simpa only [hmem] using hvisits.get w,
      by simpa only [hmem] using hvisits.frontier⟩

theorem searchRound_none (h : searchRound G depthFirst s = none) : s.frontier = [] := by
  rw [searchRound] at h
  split at h
  · rename_i hfrontier
    exact hfrontier
  · cases h

variable {nodes : OrderedSet α} {root : α → α} {done : Set α} {current : WithBot α} {x a b : α}
  {frontier : List α}

/-- How a search stands. `root` has the root of each node's tree, `done` the nodes that have left
the frontier, `current` is the root of the tree that is searched. -/
structure Searched (G : GraphAdjacency α) (nodes : OrderedSet α) (root : α → α) (done : Set α)
    (current : WithBot α) (s : Search α) : Prop where
  marked_iff : ∀ w, s.forest.get w ≠ none ↔ w ∈ done ∨ w ∈ s.frontier
  not_done : ∀ w ∈ s.frontier, w ∉ done
  nodup : s.frontier.Nodup
  inside : ∀ w, s.forest.get w ≠ none → w ∈ nodes
  closed : ∀ u ∈ done, ∀ w, G.Edge u w → s.forest.get w ≠ none
  rooted : ∀ w depth, s.forest.get w = some (none, depth) → depth = 0 ∧ root w = w
  along : ∀ c p depth, s.forest.get c = some (some p, depth) → G.Edge p c ∧ p ∈ done ∧
    root c = root p ∧ depth = depthOf s.forest p + 1
  below : ∀ w, s.forest.get w ≠ none → (root w : WithBot α) ≤ current
  waiting : ∀ w ∈ s.frontier, (root w : WithBot α) = current
  back : ∀ u ∈ done, ∀ w, G.Edge u w → root w ≤ root u
  linked : ∀ a ∈ done, ∀ b, G.Edge a b → TransGen (Link s.forest) b a → Link s.forest b a

/-- What a queue keeps besides: the depths of one tree go up along it, by one at most. -/
structure Levels (G : GraphAdjacency α) (root : α → α) (done : Set α) (current : WithBot α)
    (s : Search α) : Prop where
  sorted : s.frontier.Pairwise fun x y => depthOf s.forest x ≤ depthOf s.forest y
  level : ∀ x ∈ s.frontier, ∀ w, s.forest.get w ≠ none → (root w : WithBot α) = current →
    depthOf s.forest w ≤ depthOf s.forest x + 1
  near : ∀ u ∈ done, ∀ w, G.Edge u w → root w = root u →
    depthOf s.forest w ≤ depthOf s.forest u + 1

def adopt (forest : Forest α) (current : α) (root : α → α) (w : α) : α :=
  if forest.get w = none then current else root w

variable {forest forest' : Forest α}

theorem depthOf_congr (h : forest'.get w = forest.get w) :
    depthOf forest' w = depthOf forest w := by
  rw [depthOf, depthOf, h]

theorem link_of_kept (h : forest'.get a = forest.get a) (hlink : Link forest' a b) : Link forest a b := by
  obtain ⟨depth, hget⟩ := hlink
  exact ⟨depth, h ▸ hget⟩

theorem Searched.ancestors_kept (h : Searched G nodes root done current s)
    (hkeep : ∀ w, s.forest.get w ≠ none → forest'.get w = s.forest.get w)
    (hb : s.forest.get b ≠ none) (hanc : TransGen (Link forest') b a) :
    TransGen (Link s.forest) b a ∧ a ∈ done := by
  induction hanc with
  | single hlink =>
    have hold := link_of_kept (hkeep b hb) hlink
    obtain ⟨depth, hget⟩ := hold
    exact ⟨.single ⟨depth, hget⟩, (h.along _ _ _ hget).2.1⟩
  | tail _ hlink ih =>
    obtain ⟨hanc, hdone⟩ := ih
    have hmarked := (h.marked_iff _).mpr (.inl hdone)
    obtain ⟨depth, hget⟩ := link_of_kept (hkeep _ hmarked) hlink
    exact ⟨hanc.tail ⟨depth, hget⟩, (h.along _ _ _ hget).2.1⟩

/-- What is known of a round: the nodes that are new, and those that are not. -/
structure Grows (G : GraphAdjacency α) (depthFirst : Bool) (x : α) (frontier : List α)
    (s s' : Search α) : Prop where
  kept : ∀ w, s.forest.get w ≠ none → s'.forest.get w = s.forest.get w
  fresh : ∀ w, G.Edge x w → s.forest.get w = none →
    s'.forest.get w = some (some x, depthOf s.forest x + 1)
  other : ∀ w, ¬ G.Edge x w → s.forest.get w = none → s'.forest.get w = none
  frontier : ∃ new : List α, new.Nodup ∧ (∀ w, w ∈ new ↔ G.Edge x w ∧ s.forest.get w = none) ∧
    s'.frontier = if depthFirst then new ++ frontier else frontier ++ new

theorem searchRound_grows (h : searchRound G depthFirst s = some s') :
    ∃ x frontier, s.frontier = x :: frontier ∧ Grows G depthFirst x frontier s s' := by
  obtain ⟨x, frontier, htop, hget, hfrontier⟩ := searchRound_cases h
  exact ⟨x, frontier, htop, fun w hw => by rw [hget, if_neg fun h => hw h.2],
    fun w hedge hw => by rw [hget, if_pos ⟨hedge, hw⟩],
    fun w hedge hw => by rw [hget, if_neg fun h => hedge h.1, hw], hfrontier⟩

section

variable (h : Grows G depthFirst x frontier s s')
include h

theorem Grows.marked_iff : s'.forest.get w ≠ none ↔ s.forest.get w ≠ none ∨ G.Edge x w := by
  by_cases hw : s.forest.get w = none
  · by_cases hedge : G.Edge x w
    · simp [h.fresh w hedge hw, hedge]
    · simp [h.other w hedge hw, hw, hedge]
  · simp [h.kept w hw, hw]

theorem Grows.mem_frontier :
    w ∈ s'.frontier ↔ G.Edge x w ∧ s.forest.get w = none ∨ w ∈ frontier := by
  obtain ⟨new, -, hnew, hfrontier⟩ := h.frontier
  rw [hfrontier, ← hnew]
  cases depthFirst <;> simp [or_comm]

end

theorem adopt_old (hw : s.forest.get w ≠ none) : adopt s.forest a root w = root w := if_neg hw

theorem adopt_new (hw : s.forest.get w = none) : adopt s.forest a root w = a := if_pos hw

section

variable (h : Searched G nodes root done current s) (htop : s.frontier = x :: frontier)
include h

theorem Searched.done_marked {u : α} (hu : u ∈ done) : s.forest.get u ≠ none :=
  (h.marked_iff u).mpr (.inl hu)

include htop

theorem Searched.top_marked {u : α} (hu : u ∈ insert x done) : s.forest.get u ≠ none := by
  rcases hu with rfl | hu
  · exact (h.marked_iff u).mpr (.inr (htop ▸ mem_cons_self))
  · exact h.done_marked hu

variable (hgrows : Grows G depthFirst x frontier s s')
include hgrows

theorem Searched.round_marked (w : α) :
    s'.forest.get w ≠ none ↔ w ∈ insert x done ∨ w ∈ s'.frontier := by
  rw [hgrows.marked_iff, hgrows.mem_frontier, h.marked_iff, htop, mem_cons, Set.mem_insert_iff]
  by_cases hw : s.forest.get w = none
  · have hnot := mt (h.marked_iff w).mpr (not_not.mpr hw)
    tauto
  · have hyes := (h.marked_iff w).mp hw
    rw [htop, mem_cons] at hyes
    tauto

theorem Searched.round_not_done (hw : w ∈ s'.frontier) : w ∉ insert x done := by
  rcases hgrows.mem_frontier.mp hw with ⟨-, hw⟩ | hw
  · exact fun hdone => h.top_marked htop hdone hw
  · have hnodup := h.nodup
    rw [htop, nodup_cons] at hnodup
    rw [Set.mem_insert_iff, not_or]
    exact ⟨fun heq => hnodup.1 (heq ▸ hw), h.not_done w (htop ▸ mem_cons_of_mem x hw)⟩

theorem Searched.round_nodup : s'.frontier.Nodup := by
  obtain ⟨new, hnodup', hnew, hfrontier⟩ := hgrows.frontier
  have hnodup := h.nodup
  rw [htop, nodup_cons] at hnodup
  have hdisjoint : ∀ w ∈ new, w ∉ frontier := fun w hw hold =>
    (h.marked_iff w).mpr (.inr (htop ▸ mem_cons_of_mem x hold)) ((hnew w).mp hw).2
  rw [hfrontier]
  cases depthFirst
  · exact hnodup.2.append hnodup' fun w hw hw' => hdisjoint w hw' hw
  · exact hnodup'.append hnodup.2 fun w hw hw' => hdisjoint w hw hw'

omit htop in
theorem Searched.round_rooted {depth : ℕ} (hget : s'.forest.get w = some (none, depth)) :
    depth = 0 ∧ adopt s.forest (root x) root w = w := by
  by_cases hw : s.forest.get w = none
  · by_cases hedge : G.Edge x w
    · simp [hgrows.fresh w hedge hw] at hget
    · simp [hgrows.other w hedge hw] at hget
  · rw [hgrows.kept w hw] at hget
    rw [adopt_old hw]
    exact h.rooted w depth hget

theorem Searched.round_along {c p : α} {depth : ℕ} (hget : s'.forest.get c = some (some p, depth)) :
    G.Edge p c ∧ p ∈ insert x done ∧
      adopt s.forest (root x) root c = adopt s.forest (root x) root p ∧
      depth = depthOf s'.forest p + 1 := by
  by_cases hc : s.forest.get c = none
  · by_cases hedge : G.Edge x c
    · rw [hgrows.fresh c hedge hc, some.injEq, Prod.mk.injEq, some.injEq] at hget
      obtain ⟨rfl, rfl⟩ := hget
      have hx := h.top_marked htop (Set.mem_insert x done)
      rw [adopt_new hc, adopt_old hx, depthOf_congr (hgrows.kept _ hx)]
      exact ⟨hedge, Set.mem_insert _ _, rfl, rfl⟩
    · rw [hgrows.other c hedge hc] at hget
      cases hget
  · rw [hgrows.kept c hc] at hget
    obtain ⟨hedge, hp, hroot, hdepth⟩ := h.along c p depth hget
    have hmarked := h.done_marked hp
    rw [adopt_old hc, adopt_old hmarked, depthOf_congr (hgrows.kept p hmarked)]
    exact ⟨hedge, Set.mem_insert_of_mem x hp, hroot, hdepth⟩

omit hgrows in
theorem Searched.round_back {u : α} (hu : u ∈ insert x done) (hedge : G.Edge u w) :
    adopt s.forest (root x) root w ≤ adopt s.forest (root x) root u := by
  rw [adopt_old (h.top_marked htop hu)]
  by_cases hw : s.forest.get w = none
  · rw [adopt_new hw]
    rcases hu with rfl | hu
    · exact le_rfl
    · exact absurd hw (h.closed u hu w hedge)
  · rw [adopt_old hw]
    rcases hu with rfl | hu
    · exact WithBot.coe_le_coe.mp ((h.below w hw).trans_eq (h.waiting u (htop ▸ mem_cons_self)).symm)
    · exact h.back u hu w hedge

theorem Searched.round_linked (ha : a ∈ insert x done) (hedge : G.Edge a b)
    (hanc : TransGen (Link s'.forest) b a) : Link s'.forest b a := by
  by_cases hb : s.forest.get b = none
  · rcases ha with rfl | ha
    · exact ⟨_, hgrows.fresh b hedge hb⟩
    · exact absurd hb (h.closed a ha b hedge)
  · obtain ⟨hanc', hadone⟩ := h.ancestors_kept hgrows.kept hb hanc
    obtain ⟨depth, hget⟩ := h.linked a hadone b hedge hanc'
    exact ⟨depth, (hgrows.kept b hb).trans hget⟩

theorem Searched.round (hends : ∀ a b, G.Edge a b → a ∈ nodes ∧ b ∈ nodes) :
    Searched G nodes (adopt s.forest (root x) root) (insert x done) current s' := by
  have hcurrent : (root x : WithBot α) = current := h.waiting x (htop ▸ mem_cons_self)
  refine ⟨h.round_marked htop hgrows, fun w => h.round_not_done htop hgrows,
    h.round_nodup htop hgrows, fun w hw => ?_, fun u hu w hedge => ?_,
    fun w depth => h.round_rooted hgrows, fun c p depth => h.round_along htop hgrows,
    fun w hw => ?_, fun w hw => ?_, fun u hu w => h.round_back htop hu,
    fun a ha b => h.round_linked htop hgrows ha⟩
  · rcases hgrows.marked_iff.mp hw with hw | hedge
    · exact h.inside w hw
    · exact (hends x w hedge).2
  · rcases hu with rfl | hu
    · exact hgrows.marked_iff.mpr (.inr hedge)
    · exact hgrows.marked_iff.mpr (.inl (h.closed u hu w hedge))
  · by_cases hold : s.forest.get w = none
    · rw [adopt_new hold, hcurrent]
    · rw [adopt_old hold]
      exact h.below w hold
  · rcases hgrows.mem_frontier.mp hw with ⟨-, hw⟩ | hw
    · rw [adopt_new hw, hcurrent]
    · have hwaits : w ∈ s.frontier := htop ▸ mem_cons_of_mem x hw
      rw [adopt_old ((h.marked_iff w).mpr (.inr hwaits))]
      exact h.waiting w hwaits

end

section

variable (h : Grows G depthFirst x frontier s s')
include h

theorem Grows.depth_kept (hw : s.forest.get w ≠ none) : depthOf s'.forest w = depthOf s.forest w :=
  depthOf_congr (h.kept w hw)

theorem Grows.depth_fresh (hedge : G.Edge x w) (hw : s.forest.get w = none) :
    depthOf s'.forest w = depthOf s.forest x + 1 := by
  rw [depthOf, h.fresh w hedge hw]
  rfl

end

theorem Levels.round (hlevels : Levels G root done current s)
    (h : Searched G nodes root done current s) (htop : s.frontier = x :: frontier)
    (hgrows : Grows G false x frontier s s') :
    Levels G (adopt s.forest (root x) root) (insert x done) current s' := by
  have hsorted := hlevels.sorted
  rw [htop, pairwise_cons] at hsorted
  have hmem : ∀ w ∈ frontier, w ∈ s.frontier := by
    intro w hw
    rw [htop]
    exact mem_cons_of_mem x hw
  have hx : x ∈ s.frontier := htop ▸ mem_cons_self
  have hmarked : ∀ w ∈ s.frontier, s.forest.get w ≠ none := fun w hw => (h.marked_iff w).mpr (.inr hw)
  have hbound : ∀ w, s'.forest.get w ≠ none →
      ((adopt s.forest (root x) root w : α) : WithBot α) = current →
        depthOf s'.forest w ≤ depthOf s.forest x + 1 := by
    intro w hw hroot
    by_cases hnew : s.forest.get w = none
    · rw [hgrows.depth_fresh ((hgrows.marked_iff.mp hw).resolve_left (not_not.mpr hnew)) hnew]
    · rw [adopt_old hnew] at hroot
      rw [hgrows.depth_kept hnew]
      exact hlevels.level x hx w hnew hroot
  obtain ⟨new, -, hnew, hfrontier⟩ := hgrows.frontier
  rw [if_neg Bool.false_ne_true] at hfrontier
  have hnewdepth : ∀ w ∈ new, depthOf s'.forest w = depthOf s.forest x + 1 := fun w hw =>
    hgrows.depth_fresh ((hnew w).mp hw).1 ((hnew w).mp hw).2
  refine ⟨?_, fun y hy w hw hroot => ?_, fun u hu w hedge hroot => ?_⟩
  · rw [hfrontier, pairwise_append]
    refine ⟨hsorted.2.imp_of_mem fun {a b} ha hb hle => ?_, ?_, fun a ha b hb => ?_⟩
    · rwa [hgrows.depth_kept (hmarked a (hmem a ha)), hgrows.depth_kept (hmarked b (hmem b hb))]
    · exact pairwise_iff_forall_sublist.mpr fun {a b} hab => by
        rw [hnewdepth a (hab.subset (by simp)), hnewdepth b (hab.subset (by simp))]
    · rw [hgrows.depth_kept (hmarked a (hmem a ha)), hnewdepth b hb]
      exact hlevels.level x hx a (hmarked a (hmem a ha)) (h.waiting a (hmem a ha))
  · refine (hbound w hw hroot).trans (Nat.add_le_add_right ?_ 1)
    rw [hfrontier, mem_append] at hy
    rcases hy with hy | hy
    · rw [hgrows.depth_kept (hmarked y (hmem y hy))]
      exact hsorted.1 y hy
    · rw [hnewdepth y hy]
      exact Nat.le_succ _
  · rcases hu with rfl | hu
    · rw [adopt_old (hmarked u hx)] at hroot
      rw [hgrows.depth_kept (hmarked u hx)]
      refine hbound w (hgrows.marked_iff.mpr (.inr hedge)) ?_
      rw [hroot, h.waiting u hx]
    · have hw := h.closed u hu w hedge
      have hu' := h.done_marked hu
      rw [adopt_old hw, adopt_old hu'] at hroot
      rw [hgrows.depth_kept hw, hgrows.depth_kept hu']
      exact hlevels.near u hu w hedge hroot

def Search.rank (G : GraphAdjacency α) (s : Search α) : ℕ :=
  (G.reached.filter fun w => s.forest.get w = none).card + s.frontier.length

theorem Grows.rank (h : Grows G depthFirst x frontier s s') (htop : s.frontier = x :: frontier) :
    s'.rank G < s.rank G := by
  obtain ⟨new, hnodup, hnew, hfrontier⟩ := h.frontier
  have hlen : s'.frontier.length = new.length + frontier.length := by
    rw [hfrontier]
    cases depthFirst <;> simp [Nat.add_comm]
  have hleft : (G.reached.filter fun w => s'.forest.get w = none) =
      (G.reached.filter fun w => s.forest.get w = none) \ new.toFinset := by
    ext w
    rw [Finset.mem_filter, Finset.mem_sdiff, Finset.mem_filter, List.mem_toFinset, hnew]
    have hmarked := not_congr (h.marked_iff (w := w))
    rw [not_not, not_or, not_not] at hmarked
    tauto
  have hsub : new.toFinset ⊆ G.reached.filter fun w => s.forest.get w = none := by
    intro w hw
    rw [List.mem_toFinset, hnew] at hw
    exact Finset.mem_filter.mpr ⟨mem_reached hw.1, hw.2⟩
  have hcard := Finset.card_sdiff_add_card_eq_card hsub
  rw [toFinset_card_of_nodup hnodup] at hcard
  rw [Search.rank, Search.rank, hleft, hlen, htop, length_cons]
  omega

end

section

variable {G : GraphAdjacency α} {nodes : OrderedSet α} {root : α → α} {done : Set α}
  {current : WithBot α} {forest : Forest α} {start w : α} {roots : List α}

section

variable (h : Searched G nodes root done current ⟨forest, []⟩)
include h

theorem Searched.settled {next : WithBot α} (hle : current ≤ next) :
    Searched G nodes root done next ⟨forest, []⟩ :=
  { h with
    below := fun w hw => (h.below w hw).trans hle
    waiting := fun _ => nofun }

theorem Searched.plant (hstart : start ∈ nodes) (hcurrent : current ≤ start)
    (hnew : forest.get start = none) :
    Searched G nodes (Function.update root start start) done start
      ⟨forest.insert start (none, 0), [start]⟩ := by
  have hget : ∀ w, w ≠ start → (forest.insert start (none, 0)).get w = forest.get w := fun w hw => by
    rw [OrderedMap.get_insert, if_neg (Ne.symm hw)]
  have hself : (forest.insert start (none, 0)).get start = some (none, 0) := by
    rw [OrderedMap.get_insert, if_pos rfl]
  have hne : ∀ w, forest.get w ≠ none → w ≠ start := fun w hw heq => hw (heq ▸ hnew)
  have hkeep : ∀ w, forest.get w ≠ none → (forest.insert start (none, 0)).get w = forest.get w :=
    fun w hw => hget w (hne w hw)
  have hroot : ∀ w, w ≠ start → Function.update root start start w = root w :=
    fun w hw => Function.update_of_ne hw _ _
  have hmarked : ∀ w, (forest.insert start (none, 0)).get w ≠ none ↔ forest.get w ≠ none ∨ w = start := by
    intro w
    by_cases hw : w = start
    · simp [hw, hself]
    · simp [hget w hw, hw]
  refine ⟨fun w => ?_, fun w hw => ?_, nodup_singleton _, fun w hw => ?_, fun u hu w hedge => ?_,
    fun w depth hw => ?_, fun c p depth hc => ?_, fun w hw => ?_, fun w hw => ?_,
    fun u hu w hedge => ?_, fun a ha b hedge hanc => ?_⟩
  · rw [hmarked, h.marked_iff]
    simp
  · obtain rfl := mem_singleton.mp hw
    exact fun hw => h.done_marked hw hnew
  · rcases (hmarked w).mp hw with hw | rfl
    · exact h.inside w hw
    · exact hstart
  · exact (hmarked w).mpr (.inl (h.closed u hu w hedge))
  · by_cases heq : w = start
    · subst heq
      rw [hself, some.injEq, Prod.mk.injEq] at hw
      exact ⟨hw.2.symm, Function.update_self _ _ _⟩
    · rw [hget w heq] at hw
      rw [hroot w heq]
      exact h.rooted w depth hw
  · have heq : c ≠ start := by
      rintro rfl
      rw [hself] at hc
      cases hc
    rw [hget c heq] at hc
    obtain ⟨hedge, hp, hparent, hdepth⟩ := h.along c p depth hc
    have hpne := hne p (h.done_marked hp)
    exact ⟨hedge, hp, by rw [hroot c heq, hroot p hpne, hparent],
      by rw [hdepth, depthOf_congr (hget p hpne)]⟩
  · by_cases heq : w = start
    · rw [heq, Function.update_self]
    · rw [hroot w heq]
      exact (h.below w (((hmarked w).mp hw).resolve_right heq)).trans hcurrent
  · obtain rfl := mem_singleton.mp hw
    rw [Function.update_self]
  · rw [hroot u (hne u (h.done_marked hu)), hroot w (hne w (h.closed u hu w hedge))]
    exact h.back u hu w hedge
  · have hb := h.closed a ha b hedge
    obtain ⟨hanc', -⟩ := h.ancestors_kept hkeep hb hanc
    obtain ⟨depth, hlink⟩ := h.linked a ha b hedge hanc'
    exact ⟨depth, (hkeep b hb).trans hlink⟩

end

theorem depthOf_eq {parent : Option α} {depth : ℕ} (hget : forest.get w = some (parent, depth)) :
    depthOf forest w = depth := by
  rw [depthOf, hget]
  rfl

variable {s : Search α}

section

variable (h : Searched G nodes root done current s)
include h

theorem Searched.induct {P : α → Prop}
    (hroot : ∀ w, s.forest.get w = some (none, 0) → root w = w → P w)
    (hchild : ∀ c p, s.forest.get c = some (some p, depthOf s.forest p + 1) →
      s.forest.get p ≠ none → G.Edge p c → root c = root p → P p → P c)
    (hw : s.forest.get w ≠ none) : P w := by
  generalize hn : depthOf s.forest w = n
  induction n generalizing w with
  | zero =>
    obtain ⟨⟨parent, depth⟩, hget⟩ := ne_none_iff_exists'.mp hw
    rw [depthOf_eq hget] at hn
    subst hn
    cases parent with
    | none => exact hroot w hget (h.rooted w 0 hget).2
    | some p => exact absurd (h.along w p 0 hget).2.2.2 (Nat.succ_ne_zero _).symm
  | succ n ih =>
    obtain ⟨⟨parent, depth⟩, hget⟩ := ne_none_iff_exists'.mp hw
    rw [depthOf_eq hget] at hn
    cases parent with
    | none => exact absurd ((h.rooted w depth hget).1.symm.trans hn) (Nat.succ_ne_zero n).symm
    | some p =>
      obtain ⟨hedge, hp, hsame, rfl⟩ := h.along w p depth hget
      have hmarked := (h.marked_iff p).mpr (.inl hp)
      exact hchild w p hget hmarked hedge hsame (ih hmarked (Nat.succ.inj hn))

theorem Searched.rootOf (hw : s.forest.get w ≠ none) : RootOf s.forest (root w) w := by
  refine h.induct (P := fun w => RootOf s.forest (root w) w) (fun w hget hroot => ?_)
    (fun c p hget _ _ hroot ih => ?_) hw
  · rw [hroot]
    exact ⟨hget, .refl⟩
  · rw [hroot]
    exact ⟨ih.1, .head ⟨_, hget⟩ ih.2⟩

end

section

variable (h : Searched G nodes root done current ⟨forest, []⟩)
include h

theorem Levels.plant (hlevels : Levels G root done current ⟨forest, []⟩)
    (hnew : forest.get start = none) :
    Levels G (Function.update root start start) done start
      ⟨forest.insert start (none, 0), [start]⟩ := by
  have hne : ∀ w, forest.get w ≠ none → w ≠ start := fun w hw heq => hw (heq ▸ hnew)
  have hkeep : ∀ w, forest.get w ≠ none →
      (forest.insert start (none, 0)).get w = forest.get w := fun w hw => by
    rw [OrderedMap.get_insert, if_neg (Ne.symm (hne w hw))]
  have hroot : ∀ w, forest.get w ≠ none → Function.update root start start w = root w :=
    fun w hw => Function.update_of_ne (hne w hw) _ _
  refine ⟨pairwise_singleton _ _, fun x hx w hw heq => ?_, fun u hu w hedge heq => ?_⟩
  · obtain rfl := mem_singleton.mp hx
    by_cases hold : forest.get w = none
    · obtain rfl : w = x := by
        by_contra hne
        exact hw (by rw [OrderedMap.get_insert, if_neg (Ne.symm hne), hold])
      exact Nat.le_succ _
    · -- no node that was there before has the new root
      rw [hroot w hold] at heq
      have hself := (h.rootOf hold).1
      rw [WithBot.coe_inj.mp heq] at hself
      exact absurd hself (by simp [hnew])
  · have hw := h.closed u hu w hedge
    have hu' := h.done_marked hu
    rw [hroot w hw, hroot u hu'] at heq
    rw [depthOf_congr (hkeep w hw), depthOf_congr (hkeep u hu')]
    exact hlevels.near u hu w hedge heq

theorem searchTree_spec (hlevels : depthFirst = false → Levels G root done current ⟨forest, []⟩)
    (hends : ∀ a b, G.Edge a b → a ∈ nodes ∧ b ∈ nodes) (hstart : start ∈ nodes)
    (hcurrent : current ≤ start) :
    ∃ forest' root' done', searchTree G depthFirst forest start = some forest' ∧
      Searched G nodes root' done' start ⟨forest', []⟩ ∧
      (depthFirst = false → Levels G root' done' start ⟨forest', []⟩) ∧
      forest'.get start ≠ none ∧ ∀ w, forest.get w ≠ none → forest'.get w ≠ none := by
  rw [searchTree]
  by_cases hmarked : forest.get start = none
  · rw [if_neg (by simp [hmarked])]
    have hstep : ∀ s s' : Search α, ((∃ root done, Searched G nodes root done start s ∧
            (depthFirst = false → Levels G root done start s)) ∧
          ∀ w, forest.get w ≠ none ∨ w = start → s.forest.get w ≠ none) →
        searchRound G depthFirst s = some s' →
        ((∃ root done, Searched G nodes root done start s' ∧
            (depthFirst = false → Levels G root done start s')) ∧
          ∀ w, forest.get w ≠ none ∨ w = start → s'.forest.get w ≠ none) ∧
          s'.rank G < s.rank G := by
      rintro s s' ⟨⟨root, done, hs, hslevels⟩, hmarks⟩ hround
      obtain ⟨x, frontier, htop, hgrows⟩ := searchRound_grows hround
      refine ⟨⟨⟨_, _, hs.round htop hgrows hends, fun hqueue => ?_⟩, fun w hw => ?_⟩,
        hgrows.rank htop⟩
      · subst hqueue
        exact (hslevels rfl).round hs htop hgrows
      · exact hgrows.marked_iff.mpr (.inl (hmarks w hw))
    have hplanted : ∀ w, forest.get w ≠ none ∨ w = start →
        (forest.insert start (none, 0)).get w ≠ none := by
      intro w hw
      by_cases heq : start = w
      · simp [OrderedMap.get_insert, heq]
      · rw [OrderedMap.get_insert, if_neg heq]
        exact hw.resolve_right (Ne.symm heq)
    have hrank : Search.rank G ⟨forest.insert start (none, 0), [start]⟩ < G.size + 2 := by
      have hcard := (Finset.card_filter_le G.reached
        fun w => (forest.insert start (none, 0)).get w = none).trans (card_reached_le G)
      simp only [Search.rank, length_singleton]
      omega
    obtain ⟨⟨forest', frontier⟩, hdrain, ⟨⟨root', done', hs, hslevels⟩, hmarks⟩, hend⟩ :=
      drain_spec (Search.rank G) hstep ⟨⟨_, done, h.plant hstart hcurrent hmarked,
        fun hqueue => (hlevels hqueue).plant h hmarked⟩, hplanted⟩ hrank
    obtain rfl : frontier = [] := searchRound_none hend
    refine ⟨forest', root', done', ?_, hs, hslevels, hmarks start (.inr rfl),
      fun w hw => hmarks w (.inl hw)⟩
    rw [hdrain]
    rfl
  · rw [if_pos (isSome_iff_ne_none.mpr hmarked)]
    exact ⟨forest, root, done, rfl, h.settled hcurrent, fun hqueue =>
      ⟨.nil, fun _ => nofun, (hlevels hqueue).near⟩, hmarked, fun _ hw => hw⟩

end

theorem searchTrees_spec (depthFirst : Bool) (h : Searched G nodes root done current ⟨forest, []⟩)
    (hlevels : depthFirst = false → Levels G root done current ⟨forest, []⟩)
    (hends : ∀ a b, G.Edge a b → a ∈ nodes ∧ b ∈ nodes) (hroots : ∀ r ∈ roots, r ∈ nodes)
    (hsorted : roots.Pairwise (· < ·)) (hcurrent : ∀ r ∈ roots, current ≤ r) :
    ∃ forest' root' done' current', searchTrees G depthFirst roots forest = some forest' ∧
      Searched G nodes root' done' current' ⟨forest', []⟩ ∧
      (depthFirst = false → Levels G root' done' current' ⟨forest', []⟩) ∧
      (∀ r ∈ roots, forest'.get r ≠ none) ∧ ∀ w, forest.get w ≠ none → forest'.get w ≠ none := by
  induction roots generalizing forest root done current with
  | nil => exact ⟨forest, root, done, current, rfl, h, hlevels, forall_mem_nil _, fun _ hw => hw⟩
  | cons start roots ih =>
    obtain ⟨hlt, hsorted⟩ := pairwise_cons.mp hsorted
    obtain ⟨hstart, hroots⟩ := forall_mem_cons.mp hroots
    obtain ⟨middle, root', done', htree, hs, hslevels, hmarked, hmarks⟩ :=
      searchTree_spec h hlevels hends hstart (hcurrent start mem_cons_self)
    obtain ⟨forest', root'', done'', current'', hrest, hs', hslevels', hall, hkept⟩ :=
      ih hs hslevels hroots hsorted fun r hr => WithBot.coe_le_coe.mpr (hlt r hr).le
    refine ⟨forest', root'', done'', current'', ?_, hs', hslevels',
      forall_mem_cons.mpr ⟨hkept start hmarked, hall⟩, fun w hw => hkept w (hmarks w hw)⟩
    rw [searchTrees, htree, bind_some, hrest]

end

section

variable {G : GraphAdjacency α} {nodes : OrderedSet α} {root : α → α} {done : Set α}
  {current : WithBot α} {forest : Forest α} {w a b r : α}

theorem searched_empty (G : GraphAdjacency α) (nodes : OrderedSet α) :
    Searched G nodes id ∅ ⊥ ⟨.empty, []⟩ where
  marked_iff _ := by simp
  not_done _ := nofun
  nodup := .nil
  inside _ hw := absurd rfl hw
  closed _ hu := absurd hu (Set.notMem_empty _)
  rooted _ _ := nofun
  along _ _ _ := nofun
  below _ hw := absurd rfl hw
  waiting _ := nofun
  back _ hu := absurd hu (Set.notMem_empty _)
  linked _ ha := absurd ha (Set.notMem_empty _)

theorem graphSearchSpanningForest_ends (hends : ∀ a b, G.Edge a b → a ∈ nodes ∧ b ∈ nodes)
    (depthFirst : Bool) :
    ∃ forest root done current, graphSearchSpanningForest G nodes depthFirst = some forest ∧
      Searched G nodes root done current ⟨forest, []⟩ ∧
      (depthFirst = false → Levels G root done current ⟨forest, []⟩) ∧
      ∀ w ∈ nodes, forest.get w ≠ none := by
  obtain ⟨forest, root, done, current, hrun, hs, hlevels, hall, -⟩ :=
    searchTrees_spec depthFirst (searched_empty G nodes)
      (fun _ => ⟨.nil, fun _ => nofun, fun _ hu => absurd hu (Set.notMem_empty _)⟩) hends
      (fun _ hr => hr) nodes.sorted fun _ _ => bot_le
  exact ⟨forest, root, done, current, hrun, hs, hlevels, hall⟩

section

variable (h : Searched G nodes root done current ⟨forest, []⟩)
include h

theorem Searched.done_iff : w ∈ done ↔ forest.get w ≠ none := by
  rw [h.marked_iff]
  simp

theorem Searched.spans (hall : ∀ w ∈ nodes, forest.get w ≠ none) : Spans G nodes forest where
  covers := by
    refine @SortedKeys.eq_of_perm_of_strict _ _ _ id _ _ ?_ forest.sorted nodes.sorted
    refine (perm_ext_iff_of_nodup (forest.sorted.imp ne_of_lt) nodes.nodup).mpr fun w => ?_
    rw [← OrderedMap.keys, OrderedMap.mem_keys_iff, isSome_iff_ne_none]
    exact ⟨h.inside w, hall w⟩
  root_depth w depth hget := (h.rooted w depth hget).1
  along c p depth hget := by
    obtain ⟨hedge, hp, -, rfl⟩ := h.along c p depth hget
    obtain ⟨⟨above, n⟩, hparent⟩ := ne_none_iff_exists'.mp (h.done_iff.mp hp)
    refine ⟨hedge, above, ?_, Nat.succ_pos _⟩
    rw [hparent, depthOf, hparent]
    rfl

theorem Searched.rootOf_iff : RootOf forest r w ↔ forest.get w ≠ none ∧ root w = r := by
  constructor
  · rintro ⟨hself, hanc⟩
    induction hanc using ReflTransGen.head_induction_on with
    | refl => exact ⟨by simp [hself], (h.rooted r 0 hself).2⟩
    | head hlink _ ih =>
      obtain ⟨depth, hget⟩ := hlink
      exact ⟨by simp [hget], (h.along _ _ _ hget).2.2.1.trans ih.2⟩
  · rintro ⟨hw, rfl⟩
    exact h.rootOf hw

theorem Searched.walk (hw : forest.get w ≠ none) :
    ∃ p, Walk (EdgeAfter G forest (root w)) (root w) p w ∧ p.length = depthOf forest w := by
  refine h.induct (P := fun w => ∃ p, Walk (EdgeAfter G forest (root w)) (root w) p w ∧
    p.length = depthOf forest w) (fun w hget hroot => ?_) (fun c p hget _ hedge hroot ih => ?_) hw
  · rw [hroot, depthOf_eq hget]
    exact ⟨[], .nil, rfl⟩
  · obtain ⟨q, hq, hlen⟩ := ih
    rw [hroot, depthOf_eq hget]
    refine ⟨q ++ [c], hq.snoc ⟨hedge, fun earlier hearlier => ?_⟩, ?_⟩
    · rw [← hroot]
      exact (h.rootOf_iff.mp hearlier).2.le
    · rw [length_append, length_singleton, hlen]

theorem Searched.breadthFirst (hlevels : Levels G root done current ⟨forest, []⟩) :
    BreadthFirst G forest := by
  intro r w parent depth hroot hget
  obtain ⟨hw, rfl⟩ := h.rootOf_iff.mp hroot
  have hself := (h.rootOf hw).1
  have hclosed := isDistance_of_closed (r := EdgeAfter G forest (root w)) (a := root w)
    (f := fun x => if forest.get x ≠ none ∧ root x = root w then some (depthOf forest x) else none)
    ?_ ?_ ?_ w depth
  · refine hclosed.mp ?_
    rw [if_pos ⟨hw, rfl⟩, depthOf, hget]
    rfl
  · have hselfdepth : depthOf forest (root w) = 0 := by rw [depthOf, hself]; rfl
    rw [if_pos ⟨by simp [hself], (h.rooted (root w) 0 hself).2⟩, hselfdepth]
  · intro x n hx
    split at hx
    · rename_i hmem
      obtain ⟨p, hp, hlen⟩ := h.walk hmem.1
      rw [hmem.2] at hp
      exact ⟨p, hp, hlen.trans (some.inj hx)⟩
    · cases hx
  · intro x y n hx hedge
    split at hx
    · rename_i hmem
      cases hx
      have hxdone := h.done_iff.mpr hmem.1
      have hy := h.closed x hxdone y hedge.1
      have hle := h.back x hxdone y hedge.1
      have hroot : root y = root w :=
        le_antisymm (hle.trans_eq hmem.2) (hedge.2 _ (h.rootOf hy))
      exact ⟨depthOf forest y, hlevels.near x hxdone y hedge.1 (hroot.trans hmem.2.symm),
        if_pos ⟨hy, hroot⟩⟩
    · cases hx

end

theorem functional_link (forest : Forest α) : Functional (Link forest) := by
  rintro a b c ⟨depth, hb⟩ ⟨depth', hc⟩
  rw [hb] at hc
  exact some.inj (Prod.mk.inj (some.inj hc)).1

section

variable (h : Searched G nodes root done current ⟨forest, []⟩)
include h

theorem Searched.depth_lt (hanc : TransGen (Link forest) a b) : depthOf forest b < depthOf forest a := by
  have hone : ∀ c p, Link forest c p → depthOf forest p < depthOf forest c := by
    rintro c p ⟨depth, hget⟩
    have hdepth : depth = depthOf forest p + 1 := (h.along c p depth hget).2.2.2
    rw [depthOf, depthOf, hget, ← depthOf]
    exact hdepth ▸ Nat.lt_succ_self _
  induction hanc with
  | single hlink => exact hone _ _ hlink
  | tail _ hlink ih => exact (hone _ _ hlink).trans ih

theorem Searched.isAcyclic_links : (SimpleGraph.fromRel (Link forest)).IsAcyclic :=
  isAcyclic_fromRel (functional_link forest) fun _ hcycle => lt_irrefl _ (h.depth_lt hcycle)

theorem Searched.links_le : SimpleGraph.fromRel (Link forest) ≤ undirected G := by
  intro a b hadj
  refine (SimpleGraph.fromRel_adj _ a b).mpr ⟨hadj.1, ?_⟩
  rcases hadj.2 with ⟨depth, hget⟩ | ⟨depth, hget⟩
  · exact .inr (h.along a b depth hget).1
  · exact .inl (h.along b a depth hget).1

theorem Searched.root_eq (hall : ∀ w ∈ nodes, forest.get w ≠ none)
    (hends : ∀ a b, G.Edge a b → a ∈ nodes ∧ b ∈ nodes) (hsymm : IsSymmetric G)
      (hedge : G.Edge a b) : root a = root b :=
  le_antisymm (h.back b (h.done_iff.mpr (hall b (hends a b hedge).2)) a (hsymm a b hedge))
    (h.back a (h.done_iff.mpr (hall a (hends a b hedge).1)) b hedge)

theorem Searched.link_of_edge (hall : ∀ w ∈ nodes, forest.get w ≠ none)
    (hends : ∀ a b, G.Edge a b → a ∈ nodes ∧ b ∈ nodes) (hsymm : IsSymmetric G)
    (hacyclic : (undirected G).IsAcyclic) (hedge : G.Edge a b) (hne : a ≠ b) :
      Link forest a b ∨ Link forest b a := by
  have hup := reachable_of_ancestor (h.rootOf (hall a (hends a b hedge).1)).2
  rw [h.root_eq hall hends hsymm hedge] at hup
  have hdown := (reachable_of_ancestor (h.rootOf (hall b (hends a b hedge).2)).2).symm
  have hadj := adj_of_reachable hacyclic h.links_le
    ((SimpleGraph.fromRel_adj _ a b).mpr ⟨hne, .inl hedge⟩) (hup.trans hdown)
  exact ((SimpleGraph.fromRel_adj _ a b).mp hadj).2

end

/-- The forest is a depth-first one only where the graph has no cycle: nodes are marked when they
are pushed, so that an edge to an ancestor that is no link would have been one. -/
theorem Searched.depthFirst_iff (h : Searched G nodes root done current ⟨forest, []⟩)
    (hall : ∀ w ∈ nodes, forest.get w ≠ none) (hends : ∀ a b, G.Edge a b → a ∈ nodes ∧ b ∈ nodes)
    (hsymm : IsSymmetric G) :
    DepthFirst G forest ↔ (undirected G).IsAcyclic := by
  constructor
  · intro hdepth
    refine h.isAcyclic_links.anti fun a b hadj => ?_
    obtain ⟨hne, hor⟩ := (SimpleGraph.fromRel_adj _ a b).mp hadj
    have hedge : G.Edge a b := hor.elim id (hsymm b a)
    have hlink : ∀ a b, a ≠ b → G.Edge a b → ReflTransGen (Link forest) b a →
        Link forest b a := by
      intro a b hne hedge hanc
      refine h.linked a (h.done_iff.mpr (hall a (hends a b hedge).1)) b hedge ?_
      exact (reflTransGen_iff_eq_or_transGen.mp hanc).resolve_left hne
    refine ⟨hne, ?_⟩
    rcases hdepth a b hedge with hanc | hanc
    · exact .inl (hlink b a hne.symm (hsymm a b hedge) hanc)
    · exact .inr (hlink a b hne hedge hanc)
  · intro hacyclic a b hedge
    by_cases hne : a = b
    · exact .inl (hne ▸ .refl)
    · rcases h.link_of_edge hall hends hsymm hacyclic hedge hne with hlink | hlink
      · exact .inl (.single hlink)
      · exact .inr (.single hlink)

/-- The forests are what their variants name, the depth-first one only on a graph without cycles. -/
theorem graphSearchSpanningForest_iff (hends : ∀ a b, G.Edge a b → a ∈ nodes ∧ b ∈ nodes)
    (depthFirst : Bool) :
    (∃ forest, graphSearchSpanningForest G nodes depthFirst = some forest ∧
        Spans G nodes forest ∧
        (depthFirst = false → BreadthFirst G forest) ∧
        (depthFirst = true → IsSymmetric G → DepthFirst G forest)) ↔
      (depthFirst = true → IsSymmetric G → (undirected G).IsAcyclic) := by
  obtain ⟨forest, root, done, current, hrun, hs, hlevels, hall⟩ :=
    graphSearchSpanningForest_ends hends depthFirst
  constructor
  · rintro ⟨forest', hrun', -, -, hdepth⟩ hstack hsymm
    obtain rfl := some.inj (hrun.symm.trans hrun')
    exact (hs.depthFirst_iff hall hends hsymm).mp (hdepth hstack hsymm)
  · intro hacyclic
    exact ⟨forest, hrun, hs.spans hall, fun hqueue => hs.breadthFirst (hlevels hqueue),
      fun hstack hsymm => (hs.depthFirst_iff hall hends hsymm).mpr (hacyclic hstack hsymm)⟩

def triangleEdges : List (GraphEdge String) :=
  [⟨"ab", "a", "b"⟩, ⟨"ba", "b", "a"⟩, ⟨"bc", "b", "c"⟩, ⟨"cb", "c", "b"⟩, ⟨"ac", "a", "c"⟩,
    ⟨"ca", "c", "a"⟩]

theorem triangleNodes_sorted : ["a", "b", "c"].Pairwise (· < ·) := by decide

def triangleNodes : OrderedSet String := ⟨["a", "b", "c"], triangleNodes_sorted⟩

theorem triangle_ends (a b : String) (h : (GraphAdjacency.fromEdges triangleEdges).Edge a b) :
    a ∈ triangleNodes ∧ b ∈ triangleNodes := by
  obtain ⟨edge, hedge, rfl, rfl⟩ := edge_fromEdges.mp h
  revert edge
  decide

theorem graphSearchSpanningForest_iff_triangle :
    (∃ forest, graphSearchSpanningForest (GraphAdjacency.fromEdges triangleEdges) triangleNodes true =
          some forest ∧
        Spans (GraphAdjacency.fromEdges triangleEdges) triangleNodes forest ∧
        (true = false → BreadthFirst (GraphAdjacency.fromEdges triangleEdges) forest) ∧
        (true = true → IsSymmetric (GraphAdjacency.fromEdges triangleEdges) →
          DepthFirst (GraphAdjacency.fromEdges triangleEdges) forest)) ↔
      (true = true → IsSymmetric (GraphAdjacency.fromEdges triangleEdges) →
        (undirected (GraphAdjacency.fromEdges triangleEdges)).IsAcyclic) :=
  graphSearchSpanningForest_iff triangle_ends true

theorem ancestors_of_child {child parent : α} {depth : ℕ}
    (hchild : forest.get child = some (some parent, depth)) (hparent : forest.get parent = some (none, 0))
    (h : ReflTransGen (Link forest) child a) : a = child ∨ a = parent := by
  induction h with
  | refl => exact .inl rfl
  | tail _ hlink ih =>
    obtain ⟨n, hget⟩ := hlink
    rcases ih with rfl | rfl
    · rw [hchild] at hget
      exact .inr (some.inj (Prod.mk.inj (some.inj hget)).1).symm
    · simp [hparent] at hget

/-- On the triangle `b` and `c` are both children of `a`, though an edge joins them. -/
theorem triangle_not_depthFirst : IsSymmetric (GraphAdjacency.fromEdges triangleEdges) ∧
      ∃ forest, graphSearchSpanningForest (GraphAdjacency.fromEdges triangleEdges) triangleNodes true =
          some forest ∧ ¬ DepthFirst (GraphAdjacency.fromEdges triangleEdges) forest := by
  have hback : ∀ edge ∈ triangleEdges, ∃ other ∈ triangleEdges,
      other.source = edge.target ∧ other.target = edge.source := by decide
  have h : (graphSearchSpanningForest (GraphAdjacency.fromEdges triangleEdges) triangleNodes true).map
      (fun forest => (forest.get "a", forest.get "b", forest.get "c")) =
        some (some (none, 0), some (some "a", 1), some (some "a", 1)) := by decide +kernel
  obtain ⟨forest, hrun, hget⟩ := map_eq_some_iff.mp h
  simp only [Prod.mk.injEq] at hget
  obtain ⟨ha, hb, hc⟩ := hget
  refine ⟨fun a b hedge => ?_, forest, hrun, fun hdepth => ?_⟩
  · obtain ⟨edge, hmem, rfl, rfl⟩ := edge_fromEdges.mp hedge
    exact edge_fromEdges.mpr (hback edge hmem)
  · have hedge : (GraphAdjacency.fromEdges triangleEdges).Edge "b" "c" :=
      edge_fromEdges.mpr ⟨⟨"bc", "b", "c"⟩, by simp [triangleEdges], rfl, rfl⟩
    rcases hdepth "b" "c" hedge with hanc | hanc
    · exact absurd (ancestors_of_child hb ha hanc) (by decide)
    · exact absurd (ancestors_of_child hc ha hanc) (by decide)

end

end CoveFormat.SearchForests
