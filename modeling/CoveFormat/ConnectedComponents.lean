import CoveFormat.DirectedWalks
import CoveFormat.FinishOrders
import CoveFormat.Floods
import CoveFormat.GraphAdjacency
import Mathlib.Algebra.BigOperators.Ring.Finset

namespace CoveFormat.ConnectedComponents

open DirectedWalks FinishOrders Floods GraphAdjacencies GraphAdjacency List OrderedMaps OrderedSets
  Relation

variable {α : Type} [LinearOrder α]

/-- The given nodes, with those of an G map. -/
def addNodes (entries : OrderedMap α (List α)) (nodes : OrderedSet α) : OrderedSet α :=
  entries.entries.foldl (fun nodes entry => (nodes.insert entry.1).extend entry.2) nodes

def graphAlgorithmNodes (G : GraphAdjacency α) (startNodes : OrderedSet α) : OrderedSet α :=
  addNodes G.incoming (addNodes G.outgoing startNodes)

/-- What `stack.extend(nodes)` does; the head of the list is the top of the stack. -/
def pushAll (stack nodes : List α) : List α := nodes.foldl (fun stack node => node :: stack) stack

def floodFuel (G : GraphAdjacency α) : ℕ := G.size + 2

def weakNeighbours (G : GraphAdjacency α) (_ : OrderedMap α ℕ) (current : α)
    (stack : List α) : List α :=
  pushAll (pushAll stack (G.targets current)) (G.sources current)

def graphWeakComponentIds (G : GraphAdjacency α) : Option (OrderedMap α ℕ) :=
  floodFrom (weakNeighbours G) (floodFuel G)
    (addNodes G.outgoing .empty).elems 0 .empty

def graphSccFinishOrder (G : GraphAdjacency α) : ℕ → α → Marks α → Option (Marks α) :=
  visit G.targets

def openSources (G : GraphAdjacency α) (components : OrderedMap α ℕ) (current : α)
    (stack : List α) : List α :=
  pushAll stack ((G.sources current).reverse.filter fun source =>
    !(components.get source).isSome)

def graphStrongComponentIds (G : GraphAdjacency α) : Option (OrderedMap α ℕ) := do
  let nodes := (graphAlgorithmNodes G .empty).elems
  let marks ← visitAll (graphSccFinishOrder G (nodes.length + 1)) nodes ⟨∅, []⟩
  floodFrom (openSources G) (floodFuel G) marks.finished.reverse 0 .empty

def graphComponentIds (G : GraphAdjacency α) (kind : String) : Option (OrderedMap α ℕ) :=
  if kind = "strong" then graphStrongComponentIds G else graphWeakComponentIds G

/-- The one node is the other, or some way along the edges from it back to it passes the other. -/
def OnCommonCycle (G : GraphAdjacency α) (a b : α) : Prop :=
  a = b ∨ ∃ p, Walk G.Edge a p a ∧ b ∈ p

/-- What the two variants take for connected. -/
def SameComponent (G : GraphAdjacency α) (kind : String) (a b : α) : Prop :=
  if kind = "strong" then OnCommonCycle G a b else EqvGen G.Edge a b

def Isolated (G : GraphAdjacency α) (a : α) : Prop :=
  ∀ b, ¬ G.Edge a b ∧ ¬ G.Edge b a

section

variable {entries : OrderedMap α (List α)} {nodes : OrderedSet α} {G : GraphAdjacency α}
  {a b : α} {stack next : List α}

omit [LinearOrder α] in
theorem pushAll_eq (stack next : List α) : pushAll stack next = next.reverse ++ stack := by
  induction next generalizing stack with
  | nil => rfl
  | cons node next ih =>
    rw [pushAll, foldl_cons, ← pushAll, ih, reverse_cons, append_assoc]
    rfl

theorem mem_addNodes : a ∈ addNodes entries nodes ↔
    a ∈ nodes ∨ ∃ entry ∈ entries.entries, a = entry.1 ∨ a ∈ entry.2 := by
  rw [addNodes]
  generalize entries.entries = entries
  induction entries generalizing nodes with
  | nil => simp
  | cons entry entries ih =>
    rw [foldl_cons, ih, OrderedSet.mem_extend, OrderedSet.mem_insert, exists_mem_cons_iff,
      ← or_assoc, ← or_assoc, or_comm (a := a ∈ nodes), or_comm (a := a = entry.1)]

theorem mem_addNodes_iff (hne : ∀ node, entries.get node ≠ some []) : a ∈ addNodes entries nodes ↔
    a ∈ nodes ∨ ∃ b, b ∈ (entries.get a).getD [] ∨ a ∈ (entries.get b).getD [] := by
  rw [mem_addNodes]
  refine or_congr_right ⟨?_, ?_⟩
  · rintro ⟨⟨node, next⟩, hentry, heq | hmem⟩
    · have hget := OrderedMap.mem_entries_iff.mp hentry
      obtain rfl : a = node := heq
      cases next with
      | nil => exact absurd hget (hne a)
      | cons b next => exact ⟨b, .inl (by simp [hget])⟩
    · have hget := OrderedMap.mem_entries_iff.mp hentry
      exact ⟨node, .inr (by simpa [hget] using hmem)⟩
  · rintro ⟨b, hb | hb⟩
    · cases hget : entries.get a with
      | none => simp [hget] at hb
      | some next => exact ⟨(a, next), OrderedMap.mem_entries_iff.mpr hget, .inl rfl⟩
    · cases hget : entries.get b with
      | none => simp [hget] at hb
      | some next =>
        exact ⟨(b, next), OrderedMap.mem_entries_iff.mpr hget, .inr (by simpa [hget] using hb)⟩

variable (h : G.Normalized)
include h

theorem mem_outgoing_iff : a ∈ addNodes G.outgoing .empty ↔ ¬ Isolated G a := by
  rw [mem_addNodes_iff h.targets_ne, Isolated]
  simp only [not_forall, not_and_or, not_not]
  exact or_iff_right not_mem_nil

theorem mem_graphAlgorithmNodes : a ∈ graphAlgorithmNodes G nodes ↔ a ∈ nodes ∨ ¬ Isolated G a := by
  rw [graphAlgorithmNodes, mem_addNodes_iff h.sources_ne, mem_addNodes_iff h.targets_ne, or_assoc]
  refine or_congr_right ?_
  rw [Isolated]
  simp only [not_forall, not_and_or, not_not]
  constructor
  · rintro (hout | ⟨b, hb | hb⟩)
    · exact hout
    · exact ⟨b, .inr ((h.reverse b a).mp hb)⟩
    · exact ⟨b, .inl ((h.reverse a b).mp hb)⟩
  · exact .inl

end

section

variable {G : GraphAdjacency α} {a b k : α} {components : OrderedMap α ℕ} {done : List α}
  {start : α} {id : ℕ}

theorem isolated_iff (h : G.Normalized) :
    Isolated G a ↔ G.targets a = [] ∧ G.sources a = [] := by
  rw [Isolated, forall_and]
  refine and_congr eq_nil_iff_forall_not_mem.symm ?_
  rw [eq_nil_iff_forall_not_mem]
  exact forall_congr' fun b => not_congr (h.reverse b a).symm

theorem enough_fuel (degree : α → ℕ) (h : G.Normalized)
    (hle : ∀ node, degree node ≤ (G.targets node).length + (G.sources node).length) :
    (∀ node, degree node ≠ 0 → node ∈ (graphAlgorithmNodes G .empty).toFinset) ∧
      1 + ∑ node ∈ (graphAlgorithmNodes G .empty).toFinset, degree node < floodFuel G := by
  refine ⟨fun node hne => ?_, ?_⟩
  · rw [OrderedSet.mem_toFinset, mem_graphAlgorithmNodes h, isolated_iff h]
    refine .inr fun hempty => hne ?_
    have := hle node
    rw [hempty.1, hempty.2] at this
    exact Nat.le_zero.mp this
  · have hsum := Finset.sum_le_sum fun node (_ : node ∈ (graphAlgorithmNodes G .empty).toFinset) =>
      hle node
    rw [Finset.sum_add_distrib] at hsum
    have htargets := sum_entries_le G.outgoing (graphAlgorithmNodes G .empty).toFinset
    have hsources := sum_entries_le G.incoming (graphAlgorithmNodes G .empty).toFinset
    rw [floodFuel, size]
    simp only [targets, sources] at hsum
    omega

/-- A step along an edge, either way. -/
def Neighbour (G : GraphAdjacency α) (a b : α) : Prop := G.Edge a b ∨ G.Edge b a

theorem eqvGen_iff : EqvGen G.Edge a b ↔ ReflTransGen (Neighbour G) a b := by
  constructor
  · intro h
    induction h with
    | rel _ _ hstep => exact .single (.inl hstep)
    | refl _ => exact .refl
    | symm _ _ _ ih =>
      have : Std.Symm (Neighbour G) := ⟨fun _ _ => Or.symm⟩
      exact symm ih
    | trans _ _ _ _ _ ih ih' => exact ih.trans ih'
  · intro h
    induction h with
    | refl => exact .refl _
    | tail _ hstep ih =>
      rcases hstep with hstep | hstep
      · exact ih.trans _ _ _ (.rel _ _ hstep)
      · exact ih.trans _ _ _ (.symm _ _ (.rel _ _ hstep))

theorem weak_pushes (h : G.Normalized) :
    Pushes (weakNeighbours G) (Neighbour G) fun node =>
      (G.targets node).length + (G.sources node).length := by
  refine ⟨fun _ current stack => ⟨(G.sources current).reverse ++
    (G.targets current).reverse, ?_, fun y hy => ?_, ?_, fun y hstep => .inr ?_⟩⟩
  · rw [weakNeighbours, pushAll_eq, pushAll_eq, append_assoc]
  · rcases mem_append.mp hy with hy | hy
    · exact .inr ((h.reverse y current).mp (mem_reverse.mp hy))
    · exact .inl (mem_reverse.mp hy)
  · rw [length_append, length_reverse, length_reverse, Nat.add_comm]
  · rw [mem_append, mem_reverse, mem_reverse]
    exact hstep.symm.imp_left (h.reverse y current).mpr

theorem graphWeakComponentIds_numbered (h : G.Normalized) :
    ∃ id components, graphWeakComponentIds G = some components ∧
      Numbered (EqvGen G.Edge) (addNodes G.outgoing .empty).elems id components := by
  obtain ⟨hknown, hfuel⟩ := enough_fuel _ h fun _ => le_rfl
  have hsame := EqvGen.is_equivalence G.Edge
  refine floodFrom_spec hsame (weak_pushes h) hknown hfuel
    (fun done start _ _ id components hdone hstart => ⟨?_, fun k hk => ⟨fun hreach => ?_, fun hclass => ?_⟩⟩)
    numbered_empty
  · intro m current stack _ hcurrent y hy
    obtain ⟨new, heq, hnew, -, -⟩ := (weak_pushes h).pushed m current stack
    rw [heq] at hy
    rcases mem_append.mp hy with hy | hy
    · exact .inr (hdone.fresh hsame hcurrent (eqvGen_iff.mpr (.single (hnew y hy))))
    · exact .inl hy
  · exact eqvGen_iff.mpr (ReflTransGen.mono (fun _ _ => And.left) _ _ hreach)
  · refine reaches_free (eqvGen_iff.mp hclass) fun y hy _ hsome => ?_
    rw [Set.mem_ofPred_eq, hdone.fresh hsame hstart (eqvGen_iff.mpr hy)] at hsome
    cases hsome

omit [LinearOrder α] in
theorem mutual_equivalence (targets : α → List α) : Equivalence (Mutual targets) :=
  ⟨.refl targets, .symm, .trans⟩

theorem strong_pushes (h : G.Normalized) :
    Pushes (openSources G) (fun a b => G.Edge b a) fun node =>
      (G.sources node).length := by
  refine ⟨fun components current stack => ⟨(G.sources current).filter fun source =>
    !(components.get source).isSome, ?_, fun y hy => ?_, length_filter_le _ _, fun y hstep => ?_⟩⟩
  · rw [openSources, pushAll_eq, filter_reverse, reverse_reverse]
  · exact (h.reverse y current).mp (mem_filter.mp hy).1
  · by_cases hsome : (components.get y).isSome
    · exact .inl hsome
    · exact .inr (mem_filter.mpr ⟨(h.reverse y current).mpr hstep, by simp [hsome]⟩)

theorem finish_order (h : G.Normalized) :
    ∃ marks, visitAll (graphSccFinishOrder G ((graphAlgorithmNodes G .empty).elems.length + 1))
        (graphAlgorithmNodes G .empty).elems ⟨∅, []⟩ = some marks ∧
      (∀ a, a ∈ marks.finished ↔ ¬ Isolated G a) ∧
      ∀ later b earlier, marks.finished = earlier ++ b :: later → ∀ a ∈ marks.finished,
        ReflTransGen G.Edge a b → ∃ c, Mutual G.targets a c ∧ (c = b ∨ c ∈ later) := by
  have hmem : ∀ a, a ∈ graphAlgorithmNodes G .empty ↔ ¬ Isolated G a := fun a =>
    (mem_graphAlgorithmNodes h).trans (or_iff_right not_mem_nil)
  obtain ⟨marks, hok, hall, -, hsub, -, horder⟩ := @visitAll_ordered _ G.targets
    (graphAlgorithmNodes G .empty).toFinset (graphAlgorithmNodes G .empty).elems _ _
    (fun a b hstep => OrderedSet.mem_toFinset.mpr ((hmem b).mpr fun hnone => (hnone a).2 hstep))
    (fun a ha => OrderedSet.mem_toFinset.mpr ha) (Nat.lt_succ_self _)
  exact ⟨marks, hok, fun a => ⟨fun ha => (hmem a).mp (OrderedSet.mem_toFinset.mp (hsub a ha)),
    fun ha => hall a ((hmem a).mpr ha)⟩, horder⟩

theorem graphStrongComponentIds_numbered (h : G.Normalized) :
    ∃ nodes id components, graphStrongComponentIds G = some components ∧
      (∀ a, a ∈ nodes ↔ ¬ Isolated G a) ∧
      Numbered (Mutual G.targets) nodes id components := by
  obtain ⟨marks, hok, hfinished, horder⟩ := finish_order h
  obtain ⟨hknown, hfuel⟩ := enough_fuel (fun node => (G.sources node).length) h
    fun _ => Nat.le_add_left _ _
  have hsame := mutual_equivalence G.targets
  suffices hrun : ∃ id components, floodFrom (openSources G) (floodFuel G)
      marks.finished.reverse 0 .empty = some components ∧
      Numbered (Mutual G.targets) ([] ++ marks.finished.reverse) id components by
    obtain ⟨id, components, hrun, hnumbered⟩ := hrun
    refine ⟨marks.finished.reverse, id, components, ?_, fun a => mem_reverse.trans (hfinished a),
      hnumbered⟩
    exact Option.bind_eq_some_iff.mpr ⟨marks, hok, hrun⟩
  refine floodFrom_spec hsame (strong_pushes h) hknown hfuel
    (fun done start rest hsplit id components hdone hstart =>
      ⟨?_, fun k hk => ⟨fun hreach => ?_, fun hclass => ?_⟩⟩) numbered_empty
  · intro m current stack hkept _ y hy
    rw [openSources, pushAll_eq, mem_append, mem_reverse] at hy
    refine hy.symm.imp_right fun hy => Option.not_isSome_iff_eq_none.mp fun hsome => ?_
    simpa [hkept y hsome] using (mem_filter.mp hy).2
  · -- of the class of a node that reaches the start, some node comes before, or it is the start's
    have hto : ReflTransGen G.Edge k start :=
      reflTransGen_swap.mp (ReflTransGen.mono (fun _ _ => And.left) _ _ hreach)
    have hsplit' : marks.finished = rest.reverse ++ start :: done.reverse := by
      have := congrArg List.reverse hsplit
      simpa using this
    have hkfinished : k ∈ marks.finished := by
      rcases hto.cases_head with rfl | ⟨c, hstep, -⟩
      · exact hsplit' ▸ mem_append_right _ mem_cons_self
      · exact (hfinished k).mpr fun hnone => (hnone c).1 hstep
    obtain ⟨c, hmutual, rfl | hc⟩ := horder done.reverse start rest.reverse hsplit' k hkfinished hto
    · exact hmutual.symm
    · have hsome := (hdone.isSome_iff k).mpr ⟨c, mem_reverse.mp hc, hmutual.symm⟩
      simp [hk] at hsome
  · refine reaches_free (reflTransGen_swap.mpr hclass.2) fun y hy hyk hsome => ?_
    have hmutual : Mutual G.targets start y :=
      ⟨hclass.1.trans (reflTransGen_swap.mp hyk), reflTransGen_swap.mp hy⟩
    rw [Set.mem_ofPred_eq, hdone.fresh hsame hstart hmutual] at hsome
    cases hsome

theorem onCommonCycle_iff : OnCommonCycle G a b ↔ Mutual G.targets a b := by
  constructor
  · rintro (rfl | ⟨p, hwalk, hb⟩)
    · exact .refl _ a
    · exact hwalk.passes hb
  · rintro ⟨hto, hback⟩
    by_cases heq : a = b
    · exact .inl heq
    · obtain ⟨p, hp⟩ := exists_walk_iff.mpr hto
      obtain ⟨q, hq⟩ := exists_walk_iff.mpr hback
      exact .inr ⟨p ++ q, hp.append hq, mem_append_left _ (hp.end_mem heq)⟩

variable {kind : String}

theorem sameComponent_eq (G : GraphAdjacency α) (kind : String) :
    SameComponent G kind =
      if kind = "strong" then Mutual G.targets else EqvGen G.Edge := by
  funext a b
  rw [SameComponent, onCommonCycle_iff]
  split <;> rfl

theorem sameComponent_equivalence (G : GraphAdjacency α) (kind : String) :
    Equivalence (SameComponent G kind) := by
  rw [sameComponent_eq]
  split
  · exact mutual_equivalence _
  · exact EqvGen.is_equivalence _

theorem eq_of_isolated (ha : Isolated G a) (h : SameComponent G kind a b) : a = b := by
  rw [sameComponent_eq] at h
  split at h
  · rcases h.1.cases_head with heq | ⟨c, hstep, -⟩
    · exact heq
    · exact absurd hstep (ha c).1
  · rcases (eqvGen_iff.mp h).cases_head with heq | ⟨c, hstep | hstep, -⟩
    · exact heq
    · exact absurd hstep (ha c).1
    · exact absurd hstep (ha c).2

theorem graphComponentIds_spec (h : G.Normalized) (kind : String) :
    ∃ components, graphComponentIds G kind = some components ∧
      (∀ a, (components.get a).isSome ↔ ¬ Isolated G a) ∧
      (∀ a n, components.get a = some n → 0 < n) ∧
      ∀ a b, ¬ Isolated G a → ¬ Isolated G b →
        (components.get a = components.get b ↔ SameComponent G kind a b) := by
  have hnodes : ∃ nodes id components, graphComponentIds G kind = some components ∧
      (∀ a, a ∈ nodes ↔ ¬ Isolated G a) ∧
      Numbered (SameComponent G kind) nodes id components := by
    rw [graphComponentIds, sameComponent_eq]
    split
    · exact graphStrongComponentIds_numbered h
    · obtain ⟨id, components, hrun, hnumbered⟩ := graphWeakComponentIds_numbered h
      exact ⟨_, id, components, hrun, fun a => mem_outgoing_iff h, hnumbered⟩
  obtain ⟨nodes, id, components, hrun, hmem, hnumbered⟩ := hnodes
  have hsome : ∀ a, (components.get a).isSome ↔ ¬ Isolated G a := by
    intro a
    rw [hnumbered.isSome_iff]
    constructor
    · rintro ⟨p, hp, hsame⟩ hnone
      obtain rfl := eq_of_isolated hnone ((sameComponent_equivalence G kind).symm hsame)
      exact (hmem a).mp hp hnone
    · exact fun ha => ⟨a, (hmem a).mpr ha, (sameComponent_equivalence G kind).refl a⟩
  exact ⟨components, hrun, hsome, fun a n hn => (hnumbered.positive a n hn).1,
    fun a b ha hb => hnumbered.eq_iff a b ((hsome a).mpr ha) ((hsome b).mpr hb)⟩

theorem weak_of_strong (h : SameComponent G "strong" a b) : SameComponent G "weak" a b := by
  rw [sameComponent_eq] at h ⊢
  exact eqvGen_iff.mpr (h.1.lift id fun _ _ => .inl)

theorem strong_of_weak (hback : ∀ a b, G.Edge a b → G.Edge b a) (h : SameComponent G "weak" a b) :
    SameComponent G "strong" a b := by
  rw [sameComponent_eq] at h ⊢
  have hway {a b : α} (h : EqvGen G.Edge a b) : ReflTransGen G.Edge a b :=
    (eqvGen_iff.mp h).lift id fun a b hab => hab.elim id (hback b a)
  exact ⟨hway h, hway (.symm _ _ h)⟩

/-- The strong components lie in the weak ones, and are these where every edge has its reverse. -/
theorem strong_refines_weak (edges : List (GraphEdge α)) : ∃ strong weak,
    graphComponentIds (fromEdges edges) "strong" = some strong ∧
    graphComponentIds (fromEdges edges) "weak" = some weak ∧
    (∀ a, (strong.get a).isSome ↔ (weak.get a).isSome) ∧
    (∀ a b n, strong.get a = some n → strong.get b = some n → weak.get a = weak.get b) ∧
    ((∀ edge ∈ edges, ∃ back ∈ edges, back.source = edge.target ∧ back.target = edge.source) →
      ∀ a b n, weak.get a = some n → weak.get b = some n → strong.get a = strong.get b) := by
  have hnormal := fromEdges_normalized edges
  obtain ⟨strong, hstrong, hsome, -, hsame⟩ := graphComponentIds_spec hnormal "strong"
  obtain ⟨weak, hweak, hsome', -, hsame'⟩ := graphComponentIds_spec hnormal "weak"
  refine ⟨strong, weak, hstrong, hweak, fun a => (hsome a).trans (hsome' a).symm, fun a b n ha hb => ?_,
    fun hback a b n ha hb => ?_⟩
  · have hlinked {a : α} (ha : strong.get a = some n) := (hsome a).mp (Option.isSome_of_mem ha)
    have hab := (hsame a b (hlinked ha) (hlinked hb)).mp (ha.trans hb.symm)
    exact (hsame' a b (hlinked ha) (hlinked hb)).mpr (weak_of_strong hab)
  · have hlinked {a : α} (ha : weak.get a = some n) := (hsome' a).mp (Option.isSome_of_mem ha)
    have hab := (hsame' a b (hlinked ha) (hlinked hb)).mp (ha.trans hb.symm)
    refine (hsame a b (hlinked ha) (hlinked hb)).mpr (strong_of_weak (fun a b hedge => ?_) hab)
    obtain ⟨edge, hmem, rfl, rfl⟩ := edge_fromEdges.mp hedge
    exact edge_fromEdges.mpr (hback edge hmem)

end

end CoveFormat.ConnectedComponents
