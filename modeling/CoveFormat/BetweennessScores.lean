import CoveFormat.GraphAdjacency
import CoveFormat.RouteCounts
import CoveFormat.WhileLoops
import Mathlib.Data.Set.Card
import Mathlib.Data.String.Basic

namespace CoveFormat.BetweennessScores

open DirectedWalks GraphAdjacencies GraphAdjacency List Option OrderedMaps OrderedSets RouteCounts
  WhileLoops

variable {α : Type} [LinearOrder α]

/-- The search from one source as it goes on. The head of the stack is its top, the head of the queue
its front. -/
structure Search (α : Type) [LinearOrder α] where
  stack : List α
  predecessors : OrderedMap α (List α)
  sigma : OrderedMap α ℚ
  distance : OrderedMap α ℤ
  queue : List α

namespace Search

variable (s : Search α)

def distanceOf (node : α) : ℤ := (s.distance.get node).getD (-1)

def sigmaOf (node : α) : ℚ := (s.sigma.get node).getD 0

def predecessorsOf (node : α) : List α := (s.predecessors.get node).getD []

end Search

open Search

def start (nodes : OrderedSet α) (source : α) : Search α where
  stack := []
  predecessors := .fill nodes fun _ => []
  sigma := (OrderedMap.fill nodes fun _ => 0).insert source 1
  distance := (OrderedMap.fill nodes fun _ => -1).insert source 0
  queue := [source]

def discover (currentDistance : ℤ) (s : Search α) (target : α) : Search α :=
  if s.distanceOf target < 0 then
    { s with distance := s.distance.insert target (currentDistance + 1), queue := s.queue ++ [target] }
  else s

def relax (nodes : OrderedSet α) (current : α) (currentDistance : ℤ) (s : Search α) (target : α) :
    Search α :=
  if target ∉ nodes then s
  else
    let s := discover currentDistance s target
    if s.distanceOf target = currentDistance + 1 then
      let currentSigma := s.sigmaOf current
      { s with
        sigma := s.sigma.entryOr target 0 (· + currentSigma)
        predecessors := s.predecessors.entryOr target [] (· ++ [current]) }
    else s

def searchRound (G : GraphAdjacency α) (nodes : OrderedSet α) (s : Search α) :
    Option (Search α) :=
  match s.queue with
  | [] => none
  | current :: queue =>
    let s := { s with stack := current :: s.stack, queue := queue }
    some ((G.targets current).foldl (relax nodes current (s.distanceOf current)) s)

def search (G : GraphAdjacency α) (nodes : OrderedSet α) (source : α) : Option (Search α) :=
  drain (searchRound G nodes) (nodes.elems.length + 1) (start nodes source)

def scoreOf (scores : OrderedMap α ℚ) (node : α) : ℚ := (scores.get node).getD 0

/-- The comparison with the smallest double above one is read as one with zero. -/
def passOn (s : Search α) (node : α) (dependency : OrderedMap α ℚ) (predecessor : α) : OrderedMap α ℚ :=
  let numerator := s.sigmaOf predecessor
  let denominator := s.sigmaOf node
  if denominator ≤ 0 then dependency
  else
    let contribution := numerator / denominator * (1 + scoreOf dependency node)
    dependency.entryOr predecessor 0 (· + contribution)

/-- The dependencies of one source and the scores, while the stack is taken down. -/
structure Tally (α : Type) [LinearOrder α] where
  (dependency scores : OrderedMap α ℚ)

def settle (source : α) (s : Search α) (tally : Tally α) (node : α) : Tally α :=
  let dependency := (s.predecessorsOf node).foldl (passOn s node) tally.dependency
  if node ≠ source then ⟨dependency, tally.scores.entryOr node 0 (· + scoreOf dependency node)⟩
  else ⟨dependency, tally.scores⟩

def addSource (G : GraphAdjacency α) (nodes : OrderedSet α) (scores : OrderedMap α ℚ)
    (source : α) : Option (OrderedMap α ℚ) :=
  (search G nodes source).map fun s =>
    (s.stack.foldl (settle source s) ⟨.fill nodes fun _ => 0, scores⟩).scores

def addSources (G : GraphAdjacency α) (nodes : OrderedSet α) :
    List α → OrderedMap α ℚ → Option (OrderedMap α ℚ)
  | [], scores => some scores
  | source :: sources, scores =>
    (addSource G nodes scores source).bind (addSources G nodes sources)

def graphBetweennessCentralityScores (G : GraphAdjacency α) (nodes : OrderedSet α) :
    Option (OrderedMap α ℚ) :=
  addSources G nodes nodes.elems (.fill nodes fun _ => 0)

/-- The edges inside the node set. -/
def Inside (G : GraphAdjacency α) (nodes : OrderedSet α) (a b : α) : Prop :=
  a ∈ nodes ∧ b ∈ nodes ∧ G.Edge a b

def shortestPaths (G : GraphAdjacency α) (nodes : OrderedSet α) (s t : α) : Set (List α) :=
  {p | Shortest (Inside G nodes) s p t}

open Classical in
/-- The part of a source: over all other nodes that it reaches, the part of the shortest ways that
pass the node. -/
noncomputable def betweennessFrom (G : GraphAdjacency α) (nodes : OrderedSet α) (v s : α) : ℚ :=
  ∑ t ∈ nodes.toFinset,
    if s ≠ v ∧ t ≠ v ∧ s ≠ t ∧ (shortestPaths G nodes s t).Nonempty then
      ({p ∈ shortestPaths G nodes s t | v ∈ p}.ncard : ℚ) / (shortestPaths G nodes s t).ncard
    else 0

/-- The betweenness of a node, over all ordered pairs of two different other nodes. -/
noncomputable def betweenness (G : GraphAdjacency α) (nodes : OrderedSet α) (v : α) : ℚ :=
  ∑ s ∈ nodes.toFinset, betweennessFrom G nodes v s

instance (G : GraphAdjacency α) (nodes : OrderedSet α) (a b : α) :
    Decidable (Inside G nodes a b) :=
  inferInstanceAs (Decidable (a ∈ nodes ∧ b ∈ nodes ∧ G.Edge a b))

section

variable {nodes : OrderedSet α} {s s' : Search α} {u w x : α} {targets : List α} {d : ℤ}

theorem distanceOf_insert :
    ((s.distance.insert w d).get x).getD (-1) = if w = x then d else s.distanceOf x := by
  rw [OrderedMap.get_insert, distanceOf]
  split <;> rfl

/-- What the edges of a node `u` change: the targets that have no distance get one and join the queue,
and all targets at the next distance get the sigma of `u`, and `u` as a predecessor. -/
structure Relaxed (nodes : OrderedSet α) (u : α) (d : ℤ) (targets : List α) (s s' : Search α) : Prop where
  stack : s'.stack = s.stack
  queue : s'.queue = s.queue ++ targets.filter fun w => w ∈ nodes ∧ s.distanceOf w < 0
  distance : ∀ x, s'.distanceOf x =
    if x ∈ targets ∧ x ∈ nodes ∧ s.distanceOf x < 0 then d + 1 else s.distanceOf x
  predecessors : ∀ x, s'.predecessorsOf x = s.predecessorsOf x ++
    if x ∈ targets ∧ x ∈ nodes ∧ s'.distanceOf x = d + 1 then [u] else []
  sigma : ∀ x, s'.sigmaOf x = s.sigmaOf x +
    if x ∈ targets ∧ x ∈ nodes ∧ s'.distanceOf x = d + 1 then s.sigmaOf u else 0

theorem discover_spec (d : ℤ) (s : Search α) (w : α) :
    (discover d s w).stack = s.stack ∧ (discover d s w).sigma = s.sigma ∧
      (discover d s w).predecessors = s.predecessors ∧
      (discover d s w).queue = s.queue ++ (if s.distanceOf w < 0 then [w] else []) ∧
      ∀ x, (discover d s w).distanceOf x =
        if x = w ∧ s.distanceOf x < 0 then d + 1 else s.distanceOf x := by
  by_cases hneg : s.distanceOf w < 0
  · have heq : discover d s w = { s with
        distance := s.distance.insert w (d + 1), queue := s.queue ++ [w] } := if_pos hneg
    rw [heq]
    refine ⟨rfl, rfl, rfl, by rw [if_pos hneg], fun x => distanceOf_insert.trans ?_⟩
    by_cases hx : w = x
    · subst hx
      simp [hneg]
    · simp [hx, Ne.symm hx]
  · have heq : discover d s w = s := if_neg hneg
    rw [heq]
    refine ⟨rfl, rfl, rfl, by simp [hneg], fun x => ?_⟩
    rw [if_neg (by rintro ⟨rfl, h⟩; exact hneg h)]

theorem relax_relaxed (nodes : OrderedSet α) (u : α) (d : ℤ) (s : Search α) (w : α) :
    Relaxed nodes u d [w] s (relax nodes u d s w) := by
  rw [relax]
  by_cases hw : w ∈ nodes
  · rw [if_neg (not_not.mpr hw)]
    obtain ⟨hstack, hsigma, hpredecessors, hqueue, hdistance⟩ := discover_spec d s w
    have hqueue' : (discover d s w).queue =
        s.queue ++ [w].filter fun w => w ∈ nodes ∧ s.distanceOf w < 0 := by
      rw [hqueue]
      by_cases hneg : s.distanceOf w < 0 <;> simp [hneg, hw]
    have hdistance' : ∀ x, (discover d s w).distanceOf x =
        if x ∈ [w] ∧ x ∈ nodes ∧ s.distanceOf x < 0 then d + 1 else s.distanceOf x := by
      intro x
      rw [hdistance]
      refine if_congr ?_ rfl rfl
      rw [mem_singleton]
      exact and_congr_right fun heq => (and_iff_right (heq ▸ hw)).symm
    dsimp only
    split
    · rename_i htight
      refine ⟨hstack, hqueue', hdistance', fun x => ?_, fun x => ?_⟩
      · rw [predecessorsOf, OrderedMap.get_entryOr, hpredecessors]
        by_cases heq : w = x
        · subst heq
          rw [if_pos rfl, if_pos ⟨mem_singleton_self w, hw, htight⟩]
          rfl
        · rw [if_neg heq, if_neg fun h => heq (mem_singleton.mp h.1).symm, append_nil]
          rfl
      · rw [sigmaOf, OrderedMap.get_entryOr, hsigma]
        by_cases heq : w = x
        · subst heq
          rw [if_pos rfl, if_pos ⟨mem_singleton_self w, hw, htight⟩, sigmaOf, hsigma]
          rfl
        · rw [if_neg heq, if_neg fun h => heq (mem_singleton.mp h.1).symm, add_zero]
          rfl
    · rename_i hloose
      have hnone : ∀ x, ¬ (x ∈ [w] ∧ x ∈ nodes ∧ (discover d s w).distanceOf x = d + 1) := fun x h =>
        hloose (mem_singleton.mp h.1 ▸ h.2.2)
      refine ⟨hstack, hqueue', hdistance', fun x => ?_, fun x => ?_⟩
      · rw [if_neg (hnone x), append_nil, predecessorsOf, hpredecessors]
        rfl
      · rw [if_neg (hnone x), add_zero, sigmaOf, hsigma]
        rfl
  · rw [if_pos hw]
    have hnone : ∀ x (P : Prop), ¬ (x ∈ [w] ∧ x ∈ nodes ∧ P) := fun x P h =>
      hw (mem_singleton.mp h.1 ▸ h.2.1)
    refine ⟨rfl, by simp [hw], fun x => ?_, fun x => ?_, fun x => ?_⟩
    · rw [if_neg (hnone x _)]
    · rw [if_neg (hnone x _), append_nil]
    · rw [if_neg (hnone x _), add_zero]

theorem Relaxed.trans {s'' : Search α} {rest : List α} (h : Relaxed nodes u d [w] s s')
    (h' : Relaxed nodes u d rest s' s'') (hw : w ∉ rest) (hu : s.distanceOf u = d) (hd : 0 ≤ d) :
    Relaxed nodes u d (w :: rest) s s'' := by
  have hother : ∀ x, x ≠ w → s'.distanceOf x = s.distanceOf x := by
    intro x hx
    rw [h.distance, if_neg fun hmem => hx (mem_singleton.mp hmem.1)]
  have hsame : s''.distanceOf w = s'.distanceOf w := by
    rw [h'.distance, if_neg fun hmem => hw hmem.1]
  have hsigma : s'.sigmaOf u = s.sigmaOf u := by
    have hu' : s'.distanceOf u = d := by rw [h.distance, if_neg (by rintro ⟨-, -, hneg⟩; omega), hu]
    rw [h.sigma, if_neg (by rintro ⟨-, -, htight⟩; omega), add_zero]
  refine ⟨h'.stack.trans h.stack, ?_, fun x => ?_, fun x => ?_, fun x => ?_⟩
  · have hrest : rest.filter (fun w => w ∈ nodes ∧ s'.distanceOf w < 0) =
        rest.filter fun w => w ∈ nodes ∧ s.distanceOf w < 0 :=
      filter_congr fun y hy => by rw [hother y fun heq => hw (heq ▸ hy)]
    rw [h'.queue, h.queue, hrest, append_assoc, ← filter_append, singleton_append]
  · by_cases hx : x = w
    · subst hx
      rw [hsame, h.distance]
      simp
    · rw [h'.distance, hother x hx]
      simp [hx]
  · by_cases hx : x = w
    · subst hx
      rw [h'.predecessors, h.predecessors, hsame]
      simp [hw]
    · rw [h'.predecessors, h.predecessors]
      simp [hx]
  · by_cases hx : x = w
    · subst hx
      rw [h'.sigma, h.sigma, hsame]
      simp [hw]
    · rw [h'.sigma, h.sigma, hsigma]
      simp [hx]

theorem relaxAll_relaxed (nodes : OrderedSet α) (hu : s.distanceOf u = d) (hd : 0 ≤ d)
    (hnodup : targets.Nodup) : Relaxed nodes u d targets s (targets.foldl (relax nodes u d) s) := by
  induction targets generalizing s with
  | nil => exact ⟨rfl, by simp, by simp, by simp, by simp⟩
  | cons w targets ih =>
    obtain ⟨hw, hrest⟩ := nodup_cons.mp hnodup
    have hone := relax_relaxed nodes u d s w
    have hu' : (relax nodes u d s w).distanceOf u = d := by
      rw [hone.distance, if_neg (by rintro ⟨-, -, hneg⟩; omega), hu]
    exact hone.trans (ih hu' hrest) hw hu hd

end

section

variable {G : GraphAdjacency α} {nodes : OrderedSet α} {source : α} {s s' : Search α}

/-- The node before `w` on a shortest way, as far as the distances tell. -/
def Before (G : GraphAdjacency α) (nodes : OrderedSet α) (s : Search α) (u w : α) : Prop :=
  Inside G nodes u w ∧ s.distanceOf w = s.distanceOf u + 1

instance (G : GraphAdjacency α) (nodes : OrderedSet α) (s : Search α) (u w : α) :
    Decidable (Before G nodes s u w) :=
  inferInstanceAs (Decidable (_ ∧ _))

/-- How a search stands: the nodes on the stack are done with, those in the queue wait, in the order
of their distances, which differ by one at most among those that wait. -/
structure Levelled (G : GraphAdjacency α) (nodes : OrderedSet α) (source : α) (s : Search α) :
    Prop where
  nodup : (s.stack.reverse ++ s.queue).Nodup
  marked : ∀ x, 0 ≤ s.distanceOf x ↔ x ∈ s.stack.reverse ++ s.queue
  inside : ∀ x, 0 ≤ s.distanceOf x → x ∈ nodes
  source_zero : s.distanceOf source = 0
  sorted : (s.stack.reverse ++ s.queue).Pairwise fun x y => s.distanceOf x ≤ s.distanceOf y
  level : ∀ x ∈ s.queue, ∀ w, s.distanceOf w ≤ s.distanceOf x + 1
  walk : ∀ x, 0 ≤ s.distanceOf x →
    ∃ p, Walk (Inside G nodes) source p x ∧ (p.length : ℤ) = s.distanceOf x
  closed : ∀ u ∈ s.stack, ∀ w, Inside G nodes u w →
    0 ≤ s.distanceOf w ∧ s.distanceOf w ≤ s.distanceOf u + 1

/-- What the nodes that are done with have handed on. -/
structure Counted (G : GraphAdjacency α) (nodes : OrderedSet α) (source : α) (s : Search α) :
    Prop where
  predecessors : ∀ w, s.predecessorsOf w = s.stack.reverse.filter (Before G nodes s · w)
  sigma : ∀ w, s.sigmaOf w =
    (if w = source then 1 else 0) + ((s.predecessorsOf w).map s.sigmaOf).sum

theorem start_spec (hsource : source ∈ nodes) : Levelled G nodes source (start nodes source) ∧
    Counted G nodes source (start nodes source) := by
  have hdistance : ∀ x, (start nodes source).distanceOf x = if source = x then 0 else -1 := by
    intro x
    rw [start, distanceOf, OrderedMap.get_insert, OrderedMap.get_fill]
    by_cases heq : source = x
    · simp [heq]
    · by_cases hx : x ∈ nodes <;> simp [heq, hx]
  have hmarked : ∀ x, 0 ≤ (start nodes source).distanceOf x ↔ x = source := by
    intro x
    rw [hdistance]
    by_cases heq : source = x
    · simp [heq]
    · simp [heq, Ne.symm heq]
  have hnone : ∀ x, (start nodes source).predecessorsOf x = [] := by
    intro x
    rw [start, predecessorsOf, OrderedMap.get_fill]
    by_cases hx : x ∈ nodes <;> simp [hx]
  refine ⟨⟨nodup_singleton source, fun x => ?_, fun x hx => ?_, by rw [hdistance, if_pos rfl],
    pairwise_singleton _ _, fun x hx w => ?_, fun x hx => ?_, fun _ => nofun⟩,
    ⟨fun w => hnone w, fun w => ?_⟩⟩
  · rw [hmarked]
    simp [start]
  · exact (hmarked x).mp hx ▸ hsource
  · obtain rfl := mem_singleton.mp hx
    rw [hdistance, hdistance, if_pos rfl]
    split <;> omega
  · obtain rfl := (hmarked x).mp hx
    exact ⟨[], .nil, by rw [hdistance, if_pos rfl]; rfl⟩
  · rw [hnone, start, sigmaOf, OrderedMap.get_insert, OrderedMap.get_fill]
    by_cases heq : source = w
    · simp [heq]
    · by_cases hw : w ∈ nodes <;> simp [heq, Ne.symm heq, hw]

/-- What a round does to the search: `u` leaves the queue, and its fresh targets join it. -/
structure Grows (G : GraphAdjacency α) (nodes : OrderedSet α) (u : α) (rest fresh : List α)
    (s s' : Search α) : Prop where
  waits : s.queue = u :: rest
  stack : s'.stack = u :: s.stack
  queue : s'.queue = rest ++ fresh
  nodup : fresh.Nodup
  mem_fresh : ∀ x, x ∈ fresh ↔ Inside G nodes u x ∧ s.distanceOf x < 0
  distance_fresh : ∀ x ∈ fresh, s'.distanceOf x = s.distanceOf u + 1
  kept : ∀ x, x ∉ fresh → s'.distanceOf x = s.distanceOf x
  predecessors : ∀ w, s'.predecessorsOf w =
    s.predecessorsOf w ++ if Before G nodes s' u w then [u] else []
  sigma : ∀ w, s'.sigmaOf w = s.sigmaOf w + if Before G nodes s' u w then s.sigmaOf u else 0

theorem searchRound_grows (hnodup : ∀ node, (G.targets node).Nodup)
    (h : Levelled G nodes source s) (hround : searchRound G nodes s = some s') :
    ∃ u rest fresh, Grows G nodes u rest fresh s s' := by
  rw [searchRound] at hround
  split at hround
  · cases hround
  · rename_i u rest hqueue
    have hpos : 0 ≤ s.distanceOf u := by
      rw [h.marked, hqueue]
      exact mem_append_right _ mem_cons_self
    have hrelaxed := relaxAll_relaxed (s := { s with stack := u :: s.stack, queue := rest }) nodes rfl
      hpos (hnodup u)
    rw [some.inj hround] at hrelaxed
    have hu := h.inside u hpos
    have hfresh : ∀ x, x ∈ (G.targets u).filter (fun w => w ∈ nodes ∧ s.distanceOf w < 0) ↔
        Inside G nodes u x ∧ s.distanceOf x < 0 := by
      intro x
      rw [mem_filter, decide_eq_true_iff]
      exact ⟨fun hx => ⟨⟨hu, hx.2.1, hx.1⟩, hx.2.2⟩, fun hx => ⟨hx.1.2.2, hx.1.2.1, hx.2⟩⟩
    have hdistance : ∀ x, s'.distanceOf x =
        if Inside G nodes u x ∧ s.distanceOf x < 0 then s.distanceOf u + 1 else s.distanceOf x := by
      intro x
      rw [hrelaxed.distance]
      refine if_congr ?_ rfl rfl
      exact ⟨fun hx => ⟨⟨hu, hx.2.1, hx.1⟩, hx.2.2⟩, fun hx => ⟨hx.1.2.2, hx.1.2.1, hx.2⟩⟩
    have hu' : s'.distanceOf u = s.distanceOf u := by
      rw [hdistance, if_neg fun hnew => absurd hpos (not_le.mpr hnew.2)]
    have hbefore : ∀ w, (w ∈ G.targets u ∧ w ∈ nodes ∧ s'.distanceOf w = s.distanceOf u + 1) ↔
        Before G nodes s' u w := by
      intro w
      rw [Before, hu']
      exact ⟨fun hw => ⟨⟨hu, hw.2.1, hw.1⟩, hw.2.2⟩, fun hw => ⟨hw.1.2.2, hw.1.2.1, hw.2⟩⟩
    refine ⟨u, rest, _, hqueue, hrelaxed.stack, hrelaxed.queue, (hnodup u).filter _, hfresh,
      fun x hx => ?_, fun x hx => ?_, fun w => ?_, fun w => ?_⟩
    · rw [hdistance, if_pos ((hfresh x).mp hx)]
    · rw [hdistance, if_neg fun hnew => hx ((hfresh x).mpr hnew)]
    · rw [hrelaxed.predecessors]
      exact congrArg _ (if_congr (hbefore w) rfl rfl)
    · rw [hrelaxed.sigma]
      exact congrArg _ (if_congr (hbefore w) rfl rfl)

theorem searchRound_none (h : searchRound G nodes s = none) : s.queue = [] := by
  rw [searchRound] at h
  split at h
  · assumption
  · cases h

section

variable {u : α} {rest fresh : List α}

theorem Grows.order (h : Grows G nodes u rest fresh s s') :
    s'.stack.reverse ++ s'.queue = s.stack.reverse ++ s.queue ++ fresh := by
  rw [h.stack, h.queue, h.waits]
  simp

variable (hlevelled : Levelled G nodes source s)
include hlevelled

theorem Levelled.around (h : Grows G nodes u rest fresh s s') :
    0 ≤ s.distanceOf u ∧ (∀ x ∈ s.stack, s.distanceOf x ≤ s.distanceOf u) ∧
      ∀ x ∈ rest, s.distanceOf u ≤ s.distanceOf x := by
  have hsorted := hlevelled.sorted
  rw [h.waits, pairwise_append] at hsorted
  refine ⟨?_, fun x hx => hsorted.2.2 x (mem_reverse.mpr hx) u mem_cons_self,
    (pairwise_cons.mp hsorted.2.1).1⟩
  rw [hlevelled.marked, h.waits]
  exact mem_append_right _ mem_cons_self

theorem Levelled.round (h : Grows G nodes u rest fresh s s') : Levelled G nodes source s' := by
  obtain ⟨hpos, hdone, hrest⟩ := hlevelled.around h
  have hlevel := hlevelled.level u (h.waits ▸ mem_cons_self)
  have hmarked : ∀ x, 0 ≤ s'.distanceOf x ↔ 0 ≤ s.distanceOf x ∨ x ∈ fresh := by
    intro x
    by_cases hx : x ∈ fresh
    · rw [h.distance_fresh x hx]
      exact iff_of_true (by omega) (.inr hx)
    · rw [h.kept x hx, or_iff_left hx]
  have hold : ∀ x, 0 ≤ s.distanceOf x → s'.distanceOf x = s.distanceOf x := fun x hx =>
    h.kept x fun hfresh => absurd ((h.mem_fresh x).mp hfresh).2 (not_lt.mpr hx)
  have hle : ∀ x, s'.distanceOf x ≤ s.distanceOf u + 1 := by
    intro x
    by_cases hx : x ∈ fresh
    · exact (h.distance_fresh x hx).le
    · exact h.kept x hx ▸ hlevel x
  have hmem : ∀ x ∈ s.stack.reverse ++ s.queue, s'.distanceOf x = s.distanceOf x := fun x hx =>
    hold x ((hlevelled.marked x).mpr hx)
  refine ⟨?_, fun x => ?_, fun x hx => ?_, ?_, ?_, fun x hx w => ?_, fun x hx => ?_, fun x hx w hstep => ?_⟩
  · rw [h.order]
    refine hlevelled.nodup.append h.nodup fun x hx hfresh => ?_
    exact absurd ((h.mem_fresh x).mp hfresh).2 (not_lt.mpr ((hlevelled.marked x).mpr hx))
  · rw [hmarked, h.order, mem_append, hlevelled.marked]
  · rcases (hmarked x).mp hx with hx | hx
    · exact hlevelled.inside x hx
    · exact ((h.mem_fresh x).mp hx).1.2.1
  · rw [hold source hlevelled.source_zero.ge, hlevelled.source_zero]
  · rw [h.order, pairwise_append]
    refine ⟨hlevelled.sorted.imp_of_mem fun hx hy hxy => ?_, pairwise_of_forall_mem_list fun x hx y hy => ?_,
      fun x _ y hy => ?_⟩
    · rwa [hmem _ hx, hmem _ hy]
    · rw [h.distance_fresh x hx, h.distance_fresh y hy]
    · exact h.distance_fresh y hy ▸ hle x
  · have hxu : s.distanceOf u ≤ s'.distanceOf x := by
      rw [h.queue] at hx
      rcases mem_append.mp hx with hx | hx
      · rw [hold x (hpos.trans (hrest x hx))]
        exact hrest x hx
      · rw [h.distance_fresh x hx]
        omega
    have := hle w
    omega
  · rcases (hmarked x).mp hx with hx | hx
    · rw [hold x hx]
      exact hlevelled.walk x hx
    · obtain ⟨p, hp, hlen⟩ := hlevelled.walk u hpos
      refine ⟨p ++ [x], hp.snoc ((h.mem_fresh x).mp hx).1, ?_⟩
      rw [h.distance_fresh x hx, ← hlen, length_append, length_singleton, Nat.cast_add_one]
  · rw [h.stack] at hx
    rcases mem_cons.mp hx with rfl | hx
    · rw [hold x hpos]
      refine ⟨(hmarked w).mpr ?_, hle w⟩
      by_cases hw : 0 ≤ s.distanceOf w
      · exact .inl hw
      · exact .inr ((h.mem_fresh w).mpr ⟨hstep, not_le.mp hw⟩)
    · obtain ⟨hw, hwle⟩ := hlevelled.closed x hx w hstep
      rw [hold w hw, hold x ((hlevelled.marked x).mpr
        (mem_append_left _ (mem_reverse.mpr hx)))]
      exact ⟨hw, hwle⟩

theorem Counted.round (hcounted : Counted G nodes source s) (h : Grows G nodes u rest fresh s s') :
    Counted G nodes source s' := by
  obtain ⟨hpos, hdone, -⟩ := hlevelled.around h
  have hold : ∀ x, 0 ≤ s.distanceOf x → s'.distanceOf x = s.distanceOf x := fun x hx =>
    h.kept x fun hfresh => absurd ((h.mem_fresh x).mp hfresh).2 (not_lt.mpr hx)
  have hstack : ∀ x ∈ s.stack, 0 ≤ s.distanceOf x := fun x hx =>
    (hlevelled.marked x).mpr (mem_append_left _ (mem_reverse.mpr hx))
  -- the sigma of a node that is no further than `u` does not change any more
  have hstill : ∀ x, 0 ≤ s.distanceOf x → s.distanceOf x ≤ s.distanceOf u → s'.sigmaOf x = s.sigmaOf x := by
    intro x hx hxu
    rw [h.sigma, if_neg, add_zero]
    rintro ⟨-, heq⟩
    rw [hold x hx, hold u hpos] at heq
    omega
  have hbefore : ∀ x ∈ s.stack, ∀ w, Before G nodes s' x w ↔ Before G nodes s x w := by
    refine fun x hx w => and_congr_right fun hstep => ?_
    rw [hold w (hlevelled.closed x hx w hstep).1, hold x (hstack x hx)]
  refine ⟨fun w => ?_, fun w => ?_⟩
  · rw [h.predecessors, hcounted.predecessors, h.stack, reverse_cons, filter_append]
    refine congrArg₂ _ (filter_congr fun x hx => ?_) ?_
    · exact decide_eq_decide.mpr (hbefore x (mem_reverse.mp hx) w).symm
    · simp [filter_cons]
  · have hmap : (s.predecessorsOf w).map s'.sigmaOf = (s.predecessorsOf w).map s.sigmaOf := by
      refine map_congr_left fun x hx => ?_
      rw [hcounted.predecessors] at hx
      have hx := mem_reverse.mp (mem_filter.mp hx).1
      exact hstill x (hstack x hx) (hdone x hx)
    rw [h.sigma, hcounted.sigma, h.predecessors, map_append, sum_append, hmap, add_assoc]
    by_cases hw : Before G nodes s' u w
    · simp [hw, hstill u hpos le_rfl]
    · simp [hw]

end

theorem search_spec (hnodup : ∀ node, (G.targets node).Nodup) (hsource : source ∈ nodes) :
    ∃ s, search G nodes source = some s ∧ Levelled G nodes source s ∧
      Counted G nodes source s ∧ s.queue = [] := by
  have hlength : ∀ s, Levelled G nodes source s → s.stack.length + s.queue.length ≤ nodes.elems.length := by
    intro s h
    rw [← length_reverse, ← length_append]
    exact (h.nodup.subperm fun x hx => h.inside x ((h.marked x).mpr hx)).length_le
  have hstep : ∀ s s', Levelled G nodes source s ∧ Counted G nodes source s →
      searchRound G nodes s = some s' →
      (Levelled G nodes source s' ∧ Counted G nodes source s') ∧
        nodes.elems.length - s'.stack.length < nodes.elems.length - s.stack.length := by
    intro s s' hs hround
    obtain ⟨u, rest, fresh, hgrows⟩ := searchRound_grows hnodup hs.1 hround
    have hlen := hlength s hs.1
    rw [hgrows.waits, length_cons] at hlen
    refine ⟨⟨hs.1.round hgrows, hs.2.round hs.1 hgrows⟩, ?_⟩
    rw [hgrows.stack, length_cons]
    omega
  obtain ⟨s, hs, ⟨hlevelled, hcounted⟩, hend⟩ := drain_spec
    (fun s : Search α => nodes.elems.length - s.stack.length) hstep (start_spec hsource)
    (Nat.lt_succ_of_le (Nat.sub_le _ _))
  exact ⟨s, hs, hlevelled, hcounted, searchRound_none hend⟩

end

section

variable {G : GraphAdjacency α} {nodes : OrderedSet α} {source : α} {s : Search α} {u w t : α}
  {p : List α}

def layers (G : GraphAdjacency α) (nodes : OrderedSet α) (s : Search α) : Layering α where
  step u w := 0 ≤ s.distanceOf u ∧ Before G nodes s u w
  known := nodes.toFinset
  rank x := (s.distanceOf x).toNat
  mem hstep := ⟨OrderedSet.mem_toFinset.mpr hstep.2.1.1, OrderedSet.mem_toFinset.mpr hstep.2.1.2.1⟩
  rank_step hstep := by
    rw [hstep.2.2]
    have := hstep.1
    omega

variable (h : Levelled G nodes source s)
include h

theorem Levelled.isDistance_iff (hqueue : s.queue = []) (x : α) (n : ℕ) :
    s.distanceOf x = n ↔ IsDistance (Inside G nodes) source x n := by
  have hdone : ∀ x, 0 ≤ s.distanceOf x → x ∈ s.stack := fun x hx => by
    simpa [hqueue] using (h.marked x).mp hx
  have hf : ∀ x n, (if 0 ≤ s.distanceOf x then some (s.distanceOf x).toNat else none) = some n ↔
      s.distanceOf x = n := by
    intro x n
    by_cases hx : 0 ≤ s.distanceOf x
    · rw [if_pos hx, some.injEq]
      omega
    · rw [if_neg hx]
      exact iff_of_false nofun (by omega)
  rw [← hf]
  refine isDistance_of_closed (f := fun x => if 0 ≤ s.distanceOf x then some (s.distanceOf x).toNat else none)
    ?_ (fun x n hx => ?_) (fun x y n hx hstep => ?_) x n
  · exact (hf source 0).mpr h.source_zero
  · have hx := (hf x n).mp hx
    obtain ⟨p, hp, hlen⟩ := h.walk x (by omega)
    exact ⟨p, hp, by omega⟩
  · have hx := (hf x n).mp hx
    obtain ⟨hy, hle⟩ := h.closed x (hdone x (by omega)) y hstep
    exact ⟨(s.distanceOf y).toNat, by omega, (hf y _).mpr (by omega)⟩

theorem Levelled.walk_iff (hqueue : s.queue = []) :
    Walk (layers G nodes s).step source p t ↔ Shortest (Inside G nodes) source p t := by
  constructor
  · intro hp
    have hwalk : Walk (Inside G nodes) source p t := hp.mono fun _ _ hstep => hstep.2.1
    have hdistance : s.distanceOf t = p.length := by
      induction hp with
      | nil => exact h.source_zero
      | snoc hp hstep ih =>
        rw [hstep.2.2, ih (hp.mono fun _ _ hstep => hstep.2.1), length_append,
          length_singleton, Nat.cast_add_one]
    exact ⟨hwalk, fun q hq => ((h.isDistance_iff hqueue t p.length).mp hdistance).le hq⟩
  · intro hp
    induction p using reverseRecOn generalizing t with
    | nil =>
      obtain rfl := walk_nil_iff.mp hp.1
      exact .nil
    | append_singleton p c ih =>
      obtain ⟨rfl, b, hb, hstep⟩ := hp.front
      have hdb := (h.isDistance_iff hqueue b _).mpr hb.isDistance
      have hdc := (h.isDistance_iff hqueue c _).mpr hp.isDistance
      rw [length_append, length_singleton] at hdc
      exact (ih hb).snoc ⟨by omega, hstep, by omega⟩

theorem Levelled.reached_iff (hqueue : s.queue = []) :
    (layers G nodes s).count source t ≠ 0 ↔ 0 ≤ s.distanceOf t := by
  rw [Layering.count_ne_zero_iff]
  constructor
  · rintro ⟨p, hp⟩
    have := (h.isDistance_iff hqueue t _).mpr ((h.walk_iff hqueue).mp hp).isDistance
    omega
  · intro ht
    obtain ⟨p, hp, -⟩ := (h.isDistance_iff hqueue t (s.distanceOf t).toNat).mp (by omega)
    exact ⟨p, (h.walk_iff hqueue).mpr hp⟩

theorem Counted.mem_predecessors (hqueue : s.queue = []) (hcounted : Counted G nodes source s) :
    u ∈ s.predecessorsOf w ↔ (layers G nodes s).step u w := by
  rw [hcounted.predecessors, mem_filter, decide_eq_true_iff, layers]
  refine and_congr_left fun _ => ?_
  rw [h.marked, hqueue, append_nil]

theorem Counted.predecessors_nodup (hcounted : Counted G nodes source s) (w : α) :
    (s.predecessorsOf w).Nodup := by
  rw [hcounted.predecessors]
  exact (nodup_append.mp h.nodup).1.filter _

theorem Counted.sigma_eq (hqueue : s.queue = []) (hcounted : Counted G nodes source s) (w : α) :
    s.sigmaOf w = (layers G nodes s).count source w := by
  generalize hn : (layers G nodes s).rank w = n
  induction n using Nat.strong_induction_on generalizing w with
  | _ n ih =>
    have hmem : ∀ u, u ∈ (s.predecessorsOf w).toFinset ↔ (layers G nodes s).step u w := fun u =>
      List.mem_toFinset.trans (hcounted.mem_predecessors h hqueue)
    have hsum : ((s.predecessorsOf w).map s.sigmaOf).sum =
        ∑ u ∈ (s.predecessorsOf w).toFinset, ((layers G nodes s).count source u : ℚ) := by
      rw [sum_toFinset _ (hcounted.predecessors_nodup h w)]
      refine congrArg List.sum (map_congr_left fun u hu => ?_)
      have := (layers G nodes s).rank_step ((hcounted.mem_predecessors h hqueue).mp hu)
      exact ih _ (by omega) u rfl
    rw [hcounted.sigma]
    by_cases heq : w = source
    · subst heq
      have hnone : s.predecessorsOf w = [] := by
        refine eq_nil_iff_forall_not_mem.mpr fun u hu => ?_
        obtain ⟨hpos, -, hstep⟩ := (hcounted.mem_predecessors h hqueue).mp hu
        rw [h.source_zero] at hstep
        omega
      simp [hnone, Layering.count_self]
    · rw [if_neg heq, zero_add, hsum, Layering.count_last (Ne.symm heq) hmem, Nat.cast_sum]

end

section

variable {G : GraphAdjacency α} {nodes : OrderedSet α} {source : α} {s : Search α} {node v w : α}
  {dependency scores : OrderedMap α ℚ} {predecessors done waiting : List α} {tally : Tally α}

theorem scoreOf_entryOr (m : OrderedMap α ℚ) (key : α) (share : ℚ) (v : α) :
    scoreOf (m.entryOr key 0 (· + share)) v = scoreOf m v + if key = v then share else 0 := by
  rw [scoreOf, OrderedMap.get_entryOr]
  by_cases heq : key = v
  · simp [heq, scoreOf]
  · simp [heq, scoreOf]

theorem passOn_all (hpos : 0 < s.sigmaOf node) (hnode : node ∉ predecessors) (hnodup : predecessors.Nodup)
    (v : α) : scoreOf (predecessors.foldl (passOn s node) dependency) v = scoreOf dependency v +
      if v ∈ predecessors then s.sigmaOf v / s.sigmaOf node * (1 + scoreOf dependency node) else 0 := by
  induction predecessors generalizing dependency with
  | nil => simp
  | cons u predecessors ih =>
    obtain ⟨hne, hnode⟩ := not_or.mp (mem_cons.not.mp hnode)
    obtain ⟨hu, hnodup⟩ := nodup_cons.mp hnodup
    have hpass : passOn s node dependency u = dependency.entryOr u 0
        (· + s.sigmaOf u / s.sigmaOf node * (1 + scoreOf dependency node)) := if_neg (not_le.mpr hpos)
    rw [foldl_cons, ih hnode hnodup, hpass, scoreOf_entryOr, scoreOf_entryOr, if_neg (Ne.symm hne)]
    by_cases hv : u = v
    · subst hv
      simp [hu]
    · simp [hv, Ne.symm hv]

/-- How the tally stands when some nodes from the top of the stack are done with. -/
structure Settled (G : GraphAdjacency α) (nodes : OrderedSet α) (source : α) (s : Search α)
    (scores : OrderedMap α ℚ) (done : List α) (tally : Tally α) : Prop where
  dependency : ∀ v, scoreOf tally.dependency v =
    ((done.filter fun w => 0 ≤ s.distanceOf v ∧ Before G nodes s v w).map fun w =>
      s.sigmaOf v / s.sigmaOf w * (1 + (layers G nodes s).dependency source w)).sum
  scores : ∀ v, scoreOf tally.scores v = scoreOf scores v +
    if v ∈ done ∧ v ≠ source then (layers G nodes s).dependency source v else 0
  keys : ∀ v, (tally.scores.get v).isSome ↔ v ∈ nodes

theorem Settled.complete (h : Levelled G nodes source s) (hqueue : s.queue = [])
    (hcounted : Counted G nodes source s)
    (hsettled : Settled G nodes source s scores done tally) (hnodup : done.Nodup)
    (hreach : (layers G nodes s).count source w ≠ 0)
    (hdone : ∀ x, (layers G nodes s).step w x → x ∈ done) :
    scoreOf tally.dependency w = (layers G nodes s).dependency source w := by
  have hws : ∀ x, x ∈ (done.filter fun x => 0 ≤ s.distanceOf w ∧ Before G nodes s w x).toFinset ↔
      (layers G nodes s).step w x := by
    intro x
    rw [List.mem_toFinset, mem_filter, decide_eq_true_iff]
    exact and_iff_right_of_imp (hdone x)
  rw [hsettled.dependency, Layering.dependency_eq hreach hws, sum_toFinset _ (hnodup.filter _)]
  refine congrArg List.sum (map_congr_left fun x _ => ?_)
  rw [hcounted.sigma_eq h hqueue, hcounted.sigma_eq h hqueue]

theorem Settled.step (h : Levelled G nodes source s) (hqueue : s.queue = [])
    (hcounted : Counted G nodes source s)
    (hsettled : Settled G nodes source s scores done tally) (hnodup : (done ++ [w]).Nodup)
    (hw : 0 ≤ s.distanceOf w) (hdone : ∀ x, (layers G nodes s).step w x → x ∈ done) :
    Settled G nodes source s scores (done ++ [w]) (settle source s tally w) := by
  have hreach := (h.reached_iff hqueue).mpr hw
  have hpos : 0 < s.sigmaOf w := by
    rw [hcounted.sigma_eq h hqueue]
    exact Nat.cast_pos.mpr (Nat.pos_of_ne_zero hreach)
  have hself : w ∉ s.predecessorsOf w := fun hmem => by
    have := (layers G nodes s).rank_step ((hcounted.mem_predecessors h hqueue).mp hmem)
    omega
  have hcomplete := hsettled.complete h hqueue hcounted (nodup_append.mp hnodup).1 hreach hdone
  have hpass := @passOn_all _ _ s w tally.dependency _ hpos hself (hcounted.predecessors_nodup h w)
  have hthis : scoreOf ((s.predecessorsOf w).foldl (passOn s w) tally.dependency) w =
      (layers G nodes s).dependency source w := by
    rw [hpass, if_neg hself, add_zero, hcomplete]
  have hdependency : (settle source s tally w).dependency =
      (s.predecessorsOf w).foldl (passOn s w) tally.dependency := by
    rw [settle]
    split <;> rfl
  have hfresh : w ∉ done := fun hmem => (nodup_append.mp hnodup).2.2 w hmem w mem_cons_self rfl
  refine ⟨fun v => ?_, fun v => ?_, fun v => ?_⟩
  · rw [hdependency, hpass, hcomplete, hsettled.dependency, filter_append, map_append,
      sum_append]
    refine congrArg _ ?_
    have hmem : v ∈ s.predecessorsOf w ↔ 0 ≤ s.distanceOf v ∧ Before G nodes s v w :=
      hcounted.mem_predecessors h hqueue
    by_cases hv : 0 ≤ s.distanceOf v ∧ Before G nodes s v w
    · simp [hmem.mpr hv, hv]
    · simp [hmem, hv]
  · rw [settle]
    by_cases hsource : w = source
    · rw [if_neg (not_not.mpr hsource), hsettled.scores]
      refine congrArg _ (if_congr ?_ rfl rfl)
      rw [mem_append, mem_singleton, or_and_right, or_iff_left]
      rintro ⟨rfl, hne⟩
      exact hne hsource
    · rw [if_pos hsource, scoreOf_entryOr, hsettled.scores, hthis, add_assoc]
      refine congrArg _ ?_
      by_cases hv : w = v
      · subst hv
        simp [hfresh, hsource]
      · simp [hv, Ne.symm hv]
  · rw [settle]
    by_cases hsource : w = source
    · rw [if_neg (not_not.mpr hsource)]
      exact hsettled.keys v
    · rw [if_pos hsource, OrderedMap.get_entryOr]
      by_cases hv : w = v
      · subst hv
        simp [h.inside w hw]
      · rw [if_neg hv]
        exact hsettled.keys v

theorem Settled.settleAll (h : Levelled G nodes source s) (hqueue : s.queue = [])
    (hcounted : Counted G nodes source s) (hstack : s.stack = done ++ waiting)
    (hsettled : Settled G nodes source s scores done tally) :
    Settled G nodes source s scores s.stack (waiting.foldl (settle source s) tally) := by
  have hnodup := h.nodup
  have hsorted := h.sorted
  rw [hqueue, append_nil] at hnodup hsorted
  rw [nodup_reverse] at hnodup
  rw [pairwise_reverse] at hsorted
  induction waiting generalizing done tally with
  | nil =>
    rw [append_nil] at hstack
    exact hstack ▸ hsettled
  | cons w waiting ih =>
    have hsplit : s.stack = done ++ [w] ++ waiting := hstack.trans (append_cons done w waiting)
    have hmem : ∀ x, 0 ≤ s.distanceOf x ↔ x ∈ done ++ w :: waiting := by
      intro x
      rw [h.marked, hqueue, append_nil, mem_reverse, hstack]
    refine ih hsplit (hsettled.step h hqueue hcounted ?_ ?_ fun x hstep => ?_)
    · exact (nodup_append.mp (hsplit ▸ hnodup)).1
    · exact (hmem w).mpr (mem_append_right _ mem_cons_self)
    · obtain ⟨hw, -, heq⟩ := hstep
      rcases mem_append.mp ((hmem x).mp (by omega)) with hx | hx
      · exact hx
      · have hafter := (pairwise_append.mp (hstack ▸ hsorted)).2.1
        rcases mem_cons.mp hx with rfl | hx
        · omega
        · have := (pairwise_cons.mp hafter).1 x hx
          omega

theorem addSource_spec (hnodup : ∀ node, (G.targets node).Nodup) (hsource : source ∈ nodes)
    (hkeys : ∀ v, (scores.get v).isSome ↔ v ∈ nodes) :
    ∃ s scores', addSource G nodes scores source = some scores' ∧
      Levelled G nodes source s ∧ s.queue = [] ∧ (∀ v, (scores'.get v).isSome ↔ v ∈ nodes) ∧
      ∀ v, scoreOf scores' v = scoreOf scores v +
        if v ≠ source then (layers G nodes s).dependency source v else 0 := by
  obtain ⟨s, hs, h, hcounted, hqueue⟩ := search_spec hnodup hsource
  have hstart : Settled G nodes source s scores [] ⟨.fill nodes fun _ => 0, scores⟩ := by
    refine ⟨fun v => ?_, fun v => by simp, hkeys⟩
    rw [scoreOf, OrderedMap.get_fill]
    by_cases hv : v ∈ nodes <;> simp [hv]
  have hsettled := Settled.settleAll h hqueue hcounted (nil_append s.stack).symm hstart
  refine ⟨s, _, by rw [addSource, hs, map_some], h, hqueue, hsettled.keys, fun v => ?_⟩
  rw [hsettled.scores]
  refine congrArg _ ?_
  by_cases hv : v ∈ s.stack
  · simp [hv]
  · have hnone : (layers G nodes s).count source v = 0 := by
      by_contra hreach
      have := (h.marked v).mp ((h.reached_iff hqueue).mp hreach)
      exact hv (by simpa [hqueue] using this)
    simp [Layering.dependency_of_unreached hnone]

end

section

variable {G : GraphAdjacency α} {nodes : OrderedSet α} {source : α} {s : Search α} {v t : α}
  {scores : OrderedMap α ℚ} {sources : List α}

section

variable (h : Levelled G nodes source s)
include h

theorem Levelled.ncard_eq (hqueue : s.queue = []) (t : α) :
    (shortestPaths G nodes source t).ncard = (layers G nodes s).count source t := by
  have heq : shortestPaths G nodes source t = ↑((layers G nodes s).routes source t) := by
    ext p
    rw [Finset.mem_coe, Layering.mem_routes, h.walk_iff hqueue]
    rfl
  rw [heq, Set.ncard_coe_finset]
  rfl

theorem Levelled.ncard_through (hqueue : s.queue = []) (hne : v ≠ source) (t : α) :
    {p ∈ shortestPaths G nodes source t | v ∈ p}.ncard =
      (layers G nodes s).count source v * (layers G nodes s).count v t := by
  have heq : {p ∈ shortestPaths G nodes source t | v ∈ p} =
      ↑(((layers G nodes s).routes source t).filter (v ∈ ·)) := by
    ext p
    rw [Finset.mem_coe, Finset.mem_filter, Layering.mem_routes, h.walk_iff hqueue]
    rfl
  rw [heq, Set.ncard_coe_finset, Layering.card_through hne]

theorem Levelled.dependency_eq (hqueue : s.queue = []) (v : α) :
    (if v ≠ source then (layers G nodes s).dependency source v else 0) =
      betweennessFrom G nodes v source := by
  rw [betweennessFrom]
  by_cases hne : v = source
  · rw [if_neg (not_not.mpr hne), Finset.sum_eq_zero fun t _ => if_neg fun hs => hs.1 hne.symm]
  · rw [if_pos hne, Layering.dependency, ← Finset.filter_ne', Finset.sum_filter]
    refine Finset.sum_congr rfl fun t _ => ?_
    by_cases hpair : t ≠ v ∧ source ≠ t ∧ (shortestPaths G nodes source t).Nonempty
    · rw [if_pos hpair.1, if_pos ⟨Ne.symm hne, hpair⟩, h.ncard_through hqueue hne, h.ncard_eq hqueue,
        Nat.cast_mul]
    · have hnot : ¬ (source ≠ v ∧ t ≠ v ∧ source ≠ t ∧
          (shortestPaths G nodes source t).Nonempty) := fun hs => hpair hs.2
      rw [if_neg hnot]
      by_cases htv : t = v
      · rw [if_neg (not_not.mpr htv)]
      · rw [if_pos htv]
        by_cases hts : source = t
        · -- no way leads back to the source
          have hzero : (layers G nodes s).rank source = 0 := congrArg Int.toNat h.source_zero
          subst hts
          rw [Layering.count_eq_zero (by omega) hne]
          simp
        · have hempty : shortestPaths G nodes source t = ∅ :=
            Set.not_nonempty_iff_eq_empty.mp fun hsome => hpair ⟨htv, hts, hsome⟩
          rw [← h.ncard_eq hqueue t, hempty, Set.ncard_empty]
          simp

end

theorem addSources_spec (hnodup : ∀ node, (G.targets node).Nodup)
    (hsources : ∀ source ∈ sources, source ∈ nodes) (hkeys : ∀ v, (scores.get v).isSome ↔ v ∈ nodes) :
    ∃ scores', addSources G nodes sources scores = some scores' ∧
      (∀ v, (scores'.get v).isSome ↔ v ∈ nodes) ∧
      ∀ v, scoreOf scores' v = scoreOf scores v + (sources.map (betweennessFrom G nodes v)).sum := by
  induction sources generalizing scores with
  | nil => exact ⟨scores, rfl, hkeys, fun v => by simp⟩
  | cons source sources ih =>
    obtain ⟨hsource, hrest⟩ := forall_mem_cons.mp hsources
    obtain ⟨s, next, hnext, h, hqueue, hnextKeys, hscore⟩ := addSource_spec hnodup hsource hkeys
    obtain ⟨scores', hscores', hkeys', hall⟩ := ih hrest hnextKeys
    refine ⟨scores', by rw [addSources, hnext, bind_some, hscores'], hkeys', fun v => ?_⟩
    rw [hall, hscore, h.dependency_eq hqueue, map_cons, sum_cons, add_assoc]

/-- The scores are those of the given nodes, and each is the betweenness of its node. -/
theorem graphBetweennessCentralityScores_eq (hnodup : ∀ node, (G.targets node).Nodup)
    (nodes : OrderedSet α) :
    ∃ scores, graphBetweennessCentralityScores G nodes = some scores ∧
      scores.keys = nodes.elems ∧
      ∀ v ∈ nodes, scores.get v = some (betweenness G nodes v) := by
  have hfill : ∀ v, ((OrderedMap.fill nodes fun _ => (0 : ℚ)).get v).isSome ↔ v ∈ nodes := by
    intro v
    rw [OrderedMap.get_fill]
    by_cases hv : v ∈ nodes <;> simp [hv]
  obtain ⟨scores, hscores, hkeys, hall⟩ := addSources_spec hnodup (fun _ => id) hfill
  refine ⟨scores, hscores, List.Pairwise.eq_of_mem_iff scores.sorted nodes.sorted fun v =>
    OrderedMap.mem_keys_iff.trans (hkeys v), fun v hv => ?_⟩
  obtain ⟨score, hscore⟩ := isSome_iff_exists.mp ((hkeys v).mpr hv)
  have heq := hall v
  rw [scoreOf, hscore, scoreOf, OrderedMap.get_fill, if_pos hv, getD_some, getD_some,
    zero_add] at heq
  rw [hscore, heq]
  rfl

/-- Two shortest ways from `a` to `d`. -/
def diamondEdges : List (GraphEdge String) :=
  [⟨"ab", "a", "b"⟩, ⟨"ac", "a", "c"⟩, ⟨"bd", "b", "d"⟩, ⟨"cd", "c", "d"⟩]

theorem graphBetweennessCentralityScores_eq_diamond : ∃ scores,
    graphBetweennessCentralityScores (GraphAdjacency.fromEdges diamondEdges)
        ⟨["a", "b", "c", "d"], by decide +kernel⟩ = some scores ∧
      scores.keys = ["a", "b", "c", "d"] ∧
      ∀ v ∈ (⟨["a", "b", "c", "d"], by decide +kernel⟩ : OrderedSet String), scores.get v =
        some (betweenness (GraphAdjacency.fromEdges diamondEdges)
          ⟨["a", "b", "c", "d"], by decide +kernel⟩ v) :=
  graphBetweennessCentralityScores_eq (fromEdges_normalized diamondEdges).targets_nodup _

end

end CoveFormat.BetweennessScores
