import CoveFormat.DirectedWalks
import CoveFormat.GraphAdjacency
import CoveFormat.WhileLoops
import Mathlib.Data.String.Basic

namespace CoveFormat.ReachableDistances

open DirectedWalks ExceptRules GraphAdjacencies OrderedMaps WhileLoops

variable {α : Type} [LinearOrder α]

/-- The search as it goes on; the top of the frontier, a stack, is its head. -/
structure Exploration (α : Type) [LinearOrder α] where
  frontier : List (α × ℕ)
  seen : Finset α
  distances : OrderedMap α ℕ
  clock : ℕ

def discover (maxPaths nextDepth : ℕ) (s : Exploration α) (target : α) :
    Except GraphExecutionError (Exploration α) :=
  if target ∈ s.seen then .ok s
  else
    let distances := s.distances.insert target nextDepth
    if maxPaths < distances.entries.length then
      .error ⟨"maximum_graph_traversal_paths", distances.entries.length⟩
    else .ok ⟨(target, nextDepth) :: s.frontier, insert target s.seen, distances, s.clock⟩

def discoverAll (maxPaths nextDepth : ℕ) :
    List α → Exploration α → Except GraphExecutionError (Exploration α)
  | [], s => .ok s
  | target :: targets, s => do
      let s ← discover maxPaths nextDepth s target
      discoverAll maxPaths nextDepth targets s

def explore (adjacency : GraphAdjacency α) (maxDepth maxPaths : ℕ) (budget : GraphExecutionBudget)
    (s : Exploration α) : Except GraphExecutionError (Option (Exploration α)) :=
  match s.frontier with
  | [] => .ok none
  | (node, depth) :: frontier => do
      budget.checkTime s.clock
      let s : Exploration α := ⟨frontier, s.seen, s.distances, s.clock + 1⟩
      if maxDepth ≤ depth then .ok (some s)
      else (discoverAll maxPaths (depth + 1) (adjacency.targets node) s).map some

def graphReachableDistances (adjacency : GraphAdjacency α) (start : α) (maxDepth maxPaths : ℕ)
    (budget : GraphExecutionBudget) (clock : ℕ) :
    Except (Option GraphExecutionError) (OrderedMap α ℕ × ℕ) :=
  (drainOrFail (explore adjacency maxDepth maxPaths budget) (adjacency.size + 2)
    ⟨[(start, 0)], {start}, .empty, clock⟩).map fun s => (s.distances, s.clock)

def shortestTargetDistance (reachable : OrderedMap α ℕ) : Option (Finset α) → Option ℕ
  | some targetNodes =>
    ((reachable.entries.filter fun entry => entry.1 ∈ targetNodes).map Prod.snd).min?
  | none => reachable.values.min?

/-- The map has each node other than the start that is near enough, with its distance. -/
def ShortestDistances (adjacency : GraphAdjacency α) (start : α) (maxDepth : ℕ)
    (distances : OrderedMap α ℕ) : Prop :=
  ∀ node n, distances.get node = some n ↔
    node ≠ start ∧ n ≤ maxDepth ∧ IsDistance adjacency.Edge start node n

/-- The number is the length of a shortest way to a target, and there is none where no way is
short enough. -/
def NearestTarget (adjacency : GraphAdjacency α) (start : α) (maxDepth : ℕ)
    (targetNodes : Option (Finset α)) (nearest : Option ℕ) : Prop :=
  ∀ n, nearest = some n ↔ IsLeast
    {n | n ≤ maxDepth ∧ ∃ node p, node ≠ start ∧ (∀ nodes ∈ targetNodes, node ∈ nodes) ∧
      Walk adjacency.Edge start p node ∧ p.length = n} n

/-- Walks in the order in which a stack leads down them: a walk comes before those that go on from
it, and where two part, the one to the greater node comes first. -/
def Ahead (p q : List α) : Prop := List.Lex (· > ·) p q

/-- Some shortest walk to the one node is ahead of each shortest walk to the other. -/
def Sooner (adjacency : GraphAdjacency α) (start a b : α) : Prop :=
  ∃ p, Shortest adjacency.Edge start p a ∧ ∀ q, Shortest adjacency.Edge start q b → Ahead p q

/-- Where an edge leads to a node that is no further than its source, the node has a neighbour that
is one step closer to the start and comes sooner than the source. -/
def FoundInTime (adjacency : GraphAdjacency α) (start : α) (maxDepth : ℕ) : Prop :=
  ∀ x w m n, adjacency.Edge x w → w ≠ start → IsDistance adjacency.Edge start x m → m < maxDepth →
    IsDistance adjacency.Edge start w (n + 1) → n < m →
      ∃ p, adjacency.Edge p w ∧ IsDistance adjacency.Edge start p n ∧ Sooner adjacency start p x

section

variable {a b : α} {p q o u v : List α}

/-- The two walks part somewhere, and the first goes on to the greater node. -/
inductive Parts : List α → List α → Prop
  | here {a b : α} {p q : List α} (h : b < a) : Parts (a :: p) (b :: q)
  | later {a : α} {p q : List α} (h : Parts p q) : Parts (a :: p) (a :: q)

theorem Parts.ahead (h : Parts p q) : Ahead p q := by
  induction h with
  | here h => exact .rel h
  | later _ ih => exact .cons ih

theorem Parts.append (h : Parts p q) (u v : List α) : Parts (p ++ u) (q ++ v) := by
  induction h with
  | here h => exact .here h
  | later _ ih => exact .later ih

theorem Parts.after (h : Parts p q) (u : List α) : Parts (u ++ p) (u ++ q) := by
  induction u with
  | nil => exact h
  | cons a u ih => exact .later ih

theorem parts_of_ahead (h : Ahead p q) (hlen : p.length = q.length) : Parts p q := by
  induction h with
  | nil => simp at hlen
  | cons _ ih => exact .later (ih (Nat.succ.inj hlen))
  | rel h => exact .here h

theorem Ahead.trans (h : Ahead p q) (h' : Ahead q o) : Ahead p o := by
  induction h generalizing o with
  | nil => cases h' <;> exact .nil
  | cons _ ih =>
    cases h' with
    | cons h' => exact .cons (ih h')
    | rel h' => exact .rel h'
  | rel h =>
    cases h' with
    | cons _ => exact .rel h
    | rel h' => exact .rel (h'.trans h)

theorem Ahead.irrefl (p : List α) : ¬ Ahead p p := by
  induction p with
  | nil => exact nofun
  | cons a p ih =>
    intro h
    cases h with
    | cons h => exact ih h
    | rel h => exact lt_irrefl a h

theorem Ahead.asymm (h : Ahead p q) : ¬ Ahead q p := fun h' => Ahead.irrefl p (h.trans h')

theorem ahead_append (p : List α) (a : α) : Ahead p (p ++ [a]) := by
  induction p with
  | nil => exact .nil
  | cons b p ih => exact .cons ih

theorem Ahead.append (h : Ahead p q) (u : List α) : Ahead p (q ++ u) :=
  List.Lex.append_right _ u h

/-- A shortest walk that no other between its ends comes before. -/
def First (adjacency : GraphAdjacency α) (start : α) (p : List α) (node : α) : Prop :=
  Shortest adjacency.Edge start p node ∧
    ∀ q, Shortest adjacency.Edge start q node → p = q ∨ Ahead p q

end

section

variable {adjacency : GraphAdjacency α} {budget : GraphExecutionBudget}
  {maxDepth maxPaths nextDepth : ℕ} {s s' : Exploration α} {target node : α} {targets : List α}

def Exploration.waiting (s : Exploration α) : List α := s.frontier.map Prod.fst

theorem discover_ok (h : discover maxPaths nextDepth s target = .ok s') :
    target ∈ s.seen ∧ s' = s ∨ target ∉ s.seen ∧
      s' = ⟨(target, nextDepth) :: s.frontier, insert target s.seen,
        s.distances.insert target nextDepth, s.clock⟩ := by
  rw [discover] at h
  split at h
  · rename_i hseen
    exact .inl ⟨hseen, (Except.ok.inj h).symm⟩
  · rename_i hnew
    dsimp only at h
    split at h
    · cases h
    · exact .inr ⟨hnew, (Except.ok.inj h).symm⟩

/-- The targets that are new go on the stack, and onto the map with the one depth. -/
structure Discovers (nextDepth : ℕ) (targets : List α) (s s' : Exploration α) : Prop where
  frontier : s'.frontier =
    ((targets.filter (· ∉ s.seen)).map fun w => (w, nextDepth)).reverse ++ s.frontier
  seen : ∀ w, w ∈ s'.seen ↔ w ∈ s.seen ∨ w ∈ targets
  get : ∀ w, s'.distances.get w =
    if w ∈ targets ∧ w ∉ s.seen then some nextDepth else s.distances.get w

theorem discoverAll_ok (hnodup : targets.Nodup)
    (h : discoverAll maxPaths nextDepth targets s = .ok s') : Discovers nextDepth targets s s' := by
  induction targets generalizing s with
  | nil =>
    cases h
    exact ⟨rfl, by simp, by simp⟩
  | cons target targets ih =>
    obtain ⟨hnot, hnodup⟩ := List.nodup_cons.mp hnodup
    obtain ⟨middle, hfirst, hrest⟩ := of_andThen h
    have hall := ih hnodup hrest
    rcases discover_ok hfirst with ⟨hseen, rfl⟩ | ⟨hnew, rfl⟩
    · refine ⟨?_, fun w => ?_, fun w => ?_⟩
      · rw [hall.frontier, List.filter_cons_of_neg (by simpa using hseen)]
      · rw [hall.seen, List.mem_cons]
        constructor
        · tauto
        · rintro (h | rfl | h)
          exacts [.inl h, .inl hseen, .inr h]
      · rw [hall.get]
        by_cases hw : w = target
        · rw [if_neg fun h => h.2 (hw ▸ hseen), if_neg fun h => h.2 (hw ▸ hseen)]
        · simp only [List.mem_cons, hw, false_or]
    · have hfilter : targets.filter (· ∉ insert target s.seen) = targets.filter (· ∉ s.seen) := by
        refine List.filter_congr fun w hw => ?_
        have hne : w ≠ target := fun heq => hnot (heq ▸ hw)
        simp [hne]
      refine ⟨?_, fun w => ?_, fun w => ?_⟩
      · rw [hall.frontier, hfilter, List.filter_cons_of_pos (by simpa using hnew)]
        simp
      · rw [hall.seen, Finset.mem_insert, List.mem_cons]
        tauto
      · rw [hall.get, OrderedMap.get_insert]
        by_cases hw : w = target
        · subst hw
          simp [hnew]
        · simp [hw, Ne.symm hw]

theorem explore_cases (h : explore adjacency maxDepth maxPaths budget s = .ok (some s')) :
    ∃ node depth frontier, s.frontier = (node, depth) :: frontier ∧
      (maxDepth ≤ depth ∧ s' = ⟨frontier, s.seen, s.distances, s.clock + 1⟩ ∨
        depth < maxDepth ∧ discoverAll maxPaths (depth + 1) (adjacency.targets node)
          ⟨frontier, s.seen, s.distances, s.clock + 1⟩ = .ok s') := by
  rw [explore] at h
  split at h
  · cases h
  · rename_i node depth frontier hfrontier
    replace h := rest_ok h
    refine ⟨node, depth, frontier, hfrontier, ?_⟩
    split at h
    · rename_i hdeep
      exact .inl ⟨hdeep, (Option.some.inj (Except.ok.inj h)).symm⟩
    · rename_i hdeep
      obtain ⟨s'', hs'', heq⟩ := map_eq_ok_iff.mp h
      exact .inr ⟨not_le.mp hdeep, Option.some.inj heq ▸ hs''⟩

theorem explore_none (h : explore adjacency maxDepth maxPaths budget s = .ok none) :
    s.frontier = [] := by
  rw [explore] at h
  split at h
  · rename_i hfrontier
    exact hfrontier
  · obtain ⟨⟨⟩, -, h⟩ := of_andThen h
    split at h
    · cases Except.ok.inj h
    · obtain ⟨s'', -, heq⟩ := map_eq_ok_iff.mp h
      cases heq

end

section

variable {adjacency : GraphAdjacency α} {budget : GraphExecutionBudget} {start : α}
  {maxDepth maxPaths : ℕ} {s s' : Exploration α} {tree : α → List α} {done : Set α}

/-- How the search stands while all its distances are right. `tree` has the walks along which the
nodes were found, `done` the nodes that have left the stack. -/
structure Explored (adjacency : GraphAdjacency α) (start : α) (maxDepth : ℕ) (tree : α → List α)
    (done : Set α) (s : Exploration α) : Prop where
  seen_iff : ∀ w, w ∈ s.seen ↔ w ∈ done ∨ w ∈ s.waiting
  not_done : ∀ w ∈ s.waiting, w ∉ done
  start_seen : start ∈ s.seen
  first : ∀ w ∈ s.seen, First adjacency start (tree w) w
  near : ∀ w ∈ s.seen, (tree w).length ≤ maxDepth
  depth : ∀ entry ∈ s.frontier, entry.2 = (tree entry.1).length
  get_iff : ∀ w n, s.distances.get w = some n ↔ w ≠ start ∧ w ∈ s.seen ∧ (tree w).length = n
  sorted : s.waiting.Pairwise fun x y => Parts (tree x) (tree y)
  before : ∀ u ∈ done, ∀ x ∈ s.waiting, Ahead (tree u) (tree x)
  closed : ∀ u ∈ done, (tree u).length < maxDepth → ∀ w, adjacency.Edge u w → w ∈ s.seen
  parent : ∀ w ∈ s.seen, w ≠ start → ∃ p ∈ done, adjacency.Edge p w ∧ tree w = tree p ++ [w]
  inTime : ∀ x ∈ done, (tree x).length < maxDepth → ∀ w, adjacency.Edge x w → w ≠ start →
    (tree w).length ≤ (tree x).length →
      ∃ p ∈ done, adjacency.Edge p w ∧ tree w = tree p ++ [w] ∧ Ahead (tree p) (tree x)

def Right (adjacency : GraphAdjacency α) (start : α) (s : Exploration α) : Prop :=
  ∀ w n, s.distances.get w = some n → IsDistance adjacency.Edge start w n

theorem explored_start (adjacency : GraphAdjacency α) (start : α) (maxDepth clock : ℕ) :
    Explored adjacency start maxDepth (fun _ => []) ∅ ⟨[(start, 0)], {start}, .empty, clock⟩ where
  seen_iff w := by simp [Exploration.waiting]
  not_done w _ := Set.notMem_empty w
  start_seen := Finset.mem_singleton_self start
  first w hw := by
    obtain rfl := Finset.mem_singleton.mp hw
    exact ⟨shortest_nil, fun q hq => .inl hq.eq_nil.symm⟩
  near _ _ := Nat.zero_le _
  depth entry hentry := by
    obtain rfl := List.mem_singleton.mp hentry
    rfl
  get_iff w n := by
    simp only [OrderedMap.get_empty, reduceCtorEq, Finset.mem_singleton, false_iff]
    tauto
  sorted := List.pairwise_singleton _ _
  before _ hu := absurd hu (Set.notMem_empty _)
  closed _ hu := absurd hu (Set.notMem_empty _)
  parent w hw hne := absurd (Finset.mem_singleton.mp hw) hne
  inTime _ hx := absurd hx (Set.notMem_empty _)

variable {x w u : α} {p q : List α}

theorem Explored.top_le (h : Explored adjacency start maxDepth tree done s)
    (htop : s.waiting = x :: p) (hu : u ∈ s.waiting) : x = u ∨ Parts (tree x) (tree u) := by
  rw [htop] at hu
  have hsorted := h.sorted
  rw [htop, List.pairwise_cons] at hsorted
  rcases List.mem_cons.mp hu with rfl | hu
  · exact .inl rfl
  · exact .inr (hsorted.1 u hu)

/-- The walk to the top of the stack comes no later than any shortest walk to a node that is not
done with. The induction is on that walk: where it leaves the nodes that are done with, it comes to
one on the stack. -/
theorem Explored.top_first (h : Explored adjacency start maxDepth tree done s)
    (htop : s.waiting = x :: p) (hu : u ∉ done) (hq : Shortest adjacency.Edge start q u)
    (hlen : q.length ≤ maxDepth) : tree x = q ∨ Ahead (tree x) q := by
  have hstack : ∀ z, z ∉ done → z ∈ s.seen → ∀ q, Shortest adjacency.Edge start q z →
      tree x = q ∨ Ahead (tree x) q := by
    intro z hz hseen q hq
    have hwaiting := ((h.seen_iff z).mp hseen).resolve_left hz
    rcases h.top_le htop hwaiting, (h.first z hseen).2 q hq with ⟨rfl | hparts, heq | hahead⟩
    · exact .inl heq
    · exact .inr hahead
    · exact .inr (heq ▸ hparts.ahead)
    · exact .inr (hparts.ahead.trans hahead)
  induction q using List.reverseRecOn generalizing u with
  | nil =>
    obtain rfl := walk_nil_iff.mp hq.1
    exact hstack _ hu h.start_seen _ hq
  | append_singleton q v ih =>
    obtain ⟨rfl, z, hfront, hedge⟩ := hq.front
    rw [List.length_append, List.length_singleton] at hlen
    by_cases hz : z ∈ done
    · have hzlen := ((h.first z ((h.seen_iff z).mpr (.inl hz))).1).length_eq hfront
      exact hstack _ hu (h.closed z hz (by omega) _ hedge) _ hq
    · rcases ih hz hfront (by omega) with heq | hahead
      · exact .inr (heq ▸ ahead_append q v)
      · exact .inr (hahead.append [v])

variable {depth : ℕ} {frontier : List (α × ℕ)}

theorem Explored.top_waiting (h : Explored adjacency start maxDepth tree done s)
    (htop : s.frontier = (x, depth) :: frontier) :
    s.waiting = x :: frontier.map Prod.fst ∧ x ∈ s.seen ∧ depth = (tree x).length ∧
      ∀ y ∈ frontier.map Prod.fst, y ∈ s.seen := by
  have hwaiting : s.waiting = x :: frontier.map Prod.fst := by rw [Exploration.waiting, htop]; rfl
  have hseen : ∀ y ∈ x :: frontier.map Prod.fst, y ∈ s.seen := fun y hy =>
    (h.seen_iff y).mpr (.inr (hwaiting ▸ hy))
  obtain ⟨hx, hrest⟩ := List.forall_mem_cons.mp hseen
  exact ⟨hwaiting, hx, h.depth (x, depth) (htop ▸ List.mem_cons_self), hrest⟩

theorem Explored.pop (h : Explored adjacency start maxDepth tree done s)
    (htop : s.frontier = (x, depth) :: frontier) (hdeep : maxDepth ≤ depth) :
    Explored adjacency start maxDepth tree (insert x done)
      ⟨frontier, s.seen, s.distances, s.clock + 1⟩ := by
  obtain ⟨hwaiting, -, hdepth, -⟩ := h.top_waiting htop
  have hsorted := h.sorted
  rw [hwaiting, List.pairwise_cons] at hsorted
  have hmem : ∀ y ∈ frontier.map Prod.fst, y ∈ s.waiting := by
    intro y hy
    rw [hwaiting]
    exact List.mem_cons_of_mem x hy
  have hxdeep : ¬ (tree x).length < maxDepth := hdepth ▸ not_lt.mpr hdeep
  refine ⟨fun w => ?_, fun w hw => ?_, h.start_seen, h.first, h.near, fun entry hentry => ?_, h.get_iff,
    hsorted.2, fun u hu y hy => ?_, fun u hu => ?_, fun w hw hne => ?_, fun u hu => ?_⟩
  · rw [h.seen_iff, hwaiting, List.mem_cons, Set.mem_insert_iff, Exploration.waiting]
    tauto
  · rw [Set.mem_insert_iff, not_or]
    refine ⟨fun heq => ?_, h.not_done w (hmem w hw)⟩
    exact Ahead.irrefl _ (heq ▸ hsorted.1 w hw).ahead
  · exact h.depth entry (htop ▸ List.mem_cons_of_mem _ hentry)
  · rcases hu with rfl | hu
    · exact (hsorted.1 y hy).ahead
    · exact h.before u hu y (hmem y hy)
  · rcases hu with rfl | hu
    · exact fun hless => absurd hless hxdeep
    · exact h.closed u hu
  · obtain ⟨p, hp, hparent⟩ := h.parent w hw hne
    exact ⟨p, Set.mem_insert_of_mem x hp, hparent⟩
  · rcases hu with rfl | hu
    · exact fun hless => absurd hless hxdeep
    · intro hless w hedge hne hle
      obtain ⟨p, hp, hintime⟩ := h.inTime u hu hless w hedge hne hle
      exact ⟨p, Set.mem_insert_of_mem x hp, hintime⟩

def grow (seen : Finset α) (x : α) (tree : α → List α) (w : α) : List α :=
  if w ∈ seen then tree w else tree x ++ [w]

/-- A new target has its first shortest walk through the top of the stack: a neighbour that is
done with would have found it before. -/
theorem Explored.first_new (h : Explored adjacency start maxDepth tree done s)
    (htop : s.waiting = x :: p) (hless : (tree x).length < maxDepth) (hnew : w ∉ s.seen)
    (hshort : Shortest adjacency.Edge start (tree x ++ [w]) w) :
    First adjacency start (tree x ++ [w]) w := by
  refine ⟨hshort, fun q hq => ?_⟩
  have hlen := hshort.length_eq hq
  rcases List.eq_nil_or_concat q with rfl | ⟨q, v, rfl⟩
  · simp at hlen
  · rw [List.concat_eq_append] at hq hlen ⊢
    simp only [List.length_append, List.length_singleton, Nat.add_right_cancel_iff] at hlen
    obtain ⟨rfl, z, hfront, hedge⟩ := hq.front
    have hz : z ∉ done := by
      intro hz
      have hzlen := (h.first z ((h.seen_iff z).mpr (.inl hz))).1.length_eq hfront
      exact hnew (h.closed z hz (by omega) _ hedge)
    rcases h.top_first htop hz hfront (by omega) with heq | hahead
    · exact .inl (heq ▸ rfl)
    · exact .inr ((parts_of_ahead hahead hlen).append [v] [v]).ahead

theorem shortest_of_isDistance (h : Walk adjacency.Edge start q w)
    (hdist : IsDistance adjacency.Edge start w q.length) : Shortest adjacency.Edge start q w :=
  ⟨h, fun _ hq => hdist.le hq⟩

theorem Discovers.waiting {nextDepth : ℕ} {targets : List α} (h : Discovers nextDepth targets s s') :
    s'.waiting = (targets.filter (· ∉ s.seen)).reverse ++ s.waiting := by
  rw [Exploration.waiting, h.frontier, List.map_append, List.map_reverse, List.map_map]
  exact congrArg (·.reverse ++ s.waiting) (List.map_id _)

/-- On the stack are now the new targets, and below them what was there. -/
theorem Discovers.mem_waiting {nextDepth : ℕ} {y : α}
    (h : Discovers nextDepth (adjacency.targets x) s s') :
    y ∈ s'.waiting ↔ adjacency.Edge x y ∧ y ∉ s.seen ∨ y ∈ s.waiting := by
  rw [h.waiting, List.mem_append, List.mem_reverse, List.mem_filter, decide_eq_true_iff]
  exact Iff.rfl

theorem grow_old {seen : Finset α} (hw : w ∈ seen) : grow seen x tree w = tree w := if_pos hw

theorem grow_new {seen : Finset α} (hw : w ∉ seen) : grow seen x tree w = tree x ++ [w] := if_neg hw

section

variable (h : Explored adjacency start maxDepth tree done s)
include h

theorem Explored.done_seen (hu : u ∈ done) : u ∈ s.seen := (h.seen_iff u).mpr (.inl hu)

section

variable (htop : s.frontier = (x, depth) :: frontier)
  (hfound : Discovers (depth + 1) (adjacency.targets x) ⟨frontier, s.seen, s.distances, s.clock + 1⟩ s')
include htop hfound

theorem Explored.expand_seen (w : α) : w ∈ s'.seen ↔ w ∈ insert x done ∨ w ∈ s'.waiting := by
  obtain ⟨hwaiting, -⟩ := h.top_waiting htop
  rw [hfound.mem_waiting, hfound.seen, h.seen_iff, hwaiting, List.mem_cons, Set.mem_insert_iff]
  change _ ∨ adjacency.Edge x w ↔ _ ∨ _ ∨ w ∈ frontier.map Prod.fst
  tauto

theorem Explored.expand_not_done (hw : w ∈ s'.waiting) : w ∉ insert x done := by
  obtain ⟨hwaiting, hx, -, -⟩ := h.top_waiting htop
  have hsorted := h.sorted
  rw [hwaiting, List.pairwise_cons] at hsorted
  rw [Set.mem_insert_iff, not_or]
  rcases hfound.mem_waiting.mp hw with ⟨-, hw⟩ | hw
  · exact ⟨fun heq => hw (heq ▸ hx), fun hdone => hw (h.done_seen hdone)⟩
  · refine ⟨fun heq => Ahead.irrefl _ (heq ▸ hsorted.1 w hw).ahead, h.not_done w ?_⟩
    exact hwaiting ▸ List.mem_cons_of_mem x hw

theorem Explored.expand_first (hless : depth < maxDepth) (hright : Right adjacency start s')
    (hw : w ∈ s'.seen) : First adjacency start (grow s.seen x tree w) w := by
  obtain ⟨hwaiting, hx, hdepth, -⟩ := h.top_waiting htop
  by_cases hws : w ∈ s.seen
  · exact grow_old hws ▸ h.first w hws
  · have hedge : adjacency.Edge x w := ((hfound.seen w).mp hw).resolve_left hws
    rw [grow_new hws]
    refine h.first_new hwaiting (hdepth ▸ hless) hws
      (shortest_of_isDistance ((h.first x hx).1.1.snoc hedge) (hright w _ ?_))
    rw [hfound.get, if_pos ⟨hedge, hws⟩, List.length_append, List.length_singleton, ← hdepth]

theorem Explored.expand_depth (hentry : (w, m) ∈ s'.frontier) :
    m = (grow s.seen x tree w).length := by
  obtain ⟨-, -, hdepth, hrest⟩ := h.top_waiting htop
  rw [hfound.frontier, List.mem_append, List.mem_reverse, List.mem_map] at hentry
  rcases hentry with ⟨v, hv, heq⟩ | hentry
  · obtain ⟨rfl, rfl⟩ := Prod.mk.inj heq
    have hws : v ∉ s.seen := by simpa using (List.mem_filter.mp hv).2
    rw [grow_new hws, List.length_append, List.length_singleton, hdepth]
  · rw [grow_old (hrest _ (List.mem_map_of_mem hentry))]
    exact h.depth _ (htop ▸ List.mem_cons_of_mem _ hentry)

theorem Explored.expand_get (w : α) (n : ℕ) : s'.distances.get w = some n ↔
    w ≠ start ∧ w ∈ s'.seen ∧ (grow s.seen x tree w).length = n := by
  obtain ⟨-, -, hdepth, -⟩ := h.top_waiting htop
  rw [hfound.get, hfound.seen]
  by_cases hws : w ∈ s.seen
  · rw [if_neg fun hw => hw.2 hws, h.get_iff, grow_old hws]
    tauto
  · have hne : w ≠ start := fun heq => hws (heq ▸ h.start_seen)
    by_cases hedge : adjacency.Edge x w
    · rw [if_pos ⟨hedge, hws⟩, grow_new hws, List.length_append, List.length_singleton, ← hdepth,
        Option.some.injEq]
      tauto
    · rw [if_neg fun hw => hedge hw.1, h.get_iff]
      tauto

theorem Explored.expand_sorted (hnormal : adjacency.Normalized) : s'.waiting.Pairwise
    fun a b => Parts (grow s.seen x tree a) (grow s.seen x tree b) := by
  obtain ⟨hwaiting, -, -, hrest⟩ := h.top_waiting htop
  have hsorted := h.sorted
  rw [hwaiting, List.pairwise_cons] at hsorted
  rw [hfound.waiting, List.pairwise_append, List.pairwise_reverse]
  refine ⟨?_, ?_, fun a ha y hy => ?_⟩
  · refine ((hnormal.targets_sorted x).filter _).imp_of_mem fun {a b} ha hb hlt => ?_
    have ha : a ∉ s.seen := by simpa using (List.mem_filter.mp ha).2
    have hb : b ∉ s.seen := by simpa using (List.mem_filter.mp hb).2
    rw [grow_new ha, grow_new hb]
    exact (Parts.here hlt).after (tree x)
  · refine hsorted.2.imp_of_mem fun {a b} ha hb hparts => ?_
    rwa [grow_old (hrest a ha), grow_old (hrest b hb)]
  · rw [grow_new (by simpa using (List.mem_filter.mp (List.mem_reverse.mp ha)).2),
      grow_old (hrest y hy)]
    simpa using (hsorted.1 y hy).append [a] []

theorem Explored.expand_before (hu : u ∈ insert x done) {y : α} (hy : y ∈ s'.waiting) :
    Ahead (grow s.seen x tree u) (grow s.seen x tree y) := by
  obtain ⟨hwaiting, hx, -, hrest⟩ := h.top_waiting htop
  have hsorted := h.sorted
  rw [hwaiting, List.pairwise_cons] at hsorted
  have hux : tree u = tree x ∨ Ahead (tree u) (tree x) :=
    hu.imp (congrArg tree) fun hu => h.before u hu x (hwaiting ▸ List.mem_cons_self)
  rw [grow_old (Set.forall_mem_insert.mpr ⟨hx, fun _ => h.done_seen⟩ u hu)]
  rcases hfound.mem_waiting.mp hy with ⟨-, hy⟩ | hy
  · rw [grow_new hy]
    rcases hux with heq | hahead
    · exact heq ▸ ahead_append (tree x) y
    · exact hahead.append [y]
  · rw [grow_old (hrest y hy)]
    rcases hux with heq | hahead
    · exact heq ▸ (hsorted.1 y hy).ahead
    · exact hahead.trans (hsorted.1 y hy).ahead

theorem Explored.expand_closed (hu : u ∈ insert x done)
    (hlen : (grow s.seen x tree u).length < maxDepth) (hedge : adjacency.Edge u w) :
    w ∈ s'.seen := by
  rw [hfound.seen]
  rcases hu with rfl | hu
  · exact .inr hedge
  · rw [grow_old (h.done_seen hu)] at hlen
    exact .inl (h.closed u hu hlen w hedge)

theorem Explored.expand_parent (hw : w ∈ s'.seen) (hne : w ≠ start) :
    ∃ p ∈ insert x done, adjacency.Edge p w ∧
      grow s.seen x tree w = grow s.seen x tree p ++ [w] := by
  obtain ⟨-, hx, -, -⟩ := h.top_waiting htop
  by_cases hws : w ∈ s.seen
  · obtain ⟨p, hp, hpedge, htree⟩ := h.parent w hws hne
    refine ⟨p, Set.mem_insert_of_mem x hp, hpedge, ?_⟩
    rw [grow_old hws, grow_old (h.done_seen hp), htree]
  · refine ⟨x, Set.mem_insert x done, ((hfound.seen w).mp hw).resolve_left hws, ?_⟩
    rw [grow_new hws, grow_old hx]

theorem Explored.expand_inTime (hu : u ∈ insert x done)
    (hlen : (grow s.seen x tree u).length < maxDepth) (hedge : adjacency.Edge u w)
    (hne : w ≠ start) (hle : (grow s.seen x tree w).length ≤ (grow s.seen x tree u).length) :
    ∃ p ∈ insert x done, adjacency.Edge p w ∧
      grow s.seen x tree w = grow s.seen x tree p ++ [w] ∧
        Ahead (grow s.seen x tree p) (grow s.seen x tree u) := by
  obtain ⟨hwaiting, hx, -, -⟩ := h.top_waiting htop
  rw [grow_old (Set.forall_mem_insert.mpr ⟨hx, fun _ => h.done_seen⟩ u hu)] at hlen hle ⊢
  have hws : w ∈ s.seen := by
    rcases hu with rfl | hu
    · by_contra hws
      rw [grow_new hws, List.length_append, List.length_singleton] at hle
      omega
    · exact h.closed u hu hlen w hedge
  rw [grow_old hws] at hle ⊢
  have hparent : ∃ p ∈ done, adjacency.Edge p w ∧ tree w = tree p ++ [w] ∧
      Ahead (tree p) (tree u) := by
    rcases hu with rfl | hu
    · obtain ⟨p, hp, hpedge, htree⟩ := h.parent w hws hne
      exact ⟨p, hp, hpedge, htree, h.before p hp u (hwaiting ▸ List.mem_cons_self)⟩
    · exact h.inTime u hu hlen w hedge hne hle
  obtain ⟨p, hp, hpedge, htree, hahead⟩ := hparent
  refine ⟨p, Set.mem_insert_of_mem x hp, hpedge, ?_⟩
  rw [grow_old (h.done_seen hp)]
  exact ⟨htree, hahead⟩

theorem Explored.expand (hnormal : adjacency.Normalized) (hless : depth < maxDepth)
    (hright : Right adjacency start s') :
    Explored adjacency start maxDepth (grow s.seen x tree) (insert x done) s' where
  seen_iff := h.expand_seen htop hfound
  not_done _ := h.expand_not_done htop hfound
  start_seen := (hfound.seen start).mpr (.inl h.start_seen)
  first _ := h.expand_first htop hfound hless hright
  near w hw := by
    obtain ⟨-, -, hdepth, -⟩ := h.top_waiting htop
    by_cases hws : w ∈ s.seen
    · exact grow_old hws ▸ h.near w hws
    · rw [grow_new hws, List.length_append, List.length_singleton]
      omega
  depth _ := h.expand_depth htop hfound
  get_iff := h.expand_get htop hfound
  sorted := h.expand_sorted htop hfound hnormal
  before _ hu _ := h.expand_before htop hfound hu
  closed _ hu hlen _ := h.expand_closed htop hfound hu hlen
  parent _ := h.expand_parent htop hfound
  inTime _ hu hlen _ := h.expand_inTime htop hfound hu hlen

end

theorem Explored.right : Right adjacency start s := by
  intro w n hget
  obtain ⟨-, hseen, rfl⟩ := (h.get_iff w n).mp hget
  exact (h.first w hseen).1.isDistance

theorem Explored.round (hnormal : adjacency.Normalized)
    (hround : explore adjacency maxDepth maxPaths budget s = .ok (some s'))
    (hright : Right adjacency start s') :
    ∃ tree' done', Explored adjacency start maxDepth tree' done' s' := by
  obtain ⟨x, depth, frontier, htop, ⟨hdeep, rfl⟩ | ⟨hless, hfound⟩⟩ := explore_cases hround
  · exact ⟨_, _, h.pop htop hdeep⟩
  · exact ⟨_, _, h.expand htop (discoverAll_ok (hnormal.targets_nodup x) hfound) hnormal hless
      hright⟩

theorem Explored.right_of_foundInTime (hnormal : adjacency.Normalized)
    (hround : explore adjacency maxDepth maxPaths budget s = .ok (some s'))
    (htime : FoundInTime adjacency start maxDepth) : Right adjacency start s' := by
  obtain ⟨x, depth, frontier, htop, ⟨hdeep, rfl⟩ | ⟨hless, hfound⟩⟩ := explore_cases hround
  · exact h.right
  · have hall := discoverAll_ok (hnormal.targets_nodup x) hfound
    obtain ⟨hwaiting, hxseen, hdepth, -⟩ := h.top_waiting htop
    have hx := h.first x hxseen
    intro w n hget
    rw [hall.get] at hget
    split at hget
    · rename_i hw
      obtain ⟨hedge, hnew⟩ := hw
      cases hget
      obtain ⟨k, hk, hdist⟩ := exists_isDistance (hx.1.1.snoc hedge)
      rw [List.length_append, List.length_singleton, ← hdepth] at hk
      rcases Nat.lt_or_ge k (depth + 1) with hshort | hlong
      · have hne : w ≠ start := fun heq => hnew (heq ▸ h.start_seen)
        obtain ⟨n, rfl⟩ : ∃ n, k = n + 1 := by
          refine Nat.exists_eq_succ_of_ne_zero fun hzero => hne ?_
          rw [hzero, isDistance_zero_iff] at hdist
          exact hdist.symm
        obtain ⟨p, hpedge, hpdist, q, hq, hsooner⟩ := htime x w depth n hedge hne
          (hdepth ▸ hx.1.isDistance) hless hdist (by omega)
        have hqlen := hq.length_eq_of hpdist
        have hp : p ∉ done := by
          intro hp
          have hplen := (h.first p ((h.seen_iff p).mpr (.inl hp))).1.length_eq_of hpdist
          exact hnew (h.closed p hp (by omega) w hpedge)
        rcases h.top_first hwaiting hp hq (by omega) with heq | hahead
        · exact absurd (heq ▸ hsooner _ hx.1) (Ahead.irrefl _)
        · exact absurd hahead (hsooner _ hx.1).asymm
      · rwa [le_antisymm hlong hk]
    · exact h.right w n hget

end

def Listed (s : Exploration α) : Prop := ∀ w n, s.distances.get w = some n → w ∈ s.seen

theorem Listed.round (h : Listed s) (hnormal : adjacency.Normalized)
    (hround : explore adjacency maxDepth maxPaths budget s = .ok (some s')) : Listed s' := by
  obtain ⟨x, depth, frontier, htop, ⟨hdeep, rfl⟩ | ⟨hless, hfound⟩⟩ := explore_cases hround
  · exact h
  · have hall := discoverAll_ok (hnormal.targets_nodup x) hfound
    intro w n hget
    rw [hall.seen]
    rw [hall.get] at hget
    split at hget
    · rename_i hw
      exact .inr hw.1
    · exact .inl (h w n hget)

theorem right_before (hnormal : adjacency.Normalized) (h : Listed s)
    (hround : explore adjacency maxDepth maxPaths budget s = .ok (some s'))
    (hright : Right adjacency start s') : Right adjacency start s := by
  obtain ⟨x, depth, frontier, htop, ⟨hdeep, rfl⟩ | ⟨hless, hfound⟩⟩ := explore_cases hround
  · exact hright
  · have hall := discoverAll_ok (hnormal.targets_nodup x) hfound
    intro w n hget
    refine hright w n ?_
    rw [hall.get, if_neg fun hw => hw.2 (h w n hget)]
    exact hget

variable {fuel : ℕ}

theorem right_of_run (hnormal : adjacency.Normalized) (h : Listed s)
    (hrun : drainOrFail (explore adjacency maxDepth maxPaths budget) fuel s = .ok s')
    (hright : Right adjacency start s') : Right adjacency start s := by
  by_contra hwrong
  have hkept := drainOrFail_inv (fun s => Listed s ∧ ¬ Right adjacency start s)
    (fun s s' hs hround => ⟨hs.1.round hnormal hround,
      fun hright => hs.2 (right_before hnormal hs.1 hround hright)⟩) ⟨h, hwrong⟩ hrun
  exact hkept.1.2 hright

theorem Explored.run (h : Explored adjacency start maxDepth tree done s)
    (hnormal : adjacency.Normalized)
    (hrun : drainOrFail (explore adjacency maxDepth maxPaths budget) fuel s = .ok s')
    (hright : Right adjacency start s') :
    ∃ tree' done', Explored adjacency start maxDepth tree' done' s' ∧ s'.frontier = [] := by
  induction fuel generalizing s tree done with
  | zero => cases hrun
  | succ fuel ih =>
    rw [drainOrFail] at hrun
    split at hrun
    · cases hrun
    · rename_i hend
      cases hrun
      exact ⟨tree, done, h, explore_none hend⟩
    · rename_i middle hround
      have hlisted : Listed middle :=
        Listed.round (fun w n hget => ((h.get_iff w n).mp hget).2.1) hnormal hround
      obtain ⟨tree', done', hinv⟩ :=
        h.round hnormal hround (right_of_run hnormal hlisted hrun hright)
      exact ih hinv hrun

theorem Explored.waiting_nil (hend : s.frontier = []) : s.waiting = [] := by
  rw [Exploration.waiting, hend, List.map_nil]

variable (h : Explored adjacency start maxDepth tree done s)
include h

theorem Explored.seen_of_near (hend : s.frontier = []) (hq : Shortest adjacency.Edge start q w)
    (hlen : q.length ≤ maxDepth) : w ∈ s.seen := by
  induction q using List.reverseRecOn generalizing w with
  | nil =>
    obtain rfl := walk_nil_iff.mp hq.1
    exact h.start_seen
  | append_singleton q v ih =>
    obtain ⟨rfl, z, hfront, hedge⟩ := hq.front
    rw [List.length_append, List.length_singleton] at hlen
    have hz := ih hfront (by omega)
    have hzdone := ((h.seen_iff z).mp hz).resolve_right (by simp [Explored.waiting_nil hend])
    exact h.closed z hzdone (by rw [(h.first z hz).1.length_eq hfront]; omega) _ hedge

theorem Explored.shortestDistances (hend : s.frontier = []) :
    ShortestDistances adjacency start maxDepth s.distances := by
  intro w n
  rw [h.get_iff]
  constructor
  · rintro ⟨hne, hw, rfl⟩
    exact ⟨hne, h.near w hw, (h.first w hw).1.isDistance⟩
  · rintro ⟨hne, hn, q, hq, rfl⟩
    have hw := h.seen_of_near hend hq hn
    exact ⟨hne, hw, (h.first w hw).1.length_eq hq⟩

theorem Explored.foundInTime (hend : s.frontier = []) : FoundInTime adjacency start maxDepth := by
  intro x w m n hedge hne hm hless hn hle
  obtain ⟨q, hq, hqlen⟩ := hm
  have hx := h.seen_of_near hend hq (by omega)
  have hxdone := ((h.seen_iff x).mp hx).resolve_right (by simp [Explored.waiting_nil hend])
  have hxlen := (h.first x hx).1.length_eq hq
  have hw := h.closed x hxdone (by omega) w hedge
  have hwlen := (h.first w hw).1.length_eq_of hn
  obtain ⟨p, hp, hpedge, htree, hahead⟩ := h.inTime x hxdone (by omega) w hedge hne (by omega)
  have hpfirst := h.first p ((h.seen_iff p).mpr (.inl hp))
  rw [htree, List.length_append, List.length_singleton] at hwlen
  refine ⟨p, hpedge, ⟨tree p, hpfirst.1, by omega⟩, tree p, hpfirst.1, fun q' hq' => ?_⟩
  rcases (h.first x hx).2 q' hq' with heq | hfirst
  · exact heq ▸ hahead
  · exact hahead.trans hfirst

end

section

variable {adjacency : GraphAdjacency α} {start : α} {maxDepth n : ℕ} {distances : OrderedMap α ℕ}

theorem shortestTargetDistance_eq_some_iff (targetNodes : Option (Finset α)) :
    shortestTargetDistance distances targetNodes = some n ↔ IsLeast
      {n | ∃ node, (∀ nodes ∈ targetNodes, node ∈ nodes) ∧ distances.get node = some n} n := by
  cases targetNodes with
  | none =>
    rw [shortestTargetDistance, List.min?_eq_some_iff]
    simp [IsLeast, lowerBounds, OrderedMap.values, ← OrderedMap.mem_entries_iff]
  | some nodes =>
    rw [shortestTargetDistance, List.min?_eq_some_iff]
    simp [IsLeast, lowerBounds, ← OrderedMap.mem_entries_iff, and_comm]

theorem ShortestDistances.nearestTarget (h : ShortestDistances adjacency start maxDepth distances)
    (targetNodes : Option (Finset α)) :
    NearestTarget adjacency start maxDepth targetNodes
      (shortestTargetDistance distances targetNodes) := by
  intro n
  rw [shortestTargetDistance_eq_some_iff]
  constructor
  · rintro ⟨⟨node, htarget, hget⟩, hleast⟩
    obtain ⟨hne, hn, p, hp, hlen⟩ := (h node n).mp hget
    refine ⟨⟨hn, node, p, hne, htarget, hp.1, hlen⟩, ?_⟩
    rintro m ⟨hm, other, q, hother, hotherTarget, hq, rfl⟩
    obtain ⟨k, hk, hdist⟩ := exists_isDistance hq
    exact (hleast ⟨other, hotherTarget, (h other k).mpr ⟨hother, hk.trans hm, hdist⟩⟩).trans hk
  · rintro ⟨⟨hn, node, p, hne, htarget, hp, hlen⟩, hleast⟩
    have hall : ∀ other k, (∀ nodes ∈ targetNodes, other ∈ nodes) → distances.get other = some k →
        n ≤ k := by
      intro other k hother hget
      obtain ⟨hne, hk, q, hq, hqlen⟩ := (h other k).mp hget
      exact hleast ⟨hk, other, q, hne, hother, hq.1, hqlen⟩
    obtain ⟨k, hk, hdist⟩ := exists_isDistance hp
    have hget := (h node k).mpr ⟨hne, by omega, hdist⟩
    obtain rfl : k = n := le_antisymm (hlen ▸ hk) (hall node k htarget hget)
    exact ⟨⟨node, htarget, hget⟩, fun m ⟨other, hother, hm⟩ => hall other m hother hm⟩

end

section

variable {adjacency : GraphAdjacency α} {budget : GraphExecutionBudget} {start : α}
  {maxDepth maxPaths nextDepth clock clock' : ℕ} {distances : OrderedMap α ℕ} {targets : List α}
  {s s' : Exploration α}

def Exploration.rank (adjacency : GraphAdjacency α) (s : Exploration α) : ℕ :=
  (adjacency.reached \ s.seen).card + s.frontier.length

theorem discoverAll_rank (htargets : ∀ target ∈ targets, target ∈ adjacency.reached)
    (h : discoverAll maxPaths nextDepth targets s = .ok s') : s'.rank adjacency = s.rank adjacency := by
  induction targets generalizing s with
  | nil =>
    cases h
    rfl
  | cons target targets ih =>
    obtain ⟨htarget, hrest⟩ := List.forall_mem_cons.mp htargets
    obtain ⟨middle, hfirst, h⟩ := of_andThen h
    rw [ih hrest h]
    rcases discover_ok hfirst with ⟨-, rfl⟩ | ⟨hnew, rfl⟩
    · rfl
    · have hmem : target ∈ adjacency.reached \ s.seen := Finset.mem_sdiff.mpr ⟨htarget, hnew⟩
      have hcard := Finset.card_erase_add_one hmem
      simp only [Exploration.rank, Finset.sdiff_insert, List.length_cons]
      omega

theorem explore_rank (h : explore adjacency maxDepth maxPaths budget s = .ok (some s')) :
    s'.rank adjacency < s.rank adjacency := by
  obtain ⟨x, depth, frontier, htop, ⟨hdeep, rfl⟩ | ⟨hless, hfound⟩⟩ := explore_cases h
  · simp only [Exploration.rank, htop, List.length_cons]
    omega
  · rw [discoverAll_rank (fun target htarget => mem_reached htarget) hfound]
    simp only [Exploration.rank, htop, List.length_cons]
    omega

theorem graphReachableDistances_ends (adjacency : GraphAdjacency α) (start : α) (maxDepth maxPaths : ℕ)
    (budget : GraphExecutionBudget) (clock : ℕ) :
    graphReachableDistances adjacency start maxDepth maxPaths budget clock ≠ .error none := by
  intro h
  rw [graphReachableDistances] at h
  have hfuel : drainOrFail (explore adjacency maxDepth maxPaths budget) (adjacency.size + 2)
      ⟨[(start, 0)], {start}, .empty, clock⟩ ≠ .error none := by
    refine drainOrFail_fuel (fun _ => True) (Exploration.rank adjacency)
      (fun s s' _ hround => ⟨trivial, explore_rank hround⟩) trivial ?_
    have hcard := (Finset.card_le_card Finset.sdiff_subset).trans (card_reached_le adjacency)
      (a := (adjacency.reached \ {start}).card)
    simp only [Exploration.rank, List.length_singleton]
    omega
  cases hrun : drainOrFail (explore adjacency maxDepth maxPaths budget) (adjacency.size + 2)
    ⟨[(start, 0)], {start}, .empty, clock⟩ with
  | ok s => simp [hrun, Except.map] at h
  | error e =>
    rw [hrun] at h hfuel
    exact hfuel (congrArg Except.error (Except.error.inj h))

/-- The distances are shortest ones exactly where each node is found in time. -/
theorem graphReachableDistances_shortest_iff (hnormal : adjacency.Normalized)
    (h : graphReachableDistances adjacency start maxDepth maxPaths budget clock =
      .ok (distances, clock')) :
    ShortestDistances adjacency start maxDepth distances ∧
        (∀ targetNodes, NearestTarget adjacency start maxDepth targetNodes
          (shortestTargetDistance distances targetNodes)) ↔
      FoundInTime adjacency start maxDepth := by
  obtain ⟨s, hrun, heq⟩ := map_eq_ok_iff.mp h
  obtain ⟨rfl, -⟩ := Prod.mk.injEq _ _ _ _ ▸ heq
  have hstart := explored_start adjacency start maxDepth clock
  constructor
  · rintro ⟨hdistances, -⟩
    have hright : Right adjacency start s := fun w n hget => ((hdistances w n).mp hget).2.2
    obtain ⟨tree, done, hinv, hend⟩ := hstart.run hnormal hrun hright
    exact hinv.foundInTime hend
  · intro htime
    obtain ⟨⟨tree, done, hinv⟩, hend⟩ := drainOrFail_inv
      (fun s => ∃ tree done, Explored adjacency start maxDepth tree done s)
      (fun s s' ⟨tree, done, hinv⟩ hround =>
        hinv.round hnormal hround (hinv.right_of_foundInTime hnormal hround htime))
      ⟨_, _, hstart⟩ hrun
    have hdistances := hinv.shortestDistances (explore_none hend)
    exact ⟨hdistances, hdistances.nearestTarget⟩

/-- Two ways from `a` to `e`, the longer one through the greater of the targets of `a`. -/
def detourEdges : List (GraphEdge String) :=
  [⟨"ab", "a", "b"⟩, ⟨"be", "b", "e"⟩, ⟨"ac", "a", "c"⟩, ⟨"cd", "c", "d"⟩, ⟨"de", "d", "e"⟩]

def idleBudget : GraphExecutionBudget := ⟨fun _ => 0, 60000⟩

theorem detour_ok : ∃ distances,
    graphReachableDistances (GraphAdjacency.fromEdges detourEdges) "a" 8 100 idleBudget 0 =
        .ok (distances, 5) ∧
      distances.get "e" = some 3 ∧ shortestTargetDistance distances (some {"e"}) = some 3 := by
  have h : (graphReachableDistances (GraphAdjacency.fromEdges detourEdges) "a" 8 100 idleBudget
      0).toOption.map (fun result => (result.2, result.1.get "e",
        shortestTargetDistance result.1 (some {"e"}))) = some (5, some 3, some 3) := by decide +kernel
  cases hrun : graphReachableDistances (GraphAdjacency.fromEdges detourEdges) "a" 8 100 idleBudget 0 with
  | error e => simp [hrun, Except.toOption] at h
  | ok result =>
    rw [hrun] at h
    obtain ⟨hclock, hget⟩ := Prod.mk.inj (Option.some.inj h)
    exact ⟨result.1, hclock ▸ rfl, Prod.mk.inj hget⟩

/-- Two ways from `a` to `e`, the shorter one through the greater of the targets of `a`. -/
def shortcutEdges : List (GraphEdge String) :=
  [⟨"ac", "a", "c"⟩, ⟨"ce", "c", "e"⟩, ⟨"ab", "a", "b"⟩, ⟨"bd", "b", "d"⟩, ⟨"de", "d", "e"⟩]

def shortcutLevel (node : String) : Option ℕ :=
  if node = "a" then some 0
  else if node = "b" ∨ node = "c" then some 1
  else if node = "d" ∨ node = "e" then some 2
  else none

theorem shortcut_edge {x w : String} : (GraphAdjacency.fromEdges shortcutEdges).Edge x w ↔
    (x = "a" ∧ w = "c") ∨ (x = "c" ∧ w = "e") ∨ (x = "a" ∧ w = "b") ∨ (x = "b" ∧ w = "d") ∨
      (x = "d" ∧ w = "e") := by
  simp [edge_fromEdges, shortcutEdges, eq_comm]

theorem shortcut_distance (x : String) (n : ℕ) : shortcutLevel x = some n ↔
    IsDistance (GraphAdjacency.fromEdges shortcutEdges).Edge "a" x n := by
  have hb := Walk.single (shortcut_edge.mpr (.inr (.inr (.inl ⟨rfl, rfl⟩))))
  have hc := Walk.single (shortcut_edge.mpr (.inl ⟨rfl, rfl⟩))
  have hd := hb.snoc (shortcut_edge.mpr (.inr (.inr (.inr (.inl ⟨rfl, rfl⟩)))))
  have he := hc.snoc (shortcut_edge.mpr (.inr (.inl ⟨rfl, rfl⟩)))
  refine isDistance_of_closed (f := shortcutLevel) rfl (fun x n h => ?_) (fun x y n h hxy => ?_) x n
  · rw [shortcutLevel] at h
    split_ifs at h with h0 h1 h2
    · exact ⟨[], h0 ▸ .nil, Option.some.inj h⟩
    · rcases h1 with rfl | rfl
      · exact ⟨_, hb, Option.some.inj h⟩
      · exact ⟨_, hc, Option.some.inj h⟩
    · rcases h2 with rfl | rfl
      · exact ⟨_, hd, Option.some.inj h⟩
      · exact ⟨_, he, Option.some.inj h⟩
  · rcases shortcut_edge.mp hxy with ⟨rfl, rfl⟩ | ⟨rfl, rfl⟩ | ⟨rfl, rfl⟩ | ⟨rfl, rfl⟩ | ⟨rfl, rfl⟩
    all_goals
      cases h
      exact ⟨_, by decide, rfl⟩

theorem shortcut_foundInTime : FoundInTime (GraphAdjacency.fromEdges shortcutEdges) "a" 8 := by
  intro x w m n hxw _ hx _ hw hlt
  have hx := (shortcut_distance x m).mpr hx
  have hw := (shortcut_distance w (n + 1)).mpr hw
  rcases shortcut_edge.mp hxw with ⟨rfl, rfl⟩ | ⟨rfl, rfl⟩ | ⟨rfl, rfl⟩ | ⟨rfl, rfl⟩ | ⟨rfl, rfl⟩
  iterate 4
    cases hx
    cases hw
    omega
  cases hw
  have hc := (shortcut_distance "c" 1).mp rfl
  have hac := Walk.single (shortcut_edge.mpr (.inl ⟨rfl, rfl⟩))
  refine ⟨"c", shortcut_edge.mpr (.inr (.inl ⟨rfl, rfl⟩)), hc, ["c"],
    ⟨hac, fun q hq => hc.le hq⟩, fun q hq => ?_⟩
  -- The shortest ways to `d` go through `b`.
  have hlen := hq.length_eq_of ((shortcut_distance "d" 2).mp rfl)
  match q, hlen with
  | [u, v], _ =>
    obtain ⟨hau, huv⟩ := walk_cons_iff.mp hq.1
    obtain ⟨huv, hv⟩ := walk_cons_iff.mp huv
    obtain rfl := walk_nil_iff.mp hv
    have hu : u = "c" ∨ u = "b" := by simpa [shortcut_edge] using hau
    rcases hu with rfl | rfl
    · simp [shortcut_edge] at huv
    · exact .rel (by decide)

theorem graphReachableDistances_shortest_iff_shortcut : ∃ distances,
    graphReachableDistances (GraphAdjacency.fromEdges shortcutEdges) "a" 8 100 idleBudget 0 =
        .ok (distances, 5) ∧
      ShortestDistances (GraphAdjacency.fromEdges shortcutEdges) "a" 8 distances ∧
        ∀ targetNodes, NearestTarget (GraphAdjacency.fromEdges shortcutEdges) "a" 8 targetNodes
          (shortestTargetDistance distances targetNodes) := by
  have hrun : (graphReachableDistances (GraphAdjacency.fromEdges shortcutEdges) "a" 8 100
      idleBudget 0).toOption.any (fun result => result.2 = 5) = true := by decide +kernel
  obtain ⟨⟨distances, clock⟩, hrun, hclock⟩ := (Option.any_eq_true _ _).mp hrun
  obtain rfl : clock = 5 := of_decide_eq_true hclock
  exact ⟨distances, toOption_eq_some_iff.mp hrun, (graphReachableDistances_shortest_iff
    (fromEdges_normalized shortcutEdges) (toOption_eq_some_iff.mp hrun)).mpr shortcut_foundInTime⟩

/-- The search gives `e` the length of the longer way. -/
theorem detour_not_shortest : ∃ distances,
    graphReachableDistances (GraphAdjacency.fromEdges detourEdges) "a" 8 100 idleBudget 0 =
        .ok (distances, 5) ∧
      shortestTargetDistance distances (some {"e"}) = some 3 ∧
      Walk (GraphAdjacency.fromEdges detourEdges).Edge "a" ["b", "e"] "e" ∧
      ¬ ShortestDistances (GraphAdjacency.fromEdges detourEdges) "a" 8 distances := by
  obtain ⟨distances, hrun, hget, htarget⟩ := detour_ok
  have hab : (GraphAdjacency.fromEdges detourEdges).Edge "a" "b" :=
    edge_fromEdges.mpr ⟨⟨"ab", "a", "b"⟩, by simp [detourEdges], rfl, rfl⟩
  have hbe : (GraphAdjacency.fromEdges detourEdges).Edge "b" "e" :=
    edge_fromEdges.mpr ⟨⟨"be", "b", "e"⟩, by simp [detourEdges], rfl, rfl⟩
  have hwalk := (Walk.single hab).snoc hbe
  refine ⟨distances, hrun, htarget, hwalk, fun hdistances => ?_⟩
  have hle := ((hdistances "e" 3).mp hget).2.2.le hwalk
  simp at hle

end

end CoveFormat.ReachableDistances
