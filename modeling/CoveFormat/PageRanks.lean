import CoveFormat.GraphAdjacency
import Mathlib.Algebra.BigOperators.Ring.Finset
import Mathlib.Data.String.Basic
import Mathlib.Tactic.FieldSimp
import Mathlib.Tactic.Linarith
import Mathlib.Tactic.Positivity
import Mathlib.Tactic.Ring

namespace CoveFormat.PageRanks

open GraphAdjacencies GraphAdjacency List OrderedMaps OrderedSets

variable {base share : ℚ}

variable {α : Type} [LinearOrder α]

def damping : ℚ := 17 / 20

def scoreOf (scores : OrderedMap α ℚ) (node : α) : ℚ := (scores.get node).getD 0

/-- The scores of the next iteration while the nodes hand on theirs, and what the nodes that lead
nowhere keep. -/
structure Spread (α : Type) [LinearOrder α] where
  next : OrderedMap α ℚ
  sinkScore : ℚ

def spread (G : GraphAdjacency α) (nodes : OrderedSet α) (base : ℚ) (scores : OrderedMap α ℚ)
    (s : Spread α) (node : α) : Spread α :=
  let score := scoreOf scores node
  let outgoing := (G.targets node).filter (· ∈ nodes)
  if outgoing.isEmpty then ⟨s.next, s.sinkScore + score⟩
  else
    let share := damping * score / outgoing.length
    ⟨outgoing.foldl (fun next target => next.entryOr target base (· + share)) s.next, s.sinkScore⟩

def nextScores (G : GraphAdjacency α) (nodes : OrderedSet α) (scores : OrderedMap α ℚ) :
    OrderedMap α ℚ :=
  let base := (1 - damping) / nodes.elems.length
  let s := nodes.elems.foldl (spread G nodes base scores) ⟨.fill nodes fun _ => base, 0⟩
  if 0 < s.sinkScore then
    let share := damping * s.sinkScore / nodes.elems.length
    s.next.mapValues (· + share)
  else s.next

def scoreDelta (nodes : OrderedSet α) (next scores : OrderedMap α ℚ) : ℚ :=
  (nodes.elems.map fun node => |scoreOf next node - scoreOf scores node|).sum

def iterateScores (G : GraphAdjacency α) (nodes : OrderedSet α) (tolerance : ℚ) :
    ℕ → OrderedMap α ℚ → OrderedMap α ℚ
  | 0, scores => scores
  | iterations + 1, scores =>
    let next := nextScores G nodes scores
    if scoreDelta nodes next scores ≤ tolerance then next
    else iterateScores G nodes tolerance iterations next

def graphPagerankScores (G : GraphAdjacency α) (nodes : OrderedSet α)
    (spec : GraphAlgorithmSpec) : OrderedMap α ℚ :=
  if nodes.elems.length = 0 then .empty
  else iterateScores G nodes spec.tolerance spec.maxIterations
    (.fill nodes fun _ => 1 / nodes.elems.length)

section

variable {nodes : OrderedSet α} {m : OrderedMap α ℚ} {key other : α}

/-- The map has a score for each of the nodes, and for no other. -/
def Scores (nodes : OrderedSet α) (m : OrderedMap α ℚ) : Prop := ∀ node, (m.get node).isSome ↔ node ∈ nodes

def mass (nodes : OrderedSet α) (m : OrderedMap α ℚ) : ℚ := ∑ node ∈ nodes.toFinset, scoreOf m node

theorem Scores.keys_eq (h : Scores nodes m) : m.keys = nodes.elems :=
  List.Pairwise.eq_of_mem_iff m.sorted nodes.sorted fun node => OrderedMap.mem_keys_iff.trans (h node)

theorem Scores.sum_values (h : Scores nodes m) : m.values.sum = mass nodes m := by
  have hsum := GraphAdjacencies.sum_values m id
  rw [map_id] at hsum
  rw [hsum, h.keys_eq, mass]
  refine Finset.sum_congr ?_ fun node _ => ?_
  · ext node
    rw [List.mem_toFinset, OrderedSet.mem_toFinset, OrderedSet.mem_def]
  · rw [Option.map_id, scoreOf]
    rfl

theorem scores_fill (nodes : OrderedSet α) (f : α → ℚ) : Scores nodes (.fill nodes f) := by
  intro node
  rw [OrderedMap.get_fill]
  split <;> simp [*]

theorem scoreOf_fill {f : α → ℚ} (h : key ∈ nodes) : scoreOf (.fill nodes f) key = f key := by
  rw [scoreOf, OrderedMap.get_fill, if_pos h, Option.getD_some]

variable (h : Scores nodes m)
include h

theorem Scores.entryOr (hkey : key ∈ nodes) : Scores nodes (m.entryOr key base (· + share)) := by
  intro node
  rw [OrderedMap.get_entryOr]
  split
  · rename_i heq
    simp [← heq, hkey]
  · exact h node

theorem scoreOf_entryOr (hkey : key ∈ nodes) :
    scoreOf (m.entryOr key base (· + share)) other = scoreOf m other + if key = other then share else 0 := by
  rw [scoreOf, OrderedMap.get_entryOr]
  by_cases heq : key = other
  · obtain ⟨score, hscore⟩ := Option.isSome_iff_exists.mp ((h key).mpr hkey)
    simp [← heq, scoreOf, hscore]
  · simp [heq, scoreOf]

theorem Scores.mapValues (f : ℚ → ℚ) : Scores nodes (m.mapValues f) := by
  intro node
  rw [OrderedMap.get_mapValues, Option.isSome_map]
  exact h node

theorem scoreOf_mapValues (hkey : key ∈ nodes) (f : ℚ → ℚ) :
    scoreOf (m.mapValues f) key = f (scoreOf m key) := by
  obtain ⟨score, hscore⟩ := Option.isSome_iff_exists.mp ((h key).mpr hkey)
  simp [scoreOf, OrderedMap.get_mapValues, hscore]

end

section

variable {G : GraphAdjacency α} {nodes : OrderedSet α} {m scores : OrderedMap α ℚ} {s : Spread α}
  {node : α} {targets rest : List α}

theorem mass_shares (h : Scores nodes m) (htargets : ∀ target ∈ targets, target ∈ nodes)
    (hshare : 0 ≤ share) :
    Scores nodes (targets.foldl (fun next target => next.entryOr target base (· + share)) m) ∧
      (∀ k, scoreOf m k ≤
        scoreOf (targets.foldl (fun next target => next.entryOr target base (· + share)) m) k) ∧
      mass nodes (targets.foldl (fun next target => next.entryOr target base (· + share)) m) =
        mass nodes m + targets.length * share := by
  induction targets generalizing m with
  | nil => exact ⟨h, fun _ => le_rfl, by simp⟩
  | cons target targets ih =>
    obtain ⟨htarget, hrest⟩ := forall_mem_cons.mp htargets
    have hscore : ∀ k, scoreOf (m.entryOr target base (· + share)) k =
        scoreOf m k + if target = k then share else 0 := fun _ => scoreOf_entryOr h htarget
    have hmass : mass nodes (m.entryOr target base (· + share)) = mass nodes m + share := by
      simp only [mass, hscore, Finset.sum_add_distrib]
      rw [Finset.sum_ite_eq, if_pos (OrderedSet.mem_toFinset.mpr htarget)]
    obtain ⟨hscores, hle, heq⟩ := ih (h.entryOr htarget) hrest
    refine ⟨hscores, fun k => le_trans ?_ (hle k), ?_⟩
    · rw [hscore]
      split
      · linarith
      · linarith
    · rw [foldl_cons, heq, hmass, length_cons, Nat.cast_add_one]
      ring

/-- How an iteration stands while the nodes hand on their scores. -/
structure Spreading (nodes : OrderedSet α) (base : ℚ) (s : Spread α) : Prop where
  scores : Scores nodes s.next
  lower : ∀ k ∈ nodes, base ≤ scoreOf s.next k
  sink : 0 ≤ s.sinkScore

def Spread.total (nodes : OrderedSet α) (s : Spread α) : ℚ := mass nodes s.next + damping * s.sinkScore

theorem Spreading.spread (G : GraphAdjacency α) (h : Spreading nodes base s)
    (hscore : 0 ≤ scoreOf scores node) :
    Spreading nodes base (spread G nodes base scores s node) ∧
      (spread G nodes base scores s node).total nodes =
        s.total nodes + damping * scoreOf scores node := by
  rw [PageRanks.spread]
  dsimp only
  split
  · refine ⟨⟨h.scores, h.lower, add_nonneg h.sink hscore⟩, ?_⟩
    simp only [Spread.total]
    ring
  · rename_i hsome
    set outgoing := (G.targets node).filter (· ∈ nodes) with houtgoing
    have hlength : (outgoing.length : ℚ) ≠ 0 := by
      rw [Nat.cast_ne_zero]
      exact fun hzero => hsome (isEmpty_iff_length_eq_zero.mpr hzero)
    have hshare : 0 ≤ damping * scoreOf scores node / outgoing.length := by
      rw [damping]
      positivity
    have hmem : ∀ target ∈ outgoing, target ∈ nodes := fun target htarget =>
      of_decide_eq_true (mem_filter.mp htarget).2
    obtain ⟨hscores, hle, hmass⟩ := mass_shares h.scores hmem hshare
    refine ⟨⟨hscores, fun k hk => (h.lower k hk).trans (hle k), h.sink⟩, ?_⟩
    simp only [Spread.total, hmass]
    rw [mul_div_cancel₀ _ hlength]
    ring

theorem Spreading.spreadAll (G : GraphAdjacency α) (h : Spreading nodes base s)
    (hscore : ∀ k ∈ rest, 0 ≤ scoreOf scores k) :
    Spreading nodes base (rest.foldl (PageRanks.spread G nodes base scores) s) ∧
      (rest.foldl (PageRanks.spread G nodes base scores) s).total nodes =
        s.total nodes + damping * (rest.map (scoreOf scores)).sum := by
  induction rest generalizing s with
  | nil => exact ⟨h, by simp⟩
  | cons node rest ih =>
    obtain ⟨hnode, hrest⟩ := forall_mem_cons.mp hscore
    obtain ⟨hstep, htotal⟩ := h.spread G hnode
    obtain ⟨hall, heq⟩ := ih hstep hrest
    refine ⟨hall, ?_⟩
    rw [foldl_cons, heq, htotal, map_cons, sum_cons]
    ring

/-- What every iteration keeps. -/
structure Distribution (nodes : OrderedSet α) (m : OrderedMap α ℚ) : Prop where
  scores : Scores nodes m
  nonneg : ∀ node ∈ nodes, 0 ≤ scoreOf m node
  mass_one : mass nodes m = 1

theorem mass_fill (nodes : OrderedSet α) (value : ℚ) :
    mass nodes (.fill nodes fun _ => value) = nodes.elems.length * value := by
  rw [mass, Finset.sum_congr rfl fun node hnode => scoreOf_fill (OrderedSet.mem_toFinset.mp hnode),
    Finset.sum_const, OrderedSet.card_toFinset, nsmul_eq_mul]

theorem mass_eq_sum (nodes : OrderedSet α) (m : OrderedMap α ℚ) :
    (nodes.elems.map (scoreOf m)).sum = mass nodes m := rfl

/-- The mass goes three ways in an iteration: as the base of every score, in shares along the edges,
and from the sinks to all nodes. -/
theorem nextScores_distribution (G : GraphAdjacency α) (hnodes : nodes.elems.length ≠ 0)
    (h : Distribution nodes scores) :
    Distribution nodes (nextScores G nodes scores) ∧
      ∀ node ∈ nodes, (1 - damping) / nodes.elems.length ≤ scoreOf (nextScores G nodes scores) node := by
  have hcount : (nodes.elems.length : ℚ) ≠ 0 := Nat.cast_ne_zero.mpr hnodes
  have hbase : 0 ≤ (1 - damping) / nodes.elems.length := by
    rw [damping]
    positivity
  rw [nextScores]
  set base := (1 - damping) / (nodes.elems.length : ℚ) with hbaseEq
  set s := nodes.elems.foldl (spread G nodes base scores) ⟨.fill nodes fun _ => base, 0⟩ with hs
  have hstart : Spreading nodes base ⟨.fill nodes fun _ => base, 0⟩ :=
    ⟨scores_fill nodes _, fun k hk => (scoreOf_fill hk).ge, le_rfl⟩
  obtain ⟨hspread, htotal⟩ := hstart.spreadAll G h.nonneg
  rw [← hs, mass_eq_sum, h.mass_one, Spread.total, Spread.total, mass_fill, hbaseEq,
    mul_div_cancel₀ _ hcount] at htotal
  have hone : mass nodes s.next + damping * s.sinkScore = 1 := by linarith
  suffices hnext : ∀ m, Scores nodes m → (∀ node ∈ nodes, base ≤ scoreOf m node) → mass nodes m = 1 →
      Distribution nodes m ∧ ∀ node ∈ nodes, base ≤ scoreOf m node by
    split
    · rename_i hsink
      have hshare : 0 ≤ damping * s.sinkScore / nodes.elems.length := by
        rw [damping]
        positivity
      refine hnext _ (hspread.scores.mapValues _) (fun node hnode => ?_) ?_
      · rw [scoreOf_mapValues hspread.scores hnode]
        have := hspread.lower node hnode
        linarith
      · rw [mass, Finset.sum_congr rfl fun node hnode =>
            scoreOf_mapValues hspread.scores (OrderedSet.mem_toFinset.mp hnode) _,
          Finset.sum_add_distrib, Finset.sum_const, OrderedSet.card_toFinset, nsmul_eq_mul,
          mul_div_cancel₀ _ hcount]
        exact hone
    · rename_i hsink
      have hzero : s.sinkScore = 0 := le_antisymm (not_lt.mp hsink) hspread.sink
      rw [hzero, mul_zero, add_zero] at hone
      exact hnext _ hspread.scores hspread.lower hone
  exact fun m hm hlower hmass => ⟨⟨hm, fun node hnode => hbase.trans (hlower node hnode), hmass⟩, hlower⟩

theorem iterateScores_distribution (G : GraphAdjacency α) (hnodes : nodes.elems.length ≠ 0)
    (tolerance : ℚ) (iterations : ℕ) (h : Distribution nodes scores) :
    Distribution nodes (iterateScores G nodes tolerance iterations scores) ∧
      (0 < iterations → ∀ node ∈ nodes, (1 - damping) / nodes.elems.length ≤
        scoreOf (iterateScores G nodes tolerance iterations scores) node) := by
  induction iterations generalizing scores with
  | zero => exact ⟨h, fun hpositive => absurd hpositive (Nat.lt_irrefl 0)⟩
  | succ iterations ih =>
    obtain ⟨hnext, hlower⟩ := nextScores_distribution G hnodes h
    rw [iterateScores]
    split
    · exact ⟨hnext, fun _ => hlower⟩
    · obtain ⟨hlast, hlast'⟩ := ih hnext
      refine ⟨hlast, fun _ => ?_⟩
      rcases Nat.eq_zero_or_pos iterations with rfl | hpositive
      · exact hlower
      · exact hlast' hpositive

end

section

variable {nodes : OrderedSet α}

/-- The scores are those of the given nodes; they add up to one, and after at least one iteration
none is below the base share. -/
theorem graphPagerankScores_mass (G : GraphAdjacency α) (hnodes : nodes.elems ≠ [])
    (spec : GraphAlgorithmSpec) :
    (graphPagerankScores G nodes spec).keys = nodes.elems ∧
      (graphPagerankScores G nodes spec).values.sum = 1 ∧
      (0 < spec.maxIterations → ∀ score ∈ (graphPagerankScores G nodes spec).values,
        (1 - damping) / nodes.elems.length ≤ score) := by
  have hcount : nodes.elems.length ≠ 0 := fun hzero => hnodes (length_eq_zero_iff.mp hzero)
  have hcast : (nodes.elems.length : ℚ) ≠ 0 := Nat.cast_ne_zero.mpr hcount
  have hstart : Distribution nodes (.fill nodes fun _ => (1 : ℚ) / nodes.elems.length) := by
    refine ⟨scores_fill nodes _, fun node hnode => ?_, ?_⟩
    · rw [scoreOf_fill hnode]
      positivity
    · rw [mass_fill, mul_div_cancel₀ _ hcast]
  rw [graphPagerankScores, if_neg hcount]
  obtain ⟨h, hlower⟩ := iterateScores_distribution G hcount spec.tolerance spec.maxIterations hstart
  refine ⟨h.scores.keys_eq, h.scores.sum_values.trans h.mass_one, fun hpositive score hscore => ?_⟩
  obtain ⟨⟨node, value⟩, hentry, rfl⟩ := mem_map.mp hscore
  have hget := OrderedMap.mem_entries_iff.mp hentry
  have hnode : node ∈ nodes := (h.scores node).mp (Option.isSome_iff_exists.mpr ⟨value, hget⟩)
  have := hlower hpositive node hnode
  rwa [scoreOf, hget, Option.getD_some] at this

def sinkEdges : List (GraphEdge String) :=
  [⟨"ab", "a", "b"⟩, ⟨"ac", "a", "c"⟩, ⟨"aa", "a", "a"⟩, ⟨"cd", "c", "d"⟩, ⟨"ca", "c", "a"⟩]

theorem graphPagerankScores_mass_sink :
    (graphPagerankScores (GraphAdjacency.fromEdges sinkEdges) ⟨["a", "b", "c"], by decide +kernel⟩
      ⟨.pageRank, "", 8, 100, 20, 0⟩).values.sum = 1 :=
  (@graphPagerankScores_mass _ _ ⟨["a", "b", "c"], by decide +kernel⟩
    (GraphAdjacency.fromEdges sinkEdges) (cons_ne_nil _ _) ⟨.pageRank, "", 8, 100, 20, 0⟩).2.1

end

end CoveFormat.PageRanks
