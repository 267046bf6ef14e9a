import CoveFormat.GraphAdjacency
import Mathlib.Algebra.BigOperators.Ring.Finset
import Mathlib.Data.Nat.Cast.Field
import Mathlib.Data.String.Basic
import Mathlib.Tactic.Linarith
import Mathlib.Tactic.Positivity

namespace CoveFormat.TriangleCounts

open Finset GraphAdjacencies GraphAdjacency

variable {α : Type} [LinearOrder α]

def secondHops (G : GraphAdjacency α) (neighborSet : Finset α) (neighbor : α) : ℕ :=
  match G.outgoing.get neighbor with
  | none => 0
  | some secondHop => (secondHop.filter (· ∈ neighborSet)).length

def triangleCountFor (G : GraphAdjacency α) (node : α) : ℕ :=
  match G.outgoing.get node with
  | none => 0
  | some neighbors =>
    let neighborSet := neighbors.toFinset
    neighbors.foldl (fun count neighbor => count + secondHops G neighborSet neighbor) 0 / 2

/-- The quotient of two doubles is read as the rational one. -/
def clusteringCoefficientFor (G : GraphAdjacency α) (node : α) : ℚ :=
  let degree := ((G.outgoing.get node).map List.length).getD 0
  if degree < 2 then 0
  else
    let triangles : ℚ := triangleCountFor G node
    let possible : ℚ := (degree * (degree - 1) / 2 : ℕ)
    triangles / possible

def otherNeighbours (G : GraphAdjacency α) (node : α) : Finset α :=
  (G.targets node).toFinset.erase node

section

variable (r : α → α → Prop) [DecidableRel r] (s : Finset α)

def joinedPairs : Finset (α × α) := (s ×ˢ s).filter fun p => p.1 < p.2 ∧ (r p.1 p.2 ∨ r p.2 p.1)

def oneWayPairs : Finset (α × α) := (s ×ˢ s).filter fun p => p.1 < p.2 ∧ (r p.1 p.2 ↔ ¬ r p.2 p.1)

def selfRelated : Finset α := s.filter fun a => r a a

end

/-- What the two functions are to give for a node. -/
structure CountsTriangles (G : GraphAdjacency α) (node : α) : Prop where
  count : triangleCountFor G node = (joinedPairs G.Edge (otherNeighbours G node)).card
  nonneg : 0 ≤ clusteringCoefficientFor G node
  le_one : clusteringCoefficientFor G node ≤ 1
  coefficient : clusteringCoefficientFor G node =
    (joinedPairs G.Edge (otherNeighbours G node)).card /
      ((otherNeighbours G node).card * ((otherNeighbours G node).card - 1) / 2)

section

variable {r : α → α → Prop} [DecidableRel r] {s : Finset α}

theorem card_swapped (r : α → α → Prop) [DecidableRel r] (s : Finset α) :
    ((s ×ˢ s).filter fun p => p.2 < p.1 ∧ r p.1 p.2).card =
      ((s ×ˢ s).filter fun p => p.1 < p.2 ∧ r p.2 p.1).card := by
  refine card_nbij' Prod.swap Prod.swap (fun p hp => ?_) (fun p hp => ?_) (fun _ _ => rfl) fun _ _ => rfl
  all_goals
    simp only [coe_filter, Set.mem_ofPred_eq, mem_product, Prod.fst_swap, Prod.snd_swap] at hp ⊢
    exact ⟨hp.1.symm, hp.2⟩

theorem card_diagonal (r : α → α → Prop) [DecidableRel r] (s : Finset α) :
    ((s ×ˢ s).filter fun p => p.1 = p.2 ∧ r p.1 p.2).card = (selfRelated r s).card := by
  refine card_nbij' Prod.fst (fun a => (a, a)) (fun p hp => ?_) (fun a ha => ?_) (fun p hp => ?_)
    fun _ _ => rfl
  · obtain ⟨hmem, heq, hr⟩ := mem_filter.mp hp
    exact mem_filter.mpr ⟨(mem_product.mp hmem).1, heq ▸ hr⟩
  · obtain ⟨hmem, hr⟩ := mem_filter.mp ha
    exact mem_filter.mpr ⟨mem_product.mpr ⟨hmem, hmem⟩, rfl, hr⟩
  · exact Prod.ext rfl (mem_filter.mp hp).2.1

/-- The ordered related pairs: a joined pair is seen from both ends, or from one only; a
self-relation is seen once. -/
theorem card_related (r : α → α → Prop) [DecidableRel r] (s : Finset α) :
    ((s ×ˢ s).filter fun p => r p.1 p.2).card + (oneWayPairs r s).card =
      2 * (joinedPairs r s).card + (selfRelated r s).card := by
  have hsplit : ((s ×ˢ s).filter fun p => r p.1 p.2).card =
      ((s ×ˢ s).filter fun p => p.1 < p.2 ∧ r p.1 p.2).card +
        ((s ×ˢ s).filter fun p => p.2 < p.1 ∧ r p.1 p.2).card +
        ((s ×ˢ s).filter fun p => p.1 = p.2 ∧ r p.1 p.2).card := by
    simp only [card_filter, ← sum_add_distrib]
    refine sum_congr rfl fun p _ => ?_
    rcases lt_trichotomy p.1 p.2 with h | h | h
    · simp [h, h.not_gt, h.ne]
    · simp [h]
    · simp [h, h.not_gt, h.ne']
  have hjoined : ((s ×ˢ s).filter fun p => p.1 < p.2 ∧ r p.1 p.2).card +
      ((s ×ˢ s).filter fun p => p.1 < p.2 ∧ r p.2 p.1).card + (oneWayPairs r s).card =
        2 * (joinedPairs r s).card := by
    simp only [oneWayPairs, joinedPairs, card_filter, ← sum_add_distrib, mul_sum]
    refine sum_congr rfl fun p _ => ?_
    by_cases hlt : p.1 < p.2 <;> by_cases hto : r p.1 p.2 <;> by_cases hback : r p.2 p.1 <;>
      simp [hlt, hto, hback]
  rw [hsplit, card_swapped, card_diagonal]
  omega

theorem card_joinedPairs_le (r : α → α → Prop) [DecidableRel r] (s : Finset α) :
    2 * (joinedPairs r s).card ≤ s.card * (s.card - 1) := by
  have hall := card_related (fun _ _ => True) s
  have hnone : oneWayPairs (fun _ _ : α => True) s = ∅ := by simp [oneWayPairs]
  have hself : selfRelated (fun _ _ : α => True) s = s := filter_true_of_mem fun _ _ => trivial
  rw [hnone, hself, filter_true_of_mem fun _ _ => trivial, card_product, card_empty] at hall
  have hle : (joinedPairs r s).card ≤ (joinedPairs (fun _ _ => True) s).card :=
    card_le_card (monotone_filter_right _ fun p _ hp => ⟨hp.1, .inl trivial⟩)
  rw [Nat.mul_sub_one]
  omega

end

section

variable {G : GraphAdjacency α} {node : α} {neighborSet : Finset α}

theorem secondHops_eq (hsorted : ∀ node, (G.targets node).Pairwise (· < ·)) (neighbor : α) :
    secondHops G neighborSet neighbor = (neighborSet.filter (G.Edge neighbor)).card := by
  have hhops : secondHops G neighborSet neighbor =
      ((G.targets neighbor).filter (· ∈ neighborSet)).length := by
    rw [secondHops, targets]
    cases G.outgoing.get neighbor <;> rfl
  rw [hhops, ← List.toFinset_card_of_nodup (((hsorted neighbor).imp ne_of_lt).filter _)]
  congr 1
  ext a
  rw [List.mem_toFinset, List.mem_filter, mem_filter, decide_eq_true_iff, and_comm]
  rfl

theorem triangleCountFor_eq (hsorted : ∀ node, (G.targets node).Pairwise (· < ·)) (node : α) :
    triangleCountFor G node =
      (((G.targets node).toFinset ×ˢ (G.targets node).toFinset).filter fun p =>
        G.Edge p.1 p.2).card / 2 := by
  have hcount : triangleCountFor G node = ((G.targets node).map
      (secondHops G (G.targets node).toFinset)).sum / 2 := by
    rw [triangleCountFor, targets]
    cases G.outgoing.get node with
    | none => simp
    | some neighbors =>
      dsimp only [Option.getD_some]
      rw [List.sum_eq_foldl, List.foldl_map]
  rw [hcount, ← List.sum_toFinset _ ((hsorted node).imp ne_of_lt), card_filter, sum_product]
  congr 1
  refine sum_congr rfl fun neighbor _ => ?_
  rw [secondHops_eq hsorted, card_filter]

theorem clusteringCoefficientFor_eq (hsorted : ∀ node, (G.targets node).Pairwise (· < ·))
    (node : α) : clusteringCoefficientFor G node =
      if (G.targets node).toFinset.card < 2 then 0
      else (triangleCountFor G node : ℚ) /
        ((G.targets node).toFinset.card * ((G.targets node).toFinset.card - 1) / 2) := by
  have hdegree : ((G.outgoing.get node).map List.length).getD 0 =
      (G.targets node).toFinset.card := by
    rw [List.toFinset_card_of_nodup ((hsorted node).imp ne_of_lt), targets]
    cases G.outgoing.get node <;> rfl
  rw [clusteringCoefficientFor, hdegree]
  generalize (G.targets node).toFinset.card = degree
  by_cases hsmall : degree < 2
  · simp [hsmall]
  · have heven : 2 ∣ degree * (degree - 1) := (Nat.even_mul_pred_self degree).two_dvd
    rw [if_neg hsmall, if_neg hsmall, Nat.cast_div heven two_ne_zero, Nat.cast_mul,
      Nat.cast_pred (by omega), Nat.cast_ofNat]

theorem coefficient_eq {triangles degree : ℕ} (hle : 2 * triangles ≤ degree * (degree - 1)) :
    (if degree < 2 then 0 else (triangles : ℚ) / (degree * (degree - 1) / 2)) =
      triangles / (degree * (degree - 1) / 2) := by
  by_cases hsmall : degree < 2
  · obtain rfl | rfl : degree = 0 ∨ degree = 1 := by omega
    · simp
    · simp
  · rw [if_neg hsmall]

theorem coefficient_bounds {triangles degree : ℕ} (hle : 2 * triangles ≤ degree * (degree - 1)) :
    0 ≤ (triangles : ℚ) / (degree * (degree - 1) / 2) ∧
      (triangles : ℚ) / (degree * (degree - 1) / 2) ≤ 1 := by
  cases degree with
  | zero => simp
  | succ d =>
    have hcast : (2 : ℚ) * triangles ≤ (d + 1) * d := by exact_mod_cast hle
    rw [Nat.cast_add_one, add_sub_cancel_right]
    have hpairs : (0 : ℚ) ≤ (d + 1) * d / 2 := by positivity
    exact ⟨by positivity, div_le_one_of_le₀ (by linarith) hpairs⟩

theorem countsTriangles_of_count (hsorted : ∀ node, (G.targets node).Pairwise (· < ·))
    (hothers : otherNeighbours G node = (G.targets node).toFinset)
    (hcount : triangleCountFor G node =
      (joinedPairs G.Edge (otherNeighbours G node)).card) :
    CountsTriangles G node := by
  have hle := card_joinedPairs_le G.Edge (otherNeighbours G node)
  have hcoefficient := clusteringCoefficientFor_eq hsorted node
  rw [← hothers, hcount, coefficient_eq hle] at hcoefficient
  exact ⟨hcount, hcoefficient ▸ (coefficient_bounds hle).1, hcoefficient ▸ (coefficient_bounds hle).2,
    hcoefficient⟩

theorem eq_of_div_eq {a b c : ℚ} (ha : a ≠ 0) (h : a / b = a / c) : b = c := by
  exact inv_injective (mul_left_cancel₀ ha h)

theorem not_countsTriangles (hsorted : ∀ node, (G.targets node).Pairwise (· < ·))
    (hself : node ∈ G.targets node) (hne : G.targets node ≠ [node]) :
    ¬ CountsTriangles G node := by
  intro h
  have hnodup := (hsorted node).imp ne_of_lt
  set neighbours := (G.targets node).toFinset with hneighbours
  have htwo : 2 ≤ neighbours.card := by
    rw [hneighbours, List.toFinset_card_of_nodup hnodup]
    match htargets : G.targets node with
    | [] => simp [htargets] at hself
    | [a] =>
      rw [htargets] at hself hne
      exact absurd (congrArg (fun a => [a]) (List.mem_singleton.mp hself).symm) hne
    | a :: b :: rest => simp
  have hpairs : neighbours.card ≤ ((neighbours ×ˢ neighbours).filter fun p =>
      G.Edge p.1 p.2).card := by
    rw [← one_mul neighbours.card, ← card_singleton node, ← card_product]
    refine card_le_card fun p hp => ?_
    obtain ⟨hnode, htarget⟩ := mem_product.mp hp
    have hedge : G.Edge p.1 p.2 := mem_singleton.mp hnode ▸ List.mem_toFinset.mp htarget
    exact mem_filter.mpr
      ⟨mem_product.mpr ⟨mem_singleton.mp hnode ▸ List.mem_toFinset.mpr hself, htarget⟩, hedge⟩
  have hothers : (otherNeighbours G node).card + 1 = neighbours.card :=
    card_erase_add_one (List.mem_toFinset.mpr hself)
  have hcount := h.count
  have hcoefficient := h.coefficient
  rw [clusteringCoefficientFor_eq hsorted, ← hneighbours, if_neg (by omega), hcount] at hcoefficient
  rw [triangleCountFor_eq hsorted, ← hneighbours] at hcount
  rw [← hothers] at hcoefficient
  generalize (otherNeighbours G node).card = d at *
  have hpositive : ((joinedPairs G.Edge (otherNeighbours G node)).card : ℚ) ≠ 0 :=
    Nat.cast_ne_zero.mpr (by omega)
  -- the same count over different numbers of pairs
  have hsame := eq_of_div_eq hpositive hcoefficient
  have hd : (0 : ℚ) < d := Nat.cast_pos.mpr (by omega)
  rw [Nat.cast_add_one] at hsame
  linarith

/-- The count and the coefficient are those of the graph exactly for a node whose only neighbour is
itself, and for one that is no neighbour of its own and around which as many neighbours lead to
themselves as there are pairs joined one way only, or one more. -/
theorem countsTriangles_iff (hsorted : ∀ node, (G.targets node).Pairwise (· < ·)) (node : α) :
    CountsTriangles G node ↔
      (node ∈ G.targets node → G.targets node = [node]) ∧
      (oneWayPairs G.Edge (otherNeighbours G node)).card ≤
        (selfRelated G.Edge (otherNeighbours G node)).card ∧
      (selfRelated G.Edge (otherNeighbours G node)).card ≤
        (oneWayPairs G.Edge (otherNeighbours G node)).card + 1 := by
  by_cases hself : node ∈ G.targets node
  · by_cases heq : G.targets node = [node]
    · have hnone : otherNeighbours G node = ∅ := by simp [otherNeighbours, heq]
      have hcount : triangleCountFor G node = 0 := by
        rw [triangleCountFor_eq hsorted, heq]
        refine Nat.div_eq_of_lt ((card_filter_le _ _).trans_lt ?_)
        simp
      have hcoefficient : clusteringCoefficientFor G node = 0 := by
        rw [clusteringCoefficientFor_eq hsorted, heq]
        simp
      refine iff_of_true ⟨?_, hcoefficient.ge, ?_, ?_⟩ ⟨fun _ => heq, ?_, ?_⟩
      · simp [hcount, hnone, joinedPairs]
      · simp [hcoefficient]
      · simp [hcoefficient, hnone, joinedPairs]
      · simp [hnone, oneWayPairs]
      · simp [hnone, selfRelated]
    · exact iff_of_false (not_countsTriangles hsorted hself heq) fun h => heq (h.1 hself)
  · have hothers : otherNeighbours G node = (G.targets node).toFinset :=
      erase_eq_of_notMem fun hmem => hself (List.mem_toFinset.mp hmem)
    have hpairs := card_related G.Edge (otherNeighbours G node)
    have hcount := triangleCountFor_eq hsorted node
    rw [← hothers] at hcount
    constructor
    · intro h
      have := h.count
      exact ⟨fun hmem => absurd hmem hself, by omega, by omega⟩
    · rintro ⟨-, hlow, hhigh⟩
      exact countsTriangles_of_count hsorted hothers (by omega)

/-- Two neighbours of `n` with an edge between them, either one way or both. -/
def triangleEdges (bothWays : Bool) : List (GraphEdge String) :=
  [⟨"na", "n", "a"⟩, ⟨"nb", "n", "b"⟩, ⟨"ab", "a", "b"⟩] ++ if bothWays then [⟨"ba", "b", "a"⟩] else []

theorem countsTriangles_iff_mutual :
    CountsTriangles (GraphAdjacency.fromEdges (triangleEdges true)) "n" :=
  (countsTriangles_iff (fromEdges_normalized (triangleEdges true)).targets_sorted "n").mpr
    ⟨by decide +kernel, by decide +kernel, by decide +kernel⟩

/-- An edge one way makes the half of one. -/
theorem oneWay_not_counted :
    (∀ node, ((GraphAdjacency.fromEdges (triangleEdges false)).targets node).Pairwise (· < ·)) ∧
      triangleCountFor (GraphAdjacency.fromEdges (triangleEdges false)) "n" = 0 ∧
      (joinedPairs (GraphAdjacency.fromEdges (triangleEdges false)).Edge
        (otherNeighbours (GraphAdjacency.fromEdges (triangleEdges false)) "n")).card = 1 ∧
      ¬ CountsTriangles (GraphAdjacency.fromEdges (triangleEdges false)) "n" := by
  have hcode : triangleCountFor (GraphAdjacency.fromEdges (triangleEdges false)) "n" = 0 := by
    decide +kernel
  have hgraph : (joinedPairs (GraphAdjacency.fromEdges (triangleEdges false)).Edge
      (otherNeighbours (GraphAdjacency.fromEdges (triangleEdges false)) "n")).card = 1 := by
    decide +kernel
  refine ⟨(fromEdges_normalized _).targets_sorted, hcode, hgraph, fun h => ?_⟩
  have hcount := h.count
  rw [hcode, hgraph] at hcount
  cases hcount

end

end CoveFormat.TriangleCounts
