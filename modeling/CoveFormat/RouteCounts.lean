import CoveFormat.DirectedWalks
import Mathlib.Algebra.BigOperators.Field
import Mathlib.Algebra.BigOperators.Group.Finset.Sigma
import Mathlib.Data.Rat.Cast.Order
import Mathlib.Data.Set.Finite.Lattice
import Mathlib.Tactic.Ring

namespace CoveFormat.RouteCounts

open DirectedWalks List

variable {α : Type}

/-- Steps that go up one level each, among finitely many nodes. -/
structure Layering (α : Type) where
  step : α → α → Prop
  known : Finset α
  rank : α → ℕ
  mem : ∀ {u w}, step u w → u ∈ known ∧ w ∈ known
  rank_step : ∀ {u w}, step u w → rank w = rank u + 1

variable {D : Layering α} {s t u v w : α} {p q : List α}

namespace Layering

theorem rank_eq (h : Walk D.step v q t) : D.rank t = D.rank v + q.length := by
  induction h with
  | nil => rfl
  | snoc _ hstep ih =>
    rw [D.rank_step hstep, ih, length_append, length_singleton]
    rfl

theorem routes_finite (D : Layering α) (v t : α) : {q | Walk D.step v q t}.Finite := by
  generalize hn : D.rank t = n
  induction n generalizing t with
  | zero =>
    refine (Set.finite_singleton []).subset fun q hq => ?_
    have := rank_eq hq
    exact length_eq_zero_iff.mp (by omega)
  | succ n ih =>
    have hlast : (⋃ u ∈ {u | u ∈ D.known ∧ D.rank u = n}, (· ++ [t]) '' {q | Walk D.step v q u}).Finite :=
      (D.known.finite_toSet.subset fun u hu => hu.1).biUnion fun u hu => (ih u hu.2).image _
    refine ((Set.finite_singleton []).union hlast).subset fun q hq => ?_
    cases hq with
    | nil => exact .inl rfl
    | snoc h hstep =>
      have := D.rank_step hstep
      exact .inr (Set.mem_biUnion (x := _) ⟨(D.mem hstep).1, by omega⟩ ⟨_, h, rfl⟩)

noncomputable def routes (D : Layering α) (v t : α) : Finset (List α) := (D.routes_finite v t).toFinset

@[simp] theorem mem_routes : q ∈ D.routes v t ↔ Walk D.step v q t := (D.routes_finite v t).mem_toFinset

noncomputable def count (D : Layering α) (v t : α) : ℕ := (D.routes v t).card

theorem count_eq_zero (h : D.rank t ≤ D.rank v) (hne : v ≠ t) : D.count v t = 0 := by
  refine Finset.card_eq_zero.mpr (Finset.eq_empty_of_forall_notMem fun q hq => ?_)
  have hwalk := mem_routes.mp hq
  have hrank := rank_eq hwalk
  obtain rfl : q = [] := length_eq_zero_iff.mp (by omega)
  exact hne (walk_nil_iff.mp hwalk)

theorem count_self (D : Layering α) (v : α) : D.count v v = 1 := by
  refine Finset.card_eq_one.mpr ⟨[], Finset.ext fun q => ?_⟩
  rw [mem_routes, Finset.mem_singleton]
  constructor
  · intro hq
    have := rank_eq hq
    exact length_eq_zero_iff.mp (by omega)
  · rintro rfl
    exact .nil

theorem count_ne_zero_iff : D.count v t ≠ 0 ↔ ∃ q, Walk D.step v q t := by
  rw [count, Finset.card_ne_zero]
  exact exists_congr fun q => mem_routes

theorem count_last (hne : v ≠ t) {us : Finset α} (hus : ∀ u, u ∈ us ↔ D.step u t) :
    D.count v t = ∑ u ∈ us, D.count v u := by
  classical
  have hroutes : D.routes v t = us.biUnion fun u => (D.routes v u).image (· ++ [t]) := by
    ext q
    simp only [mem_routes, Finset.mem_biUnion, Finset.mem_image, hus]
    constructor
    · intro hq
      cases hq with
      | nil => exact absurd rfl hne
      | snoc h hstep => exact ⟨_, hstep, _, h, rfl⟩
    · rintro ⟨u, hstep, p, hp, rfl⟩
      exact hp.snoc hstep
  rw [count, hroutes, Finset.card_biUnion]
  · exact Finset.sum_congr rfl fun u _ => Finset.card_image_of_injective _ (append_left_injective _)
  · intro u _ u' _ hu
    refine Finset.disjoint_left.mpr fun q hq hq' => ?_
    obtain ⟨p, hp, rfl⟩ := Finset.mem_image.mp hq
    obtain ⟨p', hp', heq⟩ := Finset.mem_image.mp hq'
    obtain rfl := append_left_injective _ heq
    exact hu ((mem_routes.mp hp).end_unique (mem_routes.mp hp'))

theorem count_first (hne : v ≠ t) {ws : Finset α} (hws : ∀ w, w ∈ ws ↔ D.step v w) :
    D.count v t = ∑ w ∈ ws, D.count w t := by
  classical
  have hroutes : D.routes v t = ws.biUnion fun w => (D.routes w t).image (w :: ·) := by
    ext q
    simp only [mem_routes, Finset.mem_biUnion, Finset.mem_image, hws]
    constructor
    · intro hq
      cases q with
      | nil => exact absurd (walk_nil_iff.mp hq) hne
      | cons w q =>
        obtain ⟨hstep, hrest⟩ := walk_cons_iff.mp hq
        exact ⟨w, hstep, q, hrest, rfl⟩
    · rintro ⟨w, hstep, p, hp, rfl⟩
      exact hp.cons hstep
  rw [count, hroutes, Finset.card_biUnion]
  · exact Finset.sum_congr rfl fun w _ => Finset.card_image_of_injective _ (cons_injective)
  · intro w _ w' _ hw
    refine Finset.disjoint_left.mpr fun q hq hq' => ?_
    obtain ⟨p, -, rfl⟩ := Finset.mem_image.mp hq
    obtain ⟨p', -, heq⟩ := Finset.mem_image.mp hq'
    exact hw (List.cons.inj heq).1.symm

theorem card_through [DecidableEq α] (hne : v ≠ s) :
    ((D.routes s t).filter (v ∈ ·)).card = D.count s v * D.count v t := by
  have hroutes : (D.routes s t).filter (v ∈ ·) =
      (D.routes s v ×ˢ D.routes v t).image fun p => p.1 ++ p.2 := by
    ext q
    simp only [Finset.mem_filter, Finset.mem_image, Finset.mem_product, mem_routes, Prod.exists]
    constructor
    · rintro ⟨hq, hv⟩
      obtain ⟨front, rest, rfl⟩ := append_of_mem hv
      rw [append_cons, walk_append_iff] at hq
      obtain ⟨b, hfront, hrest⟩ := hq
      obtain rfl := (walk_snoc_iff.mp hfront).1
      exact ⟨front ++ [v], rest, ⟨hfront, hrest⟩, by simp⟩
    · rintro ⟨p, q, ⟨hp, hq⟩, rfl⟩
      exact ⟨hp.append hq, mem_append_left _ (hp.end_mem hne.symm)⟩
  rw [hroutes, Finset.card_image_of_injOn, Finset.card_product]
  · rfl
  · rintro ⟨p, q⟩ hp ⟨p', q'⟩ hp' heq
    obtain ⟨hp, -⟩ := Finset.mem_product.mp hp
    obtain ⟨hp', -⟩ := Finset.mem_product.mp hp'
    have hlen := rank_eq (mem_routes.mp hp)
    have hlen' := rank_eq (mem_routes.mp hp')
    obtain ⟨hfront, hback⟩ := append_inj heq (Nat.add_left_cancel (hlen.symm.trans hlen'))
    exact Prod.ext hfront hback

theorem count_step_ne_zero (h : D.count s v ≠ 0) (hstep : D.step v w) : D.count s w ≠ 0 := by
  obtain ⟨q, hq⟩ := count_ne_zero_iff.mp h
  exact count_ne_zero_iff.mpr ⟨_, hq.snoc hstep⟩

/-- What the routes from a source to the other nodes depend on a node: for each end, the part of the
routes to it that pass the node. -/
noncomputable def dependency [DecidableEq α] (D : Layering α) (s v : α) : ℚ :=
  ∑ t ∈ D.known.erase v, (D.count s v * D.count v t : ℚ) / D.count s t

theorem dependency_of_unreached [DecidableEq α] (h : D.count s v = 0) : D.dependency s v = 0 := by
  simp [dependency, h]

/-- The dependency on a node comes from those on the nodes one step on. -/
theorem dependency_eq [DecidableEq α] (hreach : D.count s v ≠ 0) {ws : Finset α}
    (hws : ∀ w, w ∈ ws ↔ D.step v w) :
    D.dependency s v = ∑ w ∈ ws, (D.count s v : ℚ) / D.count s w * (1 + D.dependency s w) := by
  have hsplit : D.dependency s v =
      ∑ w ∈ ws, ∑ t ∈ D.known.erase v, (D.count s v * D.count w t : ℚ) / D.count s t := by
    rw [dependency, Finset.sum_comm]
    refine Finset.sum_congr rfl fun t ht => ?_
    rw [count_first (Finset.ne_of_mem_erase ht).symm hws, Nat.cast_sum, Finset.mul_sum, Finset.sum_div]
  rw [hsplit]
  refine Finset.sum_congr rfl fun w hw => ?_
  have hstep := (hws w).mp hw
  have hrank := D.rank_step hstep
  have hw0 : (D.count s w : ℚ) ≠ 0 := Nat.cast_ne_zero.mpr (count_step_ne_zero hreach hstep)
  have hback : D.count w v = 0 := count_eq_zero (by omega) fun heq => by
    subst heq
    omega
  have hall : ∑ t ∈ D.known.erase v, (D.count s v * D.count w t : ℚ) / D.count s t =
      ∑ t ∈ D.known, (D.count s v * D.count w t : ℚ) / D.count s t :=
    Finset.sum_erase _ (by simp [hback])
  rw [hall, ← Finset.add_sum_erase _ _ (D.mem hstep).2, count_self, mul_add, dependency, Finset.mul_sum,
    Nat.cast_one]
  refine congrArg₂ _ (by ring) (Finset.sum_congr rfl fun t _ => ?_)
  rw [← mul_div_assoc, ← mul_assoc, div_mul_cancel₀ _ hw0]

end Layering

end CoveFormat.RouteCounts
