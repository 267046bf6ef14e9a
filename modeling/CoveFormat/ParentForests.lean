import Mathlib.Combinatorics.SimpleGraph.Acyclic

namespace CoveFormat.ParentForests

open Relation SimpleGraph

variable {α : Type} {up : α → α → Prop} {root sentinel a : α}

/-- No node has two parents. -/
def Functional (up : α → α → Prop) : Prop := ∀ a b c, up a b → up a c → b = c

theorem not_ancestor_of_reaches (hup : Functional up) (hroot : ∀ b, ¬ up root b)
    (h : ReflTransGen up a root) : ¬ TransGen up a a := by
  induction h using ReflTransGen.head_induction_on with
  | refl =>
    intro hcycle
    obtain ⟨b, hb, -⟩ := TransGen.head'_iff.mp hcycle
    exact hroot b hb
  | head hab _ ih =>
    intro hcycle
    obtain ⟨c, hac, hca⟩ := TransGen.head'_iff.mp hcycle
    obtain rfl := hup _ _ _ hab hac
    exact ih (TransGen.tail' hca hab)

/-- Where every walk upwards comes to the root or to a child of the sentinel, and the sentinel is not
its own ancestor, every walk leads on to the root. -/
theorem reaches_root {p : α → Prop} (hend : ∀ a, p a → ∃ m, ReflTransGen up a m ∧
    (m = root ∨ up m sentinel)) (hsentinel : p sentinel) (hcycle : ¬ TransGen up sentinel sentinel)
    (ha : p a) : ReflTransGen up a root := by
  have hreached : ReflTransGen up sentinel root := by
    obtain ⟨m, hm, rfl | hup⟩ := hend sentinel hsentinel
    · exact hm
    · exact absurd (TransGen.tail' hm hup) hcycle
  obtain ⟨m, hm, rfl | hup⟩ := hend a ha
  · exact hm
  · exact (hm.tail hup).trans hreached

/-! The graph of the links to parents. -/

variable {G T : SimpleGraph α} {b : α}

theorem fromRel_adj_of (h : up a b) (hne : a ≠ b) : (fromRel up).Adj a b :=
  (fromRel_adj up a b).mpr ⟨hne, .inl h⟩

theorem reachable_of_ancestor (h : ReflTransGen up a b) : (fromRel up).Reachable a b := by
  induction h with
  | refl => exact .refl a
  | @tail b c _ hstep ih =>
    by_cases hbc : b = c
    · exact hbc ▸ ih
    · exact ih.trans (fromRel_adj_of hstep hbc).reachable

/-- Links to parents make no cycle where no node is its own ancestor: what is left of the graph
without one link leads from its lower end only to nodes under that end. -/
theorem isAcyclic_fromRel (hup : Functional up) (hcycle : ∀ a, ¬ TransGen up a a) :
    (fromRel up).IsAcyclic := by
  have hbridge : ∀ c p, up c p → (fromRel up).IsBridge s(c, p) := by
    intro c p hcp
    rw [isBridge_iff, reachable_iff_reflTransGen]
    intro hreach
    have hunder : ∀ x, ReflTransGen ((fromRel up).deleteEdges {s(c, p)}).Adj c x →
        ReflTransGen up x c := by
      intro x hx
      induction hx with
      | refl => exact .refl
      | @tail x y _ hadj ih =>
        rw [deleteEdges_adj, fromRel_adj, Set.mem_singleton_iff] at hadj
        obtain ⟨⟨-, hxy | hyx⟩, hother⟩ := hadj
        · rcases ReflTransGen.cases_head ih with rfl | ⟨z, hxz, hz⟩
          · exact absurd (hup _ _ _ hxy hcp ▸ rfl) hother
          · exact hup _ _ _ hxy hxz ▸ hz
        · exact .head hyx ih
    exact hcycle c (TransGen.head' hcp (hunder p hreach))
  rw [isAcyclic_iff_forall_adj_isBridge]
  intro c p hadj
  rcases ((fromRel_adj up c p).mp hadj).2 with h | h
  · exact hbridge c p h
  · exact Sym2.eq_swap ▸ hbridge p c h

theorem adj_of_reachable (hG : G.IsAcyclic) (hle : T ≤ G) (hadj : G.Adj a b) (h : T.Reachable a b) :
    T.Adj a b := by
  by_contra hnot
  refine (isAcyclic_iff_forall_adj_isBridge.mp hG hadj) (h.mono fun x y hxy => ?_)
  rw [deleteEdges_adj, Set.mem_singleton_iff]
  refine ⟨hle hxy, fun heq => ?_⟩
  rcases Sym2.eq_iff.mp heq with ⟨rfl, rfl⟩ | ⟨rfl, rfl⟩
  · exact hnot hxy
  · exact hnot hxy.symm

end CoveFormat.ParentForests
