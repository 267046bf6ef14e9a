import CoveFormat.ParentForests

namespace CoveFormat.SpanningForests

open List ParentForests Relation SimpleGraph

variable {α : Type}

def graphOf (S : Finset (Sym2 α)) : SimpleGraph α := fromEdgeSet ↑S

def Joined (S : Finset (Sym2 α)) (a b : α) : Prop := (graphOf S).Reachable a b

section

variable {S T C : Finset (Sym2 α)} {a b u v x y : α}

theorem graphOf_adj : (graphOf S).Adj a b ↔ s(a, b) ∈ S ∧ a ≠ b := by
  rw [graphOf, fromEdgeSet_adj, Finset.mem_coe]

theorem isAcyclic_graphOf_empty : (graphOf (∅ : Finset (Sym2 α))).IsAcyclic := by
  rw [graphOf, Finset.coe_empty, fromEdgeSet_empty]
  exact isAcyclic_bot

theorem graphOf_mono (h : S ⊆ T) : graphOf S ≤ graphOf T := fromEdgeSet_mono (Finset.coe_subset.mpr h)

theorem mem_edgeSet_graphOf {f : Sym2 α} : f ∈ (graphOf S).edgeSet ↔ f ∈ S ∧ ¬ f.IsDiag := by
  rw [graphOf, edgeSet_fromEdgeSet, Set.mem_sdiff, Finset.mem_coe]
  rfl

theorem Joined.mono (h : Joined S a b) (hle : S ⊆ T) : Joined T a b := Reachable.mono (graphOf_mono hle) h

theorem joined_of_mem (h : s(a, b) ∈ S) : Joined S a b := by
  by_cases hne : a = b
  · exact hne ▸ .refl a
  · exact (graphOf_adj.mpr ⟨h, hne⟩).reachable

theorem mem_of_joined (hT : (graphOf T).IsAcyclic) (hle : C ⊆ T) (hmem : s(a, b) ∈ T) (hne : a ≠ b)
    (h : Joined C a b) : s(a, b) ∈ C :=
  (graphOf_adj.mp (adj_of_reachable hT (graphOf_mono hle) (graphOf_adj.mpr ⟨hmem, hne⟩) h)).1

variable [DecidableEq α]

theorem joined_insert_iff : Joined (insert s(x, y) S) u v ↔
    Joined S u v ∨ Joined S u x ∧ Joined S y v ∨ Joined S u y ∧ Joined S x v := by
  constructor
  · intro h
    induction (reachable_iff_reflTransGen u v).mp h with
    | refl => exact .inl (.refl u)
    | @tail b c hb hadj ih =>
      have ih := ih ((reachable_iff_reflTransGen u b).mpr hb)
      obtain ⟨hmem, hne⟩ := graphOf_adj.mp hadj
      rcases Finset.mem_insert.mp hmem with heq | hold
      · rcases Sym2.eq_iff.mp heq with ⟨rfl, rfl⟩ | ⟨rfl, rfl⟩
        · rcases ih with h | ⟨h, -⟩ | ⟨h, -⟩
          · exact .inr (.inl ⟨h, .refl _⟩)
          · exact .inr (.inl ⟨h, .refl _⟩)
          · exact .inl h
        · rcases ih with h | ⟨h, -⟩ | ⟨h, -⟩
          · exact .inr (.inr ⟨h, .refl _⟩)
          · exact .inl h
          · exact .inr (.inr ⟨h, .refl _⟩)
      · have hstep : Joined S b c := joined_of_mem hold
        rcases ih with h | ⟨h, h'⟩ | ⟨h, h'⟩
        · exact .inl (h.trans hstep)
        · exact .inr (.inl ⟨h, h'.trans hstep⟩)
        · exact .inr (.inr ⟨h, h'.trans hstep⟩)
  · have hnew : Joined (insert s(x, y) S) x y := joined_of_mem (Finset.mem_insert_self _ _)
    have hle : S ⊆ insert s(x, y) S := Finset.subset_insert _ _
    rintro (h | ⟨h, h'⟩ | ⟨h, h'⟩)
    · exact h.mono hle
    · exact ((h.mono hle).trans hnew).trans (h'.mono hle)
    · exact ((h.mono hle).trans hnew.symm).trans (h'.mono hle)

theorem isAcyclic_insert (hS : (graphOf S).IsAcyclic) (h : ¬ Joined S x y) :
    (graphOf (insert s(x, y) S)).IsAcyclic := by
  refine (IsAcyclic.sup_edge_of_not_reachable h hS).anti fun a b hadj => ?_
  obtain ⟨hmem, hne⟩ := graphOf_adj.mp hadj
  rw [sup_adj, edge_adj]
  rcases Finset.mem_insert.mp hmem with heq | hold
  · exact .inr ⟨Sym2.eq_iff.mp heq, hne⟩
  · exact .inl (graphOf_adj.mpr ⟨hold, hne⟩)

/-- Where a forest joins two nodes that a part of it does not, the part lacks an edge without which
the forest does not join them. -/
theorem exists_separating (hT : (graphOf T).IsAcyclic) (h : Joined T a b) (hnot : ¬ Joined C a b) :
    ∃ f ∈ T, f ∉ C ∧ ¬ Joined (T.erase f) a b := by
  obtain ⟨p, hp⟩ := h.exists_isPath
  have hedge : ∃ f ∈ p.edges, f ∉ C := by
    by_contra hall
    push Not at hall
    exact hnot (p.transfer (graphOf C) fun f hf =>
      mem_edgeSet_graphOf.mpr ⟨hall f hf, (mem_edgeSet_graphOf.mp (p.edges_subset_edgeSet hf)).2⟩).reachable
  obtain ⟨f, hf, hfC⟩ := hedge
  refine ⟨f, (mem_edgeSet_graphOf.mp (p.edges_subset_edgeSet hf)).1, hfC, fun hjoined => ?_⟩
  -- a way without the edge would be another path between the two nodes
  obtain ⟨q, hq⟩ := hjoined.exists_isPath
  have hle : graphOf (T.erase f) ≤ graphOf T := graphOf_mono (Finset.erase_subset f T)
  have hpath := (hT.subsingleton_path a b).elim ⟨p, hp⟩ ⟨q.mapLe hle, hq.mapLe hle⟩
  rw [Subtype.mk.injEq] at hpath
  rw [hpath, Walk.edges_mapLe_eq_edges] at hf
  exact absurd (mem_edgeSet_graphOf.mp (q.edges_subset_edgeSet hf)).1 (Finset.notMem_erase f T)

theorem exchange {f : Sym2 α} (hT : (graphOf T).IsAcyclic) (h : Joined T a b) (hf : f ∈ T)
    (hnot : ¬ Joined (T.erase f) a b) :
    (graphOf (insert s(a, b) (T.erase f))).IsAcyclic ∧
      ∀ u v, Joined T u v → Joined (insert s(a, b) (T.erase f)) u v := by
  refine ⟨isAcyclic_insert (hT.anti (graphOf_mono (Finset.erase_subset f T))) hnot, fun u v huv => ?_⟩
  induction f using Sym2.ind with
  | _ x y =>
    have hwhole : insert s(x, y) (T.erase s(x, y)) = T := Finset.insert_erase hf
    have hab := h
    rw [← hwhole, joined_insert_iff] at hab huv
    have hends : Joined (insert s(a, b) (T.erase s(x, y))) x y := by
      refine joined_insert_iff.mpr (.inr ?_)
      rcases hab with hab | ⟨hax, hyb⟩ | ⟨hay, hxb⟩
      · exact absurd hab hnot
      · exact .inl ⟨hax.symm, hyb.symm⟩
      · exact .inr ⟨hxb, hay⟩
    have hle : T.erase s(x, y) ⊆ insert s(a, b) (T.erase s(x, y)) := Finset.subset_insert _ _
    rcases huv with huv | ⟨hux, hyv⟩ | ⟨huy, hxv⟩
    · exact huv.mono hle
    · exact ((hux.mono hle).trans hends).trans (hyv.mono hle)
    · exact ((huy.mono hle).trans hends.symm).trans (hxv.mono hle)

end

section

variable {ε ω : Type} [DecidableEq α] (source target : ε → α)

open Classical in
/-- Takes each edge whose ends are not joined yet. -/
noncomputable def greedy : Finset (Sym2 α) → List ε → Finset (Sym2 α)
  | C, [] => C
  | C, e :: es =>
    if Joined C (source e) (target e) then greedy C es
    else greedy (insert s(source e, target e) C) es

variable {source target} {C T : Finset (Sym2 α)} {es : List ε}

theorem subset_greedy : C ⊆ greedy source target C es := by
  induction es generalizing C with
  | nil => exact subset_rfl
  | cons e es ih =>
    rw [greedy]
    split
    · exact ih
    · exact (Finset.subset_insert _ _).trans ih

theorem mem_greedy {f : Sym2 α} (h : f ∈ greedy source target C es) :
    f ∈ C ∨ ∃ e ∈ es, source e ≠ target e ∧ s(source e, target e) = f := by
  induction es generalizing C with
  | nil => exact .inl h
  | cons e es ih =>
    rw [greedy] at h
    rw [exists_mem_cons_iff]
    split at h
    · exact (ih h).imp_right .inr
    · rename_i hnot
      rcases ih h with h | h
      · rcases Finset.mem_insert.mp h with rfl | h
        · exact .inr (.inl ⟨fun heq => hnot (heq ▸ .refl _), rfl⟩)
        · exact .inl h
      · exact .inr (.inr h)

theorem isAcyclic_greedy (hC : (graphOf C).IsAcyclic) :
    (graphOf (greedy source target C es)).IsAcyclic := by
  induction es generalizing C with
  | nil => exact hC
  | cons e es ih =>
    rw [greedy]
    split
    · exact ih hC
    · rename_i hnot
      exact ih (isAcyclic_insert hC hnot)

theorem joined_greedy : ∀ e ∈ es, Joined (greedy source target C es) (source e) (target e) := by
  induction es generalizing C with
  | nil => exact forall_mem_nil _
  | cons e es ih =>
    rw [greedy]
    split
    · rename_i hjoined
      exact forall_mem_cons.mpr ⟨hjoined.mono subset_greedy, ih⟩
    · exact forall_mem_cons.mpr
        ⟨(joined_of_mem (Finset.mem_insert_self _ _)).mono subset_greedy, ih⟩

variable [AddCommGroup ω] [LinearOrder ω] [IsOrderedAddMonoid ω] {cost : ε → ω} {weight : Sym2 α → ω}

/-- The edges in the order of their costs give a forest that weighs no more than any other one that
has the edges taken before and joins the same nodes. The induction is on the edges; a forest that
goes without the next one is exchanged for one that has it. -/
theorem greedy_le (hsorted : es.Pairwise fun e e' => cost e ≤ cost e')
    (hweight : ∀ e ∈ es, weight s(source e, target e) ≤ cost e) (hT : (graphOf T).IsAcyclic)
    (hloop : ∀ f ∈ T, ¬ f.IsDiag) (hle : C ⊆ T)
    (hfrom : ∀ f ∈ T, f ∈ C ∨ ∃ e ∈ es, s(source e, target e) = f ∧ cost e = weight f)
    (hspan : ∀ e ∈ es, Joined T (source e) (target e)) :
    ∑ f ∈ greedy source target C es, weight f ≤ ∑ f ∈ T, weight f := by
  induction es generalizing C T with
  | nil =>
    have heq : C = T := hle.antisymm fun f hf => (hfrom f hf).resolve_right (by simp)
    rw [greedy, heq]
  | cons e es ih =>
    obtain ⟨hmin, hsorted⟩ := pairwise_cons.mp hsorted
    obtain ⟨heweight, hweight⟩ := forall_mem_cons.mp hweight
    obtain ⟨hespan, hspan⟩ := forall_mem_cons.mp hspan
    rw [greedy]
    by_cases hjoined : Joined C (source e) (target e)
    · rw [if_pos hjoined]
      refine ih hsorted hweight hT hloop hle (fun f hf => ?_) hspan
      rcases hfrom f hf with h | ⟨e', he', hends, hcost⟩
      · exact .inl h
      · rcases mem_cons.mp he' with rfl | he'
        · subst hends
          exact .inl (mem_of_joined hT hle hf (hloop _ hf) hjoined)
        · exact .inr ⟨e', he', hends, hcost⟩
    · rw [if_neg hjoined]
      have hfrom' : ∀ f ∈ T, f ∈ insert s(source e, target e) C ∨
          ∃ e' ∈ es, s(source e', target e') = f ∧ cost e' = weight f := by
        intro f hf
        rcases hfrom f hf with h | ⟨e', he', hends, hcost⟩
        · exact .inl (Finset.mem_insert_of_mem h)
        · rcases mem_cons.mp he' with rfl | he'
          · exact .inl (hends ▸ Finset.mem_insert_self _ _)
          · exact .inr ⟨e', he', hends, hcost⟩
      by_cases hmem : s(source e, target e) ∈ T
      · exact ih hsorted hweight hT hloop (Finset.insert_subset hmem hle) hfrom' hspan
      · obtain ⟨f, hfT, hfC, hnot⟩ := exists_separating hT hespan hjoined
        obtain ⟨hT', hspan'⟩ := exchange hT hespan hfT hnot
        have hne : s(source e, target e) ≠ f := fun heq => hmem (heq ▸ hfT)
        have hnotmem : s(source e, target e) ∉ T.erase f := fun h => hmem (Finset.mem_of_mem_erase h)
        have hcheap : weight s(source e, target e) ≤ weight f := by
          rcases hfrom' f hfT with h | ⟨e', he', -, hcost⟩
          · exact absurd h (by simp [hne.symm, hfC])
          · exact hcost ▸ heweight.trans (hmin e' he')
        have hsource : source e ≠ target e := fun heq => hjoined (heq ▸ .refl _)
        have hless := ih (C := insert s(source e, target e) C) hsorted hweight hT'
          ((Finset.forall_mem_insert _ _ _).mpr ⟨hsource, fun g hg => hloop g (Finset.mem_of_mem_erase hg)⟩)
          (Finset.insert_subset_insert _ fun g hg =>
            Finset.mem_erase.mpr ⟨fun heq => hfC (heq ▸ hg), hle hg⟩)
          ((Finset.forall_mem_insert _ _ _).mpr ⟨.inl (Finset.mem_insert_self _ _),
            fun g hg => hfrom' g (Finset.mem_of_mem_erase hg)⟩)
          fun e' he' => hspan' _ _ (hspan e' he')
        calc ∑ g ∈ greedy source target (insert s(source e, target e) C) es, weight g
            ≤ ∑ g ∈ insert s(source e, target e) (T.erase f), weight g := hless
          _ = weight s(source e, target e) + ∑ g ∈ T.erase f, weight g := Finset.sum_insert hnotmem
          _ ≤ weight f + ∑ g ∈ T.erase f, weight g := by gcongr
          _ = ∑ g ∈ T, weight g := Finset.add_sum_erase T weight hfT

end

end CoveFormat.SpanningForests
