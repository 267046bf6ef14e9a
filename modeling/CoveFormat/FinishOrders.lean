import Mathlib.Data.Finset.Card

namespace CoveFormat.FinishOrders

open List Option Relation

variable {α : Type}

/-- The nodes a depth-first search has come to, and those it is done with in the order in which it
was. -/
structure Marks (α : Type) where
  visited : Finset α
  finished : List α

def visitAll (visit : α → Marks α → Option (Marks α)) : List α → Marks α → Option (Marks α)
  | [], marks => some marks
  | node :: nodes, marks => (visit node marks).bind (visitAll visit nodes)

/-- A search that notes a node when all its targets are done with; `none` is out of fuel. -/
def visit [DecidableEq α] (targets : α → List α) : ℕ → α → Marks α → Option (Marks α)
  | 0, _, _ => none
  | fuel + 1, node, marks =>
    if node ∈ marks.visited then some marks
    else (visitAll (visit targets fuel) (targets node) ⟨insert node marks.visited, marks.finished⟩).map
      fun marks => ⟨marks.visited, marks.finished ++ [node]⟩

def Next (targets : α → List α) (a b : α) : Prop := b ∈ targets a

/-- The two nodes reach each other. -/
def Mutual (targets : α → List α) (a b : α) : Prop :=
  ReflTransGen (Next targets) a b ∧ ReflTransGen (Next targets) b a

section

variable {targets : α → List α} {a b c : α}

theorem Mutual.refl (targets : α → List α) (a : α) : Mutual targets a a := ⟨.refl, .refl⟩

variable (h : Mutual targets a b)
include h

theorem Mutual.symm : Mutual targets b a := ⟨h.2, h.1⟩

theorem Mutual.trans (h' : Mutual targets b c) : Mutual targets a c :=
  ⟨h.1.trans h'.1, h'.2.trans h.2⟩

end

section

variable {targets : α → List α} {known : Finset α} {marks marks' : Marks α} {node : α} {nodes : List α}
  {fuel : ℕ}

/-- The nodes on the way to the current one. -/
def Marks.Open (marks : Marks α) (a : α) : Prop := a ∈ marks.visited ∧ a ∉ marks.finished

/-- Where one finished node reaches another, some node of its class is finished no earlier than the
other, or still open. Where it reaches a node that is not finished, some node of its class is open. -/
structure Ordered (targets : α → List α) (marks : Marks α) : Prop where
  nodup : marks.finished.Nodup
  visited : ∀ a ∈ marks.finished, a ∈ marks.visited
  closed : ∀ a ∈ marks.finished, ∀ b, Next targets a b → b ∈ marks.visited
  leaves : ∀ a ∈ marks.finished, ∀ b, b ∉ marks.finished → ReflTransGen (Next targets) a b →
    ∃ c, marks.Open c ∧ Mutual targets a c
  order : ∀ later b earlier, marks.finished = earlier ++ b :: later → ∀ a ∈ marks.finished,
    ReflTransGen (Next targets) a b → ∃ c, Mutual targets a c ∧ (c = b ∨ c ∈ later ∨ marks.Open c)

/-- What a search from some nodes leaves behind. -/
structure Extends (nodes : List α) (marks marks' : Marks α) : Prop where
  found : ∀ a ∈ nodes, a ∈ marks'.visited
  kept : marks.visited ⊆ marks'.visited
  finished : ∃ more, marks'.finished = marks.finished ++ more
  sameOpen : ∀ a, marks'.Open a ↔ marks.Open a

/-- A way from a node on to one that is not finished passes an open node, once the targets of the
node are visited. -/
theorem exists_open (marks : Marks α)
    (hclosed : ∀ a ∈ marks.finished, ∀ b, Next targets a b → b ∈ marks.visited)
    {a b : α} (h : ReflTransGen (Next targets) a b) (ha : a ∈ marks.visited)
    (hb : b ∉ marks.finished) : ∃ c, marks.Open c ∧ ReflTransGen (Next targets) a c := by
  induction h using ReflTransGen.head_induction_on with
  | refl => exact ⟨b, ⟨ha, hb⟩, .refl⟩
  | @head a c hstep _ ih =>
    by_cases hfinished : a ∈ marks.finished
    · obtain ⟨d, hd, hreach⟩ := ih (hclosed a hfinished c hstep)
      exact ⟨d, hd, .head hstep hreach⟩
    · exact ⟨a, ⟨ha, hfinished⟩, .refl⟩

theorem Ordered.begin [DecidableEq α] (h : Ordered targets marks) :
    Ordered targets ⟨insert node marks.visited, marks.finished⟩ where
  nodup := h.nodup
  visited a ha := Finset.mem_insert_of_mem (h.visited a ha)
  closed a ha b hstep := Finset.mem_insert_of_mem (h.closed a ha b hstep)
  leaves a ha b hb hreach := by
    obtain ⟨c, hopen, hmutual⟩ := h.leaves a ha b hb hreach
    exact ⟨c, ⟨Finset.mem_insert_of_mem hopen.1, hopen.2⟩, hmutual⟩
  order later b earlier hsplit a ha hreach := by
    obtain ⟨c, hmutual, hc⟩ := h.order later b earlier hsplit a ha hreach
    exact ⟨c, hmutual, hc.imp_right fun hc => hc.imp_right fun hopen =>
      ⟨Finset.mem_insert_of_mem hopen.1, hopen.2⟩⟩

theorem Ordered.finish (h : Ordered targets marks) (hopen : marks.Open node)
    (htargets : ∀ b ∈ targets node, b ∈ marks.visited)
    (hway : ∀ a, marks.Open a → ReflTransGen (Next targets) a node) :
    Ordered targets ⟨marks.visited, marks.finished ++ [node]⟩ := by
  have hclosed : ∀ a ∈ marks.finished ++ [node], ∀ b, Next targets a b → b ∈ marks.visited := by
    intro a ha b hstep
    rcases mem_append.mp ha with ha | ha
    · exact h.closed a ha b hstep
    · exact htargets b (mem_singleton.mp ha ▸ hstep)
  have hstill : ∀ c, marks.Open c → c = node ∨ Marks.Open ⟨marks.visited, marks.finished ++ [node]⟩ c := by
    intro c hc
    by_cases heq : c = node
    · exact .inl heq
    · exact .inr ⟨hc.1, by simp [hc.2, heq]⟩
  have hself : ∀ b, b ∉ marks.finished ++ [node] → ReflTransGen (Next targets) node b →
      ∃ c, Marks.Open ⟨marks.visited, marks.finished ++ [node]⟩ c ∧ Mutual targets node c := by
    intro b hb hreach
    obtain ⟨c, hc, hto⟩ := exists_open ⟨marks.visited, marks.finished ++ [node]⟩ hclosed
      hreach hopen.1 hb
    exact ⟨c, hc, hto, hway c ⟨hc.1, fun hmem => hc.2 (mem_append_left _ hmem)⟩⟩
  refine ⟨?_, fun a ha => ?_, hclosed, fun a ha b hb hreach => ?_,
    fun later b earlier hsplit a ha hreach => ?_⟩
  · exact h.nodup.append (nodup_singleton node) (disjoint_singleton.mpr hopen.2)
  · rcases mem_append.mp ha with ha | ha
    · exact h.visited a ha
    · exact mem_singleton.mp ha ▸ hopen.1
  · rcases mem_append.mp ha with ha | ha
    · obtain ⟨c, hc, hmutual⟩ := h.leaves a ha b (fun hmem => hb (mem_append_left _ hmem)) hreach
      rcases hstill c hc with rfl | hc
      · obtain ⟨d, hd, hmutual'⟩ := hself b hb (hmutual.2.trans hreach)
        exact ⟨d, hd, hmutual.trans hmutual'⟩
      · exact ⟨c, hc, hmutual⟩
    · obtain rfl := mem_singleton.mp ha
      exact hself b hb hreach
  · rcases eq_nil_or_concat later with rfl | ⟨front, d, rfl⟩
    · obtain ⟨rfl, heq⟩ := append_inj' hsplit rfl
      obtain rfl := singleton_inj.mp heq
      rcases mem_append.mp ha with ha | ha
      · obtain ⟨c, hc, hmutual⟩ := h.leaves a ha _ hopen.2 hreach
        exact ⟨c, hmutual, (hstill c hc).imp_right .inr⟩
      · exact ⟨a, .refl targets a, .inl (mem_singleton.mp ha)⟩
    · rw [concat_eq_append, ← cons_append, ← append_assoc] at hsplit
      obtain ⟨hfront, heq⟩ := append_inj' hsplit rfl
      obtain rfl := singleton_inj.mp heq
      rw [concat_eq_append]
      rcases mem_append.mp ha with ha | ha
      · obtain ⟨c, hmutual, hc⟩ := h.order front b earlier hfront a ha hreach
        refine ⟨c, hmutual, hc.imp_right fun hc => ?_⟩
        rcases hc with hc | hc
        · exact .inl (mem_append_left _ hc)
        · rcases hstill c hc with rfl | hc
          · exact .inl (mem_append_right _ mem_cons_self)
          · exact .inr hc
      · exact ⟨a, .refl targets a, .inr (.inl (mem_append_right _ ha))⟩

theorem Extends.refl_of {a : α} (ha : a ∈ marks.visited) : Extends [a] marks marks :=
  ⟨forall_mem_singleton.mpr ha, subset_rfl, ⟨[], (append_nil _).symm⟩, fun _ => Iff.rfl⟩

theorem visitAll_spec (step : α → Marks α → Option (Marks α)) (Ready : Marks α → Prop)
    (hready : ∀ marks marks', Ready marks → (∀ a, marks'.Open a ↔ marks.Open a) →
      marks.visited ⊆ marks'.visited → Ready marks')
    (hstep : ∀ node ∈ nodes, ∀ marks, Ready marks → Ordered targets marks →
      ∃ marks', step node marks = some marks' ∧ Extends [node] marks marks' ∧ Ordered targets marks')
    (hmarks : Ready marks) (h : Ordered targets marks) :
    ∃ marks', visitAll step nodes marks = some marks' ∧ Extends nodes marks marks' ∧
      Ordered targets marks' := by
  induction nodes generalizing marks with
  | nil => exact ⟨marks, rfl, ⟨forall_mem_nil _, subset_rfl, ⟨[], (append_nil _).symm⟩,
      fun _ => Iff.rfl⟩, h⟩
  | cons node nodes ih =>
    obtain ⟨hfirst, hrest⟩ := forall_mem_cons.mp hstep
    obtain ⟨middle, hok, hone, hmiddle⟩ := hfirst marks hmarks h
    obtain ⟨marks', hoks, hall, h'⟩ :=
      ih hrest (hready marks middle hmarks hone.sameOpen hone.kept) hmiddle
    obtain ⟨more, hmore⟩ := hone.finished
    obtain ⟨more', hmore'⟩ := hall.finished
    refine ⟨marks', by rw [visitAll, hok, bind_some, hoks], ⟨forall_mem_cons.mpr
      ⟨hall.kept (hone.found node mem_cons_self), hall.found⟩, hone.kept.trans hall.kept,
      ⟨more ++ more', by rw [hmore', hmore, append_assoc]⟩,
      fun a => (hall.sameOpen a).trans (hone.sameOpen a)⟩, h'⟩

variable [DecidableEq α]

/-- The search ends, and keeps the order, where all open nodes lead to the node it starts from and
there is fuel for the nodes that are left. -/
theorem visit_spec (hknown : ∀ a b, Next targets a b → b ∈ known) (hnode : node ∈ known)
    (hfuel : (known \ marks.visited).card < fuel)
    (hway : ∀ a, marks.Open a → ReflTransGen (Next targets) a node) (h : Ordered targets marks) :
    ∃ marks', visit targets fuel node marks = some marks' ∧ Extends [node] marks marks' ∧
      Ordered targets marks' := by
  induction fuel generalizing node marks with
  | zero => exact absurd hfuel (Nat.not_lt_zero _)
  | succ fuel ih =>
    rw [visit]
    by_cases hvisited : node ∈ marks.visited
    · rw [if_pos hvisited]
      exact ⟨marks, rfl, .refl_of hvisited, h⟩
    · rw [if_neg hvisited]
      have hopen : Marks.Open ⟨insert node marks.visited, marks.finished⟩ node :=
        ⟨Finset.mem_insert_self _ _, fun hmem => hvisited (h.visited node hmem)⟩
      have hways : ∀ a, Marks.Open ⟨insert node marks.visited, marks.finished⟩ a →
          ReflTransGen (Next targets) a node := by
        rintro a ⟨ha, hnot⟩
        rcases Finset.mem_insert.mp ha with rfl | ha
        · exact .refl
        · exact hway a ⟨ha, hnot⟩
      have hcard : (known \ insert node marks.visited).card < fuel := by
        have herase := Finset.card_erase_add_one (Finset.mem_sdiff.mpr ⟨hnode, hvisited⟩)
        rw [Finset.sdiff_insert]
        omega
      obtain ⟨below, hok, hall, hbelow⟩ := visitAll_spec (visit targets fuel)
        (fun marks => (∀ a, marks.Open a → ReflTransGen (Next targets) a node) ∧
          (known \ marks.visited).card < fuel)
        (fun marks marks' hready hsame hsub => ⟨fun a ha => hready.1 a ((hsame a).mp ha),
          (Finset.card_le_card (Finset.sdiff_subset_sdiff subset_rfl hsub)).trans_lt hready.2⟩)
        (fun next hnext marks hready hmarks => ih (hknown node next hnext) hready.2
          (fun a ha => (hready.1 a ha).tail hnext) hmarks)
        ⟨hways, hcard⟩ (h.begin)
      have hbelowOpen : below.Open node := (hall.sameOpen node).mpr hopen
      obtain ⟨more, hmore⟩ := hall.finished
      refine ⟨⟨below.visited, below.finished ++ [node]⟩, by rw [hok]; rfl, ⟨?_, ?_, ?_, fun a => ?_⟩,
        hbelow.finish hbelowOpen hall.found fun a ha => hways a ((hall.sameOpen a).mp ha)⟩
      · exact forall_mem_singleton.mpr hbelowOpen.1
      · exact (Finset.subset_insert _ _).trans hall.kept
      · exact ⟨more ++ [node], by rw [hmore, append_assoc]⟩
      · -- the node itself is open no more, as it was not before
        by_cases heq : a = node
        · subst heq
          exact iff_of_false (fun ha => ha.2 (mem_append_right _ mem_cons_self))
            fun ha => hvisited ha.1
        · have hsame := hall.sameOpen a
          simp only [Marks.Open, Finset.mem_insert, heq, false_or] at hsame
          simp only [Marks.Open, mem_append, mem_singleton, heq, or_false]
          exact hsame

omit [DecidableEq α] in
theorem visitAll_known {step : α → Marks α → Option (Marks α)}
    (hstep : ∀ node ∈ nodes, ∀ marks marks', marks.visited ⊆ known → step node marks = some marks' →
      marks'.visited ⊆ known) (hmarks : marks.visited ⊆ known)
    (h : visitAll step nodes marks = some marks') : marks'.visited ⊆ known := by
  induction nodes generalizing marks with
  | nil => exact some.inj h ▸ hmarks
  | cons node nodes ih =>
    obtain ⟨hfirst, hrest⟩ := forall_mem_cons.mp hstep
    obtain ⟨middle, hmiddle, h⟩ := bind_eq_some_iff.mp h
    exact ih hrest (hfirst marks middle hmarks hmiddle) h

theorem visit_known (hknown : ∀ a b, Next targets a b → b ∈ known) (hnode : node ∈ known)
    (hmarks : marks.visited ⊆ known) (h : visit targets fuel node marks = some marks') :
    marks'.visited ⊆ known := by
  induction fuel generalizing node marks marks' with
  | zero => cases h
  | succ fuel ih =>
    rw [visit] at h
    split at h
    · exact some.inj h ▸ hmarks
    · obtain ⟨below, hbelow, rfl⟩ := map_eq_some_iff.mp h
      have hsub : below.visited ⊆ known := visitAll_known
        (fun next hnext marks marks' hmarks h => ih (hknown node next hnext) hmarks h)
        (Finset.insert_subset hnode hmarks) hbelow
      exact hsub

/-- After searches from all nodes, each class of nodes that reach each other has a node that is
finished no earlier than any node the class reaches. -/
theorem visitAll_ordered (hknown : ∀ a b, Next targets a b → b ∈ known)
    (hnodes : ∀ a ∈ nodes, a ∈ known) (hfuel : known.card < fuel) :
    ∃ marks, visitAll (visit targets fuel) nodes ⟨∅, []⟩ = some marks ∧
      (∀ a ∈ nodes, a ∈ marks.finished) ∧ marks.finished.Nodup ∧ (∀ a ∈ marks.finished, a ∈ known) ∧
      (∀ a ∈ marks.finished, ∀ b, Next targets a b → b ∈ marks.finished) ∧
      ∀ later b earlier, marks.finished = earlier ++ b :: later → ∀ a ∈ marks.finished,
        ReflTransGen (Next targets) a b → ∃ c, Mutual targets a c ∧ (c = b ∨ c ∈ later) := by
  have hnone : ∀ a, ¬ Marks.Open (⟨∅, []⟩ : Marks α) a := fun a ha => Finset.notMem_empty a ha.1
  have hstart : Ordered targets (⟨∅, []⟩ : Marks α) :=
    ⟨.nil, fun _ => nofun, fun _ => nofun, fun _ => nofun, fun _ _ _ _ _ => nofun⟩
  obtain ⟨marks, hok, hall, h⟩ := visitAll_spec (visit targets fuel) (fun marks => ∀ a, ¬ marks.Open a)
    (fun marks marks' hready hsame _ a ha => hready a ((hsame a).mp ha))
    (fun node hnode marks hready hmarks => visit_spec hknown (hnodes node hnode)
      ((Finset.card_le_card Finset.sdiff_subset).trans_lt hfuel)
      (fun a ha => absurd ha (hready a)) hmarks) hnone hstart
  have hopen : ∀ a, ¬ marks.Open a := fun a ha => hnone a ((hall.sameOpen a).mp ha)
  have hfinished : ∀ a ∈ marks.visited, a ∈ marks.finished := fun a ha =>
    not_not.mp fun hnot => hopen a ⟨ha, hnot⟩
  have hsub : marks.visited ⊆ known :=
    visitAll_known (fun node hnode _ _ hmarks h => visit_known hknown (hnodes node hnode) hmarks h)
      (Finset.empty_subset known) hok
  refine ⟨marks, hok, fun a ha => hfinished a (hall.found a ha), h.nodup,
    fun a ha => hsub (h.visited a ha), fun a ha b hstep => hfinished b (h.closed a ha b hstep),
      fun later b earlier hsplit a ha hreach => ?_⟩
  obtain ⟨c, hmutual, hc⟩ := h.order later b earlier hsplit a ha hreach
  exact ⟨c, hmutual, hc.imp_right fun hc => hc.resolve_right (hopen c)⟩

end

end CoveFormat.FinishOrders
