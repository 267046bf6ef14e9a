import CoveFormat.ExceptRules
import Mathlib.Data.Finset.Card

namespace CoveFormat.DepthFirstSearch

open ExceptRules List Relation

variable {α ε : Type}

/-- The nodes on the way to the current one, and those that are done with. -/
structure Marks (α : Type) where
  (visiting visited : Finset α)

def visitAll (visit : α → Marks α → Except (Option ε) (Marks α)) :
    List α → Marks α → Except (Option ε) (Marks α)
  | [], marks => .ok marks
  | node :: nodes, marks => do
      let marks ← visit node marks
      visitAll visit nodes marks

/-- A search with the two sets. The error `none` is the one of a search that runs out of fuel. -/
def visit [DecidableEq α] (children : α → Except ε (List α)) (onCycle : ε) :
    Nat → α → Marks α → Except (Option ε) (Marks α)
  | 0, _, _ => .error none
  | fuel + 1, node, marks =>
    if node ∈ marks.visited then .ok marks
    else if node ∈ marks.visiting then .error (some onCycle)
    else do
      let nodes ← (children node).mapError some
      let marks ← visitAll (visit children onCycle fuel) nodes
        ⟨insert node marks.visiting, marks.visited⟩
      .ok ⟨marks.visiting.erase node, insert node marks.visited⟩

/-- Every way down from the node ends, and each node on it has children or none. -/
inductive Terminates (children : α → Except ε (List α)) : α → Prop
  | intro {node : α} {nodes : List α} (hchildren : children node = .ok nodes)
      (hnodes : ∀ next ∈ nodes, Terminates children next) : Terminates children node

def Child (children : α → Except ε (List α)) (a b : α) : Prop :=
  ∃ nodes, children a = .ok nodes ∧ b ∈ nodes

section

variable {children : α → Except ε (List α)} {a b : α}

variable (h : Terminates children a)
include h

theorem Terminates.children_ok : ∃ nodes, children a = .ok nodes := by
  cases h with
  | intro hchildren _ => exact ⟨_, hchildren⟩

theorem Terminates.child (hchild : Child children a b) : Terminates children b := by
  obtain ⟨nodes, hnodes, hb⟩ := hchild
  cases h with
  | intro hchildren hall =>
    obtain rfl := Except.ok.inj (hnodes.symm.trans hchildren)
    exact hall b hb

theorem Terminates.reaches (hreaches : ReflTransGen (Child children) a b) :
    Terminates children b := by
  induction hreaches with
  | refl => exact h
  | tail _ hchild ih => exact ih.child hchild

theorem Terminates.acc : Acc (fun b a => Child children a b) a := by
  induction h with
  | intro hchildren _ ih =>
    refine Acc.intro _ fun b hb => ?_
    obtain ⟨nodes, hnodes, hmem⟩ := hb
    obtain rfl := Except.ok.inj (hnodes.symm.trans hchildren)
    exact ih b hmem

theorem Terminates.not_cycle : ¬ TransGen (Child children) a a := by
  have hirrefl {x : α} (hacc : Acc (TransGen fun b a => Child children a b) x) :
      ¬ TransGen (fun b a => Child children a b) x x := by
    induction hacc with
    | intro x _ ih => exact fun hcycle => ih x hcycle hcycle
  exact fun hcycle => hirrefl h.acc.transGen (transGen_swap.mpr hcycle)

end

section

variable {children : α → Except ε (List α)} {onCycle : ε} {node : α} {nodes : List α} {fuel : Nat}
  {marks marks' : Marks α} {step : α → Marks α → Except (Option ε) (Marks α)}

/-- What a search from some nodes leaves behind. -/
structure Extends (children : α → Except ε (List α)) (nodes : List α) (marks marks' : Marks α) :
    Prop where
  found : ∀ node ∈ nodes, node ∈ marks'.visited
  kept : marks.visited ⊆ marks'.visited
  visiting : marks'.visiting = marks.visiting
  terminates : (∀ v ∈ marks.visited, Terminates children v) → ∀ v ∈ marks'.visited, Terminates children v

theorem visitAll_ok (hstep : ∀ node marks marks', step node marks = .ok marks' →
      Extends children [node] marks marks') (h : visitAll step nodes marks = .ok marks') :
    Extends children nodes marks marks' := by
  induction nodes generalizing marks with
  | nil =>
    cases h
    exact ⟨forall_mem_nil _, Finset.Subset.refl _, rfl, id⟩
  | cons node nodes ih =>
    obtain ⟨middle, hfirst, hrest⟩ := of_andThen h
    have hone := hstep _ _ _ hfirst
    have hall := ih hrest
    refine ⟨forall_mem_cons.mpr ⟨?_, hall.found⟩, hone.kept.trans hall.kept,
      hall.visiting.trans hone.visiting, hall.terminates ∘ hone.terminates⟩
    exact hall.kept (hone.found node mem_cons_self)

variable [DecidableEq α]

/-- A search that succeeds has the node among those it is done with, and from each of these every
way down ends. -/
theorem visit_ok (h : visit children onCycle fuel node marks = .ok marks') :
    Extends children [node] marks marks' := by
  induction fuel generalizing node marks marks' with
  | zero => cases h
  | succ fuel ih =>
    rw [visit] at h
    split at h
    · rename_i hvisited
      cases h
      exact ⟨forall_mem_singleton.mpr hvisited, Finset.Subset.refl _, rfl, id⟩
    · split at h
      · cases h
      · rename_i hvisiting
        obtain ⟨nodes, hchildren, h⟩ := of_andThen h
        obtain ⟨below, hbelow, h⟩ := of_andThen h
        cases h
        have hall := visitAll_ok (fun _ _ _ => ih) hbelow
        refine ⟨forall_mem_singleton.mpr (Finset.mem_insert_self _ _),
          hall.kept.trans (Finset.subset_insert _ _), ?_, fun hmarks v hv => ?_⟩
        · rw [hall.visiting]
          exact Finset.erase_insert hvisiting
        · rcases Finset.mem_insert.mp hv with rfl | hv
          · exact .intro (mapError_eq_ok_iff.mp hchildren) fun next hnext =>
              hall.terminates hmarks next (hall.found next hnext)
          · exact hall.terminates hmarks v hv

end

end CoveFormat.DepthFirstSearch
