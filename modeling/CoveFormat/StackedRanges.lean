import CoveFormat.IntervalTiling
import Mathlib.Algebra.BigOperators.Intervals
import Mathlib.Algebra.Order.BigOperators.Group.Finset

namespace CoveFormat.StackedRanges

open Grouping List SortedKeys

variable {α : Type} {start len : α → Nat} {next : Nat} {as bs : List α} {a b : α}

/-- Each range starts where the range before it stops. -/
def Stacks (start len : α → Nat) : Nat → List α → Prop
  | _, [] => True
  | next, a :: as => start a = next ∧ Stacks start len (next + len a) as

instance decidableStacks (start len : α → Nat) :
    (next : Nat) → (as : List α) → Decidable (Stacks start len next as)
  | _, [] => isTrue trivial
  | next, a :: as =>
    have := decidableStacks start len (next + len a) as
    inferInstanceAs (Decidable (start a = next ∧ Stacks start len (next + len a) as))

/-- No empty range stands behind a range with the same start that is not empty. -/
def EmptyFirst (start len : α → Nat) (as : List α) : Prop :=
  as.Pairwise fun a b => start a = start b → 0 < len a → 0 < len b

/-- Ranges that are not empty have different starts. -/
def Apart (start len : α → Nat) (a b : α) : Prop := start a = start b → 0 < len a → len b = 0

theorem Apart.symm (h : Apart start len a b) : Apart start len b a := by
  intro hstart hb
  by_contra ha
  have hzero := h hstart.symm (Nat.pos_of_ne_zero ha)
  omega

section

variable (h : Stacks start len next as)
include h

theorem Stacks.starts : ∀ a ∈ as, next ≤ start a := by
  induction as generalizing next with
  | nil => exact forall_mem_nil _
  | cons a as ih =>
    refine forall_mem_cons.mpr ⟨h.1.ge, fun b hb => ?_⟩
    exact (Nat.le_add_right next (len a)).trans (ih h.2 b hb)

theorem Stacks.follows : as.Pairwise fun a b => start a + len a ≤ start b := by
  induction as generalizing next with
  | nil => exact .nil
  | cons a as ih =>
    refine pairwise_cons.mpr ⟨fun b hb => ?_, ih h.2⟩
    rw [h.1]
    exact h.2.starts b hb

theorem Stacks.ends : ∀ a ∈ as, start a + len a ≤ next + (as.map len).sum := by
  induction as generalizing next with
  | nil => exact forall_mem_nil _
  | cons a as ih =>
    rw [map_cons, sum_cons]
    refine forall_mem_cons.mpr ⟨?_, fun b hb => ?_⟩
    · rw [h.1]
      omega
    · have hb := ih h.2 b hb
      omega

theorem Stacks.covers {x : Nat} (hx : next ≤ x) (hend : x < next + (as.map len).sum) :
    ∃ a ∈ as, start a ≤ x ∧ x < start a + len a := by
  induction as generalizing next with
  | nil =>
    rw [map_nil, sum_nil] at hend
    omega
  | cons a as ih =>
    rw [map_cons, sum_cons] at hend
    by_cases hin : x < next + len a
    · exact ⟨a, mem_cons_self, by rw [h.1]; exact hx, by rw [h.1]; exact hin⟩
    · obtain ⟨b, hb, hbx⟩ := ih h.2 (by omega) (by omega)
      exact ⟨b, mem_cons_of_mem _ hb, hbx⟩

end

theorem stacks_congr (h : as.map (fun a => (start a, len a)) = bs.map fun b => (start b, len b)) :
    Stacks start len next as ↔ Stacks start len next bs := by
  induction as generalizing next bs with
  | nil =>
    obtain rfl := map_eq_nil_iff.mp h.symm
    exact Iff.rfl
  | cons a as ih =>
    cases bs with
    | nil => cases h
    | cons b bs =>
      obtain ⟨hrange, hrest⟩ := List.cons.inj h
      obtain ⟨hstart, hlen⟩ := Prod.mk.inj hrange
      simp only [Stacks, hstart, hlen, ih hrest]

theorem sublist_sortByKey (hkey : start a = start b) :
    [a, b].Sublist (sortByKey start as) ↔ [a, b].Sublist as := by
  have hpair : under start (start a) [a, b] = [a, b] := by
    rw [under, filter_eq_self]
    simp [hkey]
  constructor
  · intro h
    have hunder := h.filter fun x => start x = start a
    rw [← under, ← under, hpair, sortByKey_under] at hunder
    exact hunder.trans filter_sublist
  · intro h
    have hunder := h.filter fun x => start x = start a
    rw [← under, ← under, hpair, ← sortByKey_under] at hunder
    exact hunder.trans filter_sublist

theorem emptyFirst_sortByKey :
    EmptyFirst start len (sortByKey start as) ↔ EmptyFirst start len as := by
  simp only [EmptyFirst, pairwise_iff_forall_sublist]
  constructor
  · intro h a b hab hkey
    exact h ((sublist_sortByKey hkey).mpr hab) hkey
  · intro h a b hab hkey
    exact h ((sublist_sortByKey hkey).mp hab) hkey

theorem Stacks.emptyFirst (h : Stacks start len next as) : EmptyFirst start len as :=
  h.follows.imp fun hab hkey hpos => by omega

theorem Stacks.apart (h : Stacks start len next as) : as.Pairwise (Apart start len) :=
  h.follows.imp fun hab hkey hpos => by omega

theorem ordered_pairs (hsorted : as.Pairwise fun a b => start a ≤ start b)
    (hempty : EmptyFirst start len as) (hapart : as.Pairwise (Apart start len)) :
    (as.map fun a => (start a, len a)).Pairwise fun p q => p.1 < q.1 ∨ p.1 = q.1 ∧ p.2 ≤ q.2 := by
  refine pairwise_map.mpr (((hsorted.and hempty).and hapart).imp fun {a b} h => ?_)
  obtain ⟨⟨hle, hpos⟩, hzero⟩ := h
  rcases Nat.lt_or_eq_of_le hle with hlt | heq
  · exact .inl hlt
  · refine .inr ⟨heq, ?_⟩
    by_cases ha : 0 < len a
    · have hb := hpos heq ha
      rw [hzero heq ha] at hb
      exact absurd hb (Nat.lt_irrefl 0)
    · change len a ≤ len b
      omega

theorem stacks_sortByKey_iff : Stacks start len next (sortByKey start as) ↔
    (∃ order, order.Perm as ∧ Stacks start len next order) ∧ EmptyFirst start len as := by
  constructor
  · intro h
    exact ⟨⟨_, sortByKey_perm start as, h⟩, emptyFirst_sortByKey.mp h.emptyFirst⟩
  · rintro ⟨⟨order, hperm, h⟩, hempty⟩
    have hsame : order.Perm (sortByKey start as) := hperm.trans (sortByKey_perm start as).symm
    have horder := ordered_pairs (h.follows.imp fun hab => by omega) h.emptyFirst h.apart
    have hsorted := ordered_pairs (sortByKey_pairwise start as) (emptyFirst_sortByKey.mpr hempty)
      ((hsame.pairwise_iff Apart.symm).mp h.apart)
    refine (stacks_congr ?_).mp h
    refine List.Perm.eq_of_pairwise (fun p q _ _ hpq hqp => ?_) horder hsorted (hsame.map _)
    exact Prod.ext (by omega) (by omega)

end CoveFormat.StackedRanges
