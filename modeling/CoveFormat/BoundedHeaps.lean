import Mathlib.Data.List.Perm.Basic
import Mathlib.Data.List.Sort

namespace CoveFormat.BoundedHeaps

open List

variable {α : Type} {cmp : α → α → Ordering} {items rest : List α}

/-! Sorting by a comparison. -/

/-- `sort_by`. -/
def sortBy (cmp : α → α → Ordering) (items : List α) : List α :=
  items.mergeSort fun a b => (cmp a b).isLE

theorem sortBy_perm (items : List α) : (sortBy cmp items).Perm items := mergeSort_perm _ _

theorem sortBy_sorted [Std.TransCmp cmp] (items : List α) :
    (sortBy cmp items).Pairwise fun a b => (cmp a b).isLE := by
  apply pairwise_mergeSort
  · intro a b c
    exact Std.TransCmp.isLE_trans
  · intro a b
    rw [Bool.or_eq_true]
    by_cases h : (cmp a b).isLE = true
    · exact .inl h
    · exact .inr (Ordering.isLE_of_eq_lt (Std.OrientedCmp.lt_of_not_isLE h))

theorem transCmp_comap {β : Type} {cmp : β → β → Ordering} (h : Std.TransCmp cmp) (f : α → β) :
    Std.TransCmp fun a b => cmp (f a) (f b) where
  eq_swap := h.eq_swap
  isLE_trans := h.isLE_trans

/-- Where the comparison orders the items and tells them apart, sorting forgets their order. -/
theorem sortBy_eq_of_perm {p : α → Prop} (h : Std.TransCmp fun a b : {a // p a} => cmp a b)
    (hitems : ∀ a ∈ items, p a) (hperm : items.Perm rest)
    (heq : ∀ a ∈ items, ∀ b ∈ items, cmp a b = .eq → a = b) : sortBy cmp items = sortBy cmp rest := by
  have hsorted (xs : List α) (hxs : ∀ a ∈ xs, p a) :
      (sortBy cmp xs).Pairwise fun a b => (cmp a b).isLE := by
    obtain ⟨xs, rfl⟩ : ∃ ys : List {a // p a}, ys.map Subtype.val = xs :=
      ⟨xs.attachWith p hxs, attachWith_map_subtype_val _⟩
    have hmap : (sortBy (fun a b : {a // p a} => cmp a b) xs).map Subtype.val =
        sortBy cmp (xs.map Subtype.val) := map_mergeSort fun _ _ _ _ => rfl
    rw [← hmap, pairwise_map]
    exact sortBy_sorted xs
  have hrest : ∀ a ∈ rest, p a := fun a ha => hitems a (hperm.mem_iff.mpr ha)
  refine List.Perm.eq_of_pairwise ?_ (hsorted items hitems) (hsorted rest hrest)
    ((sortBy_perm items).trans (hperm.trans (sortBy_perm rest).symm))
  intro a b ha hb hab hba
  have ha := (sortBy_perm items).mem_iff.mp ha
  have hb := hperm.mem_iff.mpr ((sortBy_perm rest).mem_iff.mp hb)
  refine heq a ha b hb (h.isLE_antisymm (a := ⟨a, hitems a ha⟩) (b := ⟨b, hitems b hb⟩) hab hba)

section

variable [Std.TransCmp cmp] [Std.LawfulEqCmp cmp]

theorem sortBy_eq {sorted : List α} (hsorted : sorted.Pairwise fun a b => (cmp a b).isLE)
    (hperm : sorted.Perm items) : sortBy cmp items = sorted := by
  refine List.Perm.eq_of_pairwise ?_ (sortBy_sorted items) hsorted
    ((sortBy_perm items).trans hperm.symm)
  intro a b _ _ hab hba
  exact Std.LawfulEqCmp.eq_of_compare (Std.OrientedCmp.isLE_antisymm hab hba)

theorem sortBy_strict (h : items.Nodup) : (sortBy cmp items).Pairwise fun a b => cmp a b = .lt := by
  have hnodup : (sortBy cmp items).Nodup := (sortBy_perm items).nodup_iff.mpr h
  refine ((sortBy_sorted items).and hnodup).imp ?_
  rintro a b ⟨hle, hne⟩
  rcases Ordering.isLE_iff_eq_lt_or_eq_eq.mp hle with hlt | heq
  · exact hlt
  · exact absurd (Std.LawfulEqCmp.eq_of_compare heq) hne

theorem sortBy_append (h : ∀ a ∈ items, ∀ b ∈ rest, (cmp a b).isLE) :
    sortBy cmp (items ++ rest) = sortBy cmp items ++ sortBy cmp rest := by
  apply sortBy_eq
  · refine pairwise_append.mpr ⟨sortBy_sorted items, sortBy_sorted rest, ?_⟩
    intro a ha b hb
    exact h a ((sortBy_perm items).mem_iff.mp ha) b ((sortBy_perm rest).mem_iff.mp hb)
  · exact (sortBy_perm items).append (sortBy_perm rest)

end

/-! A heap by what it does: its items, of which a greatest one is on top. -/

variable {heap seen : List α} {item top worst : α} {limit : Nat}

def greater (cmp : α → α → Ordering) (a b : α) : α := if cmp a b = .lt then b else a

def peek (cmp : α → α → Ordering) : List α → Option α
  | [] => none
  | item :: items => some (items.foldl (greater cmp) item)

def pop [DecidableEq α] (cmp : α → α → Ordering) (heap : List α) : List α :=
  match peek cmp heap with
  | some top => heap.erase top
  | none => []

/-- Of the items seen the heap has as many as its limit allows, and none of the rest is better. -/
structure Best (cmp : α → α → Ordering) (limit : Nat) (seen heap rest : List α) : Prop where
  perm : (heap ++ rest).Perm seen
  length : heap.length = min limit seen.length
  better : ∀ a ∈ heap, ∀ b ∈ rest, (cmp a b).isLE

namespace Best

theorem nil : Best cmp limit [] [] [] :=
  ⟨List.Perm.refl _, (Nat.min_zero _).symm, forall_mem_nil _⟩

theorem push (h : Best cmp limit seen heap rest) (hroom : heap.length < limit) (item : α) :
    Best cmp limit (seen ++ [item]) (item :: heap) rest := by
  have hcount := h.perm.length_eq
  have hlength := h.length
  rw [length_append] at hcount
  have hrest : rest = [] := length_eq_zero_iff.mp (by omega)
  subst hrest
  refine ⟨?_, ?_, fun a _ b hb => absurd hb not_mem_nil⟩
  · exact (h.perm.cons item).trans (perm_append_singleton item seen).symm
  · rw [length_cons, length_append, length_singleton]
    omega

variable (h : Best cmp limit seen heap rest)
include h

theorem length_full (hfull : ¬ heap.length < limit) (item : α) :
    heap.length = min limit (seen ++ [item]).length := by
  have hlength := h.length
  rw [length_append, length_singleton]
  omega

theorem perm_middle (item : α) : (heap ++ item :: rest).Perm (seen ++ [item]) :=
  List.perm_middle.trans ((h.perm.cons item).trans (perm_append_singleton item seen).symm)

end Best

section

variable [Std.TransCmp cmp]

theorem le_greater (a b : α) : (cmp a (greater cmp a b)).isLE ∧ (cmp b (greater cmp a b)).isLE := by
  rw [greater]
  by_cases h : cmp a b = .lt
  · rw [if_pos h]
    exact ⟨Ordering.isLE_of_eq_lt h, Std.ReflCmp.isLE_rfl⟩
  · rw [if_neg h]
    exact ⟨Std.ReflCmp.isLE_rfl, Std.OrientedCmp.isLE_of_isGE (Ordering.isGE_iff_ne_lt.mpr h)⟩

theorem peek_spec (h : peek cmp heap = some top) : top ∈ heap ∧ ∀ a ∈ heap, (cmp a top).isLE := by
  cases heap with
  | nil => cases h
  | cons item items =>
    obtain rfl := Option.some.inj h
    clear h
    induction items generalizing item with
    | nil =>
      refine ⟨mem_singleton_self _, fun a ha => ?_⟩
      rw [mem_singleton.mp ha]
      exact Std.ReflCmp.isLE_rfl
    | cons next items ih =>
      obtain ⟨hmem, hall⟩ := @ih (greater cmp item next)
      obtain ⟨hitem, hnext⟩ := @le_greater _ cmp _ item next
      have htop := hall _ mem_cons_self
      rw [foldl_cons]
      constructor
      · rcases mem_cons.mp hmem with heq | hmem
        · rw [heq, greater]
          split
          · exact mem_cons_of_mem _ mem_cons_self
          · exact mem_cons_self
        · exact mem_cons_of_mem _ (mem_cons_of_mem _ hmem)
      · intro a ha
        rcases mem_cons.mp ha with rfl | ha
        · exact Std.TransCmp.isLE_trans hitem htop
        · rcases mem_cons.mp ha with rfl | ha
          · exact Std.TransCmp.isLE_trans hnext htop
          · exact hall a (mem_cons_of_mem _ ha)

theorem pop_perm [DecidableEq α] (h : peek cmp heap = some top) : heap.Perm (top :: pop cmp heap) := by
  rw [pop, h]
  exact perm_cons_erase (peek_spec h).1

namespace Best

variable (h : Best cmp limit seen heap rest)
include h

theorem replace [DecidableEq α] (hfull : ¬ heap.length < limit) (hpeek : peek cmp heap = some worst)
    (hlt : cmp item worst = .lt) :
    Best cmp limit (seen ++ [item]) (item :: pop cmp heap) (worst :: rest) := by
  obtain ⟨hmem, hall⟩ := peek_spec hpeek
  have hpop := pop_perm hpeek
  refine ⟨?_, ?_, ?_⟩
  · have hout : (item :: pop cmp heap ++ worst :: rest).Perm (item :: (heap ++ rest)) :=
      (List.perm_middle.trans (hpop.symm.append_right rest)).cons item
    exact hout.trans (List.perm_middle.symm.trans (h.perm_middle item))
  · rw [← h.length_full hfull item, hpop.length_eq, length_cons, length_cons]
  · intro a ha b hb
    have hworst : (cmp a worst).isLE := by
      rcases mem_cons.mp ha with rfl | ha
      · exact Ordering.isLE_of_eq_lt hlt
      · exact hall a (hpop.mem_iff.mpr (mem_cons_of_mem _ ha))
    rcases mem_cons.mp hb with rfl | hb
    · exact hworst
    · exact Std.TransCmp.isLE_trans hworst (h.better worst hmem b hb)

theorem skip (hfull : ¬ heap.length < limit)
    (hworse : ∀ worst, peek cmp heap = some worst → cmp item worst ≠ .lt) :
    Best cmp limit (seen ++ [item]) heap (item :: rest) := by
  refine ⟨h.perm_middle item, h.length_full hfull item, ?_⟩
  intro a ha b hb
  rcases mem_cons.mp hb with rfl | hb
  · cases hpeek : peek cmp heap with
    | none =>
      cases heap with
      | nil => cases ha
      | cons top heap => cases hpeek
    | some worst =>
      have hle := Std.OrientedCmp.isLE_of_isGE (Ordering.isGE_iff_ne_lt.mpr (hworse worst hpeek))
      exact Std.TransCmp.isLE_trans ((peek_spec hpeek).2 a ha) hle
  · exact h.better a ha b hb

theorem sortBy_eq_take [Std.LawfulEqCmp cmp] : sortBy cmp heap = (sortBy cmp seen).take limit := by
  have hseen : sortBy cmp seen = sortBy cmp heap ++ sortBy cmp rest := by
    rw [← sortBy_append h.better]
    exact sortBy_eq (sortBy_sorted _) ((sortBy_perm _).trans h.perm)
  have hlength : (sortBy cmp heap).length = min limit seen.length := by
    rw [(sortBy_perm heap).length_eq, h.length]
  have hall : seen.length = (sortBy cmp heap).length + (sortBy cmp rest).length := by
    rw [← length_append, ← hseen, (sortBy_perm seen).length_eq]
  rw [hseen]
  by_cases hle : limit ≤ seen.length
  · rw [Nat.min_eq_left hle] at hlength
    rw [← hlength, take_left]
  · have hrest : sortBy cmp rest = [] := length_eq_zero_iff.mp (by omega)
    rw [hrest, append_nil, take_of_length_le (by omega)]

end Best

end

end CoveFormat.BoundedHeaps
