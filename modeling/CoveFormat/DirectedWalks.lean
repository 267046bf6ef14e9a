import Mathlib.Data.Finset.Basic
import Mathlib.Data.List.Chain
import Mathlib.Data.Nat.Find

namespace CoveFormat.DirectedWalks

open List Relation

variable {α : Type} {r r' : α → α → Prop} {a b c d : α} {p q : List α} {m n : ℕ}

/-- A walk as the nodes it comes to after its first one. -/
inductive Walk (r : α → α → Prop) (a : α) : List α → α → Prop
  | nil : Walk r a [] a
  | snoc {p : List α} {b c : α} (h : Walk r a p b) (hstep : r b c) : Walk r a (p ++ [c]) c

/-- A walk that no other between its ends is shorter than. -/
def Shortest (r : α → α → Prop) (a : α) (p : List α) (b : α) : Prop :=
  Walk r a p b ∧ ∀ q, Walk r a q b → p.length ≤ q.length

def IsDistance (r : α → α → Prop) (a b : α) (n : ℕ) : Prop := ∃ p, Shortest r a p b ∧ p.length = n

@[simp] theorem walk_nil_iff : Walk r a [] b ↔ a = b := by
  constructor
  · intro h
    generalize hp : ([] : List α) = p at h
    cases h with
    | nil => rfl
    | snoc h hstep => simp at hp
  · rintro rfl
    exact .nil

theorem walk_snoc_iff : Walk r a (p ++ [c]) d ↔ c = d ∧ ∃ b, Walk r a p b ∧ r b c := by
  constructor
  · intro h
    generalize hq : p ++ [c] = q at h
    cases h with
    | nil => simp at hq
    | snoc h hstep =>
      obtain ⟨rfl, hc⟩ := append_inj' hq rfl
      obtain rfl := singleton_inj.mp hc
      exact ⟨rfl, _, h, hstep⟩
  · rintro ⟨rfl, b, h, hstep⟩
    exact h.snoc hstep

theorem Walk.append (h : Walk r a p b) (h' : Walk r b q c) : Walk r a (p ++ q) c := by
  induction h' with
  | nil => rwa [append_nil]
  | snoc _ hstep ih =>
    rw [← append_assoc]
    exact ih.snoc hstep

theorem Walk.single (h : r a b) : Walk r a [b] b := Walk.nil.snoc h

theorem Walk.cons (hstep : r a b) (h : Walk r b p c) : Walk r a (b :: p) c :=
  (Walk.single hstep).append h

theorem Walk.mono (hr : ∀ x y, r x y → r' x y) (h : Walk r a p b) : Walk r' a p b := by
  induction h with
  | nil => exact .nil
  | snoc _ hstep ih => exact ih.snoc (hr _ _ hstep)

theorem Walk.end_unique (h : Walk r a p b) (h' : Walk r a p c) : b = c := by
  cases h with
  | nil => exact walk_nil_iff.mp h'
  | snoc _ _ => exact (walk_snoc_iff.mp h').1

theorem Walk.reaches (h : Walk r a p b) : ReflTransGen r a b := by
  induction h with
  | nil => exact .refl
  | snoc _ hstep ih => exact ih.tail hstep

theorem Walk.passes (h : Walk r a p c) (hb : b ∈ p) : ReflTransGen r a b ∧ ReflTransGen r b c := by
  induction h with
  | nil => cases hb
  | snoc h hstep ih =>
    rcases mem_append.mp hb with hb | hb
    · exact ⟨(ih hb).1, (ih hb).2.tail hstep⟩
    · obtain rfl := mem_singleton.mp hb
      exact ⟨(h.snoc hstep).reaches, .refl⟩

theorem Walk.end_mem (h : Walk r a p b) (hne : a ≠ b) : b ∈ p := by
  cases h with
  | nil => exact absurd rfl hne
  | snoc _ _ => exact mem_append_right _ mem_cons_self

theorem exists_walk_iff : (∃ p, Walk r a p b) ↔ ReflTransGen r a b := by
  constructor
  · rintro ⟨p, h⟩
    exact h.reaches
  · intro h
    induction h with
    | refl => exact ⟨[], .nil⟩
    | tail _ hstep ih =>
      obtain ⟨p, hp⟩ := ih
      exact ⟨_, hp.snoc hstep⟩

theorem walk_cons_iff : Walk r a (b :: p) c ↔ r a b ∧ Walk r b p c := by
  constructor
  · intro h
    induction p using reverseRecOn generalizing c with
    | nil =>
      obtain ⟨rfl, x, hx, hstep⟩ := (walk_snoc_iff (p := [])).mp h
      obtain rfl := walk_nil_iff.mp hx
      exact ⟨hstep, .nil⟩
    | append_singleton p d ih =>
      rw [← cons_append] at h
      obtain ⟨rfl, x, hx, hstep⟩ := walk_snoc_iff.mp h
      obtain ⟨hfirst, hrest⟩ := ih hx
      exact ⟨hfirst, hrest.snoc hstep⟩
  · rintro ⟨hstep, h⟩
    exact h.cons hstep

theorem walk_append_iff : Walk r a (p ++ q) c ↔ ∃ b, Walk r a p b ∧ Walk r b q c := by
  induction p generalizing a with
  | nil => simp
  | cons x p ih =>
    rw [cons_append, walk_cons_iff, ih]
    simp only [walk_cons_iff]
    tauto

theorem shortest_nil : Shortest r a [] a := ⟨.nil, fun _ _ => Nat.zero_le _⟩

theorem Shortest.eq_nil (h : Shortest r a p a) : p = [] :=
  eq_nil_of_length_eq_zero (Nat.le_zero.mp (h.2 [] .nil))

theorem Shortest.length_eq (h : Shortest r a p b) (h' : Shortest r a q b) : p.length = q.length :=
  le_antisymm (h.2 q h'.1) (h'.2 p h.1)

theorem Shortest.front (h : Shortest r a (p ++ [c]) d) : c = d ∧ ∃ b, Shortest r a p b ∧ r b c := by
  obtain ⟨rfl, b, hwalk, hstep⟩ := walk_snoc_iff.mp h.1
  refine ⟨rfl, b, ⟨hwalk, fun q hq => ?_⟩, hstep⟩
  have hle := h.2 _ (hq.snoc hstep)
  simp only [length_append, length_singleton] at hle
  omega

theorem exists_shortest (h : Walk r a p b) : ∃ q, Shortest r a q b := by
  classical
  have hex : ∃ n, ∃ q, Walk r a q b ∧ q.length = n := ⟨_, p, h, rfl⟩
  obtain ⟨q, hq, hlen⟩ := Nat.find_spec hex
  exact ⟨q, hq, fun q' hq' => hlen ▸ Nat.find_min' hex ⟨q', hq', rfl⟩⟩

theorem IsDistance.unique (h : IsDistance r a b m) (h' : IsDistance r a b n) : m = n := by
  obtain ⟨p, hp, rfl⟩ := h
  obtain ⟨q, hq, rfl⟩ := h'
  exact hp.length_eq hq

theorem Shortest.isDistance (h : Shortest r a p b) : IsDistance r a b p.length := ⟨p, h, rfl⟩

theorem Shortest.length_eq_of (h : Shortest r a p b) (h' : IsDistance r a b n) : p.length = n :=
  h.isDistance.unique h'

theorem IsDistance.le (h : IsDistance r a b n) (hp : Walk r a p b) : n ≤ p.length := by
  obtain ⟨q, hq, rfl⟩ := h
  exact hq.2 p hp

theorem isDistance_self : IsDistance r a a 0 := ⟨[], shortest_nil, rfl⟩

theorem isDistance_zero_iff : IsDistance r a b 0 ↔ a = b := by
  constructor
  · rintro ⟨p, hp, hlen⟩
    obtain rfl := eq_nil_of_length_eq_zero hlen
    exact walk_nil_iff.mp hp.1
  · rintro rfl
    exact isDistance_self

theorem exists_isDistance (h : Walk r a p b) : ∃ n ≤ p.length, IsDistance r a b n := by
  obtain ⟨q, hq⟩ := exists_shortest h
  exact ⟨q.length, hq.2 p h, q, hq, rfl⟩

theorem isDistance_of_closed {f : α → Option ℕ} (hstart : f a = some 0)
    (hwalk : ∀ x n, f x = some n → ∃ p, Walk r a p x ∧ p.length = n)
    (hclosed : ∀ x y n, f x = some n → r x y → ∃ m ≤ n + 1, f y = some m) :
    ∀ x n, f x = some n ↔ IsDistance r a x n := by
  have hfound : ∀ p x, Walk r a p x → ∃ m ≤ p.length, f x = some m := by
    intro p x h
    induction h with
    | nil => exact ⟨0, le_rfl, hstart⟩
    | snoc _ hstep ih =>
      obtain ⟨m, hm, hfm⟩ := ih
      obtain ⟨k, hk, hfk⟩ := hclosed _ _ _ hfm hstep
      refine ⟨k, ?_, hfk⟩
      rw [length_append, length_singleton]
      omega
  intro x n
  constructor
  · intro hx
    obtain ⟨p, hp, rfl⟩ := hwalk x n hx
    refine ⟨p, ⟨hp, fun q hq => ?_⟩, rfl⟩
    obtain ⟨m, hm, hfm⟩ := hfound q x hq
    obtain rfl := Option.some.inj (hx.symm.trans hfm)
    exact hm
  · rintro ⟨p, hp, rfl⟩
    obtain ⟨m, hm, hfm⟩ := hfound p x hp.1
    obtain ⟨q, hq, rfl⟩ := hwalk x m hfm
    rw [hfm, le_antisymm hm (hp.2 q hq)]

end CoveFormat.DirectedWalks
