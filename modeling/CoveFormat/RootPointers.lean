import Mathlib.Combinatorics.SimpleGraph.Acyclic

namespace CoveFormat.RootPointers

open List

variable {α : Type} {up : α → α} {a b i j r s : α} {m n : ℕ}

/-- The pointers lead from an element to its root, one that points at itself, in a number of steps. -/
inductive Chain (up : α → α) : ℕ → α → α → Prop
  | here {i : α} (h : up i = i) : Chain up 0 i i
  | step {n : ℕ} {i r : α} (h : up i ≠ i) (hrest : Chain up n (up i) r) : Chain up (n + 1) i r

def Rooted (up : α → α) (i r : α) : Prop := ∃ n, Chain up n i r

theorem Chain.fixed (h : Chain up n i r) : up r = r := by
  induction h with
  | here h => exact h
  | step _ _ ih => exact ih

theorem Chain.unique (h : Chain up m i r) (h' : Chain up n i s) : m = n ∧ r = s := by
  induction h generalizing n with
  | here h =>
    cases h' with
    | here _ => exact ⟨rfl, rfl⟩
    | step hne _ => exact absurd h hne
  | step hne _ ih =>
    cases h' with
    | here h => exact absurd h hne
    | step _ hrest =>
      obtain ⟨rfl, rfl⟩ := ih hrest
      exact ⟨rfl, rfl⟩

theorem Rooted.unique (h : Rooted up i r) (h' : Rooted up i s) : r = s := by
  obtain ⟨m, h⟩ := h
  obtain ⟨n, h'⟩ := h'
  exact (h.unique h').2

theorem Rooted.fixed (h : Rooted up i r) : up r = r := by
  obtain ⟨n, h⟩ := h
  exact h.fixed

theorem rooted_of_fixed (h : up r = r) : Rooted up r r := ⟨0, .here h⟩

theorem Rooted.of_up (h : Rooted up (up i) r) : Rooted up i r := by
  by_cases hi : up i = i
  · rwa [hi] at h
  · obtain ⟨n, h⟩ := h
    exact ⟨n + 1, .step hi h⟩

theorem Chain.lt_card {S : Finset α} (hclosed : ∀ k ∈ S, up k ∈ S) (h : Chain up n i r) (hi : i ∈ S) :
    n < S.card := by
  classical
  have hall : ∃ T ⊆ S, T.card = n + 1 ∧ ∀ k ∈ T, ∃ m ≤ n, ∃ t, Chain up m k t := by
    induction h with
    | @here i h =>
      exact ⟨{i}, Finset.singleton_subset_iff.mpr hi, Finset.card_singleton i, fun k hk =>
        ⟨0, le_rfl, i, (Finset.mem_singleton.mp hk).symm ▸ .here h⟩⟩
    | @step n i r hne hrest ih =>
      obtain ⟨T, hT, hcard, hchains⟩ := ih (hclosed i hi)
      have hnot : i ∉ T := by
        intro hmem
        obtain ⟨m, hm, t, hchain⟩ := hchains i hmem
        have := (hchain.unique (.step hne hrest)).1
        omega
      refine ⟨insert i T, Finset.insert_subset hi hT, by rw [Finset.card_insert_of_notMem hnot, hcard],
        (Finset.forall_mem_insert _ _ _).mpr ⟨⟨n + 1, le_rfl, r, .step hne hrest⟩, fun k hk => ?_⟩⟩
      obtain ⟨m, hm, t, hchain⟩ := hchains k hk
      exact ⟨m, hm.trans n.le_succ, t, hchain⟩
  obtain ⟨T, hT, hcard, -⟩ := hall
  have := Finset.card_le_card hT
  omega

variable [DecidableEq α]

theorem Rooted.shorten (hi : Rooted up i r) (hj : Rooted up j s) :
    Rooted (Function.update up i r) j s := by
  have hfixed : ∀ t, up t = t → Function.update up i r t = t := by
    intro t ht
    by_cases heq : t = i
    · subst heq
      rw [Function.update_self]
      exact hi.unique (rooted_of_fixed ht)
    · rw [Function.update_of_ne heq, ht]
  obtain ⟨n, hj⟩ := hj
  induction hj with
  | here h => exact rooted_of_fixed (hfixed _ h)
  | @step n j s hne hrest ih =>
    refine Rooted.of_up ?_
    by_cases heq : j = i
    · subst heq
      obtain rfl := hi.unique ⟨_, .step hne hrest⟩
      rw [Function.update_self]
      exact rooted_of_fixed (hfixed _ hrest.fixed)
    · rwa [Function.update_of_ne heq]

theorem Rooted.link (ha : up a = a) (hb : up b = b) (hne : a ≠ b) (hj : Rooted up j s) :
    Rooted (Function.update up b a) j (if s = b then a else s) := by
  have hroot : Rooted (Function.update up b a) a a :=
    rooted_of_fixed (by rw [Function.update_of_ne hne, ha])
  obtain ⟨n, hj⟩ := hj
  induction hj with
  | @here j h =>
    split
    · rename_i heq
      subst heq
      refine Rooted.of_up ?_
      rwa [Function.update_self]
    · rename_i heq
      exact rooted_of_fixed (by rw [Function.update_of_ne heq, h])
  | @step n j s hstep hrest ih =>
    have hj : j ≠ b := fun heq => hstep (heq ▸ hb)
    refine Rooted.of_up ?_
    rwa [Function.update_of_ne hj]

end CoveFormat.RootPointers
