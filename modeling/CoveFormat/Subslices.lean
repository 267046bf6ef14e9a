import Mathlib.Data.List.Infix

namespace CoveFormat.Subslices

open List Option

variable {α : Type}

/-- The slices of `n` elements, from left to right, for a positive `n`. -/
def windows (n : Nat) : List α → List (List α)
  | [] => []
  | x :: xs => if n ≤ xs.length + 1 then (x :: xs).take n :: windows n xs else []

/-- No proper end of the word is a beginning of it, so two copies of it never overlap. -/
def Unbordered (word : List α) : Prop := ∀ k < word.length, k ≠ 0 → ¬ word.drop k <+: word

theorem Unbordered.prefix_of_append {word front rest : List α} (h : Unbordered word)
    (hfront : front ≠ []) (hword : word <+: front ++ (word ++ rest)) : word <+: front := by
  by_cases hlen : word.length ≤ front.length
  · exact prefix_of_prefix_length_le hword (prefix_append ..) hlen
  · have hshort : front.length ≤ word.length := by omega
    obtain ⟨back, rfl⟩ : front <+: word :=
      prefix_of_prefix_length_le (prefix_append ..) hword hshort
    have hback : back <+: front ++ back := by
      refine prefix_of_prefix_length_le ((prefix_append_right_inj front).mp hword)
        (prefix_append ..) ?_
      simp
    refine absurd hback ?_
    have hdrop := h front.length (by omega) (by simpa using hfront)
    rwa [drop_left] at hdrop

variable [DecidableEq α]

def position (word xs : List α) : Option Nat := (windows word.length xs).findIdx? (· == word)

variable {word : List α}

theorem position_nil : position word [] = none := rfl

theorem position_cons (x : α) (xs : List α) : position word (x :: xs) =
      if word <+: x :: xs then some 0 else (position word xs).map (· + 1) := by
  rw [position, windows]
  by_cases hlen : word.length ≤ xs.length + 1
  · rw [if_pos hlen, List.findIdx?_cons]
    by_cases hword : word <+: x :: xs
    · rw [if_pos hword, if_pos (beq_iff_eq.mpr (prefix_iff_eq_take.mp hword).symm)]
    · rw [if_neg hword, if_neg fun heq => hword (prefix_iff_eq_take.mpr (beq_iff_eq.mp heq).symm)]
      rfl
  · have hword : ¬ word <+: x :: xs := fun hword => hlen (by simpa using hword.length_le)
    have hlater : windows word.length xs = [] := by
      cases xs with
      | nil => rfl
      | cons y ys => rw [windows, if_neg (by rw [length_cons] at hlen; omega)]
    rw [if_neg hlen, if_neg hword, position, hlater]
    rfl

theorem position_eq_none_iff (h : word ≠ []) {xs : List α} :
    position word xs = none ↔ ¬ word <:+: xs := by
  induction xs with
  | nil => simp [position_nil, h]
  | cons x xs ih =>
    rw [position_cons, infix_cons_iff]
    split
    · rename_i hword
      simp [hword]
    · rename_i hword
      rw [map_eq_none_iff, ih]
      simp [hword]

theorem position_eq_some_iff (h : Unbordered word) (hne : word ≠ []) {xs : List α} {i : Nat} :
    position word xs = some i ↔
      ∃ before rest, xs = before ++ (word ++ rest) ∧ before.length = i ∧ ¬ word <:+: before := by
  induction xs generalizing i with
  | nil => simp [position_nil, hne]
  | cons x xs ih =>
    rw [position_cons]
    constructor
    · intro hi
      split at hi
      · rename_i hword
        obtain ⟨rest, hrest⟩ := hword
        exact ⟨[], rest, hrest.symm, some.inj hi, by simpa using hne⟩
      · rename_i hword
        obtain ⟨j, hj, rfl⟩ := map_eq_some_iff.mp hi
        obtain ⟨before, rest, rfl, rfl, hbefore⟩ := ih.mp hj
        refine ⟨x :: before, rest, rfl, rfl, fun hin => ?_⟩
        rcases infix_cons_iff.mp hin with hpre | hin
        · exact hword (hpre.trans (prefix_append ..))
        · exact hbefore hin
    · rintro ⟨before, rest, hxs, rfl, hbefore⟩
      cases before with
      | nil => rw [if_pos ⟨rest, hxs.symm⟩, length_nil]
      | cons b before =>
        rw [cons_append] at hxs
        obtain ⟨rfl, rfl⟩ := List.cons.inj hxs
        have hword : ¬ word <+: x :: (before ++ (word ++ rest)) := fun hword =>
          hbefore (h.prefix_of_append (cons_ne_nil x before) hword).isInfix
        have hlater : ¬ word <:+: before := fun hin =>
          hbefore (infix_cons_iff.mpr (.inr hin))
        rw [if_neg hword, ih.mpr ⟨before, rest, rfl, rfl, hlater⟩]
        rfl

end CoveFormat.Subslices
