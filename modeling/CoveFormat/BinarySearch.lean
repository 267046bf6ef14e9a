import Mathlib.Order.Lattice

namespace CoveFormat.BinarySearch

open Option List

variable {α : Type} [LinearOrder α]

def narrow (xs : List α) (key : α) : Nat → Nat → Nat → Nat
  | 0, base, _ => base
  | fuel + 1, base, size =>
    if size ≤ 1 then base
    else
      let half := size / 2
      let mid := base + half
      narrow xs key fuel (if xs[mid]?.any (key < ·) then base else mid) (size - half)

/-- The halving search of a slice: the window start moves to the middle unless
the middle element is above the key, until one element is left. -/
def binarySearch (xs : List α) (key : α) : Option Nat :=
  let base := narrow xs key xs.length 0 xs.length
  if xs[base]? = some key then some base else none

def InWindow (xs : List α) (key : α) (base size : Nat) : Prop :=
  base + size ≤ xs.length ∧ ∃ i, base ≤ i ∧ i < base + size ∧ xs[i]? = some key

theorem InWindow.step {xs : List α} {key : α} {base size : Nat} (hs : xs.Pairwise (· ≤ ·))
    (hsize : 1 < size) (h : InWindow xs key base size) :
    InWindow xs key (if xs[base + size / 2]?.any (key < ·) then base else base + size / 2)
      (size - size / 2) := by
  obtain ⟨hlen, i, hbi, his, hi⟩ := h
  obtain ⟨hil, hik⟩ := List.getElem?_eq_some_iff.mp hi
  have hm : base + size / 2 < xs.length := by omega
  rw [List.getElem?_eq_getElem hm]
  by_cases hk : key < xs[base + size / 2]
  · have hlt : i < base + size / 2 := by
      by_contra hge
      rcases Nat.lt_or_eq_of_le (Nat.le_of_not_lt hge) with hlt | rfl
      · have hle := pairwise_iff_getElem.mp hs _ _ hm hil hlt
        rw [hik] at hle
        exact absurd hk (not_lt.mpr hle)
      · rw [hik] at hk
        exact lt_irrefl _ hk
    rw [if_pos (by simpa using hk)]
    exact ⟨by omega, i, hbi, by omega, hi⟩
  · rw [if_neg (by simpa using hk)]
    refine ⟨by omega, ?_⟩
    by_cases hlt : i < base + size / 2
    · have hle := pairwise_iff_getElem.mp hs _ _ hil hm hlt
      rw [hik] at hle
      have he : xs[base + size / 2] = key := le_antisymm (not_lt.mp hk) hle
      exact ⟨base + size / 2, Nat.le_refl _, by omega, by rw [List.getElem?_eq_getElem hm, he]⟩
    · exact ⟨i, by omega, by omega, hi⟩

variable {xs : List α} {key : α}

theorem narrow_found (hs : xs.Pairwise (· ≤ ·)) (fuel base size : Nat) (hf : size ≤ fuel)
    (h : InWindow xs key base size) : xs[narrow xs key fuel base size]? = some key := by
  induction fuel generalizing base size with
  | zero =>
    obtain ⟨-, i, hbi, his, -⟩ := h
    omega
  | succ fuel ih =>
    rw [narrow]
    by_cases h1 : size ≤ 1
    · obtain ⟨-, i, hbi, his, hi⟩ := h
      have he : i = base := by omega
      rwa [if_pos h1, ← he]
    · rw [if_neg h1]
      exact ih _ _ (by omega) (h.step hs (by omega))

theorem binarySearch_sound {i : Nat} (h : binarySearch xs key = some i) : xs[i]? = some key := by
  simp only [binarySearch] at h
  split at h
  · rename_i hk
    rwa [some.inj h] at hk
  · cases h

theorem binarySearch_isSome_iff (hs : xs.Pairwise (· ≤ ·)) (key : α) :
    (binarySearch xs key).isSome ↔ key ∈ xs := by
  constructor
  · intro h
    obtain ⟨i, hi⟩ := isSome_iff_exists.mp h
    exact mem_of_getElem? (binarySearch_sound hi)
  · intro h
    obtain ⟨i, hi, hk⟩ := getElem_of_mem h
    have hw : InWindow xs key 0 xs.length :=
      ⟨by omega, i, Nat.zero_le _, by omega, by rw [List.getElem?_eq_getElem hi, hk]⟩
    have hf := narrow_found hs xs.length 0 xs.length (Nat.le_refl _) hw
    rw [binarySearch, if_pos hf, isSome_some]

end CoveFormat.BinarySearch
