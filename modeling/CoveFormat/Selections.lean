import Mathlib.Data.List.GetD
import Mathlib.Data.List.Range

namespace CoveFormat.Selections

open List

abbrev SelectionMask := List Bool

namespace SelectionMask

def fillAll (rowCount : Nat) : SelectionMask := replicate rowCount true

def fillNone (rowCount : Nat) : SelectionMask := replicate rowCount false

def contains (mask : SelectionMask) (row : Nat) : Bool := mask.getD row false

def setRow (mask : SelectionMask) (row : Nat) : SelectionMask := mask.set row true

def clearBit (mask : SelectionMask) (row : Nat) : SelectionMask := mask.set row false

def setRows (mask : SelectionMask) (rows : List Nat) : SelectionMask := rows.foldl setRow mask

def andMask (mask other : SelectionMask) : SelectionMask := List.zipWith (· && ·) mask other

def allZero (mask : SelectionMask) : Bool := !mask.any id

def countOnes (mask : SelectionMask) : Nat := mask.count true

def rows (mask : SelectionMask) : List Nat := (range mask.length).filter (contains mask)

variable {mask : SelectionMask} {row : Nat}

theorem contains_lt (h : mask.contains row = true) : row < mask.length := by
  by_contra hge
  rw [contains, getD_eq_default _ _ (Nat.le_of_not_lt hge)] at h
  cases h

@[simp] theorem contains_fillAll (rowCount row : Nat) :
    (fillAll rowCount).contains row = decide (row < rowCount) := by
  rw [contains, fillAll, getD_eq_getElem?_getD, List.getElem?_replicate]
  split <;> simp_all

@[simp] theorem contains_fillNone (rowCount row : Nat) : (fillNone rowCount).contains row = false := by
  rw [contains, fillNone, getD_eq_getElem?_getD, List.getElem?_replicate]
  split <;> rfl

theorem contains_set {other : Nat} {bit : Bool} (h : row < mask.length) :
    contains (mask.set row bit) other = if other = row then bit else mask.contains other := by
  rw [contains, contains, getD_eq_getElem?_getD, getD_eq_getElem?_getD, List.getElem?_set]
  by_cases heq : row = other
  · subst heq
    simp [h]
  · rw [if_neg heq, if_neg (Ne.symm heq)]

@[simp] theorem length_setRows (mask : SelectionMask) (rows : List Nat) :
    (mask.setRows rows).length = mask.length := by
  induction rows generalizing mask with
  | nil => rfl
  | cons row rows ih => exact (ih _).trans length_set

theorem contains_setRows {rows : List Nat} (h : ∀ r ∈ rows, r < mask.length) :
    (mask.setRows rows).contains row = true ↔ mask.contains row = true ∨ row ∈ rows := by
  induction rows generalizing mask with
  | nil => simp [setRows]
  | cons r rows ih =>
    rw [forall_mem_cons] at h
    have hlength : (mask.setRow r).length = mask.length := length_set
    have htail : ∀ x ∈ rows, x < (mask.setRow r).length := by
      rw [hlength]
      exact h.2
    refine (ih htail).trans ?_
    rw [setRow, contains_set h.1, mem_cons]
    split <;> simp_all

variable {other : SelectionMask}

@[simp] theorem length_andMask (h : mask.length = other.length) :
    (mask.andMask other).length = mask.length := by
  rw [andMask, length_zipWith, ← h, Nat.min_self]

theorem contains_andMask (h : mask.length = other.length) (row : Nat) :
    (mask.andMask other).contains row = (mask.contains row && other.contains row) := by
  by_cases hrow : row < mask.length
  · have hother : row < other.length := h ▸ hrow
    have hboth : row < (mask.andMask other).length := (length_andMask h).symm ▸ hrow
    rw [contains, contains, contains, getD_eq_getElem _ _ hrow, getD_eq_getElem _ _ hother,
      getD_eq_getElem _ _ hboth]
    exact getElem_zipWith
  · have hboth : ¬ row < (mask.andMask other).length := (length_andMask h).symm ▸ hrow
    rw [contains, contains, getD_eq_default _ _ (Nat.le_of_not_lt hboth),
      getD_eq_default _ _ (Nat.le_of_not_lt hrow), Bool.false_and]

theorem allZero_iff : mask.allZero = true ↔ ∀ row, mask.contains row = false := by
  rw [allZero, Bool.not_eq_true', any_eq_false]
  constructor
  · intro h row
    by_contra hset
    rw [Bool.not_eq_false] at hset
    have hlt := contains_lt hset
    rw [contains, getD_eq_getElem _ _ hlt] at hset
    exact h _ (getElem_mem hlt) hset
  · intro h bit hbit
    obtain ⟨row, hrow, rfl⟩ := getElem_of_mem hbit
    have := h row
    rw [contains, getD_eq_getElem _ _ hrow] at this
    simp [this]

theorem mem_rows : row ∈ mask.rows ↔ mask.contains row = true := by
  rw [rows, mem_filter, mem_range]
  exact ⟨And.right, fun h => ⟨contains_lt h, h⟩⟩

theorem countOnes_eq_length (h : mask.countOnes = mask.length) (hrow : row < mask.length) :
    mask.contains row = true := by
  rw [contains, getD_eq_getElem _ _ hrow]
  exact (count_eq_length.mp h _ (getElem_mem hrow)).symm

end SelectionMask

inductive Selection
  | none
  | allRows (len : Nat)
  | bitset (mask : SelectionMask)
  | rowIndices (rows : List Nat)

namespace Selection

def contains : Selection → Nat → Bool
  | none, _ => false
  | allRows len, row => row < len
  | bitset mask, row => mask.contains row
  | rowIndices rows, row => rows.contains row

def isEmpty : Selection → Bool
  | none => true
  | allRows len => len == 0
  | bitset mask => mask.allZero
  | rowIndices rows => rows.isEmpty

def fromMask (mask : SelectionMask) : Selection :=
  if mask.countOnes = 0 then none
  else if mask.countOnes = mask.length then allRows mask.length
  else if mask.countOnes * 5 ≤ mask.length then rowIndices mask.rows
  else bitset mask

def fromRows (rows : List Nat) (rowCount : Nat) : Selection :=
  if rows.isEmpty then none
  else if rows = range rowCount then allRows rowCount
  else if rows.length * 5 ≤ rowCount then rowIndices rows
  else bitset ((SelectionMask.fillNone rowCount).setRows (rows.filter (· < rowCount)))

def rows : Selection → List Nat
  | none => []
  | allRows len => range len
  | bitset mask => mask.rows
  | rowIndices rows => rows

variable {selection : Selection}

theorem mem_rows {row : Nat} : row ∈ selection.rows ↔ selection.contains row = true := by
  cases selection with
  | none | allRows len => simp [rows, contains]
  | bitset mask => exact SelectionMask.mem_rows
  | rowIndices rows => exact contains_iff_mem.symm

theorem isEmpty_iff : selection.isEmpty = true ↔ ∀ row, selection.contains row = false := by
  cases selection with
  | none => simp [isEmpty, contains]
  | allRows len =>
    simp only [isEmpty, contains, beq_iff_eq, decide_eq_false_iff_not]
    exact ⟨fun h row => by omega, fun h => by have := h 0; omega⟩
  | bitset mask => exact SelectionMask.allZero_iff
  | rowIndices rows =>
    simp only [isEmpty, contains, List.isEmpty_iff]
    refine eq_nil_iff_forall_not_mem.trans (forall_congr' fun row => ?_)
    rw [← contains_iff_mem, Bool.not_eq_true]

theorem contains_fromMask (mask : SelectionMask) (row : Nat) :
    (fromMask mask).contains row = mask.contains row := by
  rw [fromMask]
  split
  · rename_i hzero
    have hnone : mask.allZero = true := by
      rw [SelectionMask.countOnes, List.count_eq_zero] at hzero
      simpa [SelectionMask.allZero] using hzero
    exact (SelectionMask.allZero_iff.mp hnone row).symm
  · split
    · rename_i hall
      rw [Bool.eq_iff_iff, contains, decide_eq_true_eq]
      exact ⟨SelectionMask.countOnes_eq_length hall, SelectionMask.contains_lt⟩
    · split
      · rw [Bool.eq_iff_iff]
        exact contains_iff_mem.trans SelectionMask.mem_rows
      · rfl

theorem contains_fromRows {rows : List Nat} {rowCount : Nat} (h : ∀ row ∈ rows, row < rowCount)
    (row : Nat) : (fromRows rows rowCount).contains row = true ↔ row ∈ rows := by
  rw [fromRows]
  split
  · rename_i hempty
    rw [List.isEmpty_iff.mp hempty]
    simp [contains]
  · split
    · rename_i hall
      rw [hall, mem_range]
      exact decide_eq_true_iff
    · split
      · exact contains_iff_mem
      · have hlength : (SelectionMask.fillNone rowCount).length = rowCount := length_replicate
        refine (SelectionMask.contains_setRows fun r hr => ?_).trans ?_
        · rw [hlength]
          exact of_decide_eq_true (mem_filter.mp hr).2
        · rw [SelectionMask.contains_fillNone, mem_filter]
          simpa using h row

end Selection

end CoveFormat.Selections
