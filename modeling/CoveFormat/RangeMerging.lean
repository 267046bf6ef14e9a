import CoveFormat.MorselScan
import CoveFormat.ScopedRanges

namespace CoveFormat.RangeMerging

open CheckedArith ExceptRules List MorselScan SortedKeys
open ScopedRanges (ScopedRange)

def rangeKey (row : ScanCandidateRowRange) : Nat ×ₗ Nat ×ₗ Nat :=
  toLex (row.segmentId, toLex (row.morselId, row.rowStart))

def SameScope (a b : ScanCandidateRowRange) : Prop :=
  a.segmentId = b.segmentId ∧ a.morselId = b.morselId

instance (a b : ScanCandidateRowRange) : Decidable (SameScope a b) :=
  inferInstanceAs (Decidable (_ ∧ _))

def rowEnd (row : ScanCandidateRowRange) : Nat := row.rowStart + row.rowCount

def mergeRange (out : List ScanCandidateRowRange) (row : ScanCandidateRowRange) :
    Except CoveError (List ScanCandidateRowRange) := do
  rejectIf (row.rowCount = 0) .badCovi
  match out with
  | [] => .ok [row]
  | last :: earlier =>
    let lastEnd ← checkedAdd last.rowStart last.rowCount
    if SameScope last row ∧ row.rowStart ≤ lastEnd then do
      let rowEnd ← checkedAdd row.rowStart row.rowCount
      rejectIf (rowEnd < last.rowStart) .arithOverflow
      -- The end of the later range replaces the end so far, also where it is smaller.
      .ok ({ last with rowCount := rowEnd - last.rowStart } :: earlier)
    else .ok (row :: last :: earlier)

def normalizeScanCandidateRanges (rows : List ScanCandidateRowRange) :
    Except CoveError (List ScanCandidateRowRange) :=
  ((sortByKey rangeKey rows).foldlM mergeRange []).map List.reverse

/-- The row of the morsel lies in one of the ranges. -/
def Covers (ranges : List ScanCandidateRowRange) (segmentId morselId row : Nat) : Prop :=
  ∃ range ∈ ranges, range.segmentId = segmentId ∧ range.morselId = morselId ∧
    range.rowStart ≤ row ∧ row < rowEnd range

instance (ranges : List ScanCandidateRowRange) (segmentId morselId row : Nat) :
    Decidable (Covers ranges segmentId morselId row) :=
  inferInstanceAs (Decidable (∃ range ∈ ranges, _))

/-- The later range goes on where the earlier one is, or begins right after it. -/
def Continues (last row : ScanCandidateRowRange) : Prop :=
  SameScope last row ∧ row.rowStart ≤ rowEnd last

instance (last row : ScanCandidateRowRange) : Decidable (Continues last row) :=
  inferInstanceAs (Decidable (_ ∧ _))

def runEnd (first : ScanCandidateRowRange) : List ScanCandidateRowRange → Nat
  | [] => rowEnd first
  | row :: rows => if Continues first row then runEnd row rows else rowEnd first

/-- No range ends after the last of the run it is in. -/
def EndsInRun : List ScanCandidateRowRange → Prop
  | [] => True
  | row :: rows => rowEnd row ≤ runEnd row rows ∧ EndsInRun rows

instance decidableEndsInRun : ∀ rows, Decidable (EndsInRun rows)
  | [] => inferInstanceAs (Decidable True)
  | _ :: rows => @instDecidableAnd _ _ _ (decidableEndsInRun rows)

/-- A range of a morsel, the morsel as its scope. -/
def toScoped (row : ScanCandidateRowRange) : ScopedRange (Nat ×ₗ Nat) :=
  ⟨toLex (row.segmentId, row.morselId), row.rowStart, row.rowCount⟩

section

variable {last row : ScanCandidateRowRange} {rows out result : List ScanCandidateRowRange}

theorem covers_iff {segmentId morselId r : Nat} : Covers rows segmentId morselId r ↔
    ScopedRanges.Covers (rows.map toScoped) (toLex (segmentId, morselId)) r := by
  simp [Covers, ScopedRanges.Covers, toScoped, rowEnd, ScopedRange.finish, and_assoc]

theorem forall_covers_iff : (∀ segmentId morselId r, Covers out segmentId morselId r ↔
      Covers rows segmentId morselId r) ↔
    ∀ scope position, ScopedRanges.Covers (out.map toScoped) scope position ↔
      ScopedRanges.Covers (rows.map toScoped) scope position :=
  ⟨fun h scope r => covers_iff.symm.trans ((h scope.1 scope.2 r).trans covers_iff),
    fun h s m r => covers_iff.trans ((h (toLex (s, m)) r).trans covers_iff.symm)⟩

theorem continues_iff : Continues last row ↔ ScopedRanges.Continues (toScoped last) (toScoped row) := by
  simp [Continues, ScopedRanges.Continues, SameScope, toScoped, rowEnd, ScopedRange.finish]

theorem runEnd_toScoped : ScopedRanges.runEnd (toScoped row) (rows.map toScoped) = runEnd row rows := by
  induction rows generalizing row with
  | nil => rfl
  | cons next rows ih =>
    simp only [map_cons, ScopedRanges.runEnd, runEnd, ih, continues_iff]
    rfl

theorem endsInRun_iff : EndsInRun rows ↔ ScopedRanges.EndsInRun (rows.map toScoped) := by
  induction rows with
  | nil => exact Iff.rfl
  | cons row rows ih => exact and_congr (by rw [runEnd_toScoped]; rfl) ih

theorem rangeKey_le_iff : rangeKey last ≤ rangeKey row ↔ (toScoped last).place ≤ (toScoped row).place := by
  simp only [rangeKey, toScoped, ScopedRange.place, Prod.Lex.toLex_le_toLex, Prod.Lex.toLex_lt_toLex,
    EmbeddingLike.apply_eq_iff_eq, Prod.mk.injEq]
  omega

theorem mergeRange_ok (h : mergeRange (last :: out) row = .ok result) :
    result.map toScoped = if ScopedRanges.Continues (toScoped last) (toScoped row) then
      (toScoped last).extendTo (toScoped row).finish :: out.map toScoped
    else toScoped row :: toScoped last :: out.map toScoped := by
  replace h := rest_ok h
  obtain ⟨-, h⟩ := of_checkedAdd h
  by_cases hjoin : SameScope last row ∧ row.rowStart ≤ last.rowStart + last.rowCount
  · rw [if_pos (continues_iff.mp hjoin)]
    rw [if_pos hjoin] at h
    obtain ⟨-, h⟩ := of_checkedAdd h
    replace h := rest_ok h
    cases h
    rfl
  · rw [if_neg (mt continues_iff.mpr hjoin)]
    rw [if_neg hjoin] at h
    cases h
    rfl

theorem merges_ok (h : rows.foldlM mergeRange (last :: out) = .ok result) : result.map toScoped =
    (ScopedRanges.merged (toScoped last) (rows.map toScoped)).reverse ++ out.map toScoped := by
  induction rows generalizing last out with
  | nil =>
    cases h
    rfl
  | cons row rows ih =>
    obtain ⟨next, hnext, h⟩ := of_andThen h
    have hnext := mergeRange_ok hnext
    rw [map_cons, ScopedRanges.merged]
    split at hnext
    · obtain ⟨joined, rest, rfl, hjoined, hrest⟩ := map_eq_cons_iff.mp hnext
      rw [if_pos ‹_›, ← hjoined, ← hrest]
      exact ih h
    · obtain ⟨row', rest, rfl, hrow, hrest⟩ := map_eq_cons_iff.mp hnext
      rw [if_neg ‹_›, ← hrow, ih h, hrest, reverse_cons, append_assoc]
      rfl

end

/-- The ranges that come out cover the rows that went in exactly where, in the sorted order, no
range ends after the last of its run. -/
theorem normalizeScanCandidateRanges_covers_iff {rows out : List ScanCandidateRowRange}
    (h : normalizeScanCandidateRanges rows = .ok out) :
    (∀ segmentId morselId r, Covers out segmentId morselId r ↔ Covers rows segmentId morselId r) ↔
      EndsInRun (sortByKey rangeKey rows) := by
  have hperm := sortByKey_perm rangeKey rows
  have hsorted : ScopedRanges.Sorted ((sortByKey rangeKey rows).map toScoped) :=
    pairwise_map.mpr ((sortByKey_pairwise rangeKey rows).imp rangeKey_le_iff.mp)
  obtain ⟨result, hresult, rfl⟩ := map_eq_ok_iff.mp h
  have hmerge : result.reverse.map toScoped =
      ScopedRanges.merge ((sortByKey rangeKey rows).map toScoped) := by
    generalize sortByKey rangeKey rows = sorted at hresult
    cases sorted with
    | nil =>
      cases hresult
      rfl
    | cons first sorted =>
      obtain ⟨next, hnext, hresult⟩ := of_andThen hresult
      replace hnext := rest_ok hnext
      cases hnext
      rw [map_reverse, merges_ok hresult, map_nil, append_nil, reverse_reverse]
      rfl
  rw [forall_covers_iff, hmerge, endsInRun_iff, ← ScopedRanges.covers_merge_iff hsorted]
  simp only [ScopedRanges.Covers.perm (hperm.map toScoped)]

end CoveFormat.RangeMerging
