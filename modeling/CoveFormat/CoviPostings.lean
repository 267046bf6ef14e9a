import CoveFormat.CoviComparators
import CoveFormat.ScopedRanges

namespace CoveFormat.CoviPostings

open ByteCodes CheckedArith ExceptRules FixedFields List SortedKeys
open ScopedRanges (ScopedRange Sorted merge merged)

inductive CoviPostingRepresentationV2
  | sortedFileRefs
  | sortedSegmentRefs
  | sortedPageRefs
  | sortedMorselRefs
  | rowRangeList
  | rowOrdinalBitmap
  | rowOrdinalDeltaVarint
  | byteRangeList
  | objectPathRefs
  | dimensionalBucketRefs
  | coverageSetRef
  | extension
  deriving DecidableEq

structure CoviPostingsHeaderV2 where
  indexRootId : UInt32
  representation : CoviPostingRepresentationV2
  (payloadOffset payloadLength : UInt64)
  deriving DecidableEq

structure CoviPostingsBlockV2 where
  (postingsBlockId indexRootId : UInt32)
  postings : List CoviPostingsHeaderV2
  payload : Bytes
  deriving DecidableEq

structure CoviRowRangePostingV2 where
  (fileRef tableId segmentId morselId rowStart rowCount flags checksum : Nat)

abbrev FixedPosting := List Nat

section

-- The CRC32C of the checksum package.
variable (crc32c : Bytes → UInt32)

/-- `&bytes[offset..offset + len]`, with a 64-bit `usize`. -/
def slice (bytes : Bytes) (offset len : Nat) : Except CoveError Bytes := do
  let finish ← checkedAdd offset len
  rejectIf (bytes.length < finish) .offsetRange
  .ok ((bytes.take finish).drop offset)

def CoviPostingsBlockV2.postingPayload (block : CoviPostingsBlockV2) (posting : CoviPostingsHeaderV2) :
    Except CoveError Bytes :=
  slice block.payload posting.payloadOffset.toNat posting.payloadLength.toNat

def readFields : List Nat → Bytes → List Nat
  | [], _ => []
  | width :: widths, bytes => leNat (bytes.take width) :: readFields widths (bytes.drop width)

/-- Numbers of the given widths, and the checksum behind them. -/
def parseFixedPosting (widths : List Nat) (bytes : Bytes) : Except CoveError FixedPosting := do
  rejectIf (bytes.length < widths.sum + 4) .bufferTooShort
  let checksum ← verifyChecksumField crc32c (bytes.take (widths.sum + 4)) widths.sum
  .ok (readFields widths bytes ++ [checksum.toNat])

def checkExtent (start length : Nat) : Except CoveError Unit := do
  rejectIf (length = 0) .badCovi
  (checkedAdd start length).map fun _ => ()

def parseFileRefPosting : Bytes → Except CoveError FixedPosting := parseFixedPosting crc32c [4, 4]

def parseSegmentRefPosting : Bytes → Except CoveError FixedPosting :=
  parseFixedPosting crc32c [4, 4, 4, 4]

def parseMorselRefPosting : Bytes → Except CoveError FixedPosting :=
  parseFixedPosting crc32c [4, 4, 4, 4, 4]

def parsePageRefPosting : Bytes → Except CoveError FixedPosting :=
  parseFixedPosting crc32c [4, 4, 4, 4, 4, 4]

def parseDimensionalBucketPosting : Bytes → Except CoveError FixedPosting :=
  parseFixedPosting crc32c [4, 4, 4, 4, 4, 4]

section

variable (bytes : Bytes)

def parseByteRangePosting : Except CoveError FixedPosting := do
  let posting ← parseFixedPosting crc32c [4, 4, 8, 8, 4] bytes
  checkExtent (posting.getD 2 0) (posting.getD 3 0)
  .ok posting

def parseObjectPathPosting : Except CoveError FixedPosting := do
  let posting ← parseFixedPosting crc32c [4, 4, 4, 4, 8, 8, 4] bytes
  checkExtent (posting.getD 4 0) (posting.getD 5 0)
  .ok posting

def parseRowRangePosting : Except CoveError CoviRowRangePostingV2 := do
  rejectIf (bytes.length < 40) .bufferTooShort
  let checksum ← verifyChecksumField crc32c (bytes.take 40) 36
  let item : CoviRowRangePostingV2 :=
    { fileRef := readUint 4 bytes 0
      tableId := readUint 4 bytes 4
      segmentId := readUint 4 bytes 8
      morselId := readUint 4 bytes 12
      rowStart := readUint 8 bytes 16
      rowCount := readUint 8 bytes 24
      flags := readUint 4 bytes 32
      checksum := checksum.toNat }
  checkExtent item.rowStart item.rowCount
  .ok item

end

def parseFixedPayload {α : Type} (payload : Bytes) (width : Nat) (parse : Bytes → Except CoveError α) :
    Except CoveError (List α) := do
  rejectIf (payload.length % width ≠ 0) .badCovi
  (chunksExact width (payload.length / width) payload).mapM parse

def parseU32Refs (payload : Bytes) : Except CoveError (List Nat) :=
  parseFixedPayload payload 4 fun chunk => .ok (leNat chunk)

abbrev RowScope := Nat ×ₗ Nat ×ₗ Nat ×ₗ Nat

def CoviRowRangePostingV2.scope (row : CoviRowRangePostingV2) : RowScope :=
  toLex (row.fileRef, toLex (row.tableId, toLex (row.segmentId, row.morselId)))

def validateRowRangeOrder (prev row : CoviRowRangePostingV2) : Except CoveError Unit := do
  rejectIf (row.scope < prev.scope) .badCovi
  whenever (row.scope = prev.scope) do
    let prevEnd ← checkedAdd prev.rowStart prev.rowCount
    rejectIf (row.rowStart ≤ prevEnd) .badCovi

def validateRowRangePostings (previous : Option CoviRowRangePostingV2) :
    List CoviRowRangePostingV2 → Except CoveError Unit
  | [] => .ok ()
  | row :: rows => do
      checkExtent row.rowStart row.rowCount
      checkAll (fun prev => validateRowRangeOrder prev row) previous.toList
      validateRowRangePostings (some row) rows

def parseCoviRowRangePostings (bytes : Bytes) : Except CoveError (List CoviRowRangePostingV2) := do
  let rows ← parseFixedPayload bytes 40 (parseRowRangePosting crc32c)
  validateRowRangePostings none rows
  .ok rows

def CoviRowRangePostingV2.range (row : CoviRowRangePostingV2) : ScopedRange RowScope :=
  ⟨row.scope, row.rowStart, row.rowCount⟩

def rowKey (row : CoviRowRangePostingV2) : RowScope ×ₗ Nat := toLex (row.scope, row.rowStart)

def normalizeRow (out : List CoviRowRangePostingV2) (row : CoviRowRangePostingV2) :
    Except CoveError (List CoviRowRangePostingV2) := do
  rejectIf (row.rowCount = 0) .badCovi
  match out with
  | [] => .ok [row]
  | last :: earlier => do
      let lastEnd ← checkedAdd last.rowStart last.rowCount
      if last.scope = row.scope ∧ row.rowStart ≤ lastEnd then do
        let rowEnd ← checkedAdd row.rowStart row.rowCount
        rejectIf (rowEnd < last.rowStart) .arithOverflow
        -- The end of the later row replaces the end so far, also where it is smaller.
        .ok ({ last with rowCount := rowEnd - last.rowStart } :: earlier)
      else .ok (row :: last :: earlier)

def normalizeRowRanges (rows : List CoviRowRangePostingV2) :
    Except CoveError (List CoviRowRangePostingV2) :=
  ((sortByKey rowKey rows).foldlM normalizeRow []).map List.reverse

variable {row : CoviRowRangePostingV2} {rows state result : List CoviRowRangePostingV2}
  {last : ScopedRange RowScope} {done : List (ScopedRange RowScope)}

section

variable (hstate : state.map CoviRowRangePostingV2.range = last :: done)
include hstate

theorem normalizeRow_ok (h : normalizeRow state row = .ok result) : result.map CoviRowRangePostingV2.range =
      if ScopedRanges.Continues last row.range then last.extendTo row.range.finish :: done
      else row.range :: last :: done := by
  replace h := rest_ok h
  cases state with
  | nil => cases hstate
  | cons first earlier =>
    obtain ⟨rfl, rfl⟩ := List.cons.inj hstate
    obtain ⟨-, h⟩ := of_checkedAdd h
    by_cases hjoin : first.scope = row.scope ∧ row.rowStart ≤ first.rowStart + first.rowCount
    · rw [if_pos (show ScopedRanges.Continues first.range row.range from hjoin)]
      rw [if_pos hjoin] at h
      obtain ⟨-, h⟩ := of_checkedAdd h
      replace h := rest_ok h
      cases h
      rfl
    · rw [if_neg (show ¬ ScopedRanges.Continues first.range row.range from hjoin)]
      rw [if_neg hjoin] at h
      cases h
      rfl

theorem normalizeRows_ok (h : rows.foldlM normalizeRow state = .ok result) :
    result.map CoviRowRangePostingV2.range =
      (merged last (rows.map CoviRowRangePostingV2.range)).reverse ++ done := by
  induction rows generalizing state last done with
  | nil =>
    cases h
    exact hstate
  | cons row rows ih =>
    obtain ⟨next, hnext, h⟩ := of_andThen h
    have hnext := normalizeRow_ok hstate hnext
    rw [map_cons, merged]
    split at hnext
    · rename_i hjoin
      rw [if_pos hjoin]
      exact ih hnext h
    · rename_i hjoin
      rw [if_neg hjoin, ih hnext h, reverse_cons, append_assoc]
      rfl

end

def sortedRanges (rows : List CoviRowRangePostingV2) : List (ScopedRange RowScope) :=
  (sortByKey rowKey rows).map CoviRowRangePostingV2.range

theorem sortedRanges_sorted (rows : List CoviRowRangePostingV2) : Sorted (sortedRanges rows) :=
  pairwise_map.mpr (sortByKey_pairwise rowKey rows)

theorem sortedRanges_perm (rows : List CoviRowRangePostingV2) :
    (sortedRanges rows).Perm (rows.map CoviRowRangePostingV2.range) :=
  (sortByKey_perm rowKey rows).map _

theorem normalizeRowRanges_ok (h : normalizeRowRanges rows = .ok result) :
    result.map CoviRowRangePostingV2.range = merge (sortedRanges rows) := by
  obtain ⟨state, hstate, rfl⟩ := map_eq_ok_iff.mp h
  rw [sortedRanges]
  cases hsorted : sortByKey rowKey rows with
  | nil =>
    rw [hsorted] at hstate
    cases hstate
    rfl
  | cons first rest =>
    rw [hsorted, foldlM_cons] at hstate
    obtain ⟨next, hnext, hstate⟩ := of_andThen hstate
    replace hnext := rest_ok hnext
    cases hnext
    rw [map_reverse, normalizeRows_ok rfl hstate, map_nil, append_nil,
      reverse_reverse]
    rfl

end

end CoveFormat.CoviPostings
