import CoveFormat.CoveError
import CoveFormat.Grouping
import Mathlib.Data.Finset.Insert

namespace CoveFormat.ScanSplits

open CheckedArith ExceptRules SortedKeys Grouping

structure TableEntry where
  tableId : Nat

/-- An entry of the segment index; its counts and ids are 32 bits wide. -/
structure TableSegmentIndexEntryV1 where
  (tableId segmentId rowStart rowCount morselCount morselRowCount length statsRef : Nat)
  segmentId_lt : segmentId < 2 ^ 32 := by decide
  morselCount_lt : morselCount < 2 ^ 32 := by decide
  morselRowCount_lt : morselRowCount < 2 ^ 32 := by decide
  deriving DecidableEq

def checkContiguous : Nat → List TableSegmentIndexEntryV1 → Except CoveError Unit
  | _, [] => .ok ()
  | nextRow, e :: es => do
      rejectIf (e.rowStart ≠ nextRow) .segmentCorrupt
      let stop ← checkedAdd e.rowStart e.rowCount
      checkContiguous stop es

/-- `TableSegmentIndex::validate`. -/
def validateSegmentIndex (entries : List TableSegmentIndexEntryV1) : Except CoveError Unit := do
  rejectIf (¬ (entries.map fun e => (e.tableId, e.segmentId)).Nodup) .segmentCorrupt
  checkAll (fun table : Nat × List TableSegmentIndexEntryV1 =>
    checkContiguous 0 (sortByKey (·.rowStart) table.2)) (grouped (·.tableId) entries)

structure ScanSplitIndexHeaderV2 where
  (splitCount flags checksum : Nat)

structure ScanSplitEntryV2 where
  (splitId tableId rowStart rowCount firstSegmentId segmentCount firstMorselId morselCount : Nat)
  (firstClusterId clusterCount statsRef estimatedUncompressedBytes estimatedEncodedBytes : Nat)
  (flags checksum : Nat)

structure ScanSplitIndexV2 where
  header : ScanSplitIndexHeaderV2
  entries : List ScanSplitEntryV2

structure PageClusterEntryV2 where
  clusterId : Nat

structure PageClusterDirectoryV2 where
  entries : List PageClusterEntryV2

def checkedMul (a b : Nat) : Except CoveError Nat :=
  if a * b < 2 ^ 64 then .ok (a * b) else .error .arithOverflow

theorem checkedMul_ok_iff {a b c : Nat} : checkedMul a b = .ok c ↔ a * b < 2 ^ 64 ∧ c = a * b :=
  guarded_eq_ok_iff

/-- `checked_add` on 32 bits. -/
def checkedAdd32 (a b : Nat) : Except CoveError Nat :=
  if a + b < 2 ^ 32 then .ok (a + b) else .error .arithOverflow

theorem checkedAdd32_ok_iff {a b c : Nat} : checkedAdd32 a b = .ok c ↔ a + b < 2 ^ 32 ∧ c = a + b :=
  guarded_eq_ok_iff

def checkedSub (a b : Nat) : Except CoveError Nat :=
  if b ≤ a then .ok (a - b) else .error .arithOverflow

theorem checkedSub_ok_iff {a b c : Nat} : checkedSub a b = .ok c ↔ b ≤ a ∧ c = a - b :=
  guarded_eq_ok_iff

def validateScanSplits (header : ScanSplitIndexHeaderV2) (entries : List ScanSplitEntryV2) :
    Except CoveError Unit := do
  rejectIf (header.splitCount ≠ entries.length) .badLayoutPlan
  rejectIf (¬ (entries.map (·.splitId)).Nodup) .badLayoutPlan
  checkAll (fun e : ScanSplitEntryV2 => (checkedAdd e.rowStart e.rowCount).map fun _ => ()) entries

section

variable (segments : List TableSegmentIndexEntryV1)

def segmentById (tableId segmentId : Nat) : Except CoveError TableSegmentIndexEntryV1 :=
  match segments.find? fun s => s.tableId = tableId ∧ s.segmentId = segmentId with
  | some s => .ok s
  | none => .error .badLayoutPlan

section

variable (s : TableSegmentIndexEntryV1)

def segmentMorselRowStart (morselId : Nat) :
    Except CoveError Nat := do
  rejectIf (s.morselCount ≤ morselId) .badLayoutPlan
  let offset ← checkedMul morselId s.morselRowCount
  checkedAdd s.rowStart offset

def segmentMorselRowCount (morselId : Nat) :
    Except CoveError Nat := do
  let start ← checkedMul morselId s.morselRowCount
  rejectIf (s.rowCount ≤ start) .badLayoutPlan
  let remaining ← checkedSub s.rowCount start
  .ok (min remaining s.morselRowCount)

end

def sumMorselRows (s : TableSegmentIndexEntryV1) : Nat → List Nat → Except CoveError Nat
  | rows, [] => .ok rows
  | rows, m :: ms => do
      let count ← segmentMorselRowCount s m
      let rows ← checkedAdd rows count
      sumMorselRows s rows ms

def segmentMorselSpanRows (s : TableSegmentIndexEntryV1) (firstMorselId morselCount : Nat) :
    Except CoveError Nat := do
  let stop ← checkedAdd32 firstMorselId morselCount
  rejectIf (s.morselCount < stop) .badLayoutPlan
  sumMorselRows s 0 (List.range' firstMorselId morselCount)

def coverMorsels (segmentId : Nat) : Finset (Nat × Nat) → List Nat →
    Except CoveError (Finset (Nat × Nat))
  | covered, [] => .ok covered
  | covered, m :: ms => do
      rejectIf ((segmentId, m) ∈ covered) .badLayoutPlan
      coverMorsels segmentId (insert (segmentId, m) covered) ms

/-- The variables of the loop over the segments of a split. -/
structure SplitCursor where
  remainingMorsels : Nat
  actualRowStart : Option Nat
  actualRowCount : Nat
  coveredMorsels : Finset (Nat × Nat)

def takeSegment (split : ScanSplitEntryV2) (tableId : Nat) (c : SplitCursor) (segmentId : Nat) :
    Except CoveError SplitCursor := do
  let segment ← segmentById segments tableId segmentId
  let startMorsel := if segmentId = split.firstSegmentId then split.firstMorselId else 0
  rejectIf (segment.morselCount ≤ startMorsel) .badLayoutPlan
  let available ← checkedSub segment.morselCount startMorsel
  let take := min available c.remainingMorsels
  rejectIf (take = 0) .badLayoutPlan
  let _ ← checkedAdd32 startMorsel take
  let covered ← coverMorsels segment.segmentId c.coveredMorsels (List.range' startMorsel take)
  let startRow ← segmentMorselRowStart segment startMorsel
  let spanRows ← segmentMorselSpanRows segment startMorsel take
  let rowCount ← checkedAdd c.actualRowCount spanRows
  let remaining ← checkedSub c.remainingMorsels take
  .ok ⟨remaining, some (c.actualRowStart.getD startRow), rowCount, covered⟩

def takeSegments (split : ScanSplitEntryV2) (tableId : Nat) :
    SplitCursor → List Nat → Except CoveError SplitCursor
  | c, [] => .ok c
  | c, id :: ids => do
      let c ← takeSegment segments split tableId c id
      if c.remainingMorsels = 0 then .ok c else takeSegments split tableId c ids

def checkClusters (pageClusters : Option PageClusterDirectoryV2) (split : ScanSplitEntryV2) :
    Except CoveError Unit :=
  if split.clusterCount = 0 then .ok ()
  else
    match pageClusters with
    | none => .error .badLayoutPlan
    | some directory => do
        let _ ← checkedAdd32 split.firstClusterId split.clusterCount
        checkAll (fun id => rejectIf (id ∉ directory.entries.map (·.clusterId)) .badLayoutPlan)
          (List.range' split.firstClusterId split.clusterCount)

def checkSplit (tableId : Nat) (pageClusters : Option PageClusterDirectoryV2)
    (covered : Finset (Nat × Nat)) (split : ScanSplitEntryV2) :
    Except CoveError (Finset (Nat × Nat)) := do
  rejectIf (split.tableId ≠ tableId ∨ split.segmentCount = 0 ∨ split.morselCount = 0)
    .badLayoutPlan
  let _ ← checkedAdd32 split.firstSegmentId split.segmentCount
  let c ← takeSegments segments split tableId ⟨split.morselCount, none, 0, covered⟩
    (List.range' split.firstSegmentId split.segmentCount)
  rejectIf (c.remainingMorsels ≠ 0) .badLayoutPlan
  rejectIf (c.actualRowStart ≠ some split.rowStart ∨ c.actualRowCount ≠ split.rowCount)
    .badLayoutPlan
  checkClusters pageClusters split
  .ok c.coveredMorsels

def checkSplits (tableId : Nat) (pageClusters : Option PageClusterDirectoryV2) :
    Finset (Nat × Nat) → List ScanSplitEntryV2 → Except CoveError (Finset (Nat × Nat))
  | covered, [] => .ok covered
  | covered, split :: splits => do
      let covered ← checkSplit segments tableId pageClusters covered split
      checkSplits tableId pageClusters covered splits

def expectedMorsels (tableId : Nat) : Finset (Nat × Nat) :=
  ((segments.filter fun s => tableId = s.tableId).flatMap fun s =>
    (List.range s.morselCount).map fun m => (s.segmentId, m)).toFinset

def validateScanSplitAuthority (index : ScanSplitIndexV2) (table : TableEntry)
    (pageClusters : Option PageClusterDirectoryV2) : Except CoveError Unit := do
  validateScanSplits index.header index.entries
  let covered ← checkSplits segments table.tableId pageClusters ∅ index.entries
  rejectIf (covered ≠ expectedMorsels segments table.tableId) .badLayoutPlan

def defaultSplit (tableId : Nat) (entry : TableSegmentIndexEntryV1 × Nat) : ScanSplitEntryV2 where
  splitId := min (entry.2 + 1) (2 ^ 32 - 1)
  tableId := tableId
  rowStart := entry.1.rowStart
  rowCount := entry.1.rowCount
  firstSegmentId := entry.1.segmentId
  segmentCount := 1
  firstMorselId := 0
  morselCount := entry.1.morselCount
  firstClusterId := 0
  clusterCount := 0
  statsRef := entry.1.statsRef
  estimatedUncompressedBytes := entry.1.length
  estimatedEncodedBytes := entry.1.length
  flags := 0
  checksum := 0

def buildDefaultScanSplitIndex (table : TableEntry) : Except CoveError ScanSplitIndexV2 := do
  let entries := ((segments.filter fun s => s.tableId = table.tableId ∧ s.morselCount ≠ 0).zipIdx).map
    (defaultSplit table.tableId)
  let index : ScanSplitIndexV2 := ⟨⟨entries.length % 2 ^ 32, 0, 0⟩, entries⟩
  validateScanSplitAuthority segments index table none
  .ok index

end

end CoveFormat.ScanSplits
