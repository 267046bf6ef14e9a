import CoveFormat.AggregateSynopses
import CoveFormat.MorselScan
import Mathlib.Algebra.Order.Ring.Rat

namespace CoveFormat.MetadataAggregates

open AggregateSynopses ByteCodes CanonicalValidator CheckedArith CoveTypes ExceptRules Floats
  MorselScan NumCodes Wire
open Canonical (ValueTag TextPredicates)

/-- A run that ends early: `none` is the `Ok(None)` of a plan that is not available. -/
abbrev Attempt (α : Type) := Except (Option CoveError) α

def unavailable {α : Type} : Attempt α := .error none

def fail {α : Type} (e : CoveError) : Attempt α := .error (some e)

def attempt {α : Type} (r : Except CoveError α) : Attempt α := r.mapError some

structure Column where
  columnId : UInt32
  logical : CoveLogicalType
  physical : CovePhysicalKind

structure RowMorselEntry where
  (morselId rowCount : UInt32)

structure SegmentEntry where
  (segmentId rowCount morselCount : UInt32)
  rowMorsels : Except CoveError (List RowMorselEntry)

/-- The entries of a dictionary; a redacted one is `none`. No value stands twice. -/
structure FileDictionary where
  entries : List (Option TaggedCanonicalValue)
  bounded : entries.length < 2 ^ 32
  distinct : ∀ (i j : Nat) v, entries[i]? = some (some v) → entries[j]? = some (some v) → i = j

structure FileMetadata where
  tableId : UInt32
  columns : List Column
  rowCount : Nat
  segments : List SegmentEntry
  aggregates : List AggregateSynopsis
  lookupFor : UInt32 → Option LookupIndex
  dictionary : Option FileDictionary
  (visibleAll hasRedaction : Bool)

/-- The files of a dataset; their columns agree apart from the ids. -/
structure DatasetState where
  first : FileMetadata
  rest : List FileMetadata
  compatible : ∀ file ∈ rest, file.columns.map (fun c => (c.logical, c.physical)) =
    first.columns.map fun c => (c.logical, c.physical)

namespace DatasetState

def files (state : DatasetState) : List FileMetadata := state.first :: state.rest

def columns (state : DatasetState) : List Column := state.first.columns

def rowCount (state : DatasetState) : Nat := (state.files.map FileMetadata.rowCount).sum

end DatasetState

inductive MetadataSynopsisAggregateKind
  | min
  | max
  | sum
  | avg
  deriving DecidableEq

/-- A value of a plan; the float operations are read as exact ones, and what is not finite has no
number. -/
inductive PlanValue
  | canonical (payload : Bytes)
  | real (number : Option ℚ)
  deriving DecidableEq

structure MetadataAggregateValue where
  logical : CoveLogicalType
  value : Option PlanValue
  deriving DecidableEq

abbrev Item := AggregateEntry × AggregatePayloadV2

def absent : UInt32 := 0xffffffff

def nonNullCount (entry : AggregateEntry) : Except CoveError Nat := do
  rejectIf (entry.rowCount < entry.nullCount) .arithOverflow
  .ok (entry.rowCount.toNat - entry.nullCount.toNat)

/-! Entries that cover a file. -/

section

variable {κ : Type} [DecidableEq κ]

def takeCovering (key : AggregateEntry → κ) : List (κ × UInt32) → List Item → Option (List Item)
  | [], _ => some []
  | (k, rowCount) :: wanted, remaining =>
    match remaining.find? fun item => key item.1 = k with
    | none => none
    | some item =>
      if item.1.rowCount ≠ rowCount then none
      else
        (takeCovering key wanted (remaining.filter fun other => key other.1 ≠ k)).map (item :: ·)

def coveringEntries (key : AggregateEntry → κ) (wanted : List (κ × UInt32)) (entries : List Item) :
    List Item :=
  if (entries.map fun item => key item.1).Nodup then (takeCovering key wanted entries).getD [] else []

def selectSegmentCoverageEntries (segments : List SegmentEntry) (entries : List Item) : List Item :=
  if entries.length ≠ segments.length then []
  else
    coveringEntries AggregateEntry.segmentId (segments.map fun s => (s.segmentId, s.rowCount)) entries

def segmentMorsels (segment : SegmentEntry) : Option (List ((UInt32 × UInt32) × UInt32)) :=
  match segment.rowMorsels with
  | .error _ => none
  | .ok morsels =>
    if morsels.length ≠ segment.morselCount.toNat then none
    else some (morsels.map fun m => ((segment.segmentId, m.morselId), m.rowCount))

def selectMorselCoverageEntries (segments : List SegmentEntry) (entries : List Item) :
    Attempt (List Item) := do
  let expected := (segments.map fun s => s.morselCount.toNat).sum
  rejectIf (2 ^ 64 ≤ expected) (some .arithOverflow)
  if entries.length ≠ expected then .ok []
  else
    match segments.mapM segmentMorsels with
    | none => .ok []
    | some wanted =>
      .ok (coveringEntries (fun e => (e.segmentId, e.morselId)) wanted.flatten entries)

variable (file : FileMetadata)

def selectExactCoverageEntries (candidates : List Item) : Attempt (List Item) :=
  if candidates = [] then .ok []
  else
    let fileLevel := candidates.filter fun item =>
      item.1.segmentId = absent ∧ item.1.morselId = absent
    if fileLevel ≠ [] then
      if fileLevel.length = 1 ∧ fileLevel.map (fun item => item.1.rowCount.toNat) = [file.rowCount] then
        .ok fileLevel
      else .ok []
    else
      let segmentLevel := candidates.filter fun item =>
        item.1.segmentId ≠ absent ∧ item.1.morselId = absent
      if segmentLevel ≠ [] then .ok (selectSegmentCoverageEntries file.segments segmentLevel)
      else
        selectMorselCoverageEntries file.segments
          (candidates.filter fun item => item.1.segmentId ≠ absent ∧ item.1.morselId ≠ absent)

def synopsisCandidates (columnId : UInt32) (kind : SynopsisKind) (synopsis : AggregateSynopsis) :
    Attempt (List Item) :=
  (synopsis.entries.zipIdx.filter fun e =>
    e.1.tableId = file.tableId ∧ e.1.columnId = columnId ∧ e.1.synopsisKind = kind ∧
      e.1.accuracy = .exact).mapM fun e =>
    match synopsis.payloads[e.2]? with
    | none => fail .badIndex
    | some payload => .ok (e.1, payload)

def exactPayloadEntriesForFile (columnId : UInt32) (kind : SynopsisKind) :
    Attempt (List Item) := do
  let candidates ← file.aggregates.mapM (synopsisCandidates file columnId kind)
  selectExactCoverageEntries file candidates.flatten

end

def foldFile {σ : Type} (columnId : UInt32) (kind : SynopsisKind) (step : σ → Item → Attempt σ)
    (s : σ) (file : FileMetadata) : Attempt σ := do
  let entries ← exactPayloadEntriesForFile file columnId kind
  rejectIf (entries = []) none
  entries.foldlM step s

structure Totals (α : Type) where
  (coveredRows nonNullRows : Nat)
  acc : α

/-! Comparison of canonical payloads. -/

def orderingOf {α : Type} [LinearOrder α] (a b : α) : Ordering := cmp a b

def fixedValueBytes (width : Nat) (bytes : Bytes) : Except CoveError Nat :=
  if bytes.length = width then .ok (leNat bytes) else .error .badIndex

/-- `total_cmp` orders the patterns of a float by this number. -/
def totalKey (width bits : Nat) : Int :=
  if bits < 2 ^ (width - 1) then bits else -((bits : Int) - 2 ^ (width - 1)) - 1

def boolTagValue (tag : ValueTag) : Nat := if tag = .boolTrue then 1 else 0

def isBoolTag (tag : ValueTag) : Bool := tag = .boolFalse || tag = .boolTrue

section

variable (P : TextPredicates)

def canonicalUtf8 (canonical : Bytes) : Except CoveError Bytes := do
  let read ← decodeU64Leb128 canonical
  let finish ← checkedAdd read.2 read.1
  rejectIf (finish ≠ canonical.length) (.badSection "canonical Utf8 payload length mismatch")
  rejectIf (¬ P.utf8Valid (canonical.drop read.2))
    (.badSection "canonical Utf8 payload is not UTF-8")
  .ok (canonical.drop read.2)

def compareFixed (width : Nat) (key : Nat → Int) (left right : Bytes) : Except CoveError Ordering := do
  let l ← fixedValueBytes width left
  let r ← fixedValueBytes width right
  .ok (orderingOf (key l) (key r))

def compareTaggedCanonical (logical : CoveLogicalType) (left right : TaggedCanonicalValue) :
    Except CoveError Ordering := do
  rejectIf (left.valueTag ≠ right.valueTag ∧
    ¬ (isBoolTag left.valueTag ∧ isBoolTag right.valueTag)) .badIndex
  match left.valueTag with
  | .boolFalse | .boolTrue =>
    .ok (orderingOf (boolTagValue left.valueTag) (boolTagValue right.valueTag))
  | .int64 | .timestampMicros | .timestampNanos =>
    compareFixed 8 (signed 64) left.payload right.payload
  | .uint64 => compareFixed 8 (fun n => n) left.payload right.payload
  | .decimal128 => compareFixed 16 (signed 128) left.payload right.payload
  | .dateDays => compareFixed 4 (signed 32) left.payload right.payload
  | .float32Bits =>
    if logical = .float32 then compareFixed 4 (totalKey 32) left.payload right.payload
    else .error .badIndex
  | .float64Bits =>
    if logical = .float64 then compareFixed 8 (totalKey 64) left.payload right.payload
    else .error .badIndex
  | .utf8 => do
      let l ← canonicalUtf8 P left.payload
      let r ← canonicalUtf8 P right.payload
      .ok (orderingOf l r)
  -- the payloads are compared with the length that stands before the bytes
  | .binary => .ok (orderingOf left.payload right.payload)
  | _ => .error .badIndex

/-! MIN and MAX. -/

def replaces (kind : MetadataSynopsisAggregateKind) (ordering : Ordering) : Bool :=
  match kind with
  | .min => ordering = .lt
  | .max => ordering = .gt
  | _ => false

def bestOf (logical : CoveLogicalType) (kind : MetadataSynopsisAggregateKind)
    (best : Option TaggedCanonicalValue) (candidate : TaggedCanonicalValue) :
    Attempt (Option TaggedCanonicalValue) := do
  attempt (validateCanonicalPayload P candidate.valueTag candidate.payload)
  match best with
  | none => .ok (some candidate)
  | some current => do
      let ordering ← attempt (compareTaggedCanonical P logical candidate current)
      .ok (some (if replaces kind ordering then candidate else current))

def extremeOf (kind : MetadataSynopsisAggregateKind) (min max : Option TaggedCanonicalValue) :
    Attempt (Option TaggedCanonicalValue) :=
  match kind with
  | .min => .ok min
  | .max => .ok max
  | _ => unavailable

def minMaxStep (logical : CoveLogicalType) (kind : MetadataSynopsisAggregateKind)
    (totals : Totals (Option TaggedCanonicalValue)) (item : Item) :
    Attempt (Totals (Option TaggedCanonicalValue)) := do
  let coveredRows ← attempt (checkedAdd totals.coveredRows item.1.rowCount.toNat)
  let count ← attempt (nonNullCount item.1)
  let nonNullRows ← attempt (checkedAdd totals.nonNullRows count)
  match item.2 with
  | .minMax min max => do
      let candidate ← extremeOf kind min max
      match candidate with
      | none => .ok ⟨coveredRows, nonNullRows, totals.acc⟩
      | some candidate => do
          let best ← bestOf P logical kind totals.acc candidate
          .ok ⟨coveredRows, nonNullRows, best⟩
  | _ => unavailable

def exactSynopsisMinMax (state : DatasetState) (columnIndex : Nat)
    (kind : MetadataSynopsisAggregateKind) : Attempt (Option PlanValue) :=
  match state.columns[columnIndex]? with
  | none => fail (.badSchema "min/max column out of bounds")
  | some column => do
      rejectIf (column.logical = .bool) none
      let totals ← state.files.foldlM
        (foldFile column.columnId .minMax (minMaxStep P column.logical kind)) ⟨0, 0, none⟩
      rejectIf (totals.coveredRows ≠ state.rowCount) none
      if totals.nonNullRows = 0 then .ok none
      else
        match totals.acc with
        | none => fail .badIndex
        | some best => .ok (some (.canonical best.payload))

/-! SUM and AVG. -/

inductive SumAccumulator
  | empty
  | int (total : Int)
  | uint (total : Nat)
  | decimal (total : Int)
  | float (total : Option ℚ)

def f64Number (bits : Nat) : Option ℚ :=
  if f64IsFinite bits then some ((f64Units bits : ℚ) / (f64One : ℚ)) else none

def addNumbers (a b : Option ℚ) : Option ℚ := a.bind fun a => b.map (a + ·)

namespace SumAccumulator

def add (total : SumAccumulator) (value : TaggedCanonicalValue) : Except CoveError SumAccumulator :=
  match value.valueTag with
  | .int64 => do
      let n ← fixedValueBytes 8 value.payload
      match total with
      | empty => .ok (int (signed 64 n))
      | int total =>
        let sum := total + signed 64 n
        if -2 ^ 127 ≤ sum ∧ sum < 2 ^ 127 then .ok (int sum) else .error .arithOverflow
      | _ => .error .badIndex
  | .uint64 => do
      let n ← fixedValueBytes 8 value.payload
      match total with
      | empty => .ok (uint n)
      | uint total => if total + n < 2 ^ 128 then .ok (uint (total + n)) else .error .arithOverflow
      | _ => .error .badIndex
  | .decimal128 => do
      let n ← fixedValueBytes 16 value.payload
      match total with
      | empty => .ok (decimal (signed 128 n))
      | decimal total =>
        let sum := total + signed 128 n
        if -2 ^ 127 ≤ sum ∧ sum < 2 ^ 127 then .ok (decimal sum) else .error .arithOverflow
      | _ => .error .badIndex
  | .float32Bits => do
      let n ← fixedValueBytes 4 value.payload
      match total with
      | empty => .ok (float (f64Number (f64OfF32 n)))
      | float total => .ok (float (addNumbers total (f64Number (f64OfF32 n))))
      | _ => .error .badIndex
  | .float64Bits => do
      let n ← fixedValueBytes 8 value.payload
      match total with
      | empty => .ok (float (f64Number n))
      | float total => .ok (float (addNumbers total (f64Number n)))
      | _ => .error .badIndex
  | _ => .error .badIndex

def finish : SumAccumulator → Except CoveError (Option PlanValue)
  | empty => .ok none
  | int value =>
    if -2 ^ 63 ≤ value ∧ value < 2 ^ 63 then .ok (some (.canonical (leBytes 8 (unsigned 64 value))))
    else .error .arithOverflow
  | uint value =>
    if value < 2 ^ 64 then .ok (some (.canonical (leBytes 8 value))) else .error .arithOverflow
  | decimal value => .ok (some (.canonical (leBytes 16 (unsigned 128 value))))
  | float value => .ok (some (.real value))

def asF64 : SumAccumulator → Option ℚ
  | empty => some 0
  | int value | uint value | decimal value => some value
  | float value => value

end SumAccumulator

def declaredSum (isAvg : Bool) (item : Item) : Attempt (Nat × TaggedCanonicalValue) :=
  match item.2 with
  | .sum overflowPolicy sum =>
    if !isAvg && overflowPolicy = .checkedExact then do
      let count ← attempt (nonNullCount item.1)
      .ok (count, sum)
    else unavailable
  | .sumAndCount overflowPolicy count sum =>
    if isAvg && overflowPolicy = .checkedExact then .ok (count.toNat, sum) else unavailable
  | _ => unavailable

def sumStep (isAvg : Bool) (totals : Totals SumAccumulator) (item : Item) :
    Attempt (Totals SumAccumulator) := do
  let coveredRows ← attempt (checkedAdd totals.coveredRows item.1.rowCount.toNat)
  let declared ← declaredSum isAvg item
  let count ← attempt (nonNullCount item.1)
  rejectIf (declared.1 ≠ count) none
  let nonNullRows ← attempt (checkedAdd totals.nonNullRows declared.1)
  attempt (validateCanonicalPayload P declared.2.valueTag declared.2.payload)
  let acc ← attempt (totals.acc.add declared.2)
  .ok ⟨coveredRows, nonNullRows, acc⟩

variable (state : DatasetState)

def exactSynopsisSum (columnIndex : Nat) (isAvg : Bool) : Attempt (Option PlanValue) :=
  match state.columns[columnIndex]? with
  | none => fail (.badSchema "sum column out of bounds")
  | some column => do
      let totals ← state.files.foldlM
        (foldFile column.columnId (if isAvg then .sumAndCount else .sum) (sumStep P isAvg))
        ⟨0, 0, .empty⟩
      rejectIf (totals.coveredRows ≠ state.rowCount) none
      if totals.nonNullRows = 0 then .ok none
      else if isAvg then
        .ok (some (.real (totals.acc.asF64.map (· / (totals.nonNullRows : ℚ)))))
      else attempt totals.acc.finish

def aggregateSynopsisFastPathsAreSafe : Bool :=
  state.files.all fun file => file.visibleAll && !file.hasRedaction

def synopsisValue (request : Nat × MetadataSynopsisAggregateKind) :
    Attempt MetadataAggregateValue :=
  match state.columns[request.1]? with
  | none => fail (.badSchema "aggregate column out of bounds")
  | some column => do
      let value ← match request.2 with
        | .min | .max => exactSynopsisMinMax P state request.1 request.2
        | .sum => exactSynopsisSum P state request.1 false
        | .avg => exactSynopsisSum P state request.1 true
      .ok ⟨if request.2 = .avg then .float64 else column.logical, value⟩

def exactUnfilteredAggregateSynopses (requests : List (Nat × MetadataSynopsisAggregateKind)) :
    Attempt (List MetadataAggregateValue) := do
  rejectIf (requests = [] ∨ ¬ aggregateSynopsisFastPathsAreSafe state) none
  requests.mapM (synopsisValue P state)

end

/-! Counts over file codes. -/

def canonicalKey (value : TaggedCanonicalValue) : Bytes :=
  encodeU64Leb128 value.valueTag.code ++ value.payload

/-- What a file code decodes to; `none` is a redacted value. -/
def FileDictionary.decodeValue (dictionary : FileDictionary) (fileCode : UInt32) :
    Except CoveError (Option TaggedCanonicalValue) :=
  match dictionary.entries[fileCode.toNat]? with
  | none => .error .badFileCode
  | some value => .ok value

def fileCodeForCanonicalKey (file : FileMetadata) (key : Bytes) : Option UInt32 :=
  file.dictionary.bind fun dictionary =>
    (dictionary.entries.findIdx? fun value => value.map canonicalKey = some key).map UInt32.ofNat

def filecodeFastPathsAreSafe (state : DatasetState) (columnIndex : Nat) : Bool :=
  state.files.all fun file =>
    match file.columns[columnIndex]? with
    | none => false
    | some column => column.physical = .fileCode && file.visibleAll && !file.hasRedaction

def requestedCodes (file : FileMetadata) (canonicalKeys : List Bytes) : List UInt32 :=
  canonicalKeys.filterMap (fileCodeForCanonicalKey file)

def countBuckets (codes : List UInt32) (total : Nat) (buckets : List HistogramBucket) : Attempt Nat :=
  buckets.foldlM (fun total bucket =>
    if ∃ code ∈ codes, bucket.key.toNat = code.toNat then
      attempt (checkedAdd total bucket.count.toNat)
    else .ok total) total

def histogramCountStep (codes : List UInt32) (s : Nat × Nat) (item : Item) : Attempt (Nat × Nat) := do
  let coveredRows ← attempt (checkedAdd s.1 item.1.rowCount.toNat)
  match item.2 with
  | .fileCodeHistogram buckets => do
      let total ← countBuckets codes s.2 buckets
      .ok (coveredRows, total)
  | _ => unavailable

def histogramCountFile (columnIndex : Nat) (canonicalKeys : List Bytes) (total : Nat)
    (file : FileMetadata) : Attempt Nat :=
  match file.columns[columnIndex]? with
  | none => fail (.badSchema "FileCode filter column out of bounds")
  | some column => do
      let s ← foldFile column.columnId .fileCodeHistogram
        (histogramCountStep (requestedCodes file canonicalKeys)) (0, total) file
      rejectIf (s.1 ≠ file.rowCount) none
      .ok s.2

def exactFilecodeHistogramFilteredCount (state : DatasetState) (columnIndex : Nat)
    (canonicalKeys : List Bytes) : Attempt Nat :=
  state.files.foldlM (histogramCountFile columnIndex canonicalKeys) 0

def postedRefs (file : FileMetadata) (index : LookupIndex) (code : Nat) : List RowRef :=
  ((index.rowsFor code).getD []).filter fun row => row.tableId = file.tableId.toNat

def lookupCountFile (columnIndex : Nat) (canonicalKeys : List Bytes) (total : Nat)
    (file : FileMetadata) : Attempt Nat :=
  match file.columns[columnIndex]? with
  | none => fail (.badSchema "FileCode filter column out of bounds")
  | some column =>
    match file.lookupFor column.columnId with
    | none => unavailable
    | some index => do
        rejectIf (index.keyKind ≠ .fileCode) none
        let selected := ((requestedCodes file canonicalKeys).flatMap fun code =>
          postedRefs file index code.toNat).dedup
        attempt (checkedAdd total selected.length)

def orElse {α : Type} (first second : Attempt α) : Attempt α :=
  match first with
  | .error none => second
  | r => r

def exactFilecodeFilteredCount (state : DatasetState) (columnIndex : Nat)
    (canonicalKeys : List Bytes) : Attempt (List Nat) := do
  rejectIf (canonicalKeys = [] ∨ ¬ filecodeFastPathsAreSafe state columnIndex) none
  let total ← orElse (exactFilecodeHistogramFilteredCount state columnIndex canonicalKeys)
    (state.files.foldlM (lookupCountFile columnIndex canonicalKeys) 0)
  .ok [total]

abbrev Groups := List (Bytes × Nat)

def addToGroup {κ : Type} [LinearOrder κ] (value : κ) (count : Nat) :
    List (κ × Nat) → Attempt (List (κ × Nat))
  | [] => do
      let sum ← attempt (checkedAdd 0 count)
      .ok [(value, sum)]
  | (v, n) :: groups =>
    if value < v then do
      let sum ← attempt (checkedAdd 0 count)
      .ok ((value, sum) :: (v, n) :: groups)
    else if value = v then do
      let sum ← attempt (checkedAdd n count)
      .ok ((v, sum) :: groups)
    else do
      let rest ← addToGroup value count groups
      .ok ((v, n) :: rest)

def addBucket (dictionary : FileDictionary) (groups : Groups) (bucket : HistogramBucket) :
    Attempt Groups := do
  rejectIf (2 ^ 32 ≤ bucket.key.toNat) (some .badIndex)
  let value ← attempt (dictionary.decodeValue (UInt32.ofNat bucket.key.toNat))
  match value with
  | none => unavailable
  | some value => addToGroup value.payload bucket.count.toNat groups

def histogramGroupStep (dictionary : FileDictionary) (totals : Totals Groups) (item : Item) :
    Attempt (Totals Groups) := do
  let coveredRows ← attempt (checkedAdd totals.coveredRows item.1.rowCount.toNat)
  -- here the rows counted beside the covered ones are the null ones
  let nullRows ← attempt (checkedAdd totals.nonNullRows item.1.nullCount.toNat)
  match item.2 with
  | .fileCodeHistogram buckets => do
      let groups ← buckets.foldlM (addBucket dictionary) totals.acc
      .ok ⟨coveredRows, nullRows, groups⟩
  | _ => unavailable

def histogramGroupFile (columnIndex : Nat) (groups : Groups) (file : FileMetadata) :
    Attempt Groups :=
  match file.columns[columnIndex]? with
  | none => fail (.badSchema "FileCode group column out of bounds")
  | some column =>
    match file.dictionary with
    | none => unavailable
    | some dictionary => do
        let totals ← foldFile column.columnId .fileCodeHistogram (histogramGroupStep dictionary)
          ⟨0, 0, groups⟩ file
        rejectIf (totals.coveredRows ≠ file.rowCount ∨ totals.nonNullRows ≠ 0) none
        .ok totals.acc

def exactFilecodeHistogramGroupCounts (state : DatasetState) (columnIndex : Nat) : Attempt Groups :=
  state.files.foldlM (histogramGroupFile columnIndex) []

def addEntry (file : FileMetadata) (dictionary : FileDictionary) (s : List RowRef × Groups)
    (entry : LookupEntry) : Attempt (List RowRef × Groups) := do
  rejectIf (2 ^ 32 ≤ entry.key) none
  let value ← attempt (dictionary.decodeValue (UInt32.ofNat entry.key))
  match value with
  | none => unavailable
  | some value => do
      let entryRows := (entry.rows.filter fun row => row.tableId = file.tableId.toNat).dedup
      let groups ← addToGroup value.payload entryRows.length s.2
      .ok (s.1 ++ entryRows, groups)

def lookupGroupFile (columnIndex : Nat) (groups : Groups) (file : FileMetadata) : Attempt Groups :=
  match file.columns[columnIndex]? with
  | none => fail (.badSchema "FileCode group column out of bounds")
  | some column =>
    match file.lookupFor column.columnId with
    | none => unavailable
    | some index => do
        rejectIf (index.keyKind ≠ .fileCode) none
        match file.dictionary with
        | none => unavailable
        | some dictionary => do
            let s ← index.entries.foldlM (addEntry file dictionary) ([], groups)
            rejectIf (s.1.dedup.length ≠ file.rowCount) none
            .ok s.2

def exactFilecodeGroupCounts (state : DatasetState) (columnIndex : Nat) : Attempt Groups := do
  rejectIf (¬ filecodeFastPathsAreSafe state columnIndex) none
  match state.columns[columnIndex]? with
  | none => fail (.badSchema "FileCode group column out of bounds")
  | some column => do
      rejectIf (column.logical ≠ .utf8) none
      orElse (exactFilecodeHistogramGroupCounts state columnIndex)
        (state.files.foldlM (lookupGroupFile columnIndex) [])

end CoveFormat.MetadataAggregates
