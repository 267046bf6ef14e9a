import CoveFormat.CoviBuilds

namespace CoveFormat.CoviAnswers

open ByteCodes Canonical CheckedArith CoviBuilds CoviComparators ExceptRules List
open CoviPostings hiding normalizeRowRanges

variable (P : TextPredicates) (t : IntegerType)

def CoviComparatorKindV2.code : CoviComparatorKindV2 → Nat
  | .canonicalEquality => 0
  | .canonicalOrdering => 1
  | .domainRankOrdering => 2
  | .numCodeLogicalOrdering => 3
  | .utf8BytewisePrefix => 4
  | .intervalOverlap => 5
  | .dimensionalTupleLexicographic => 6
  | .objectPathLexicographic => 7
  | .extensionRequired => 255

abbrev KeyRanges := Bytes × List CoviRowRangePostingV2

structure BuildBlocksParams where
  indexKind : CoviIndexKindV2
  keyEncodingKind : CoviKeyEncodingKindV2
  comparatorKind : CoviComparatorKindV2
  supportsRange : Bool
  nullCount : Nat

/-- The three blocks of an index are its entries: each is a key with the ranges that its postings hold. -/
structure BuiltColumnIndex where
  entries : List KeyRanges
  indexKind : CoviIndexKindV2
  keyEncodingKind : CoviKeyEncodingKindV2
  comparatorKind : CoviComparatorKindV2
  supportsRange : Bool
  (distinctCount nullCount : Nat)
  (minKey maxKey sumPayload : Option Bytes)

-- What the canonical comparators know of the bytes of texts, and the type of the column.
def insertItem (comparatorKind : CoviComparatorKindV2) (item : KeyRanges) :
    List KeyRanges → Except CoveError (List KeyRanges)
  | [] => .ok [item]
  | other :: others => do
      let ordering ← compareKeyBytesForOrder P (CoviComparatorKindV2.code comparatorKind) (some t.logical)
        ⟨none, none⟩ item.1 other.1
      if ordering = .lt then .ok (item :: other :: others)
      else (insertItem comparatorKind item others).map (other :: ·)

def orderKeyItems (indexKind : CoviIndexKindV2) (comparatorKind : CoviComparatorKindV2)
    (items : List KeyRanges) : Except CoveError (List KeyRanges) :=
  if indexKind = .sorted ∨ indexKind = .sparseSorted then
    items.foldlM (fun sorted item => insertItem P t comparatorKind item sorted) []
  else .ok items

def normalizeRowRanges (ranges : List CoviRowRangePostingV2) :
    Except CoveError (List CoviRowRangePostingV2) :=
  (SortedKeys.sortByKey rowKey ranges).foldlM appendRowRange []

def buildEntry (item : KeyRanges × Nat) : Except CoveError KeyRanges := do
  let ranges ← normalizeRowRanges item.1.2
  rejectIf (2 ^ 32 ≤ item.2) .arithOverflow
  rejectIf (2 ^ 32 ≤ item.1.1.length) .arithOverflow
  checkAll (fun range => checkExtent range.rowStart range.rowCount) ranges
  .ok (item.1.1, ranges)

def serializeEntryBlock (entries : List KeyRanges) : Except CoveError Unit := do
  rejectIf (2 ^ 32 ≤ entries.length) .arithOverflow
  rejectIf (2 ^ 32 ≤ 60 * entries.length) .arithOverflow

def serializePostingsBlock (entries : List KeyRanges) : Except CoveError Unit := do
  rejectIf (2 ^ 32 ≤ entries.length) .arithOverflow
  rejectIf (2 ^ 32 ≤ 44 * entries.length) .arithOverflow
  checkAll (fun entry => validateRowRangePostings none entry.2) entries

def buildBlocksFromKeys (keys : KeyPostingMap) (params : BuildBlocksParams) :
    Except CoveError BuiltColumnIndex := do
  let items ← orderKeyItems P t params.indexKind params.comparatorKind keys.entries
  let entries ← items.zipIdx.mapM buildEntry
  serializeEntryBlock entries
  serializePostingsBlock entries
  .ok { entries := entries
        indexKind := params.indexKind
        keyEncodingKind := params.keyEncodingKind
        comparatorKind := params.comparatorKind
        supportsRange := params.supportsRange
        distinctCount := keys.entries.length
        nullCount := params.nullCount
        minKey := if params.supportsRange then items.head?.map Prod.fst else none
        maxKey := if params.supportsRange then items.getLast?.map Prod.fst else none
        sumPayload := none }

def ColumnSource.params (source : ColumnSource) (nullCount : Nat) : BuildBlocksParams :=
  if source.rawFilecodeMode then ⟨.hash, .fileCode, .domainRankOrdering, false, nullCount⟩
  else ⟨.sorted, .canonicalValueBytes, .canonicalOrdering, true, nullCount⟩

def buildColumnIndex (source : ColumnSource) : Except CoveError BuiltColumnIndex := do
  let scan ← source.pages.foldlM (addPage t source) ⟨.empty, 0, 0⟩
  rejectIf (scan.rowsSeen ≠ source.rowCount) .badCovi
  let sumPayload ← indexOnlySumPayloadFromKeys t scan.keys
  let built ← buildBlocksFromKeys P t scan.keys (ColumnSource.params source scan.nullCount)
  .ok { built with sumPayload := sumPayload }

def buildObjectPropertyIndex (propertyId : Nat) (records : List ObjectRecord) :
    Except CoveError BuiltColumnIndex := do
  let scan ← records.foldlM (addRecord t propertyId) ⟨.empty, 0⟩
  rejectIf (2 ^ 64 ≤ records.length) .arithOverflow
  rejectIf (records.length < scan.rowsWithIndexedValue) .arithOverflow
  let sumPayload ← indexOnlySumPayloadFromKeys t scan.keys
  let built ← buildBlocksFromKeys P t scan.keys
    ⟨.sorted, .canonicalValueBytes, .canonicalOrdering, true, records.length - scan.rowsWithIndexedValue⟩
  .ok { built with sumPayload := sumPayload }

structure CoviBuildOptions where
  (includeIndexOnlyCounts includeIndexOnlyMinMax includeIndexOnlyDistinctCount : Bool)
  (includeIndexOnlyExists includeIndexOnlySumAvg : Bool)

inductive CoviAggregateKindV2
  | count
  | min
  | max
  | existence
  | distinctCount
  | membership
  | sum
  | avg
  deriving DecidableEq

structure CoviAggregateAnswerV2 where
  aggregateAnswerRef : Nat
  aggregateKind : CoviAggregateKindV2
  (rowCount nullCount nonNullCount valueRef : Nat)

structure CoviAggregateAnswerBlockV2 where
  answers : List CoviAggregateAnswerV2
  payload : Bytes

def absentRef : Nat := 2 ^ 32 - 1

def CoviAggregateAnswerV2.validateCounts (answer : CoviAggregateAnswerV2) : Except CoveError Unit := do
  rejectIf (answer.rowCount < answer.nullCount ∨ answer.rowCount < answer.nonNullCount) .badCovi
  let accounted ← checkedAdd answer.nullCount answer.nonNullCount
  rejectIf (accounted ≠ answer.rowCount) .badCovi

abbrev Answer := CoviAggregateKindV2 × Option Bytes

def placeValue (payload : Bytes) : Option Bytes → Except CoveError (Nat × Bytes)
  | none => .ok (absentRef, payload)
  | some value => do
      rejectIf (2 ^ 32 ≤ payload.length) .arithOverflow
      .ok (payload.length, payload ++ value)

def pushAggregateAnswer (rowCount nullCount : Nat) (block : CoviAggregateAnswerBlockV2) (answer : Answer) :
    Except CoveError CoviAggregateAnswerBlockV2 := do
  let placed ← placeValue block.payload answer.2
  rejectIf (2 ^ 32 ≤ block.answers.length) .arithOverflow
  .ok ⟨block.answers ++
    [⟨block.answers.length, answer.1, rowCount, nullCount, rowCount - nullCount, placed.1⟩],
    placed.2⟩

def valueTagMatchesLogical (tag : ValueTag) : Bool := decide (tag = if t.isSigned then .int64 else .uint64)

def canonicalPayloadForMinMaxAnswer (key : Bytes) : Except CoveError Bytes := do
  let (tag, payload) ← taggedKeyPayload key
  rejectIf (valueTagMatchesLogical t tag = false) .badCovi
  .ok payload

def minMaxPayload : Option Bytes → Except CoveError (Option Bytes)
  | none => .ok none
  | some key => (canonicalPayloadForMinMaxAnswer t key).map some

/-- What an index of `value_count` rows answers under the given options. -/
structure AggregateAnswerBlockParams where
  options : CoviBuildOptions
  rowCount : Nat
  (includeMinMaxAnswers includeSumAvgAnswers : Bool)

section

variable (params : AggregateAnswerBlockParams)

def minMaxAnswers (built : BuiltColumnIndex) : Except CoveError (List Answer) :=
  if params.includeMinMaxAnswers then do
    let minPayload ← minMaxPayload t built.minKey
    let maxPayload ← minMaxPayload t built.maxKey
    .ok [(.min, minPayload), (.max, maxPayload)]
  else .ok []

def aggregateAnswers (built : BuiltColumnIndex) :
    Except CoveError (List Answer) := do
  let minMax ← minMaxAnswers t params built
  .ok ((if params.options.includeIndexOnlyCounts then [(.count, none)] else []) ++
    (if params.options.includeIndexOnlyExists then [(.existence, none)] else []) ++ minMax ++
    (if params.options.includeIndexOnlyDistinctCount then
      [(.distinctCount, some (leBytes 8 built.distinctCount))] else []) ++
    if params.includeSumAvgAnswers then [(.sum, built.sumPayload), (.avg, built.sumPayload)] else [])

def aggregateAnswerBlock (built : BuiltColumnIndex) :
    Except CoveError CoviAggregateAnswerBlockV2 := do
  rejectIf (params.rowCount < built.nullCount) .arithOverflow
  let answers ← aggregateAnswers t params built
  let block ← answers.foldlM (pushAggregateAnswer params.rowCount built.nullCount) ⟨[], []⟩
  checkAll CoviAggregateAnswerV2.validateCounts block.answers
  .ok block

end

def aggregateValuePayload (answer : CoviAggregateAnswerV2) (block : CoviAggregateAnswerBlockV2) :
    Except CoveError (Option Bytes) :=
  if answer.valueRef = absentRef then .ok none
  else do
    rejectIf (block.payload.length < answer.valueRef) .offsetRange
    let offsets := (block.answers.map CoviAggregateAnswerV2.valueRef).filter fun offset =>
      offset ≠ absentRef ∧ answer.valueRef < offset
    let finish := offsets.min?.getD block.payload.length
    -- The slice panics where an offset lies beyond the payload; here it ends with the payload.
    .ok (some ((block.payload.take finish).drop answer.valueRef))

/-- An index with its answers, where it has any. -/
structure ColumnIndex where
  built : BuiltColumnIndex
  aggregateBlock : Option CoviAggregateAnswerBlockV2

def answerParams (options : CoviBuildOptions) (valueCount : Nat) (built : BuiltColumnIndex) :
    AggregateAnswerBlockParams where
  options := options
  rowCount := valueCount
  includeMinMaxAnswers := options.includeIndexOnlyMinMax && built.supportsRange && built.minKey.isSome &&
    built.maxKey.isSome
  includeSumAvgAnswers := options.includeIndexOnlySumAvg &&
    (built.sumPayload.isSome || decide (built.nullCount = valueCount))

def AggregateAnswerBlockParams.includeAggregateBlock (params : AggregateAnswerBlockParams) : Bool :=
  params.options.includeIndexOnlyCounts || params.includeMinMaxAnswers ||
    params.options.includeIndexOnlyDistinctCount || params.options.includeIndexOnlyExists ||
    params.includeSumAvgAnswers

def answerIndex (options : CoviBuildOptions) (valueCount : Nat) (built : BuiltColumnIndex) :
    Except CoveError ColumnIndex :=
  let params := answerParams options valueCount built
  if params.includeAggregateBlock then do
    -- The entry block is read and written again for the id of the answers.
    serializeEntryBlock built.entries
    let block ← aggregateAnswerBlock t params built
    .ok ⟨built, some block⟩
  else .ok ⟨built, none⟩

/-- The index of a column, as `build_covi_from_cove_bytes` makes it. -/
def columnIndex (options : CoviBuildOptions) (source : ColumnSource) : Except CoveError ColumnIndex := do
  let built ← buildColumnIndex P t source
  answerIndex t options source.rowCount built

def ColumnIndex.storedAnswer (index : ColumnIndex) (kind : CoviAggregateKindV2) :
    Option (Except CoveError (Option Bytes)) := do
  let block ← index.aggregateBlock
  let answer ← block.answers.find? fun answer => answer.aggregateKind = kind
  some (aggregateValuePayload answer block)

/-- The index of an object property, as `build_covi_from_cove_o_bytes` makes it. -/
def objectPropertyIndex (options : CoviBuildOptions) (propertyId : Nat) (records : List ObjectRecord) :
    Except CoveError ColumnIndex := do
  let built ← buildObjectPropertyIndex P t propertyId records
  answerIndex t options records.length built

end CoveFormat.CoviAnswers
