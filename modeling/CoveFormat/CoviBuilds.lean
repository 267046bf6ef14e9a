import CoveFormat.CoviPostings
import CoveFormat.OrderedMaps
import CoveFormat.PropertyValues

namespace CoveFormat.CoviBuilds

open ByteCodes Canonical CheckedArith CoveTypes CoviComparators CoviPostings EncodedArrays
  ExceptRules ExprEval JsonValue OrderedMaps PropertyValues SortedKeys Wire
open DictionarySections (FileDictionary)

/-- The logical types whose sums an index stores. -/
inductive IntegerType
  | int8
  | int16
  | int32
  | int64
  | uint8
  | uint16
  | uint32
  | uint64

namespace IntegerType

def logical : IntegerType → CoveLogicalType
  | int8 => .int8
  | int16 => .int16
  | int32 => .int32
  | int64 => .int64
  | uint8 => .uint8
  | uint16 => .uint16
  | uint32 => .uint32
  | uint64 => .uint64

def isSigned : IntegerType → Bool
  | int8 | int16 | int32 | int64 => true
  | uint8 | uint16 | uint32 | uint64 => false

def width : IntegerType → Nat
  | int8 | uint8 => 1
  | int16 | uint16 => 2
  | int32 | uint32 => 4
  | int64 | uint64 => 8

def ofNumcode (t : IntegerType) (code : Nat) : Int :=
  if t.isSigned then signed (8 * t.width) code else (code % 2 ^ (8 * t.width) : Nat)

end IntegerType

section

variable (t : IntegerType)

def taggedKey (valueTag : Nat) (payload : Bytes) : Bytes := encodeU64Leb128 valueTag ++ payload

/-- The tagged canonical bytes of `CanonicalValue::Int` or `CanonicalValue::Uint`. -/
def integerKey (value : Int) : Except CoveError Bytes :=
  if t.isSigned then (encodeI64Width t.width value).map (taggedKey ValueTag.int64.code)
  else (encodeU64Width t.width value.toNat).map (taggedKey ValueTag.uint64.code)

def keyFromNumcode (code : Nat) : Except CoveError Bytes := integerKey t (t.ofNumcode code)

def keyFromI64 (value : Int) : Except CoveError Bytes :=
  if t.isSigned then integerKey t value else .error .badCovi

def keyFromBytes (bytes : Bytes) : Except CoveError Bytes := do
  rejectIf (bytes.length ≠ t.width) .badCovi
  integerKey t (t.ofNumcode (leNat bytes))

section

variable (dictionary : Option FileDictionary)

def keyFromFileCode (code : UInt32) : Except CoveError Bytes := do
  let dictionary ← okOrBadCovi dictionary
  let entry ← dictionary.getEntry code
  match ← dictionary.decodeValue code with
  | .rawBytes bytes => .ok (taggedKey entry.valueTag.toNat bytes)
  | .redactedPresent => .error .badCovi

def keyForValue (rawFilecodeMode : Bool) :
    CoveArrayValue → Except CoveError (Option Bytes)
  | .null => .ok none
  | .fileCode code =>
    if rawFilecodeMode then .ok (some (leBytes 4 code.toNat))
    else (keyFromFileCode dictionary code).map some
  | .numCode code => (keyFromNumcode t code.toNat).map some
  | .varint value => (keyFromNumcode t value.toNat).map some
  | .int64 value => (keyFromI64 t value.toInt).map some
  | .boolean value | .validityBit value =>
    .ok (some (taggedKey (if value then ValueTag.boolTrue else .boolFalse).code []))
  | .bytes bytes | .ownedBytes bytes => (keyFromBytes t bytes).map some
  | .dictValue _ => .error .badCovi

end

def jsonI64 : Value → Option Int := integerValue parseI64

variable (value : Value)

def jsonU64 : Option Nat := value.asU64.or (value.asStr.bind parseU64)

def keyForJsonPropertyValue : Except CoveError (Option Bytes) :=
  if value.isNull then .ok none
  else
    match if t.isSigned then jsonI64 value else (jsonU64 value).map Int.ofNat with
    | none => .ok none
    | some number => (integerKey t number).map some

end

def appendRowRange (ranges : List CoviRowRangePostingV2) (next : CoviRowRangePostingV2) :
    Except CoveError (List CoviRowRangePostingV2) :=
  match ranges.getLast? with
  | none => .ok [next]
  | some last => do
      let lastEnd ← checkedAdd last.rowStart last.rowCount
      if last.scope = next.scope then
        if lastEnd = next.rowStart then do
          let rowCount ← checkedAdd last.rowCount next.rowCount
          .ok (ranges.dropLast ++ [{ last with rowCount := rowCount }])
        else if next.rowStart < lastEnd then .error .badCovi
        else .ok (ranges ++ [next])
      else .ok (ranges ++ [next])

abbrev KeyPostingMap := OrderedMap Bytes (List CoviRowRangePostingV2)

/-- `append_row_range(keys.entry(key).or_default(), row)`. -/
def appendUnder (keys : KeyPostingMap) (key : Bytes) (row : CoviRowRangePostingV2) :
    Except CoveError KeyPostingMap := do
  let ranges ← appendRowRange ((keys.get key).getD []) row
  .ok (keys.entryOr key [] fun _ => ranges)

inductive PageRows
  /-- A page without a payload whose rows are all null. -/
  | elidedNulls (rowCount : Nat)
  | decoded (values : List CoveArrayValue)

/-- A page of the column with the place of its morsel. -/
structure DecodedPage where
  (segmentId segmentRowStart morselId firstRowInSegment : Nat)
  rows : PageRows

/-- What the build of a column index reads of the file. -/
structure ColumnSource where
  (tableId rowCount : Nat)
  fileCodes : Bool
  dictionary : Option FileDictionary
  pages : List DecodedPage

structure ColumnScan where
  keys : KeyPostingMap
  (nullCount rowsSeen : Nat)

def ColumnSource.rawFilecodeMode (source : ColumnSource) : Bool :=
  source.fileCodes && source.dictionary.isNone

def rowPosting (fileRef tableId segmentId morselId rowStart : Nat) : CoviRowRangePostingV2 :=
  ⟨fileRef, tableId, segmentId, morselId, rowStart, 1, 0, 0⟩

def addValue (t : IntegerType) (source : ColumnSource) (page : DecodedPage) (scan : ColumnScan)
    (row : CoveArrayValue × Nat) : Except CoveError ColumnScan := do
  let rowsSeen ← checkedAdd scan.rowsSeen 1
  match ← keyForValue t source.dictionary source.rawFilecodeMode row.1 with
  | none => do
      let nullCount ← checkedAdd scan.nullCount 1
      .ok ⟨scan.keys, nullCount, rowsSeen⟩
  | some key => do
      let start ← checkedAdd page.segmentRowStart page.firstRowInSegment
      let rowStart ← checkedAdd start row.2
      let keys ← appendUnder scan.keys key (rowPosting 0 source.tableId page.segmentId page.morselId rowStart)
      .ok ⟨keys, scan.nullCount, rowsSeen⟩

def addPage (t : IntegerType) (source : ColumnSource) (scan : ColumnScan) (page : DecodedPage) :
    Except CoveError ColumnScan :=
  match page.rows with
  | .elidedNulls rowCount => do
      let nullCount ← checkedAdd scan.nullCount rowCount
      let rowsSeen ← checkedAdd scan.rowsSeen rowCount
      .ok ⟨scan.keys, nullCount, rowsSeen⟩
  | .decoded values => values.zipIdx.foldlM (addValue t source page) scan

structure ObjectPropertyValue where
  propertyId : Nat
  redacted : Bool
  value : Value

structure ObjectRecord where
  (segmentId rowIndex : Nat)
  properties : List ObjectPropertyValue

structure PropertyScan where
  keys : KeyPostingMap
  rowsWithIndexedValue : Nat

def recordKeys (t : IntegerType) (propertyId : Nat) (record : ObjectRecord) : Except CoveError (List Bytes) :=
  ((record.properties.filter fun value => value.propertyId = propertyId ∧ ¬ value.redacted).mapM
    fun value => keyForJsonPropertyValue t value.value).map fun keys =>
      dedupAdjacent (sortByKey id (keys.filterMap id))

def recordPosting (record : ObjectRecord) : CoviRowRangePostingV2 :=
  rowPosting 0 (2 ^ 32 - 1) record.segmentId (2 ^ 32 - 1) record.rowIndex

def addRecord (t : IntegerType) (propertyId : Nat) (scan : PropertyScan) (record : ObjectRecord) :
    Except CoveError PropertyScan := do
  let keys ← recordKeys t propertyId record
  if keys = [] then .ok scan
  else do
    let rowsWithIndexedValue ← checkedAdd scan.rowsWithIndexedValue 1
    let postings ← keys.foldlM (fun postings key => appendUnder postings key (recordPosting record)) scan.keys
    .ok ⟨postings, rowsWithIndexedValue⟩

def taggedKeyPayload (key : Bytes) : Except CoveError (ValueTag × Bytes) := do
  let (tag, consumed) ← decodeU64Leb128 key
  rejectIf (2 ^ 16 ≤ tag) .badCovi
  let tag ← okOrBadCovi (ValueTag.fromU16 tag)
  .ok (tag, key.drop consumed)

def payloadFromKey (wanted : ValueTag) (key : Bytes) : Except CoveError Nat := do
  let (tag, payload) ← taggedKeyPayload key
  rejectIf (tag ≠ wanted ∨ payload.length ≠ 8) .badCovi
  .ok (leNat payload)

def signedI64PayloadFromKey (key : Bytes) : Except CoveError Int :=
  (payloadFromKey .int64 key).map (signed 64)

def unsignedU64PayloadFromKey (key : Bytes) : Except CoveError Int :=
  (payloadFromKey .uint64 key).map Int.ofNat

def rowCountForRanges (ranges : List CoviRowRangePostingV2) : Except CoveError Nat :=
  ranges.foldlM (fun total range => checkedAdd total range.rowCount) 0

/-- An operation in the numbers from `low` to `high`. -/
def checkedIn (low high value : Int) : Except CoveError Int := do
  rejectIf (value < low ∨ high ≤ value) .arithOverflow
  .ok value

def addContribution (low high : Int) (payload : Bytes → Except CoveError Int) (total : Int)
    (entry : Bytes × List CoviRowRangePostingV2) : Except CoveError Int := do
  let value ← payload entry.1
  let count ← rowCountForRanges entry.2
  let contribution ← checkedIn low high (value * count)
  checkedIn low high (total + contribution)

def indexOnlySignedSumPayload (keys : KeyPostingMap) : Except CoveError (Option Bytes) := do
  let total ← keys.entries.foldlM (addContribution (-2 ^ 127) (2 ^ 127) signedI64PayloadFromKey) 0
  let total ← checkedIn (-2 ^ 63) (2 ^ 63) total
  .ok (some (leBytes 8 (unsigned 64 total)))

def indexOnlyUnsignedSumPayload (keys : KeyPostingMap) : Except CoveError (Option Bytes) := do
  let total ← keys.entries.foldlM (addContribution 0 (2 ^ 128) unsignedU64PayloadFromKey) 0
  let total ← checkedIn 0 (2 ^ 64) total
  .ok (some (leBytes 8 (unsigned 64 total)))

def indexOnlySumPayloadFromKeys (t : IntegerType) (keys : KeyPostingMap) : Except CoveError (Option Bytes) :=
  if keys.entries = [] then .ok none
  else if t.isSigned then indexOnlySignedSumPayload keys
  else indexOnlyUnsignedSumPayload keys

end CoveFormat.CoviBuilds
