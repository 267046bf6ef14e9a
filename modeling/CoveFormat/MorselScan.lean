import CoveFormat.EncodedArrays
import CoveFormat.NumCodes
import CoveFormat.Selections

namespace CoveFormat.MorselScan

open ByteCodes CheckedArith CoveTypes JsonValue NumCodes Selections
open EncodedArrays (CoveArrayValue)

inductive NullPredicateKind
  | isNull
  | isNotNull
  deriving DecidableEq

inductive CovePredicate
  | null (columnIndex : Nat) (kind : NullPredicateKind)
  | numeric (columnIndex : Nat) (op : NumericPredicateOp) (literal : PredicateLiteral)
  | numericIn (columnIndex : Nat) (literals : List PredicateLiteral)
  | numericNotIn (columnIndex : Nat) (literals : List PredicateLiteral)
  | fileCodeIn (columnIndex : Nat) (fileCodes : List UInt32)
  | fileCodeNotIn (columnIndex : Nat) (fileCodes : List UInt32)
  | fixedBytesEq (columnIndex : Nat) (literal : Bytes)
  | fixedBytesIn (columnIndex : Nat) (literals : List Bytes)
  | varBytesEq (columnIndex : Nat) (literal : Bytes)
  | varBytesIn (columnIndex : Nat) (literals : List Bytes)
  | varBytesPrefix (columnIndex : Nat) (start : Bytes)
  deriving DecidableEq

def predicateColumnIndex : CovePredicate → Nat
  | .null i _ | .numeric i _ _ | .numericIn i _ | .numericNotIn i _ | .fileCodeIn i _
  | .fileCodeNotIn i _ | .fixedBytesEq i _ | .fixedBytesIn i _ | .varBytesEq i _ | .varBytesIn i _
  | .varBytesPrefix i _ => i

inductive CoveFilterUse
  | unsupported
  | pruningOnly
  | fullRowPredicateExact
  deriving DecidableEq

structure FilterPlan where
  useKind : CoveFilterUse
  display : String
  predicate : Option CovePredicate

structure ScanCandidateRowRange where
  (segmentId morselId rowStart rowCount : Nat)
  deriving DecidableEq

structure ScanPlan where
  filters : List FilterPlan
  coviCandidates : Option (List ScanCandidateRowRange)

inductive LookupKeyKind
  | fileCode
  | numCode
  deriving DecidableEq

structure RowRef where
  (tableId segmentId morselId rowInMorsel : Nat)
  deriving DecidableEq

structure LookupEntry where
  key : Nat
  rows : List RowRef

/-- The entries are sorted by key, so that a binary search finds the one of a key. -/
structure LookupIndex where
  keyKind : LookupKeyKind
  entries : List LookupEntry
  sorted : entries.Pairwise fun a b => a.key < b.key

def LookupIndex.rowsFor (index : LookupIndex) (key : Nat) : Option (List RowRef) :=
  (index.entries.find? fun entry => entry.key = key).map LookupEntry.rows

/-- What becomes of the page of a column when it is read. -/
inductive PageLoad
  /-- The page is missing, damaged or uses a feature that is refused. -/
  | failed (error : CoveError)
  | unsupportedEncoding
  /-- The page is read, and its rows cannot be decoded. -/
  | unsupportedRows
  | decoded

structure TableColumn where
  columnId : Nat
  logical : CoveLogicalType

/-- The table of a dataset with its indexes, and the columns of one of its morsels: a row has its
value as the page is decoded, and a bool of a lane is the code 0 or 1. -/
structure DatasetState where
  tableId : Nat
  columns : Nat → TableColumn
  lookupFor : Nat → Option LookupIndex
  pageLoad : Nat → PageLoad
  value : Nat → Nat → CoveArrayValue

/-- A morsel with the rows of its segment that come before it. -/
structure Morsel where
  (segmentId morselId segmentRowStart firstRowInSegment rowCount : Nat)

def planHasRowPredicate (plan : ScanPlan) : Bool :=
  plan.filters.any fun filter => filter.predicate.isSome

/-- `none` where the value has no such number, also when this is an error. -/
def valueAsI64 : CoveArrayValue → Option Int
  | .numCode value | .varint value => if value.toNat < 2 ^ 63 then some value.toNat else none
  | .int64 value => some value.toInt
  | .bytes bytes => if bytes.length = 8 then some (signed 64 (leNat bytes)) else none
  | _ => none

def valueAsU64 : CoveArrayValue → Option Nat
  | .numCode value | .varint value => some value.toNat
  | .int64 value => if 0 ≤ value.toInt then some value.toInt.toNat else none
  | .bytes bytes => if bytes.length = 8 then some (leNat bytes) else none
  | _ => none

/-- The bits of an `f64`; `compare_numeric_value` does not come here with a NumCode. -/
def valueAsF64 : CoveArrayValue → Option Nat
  | .varint value => some (f64OfNat value.toNat)
  | .int64 value => some (f64OfInt value.toInt)
  | .bytes bytes =>
    if bytes.length = 8 ∧ f64IsNan (leNat bytes) = false then some (leNat bytes) else none
  | _ => none

def compareNumericValue (logical : CoveLogicalType) (op : NumericPredicateOp)
    (literal : PredicateLiteral) (value : CoveArrayValue) : Option Bool :=
  match value with
  | .null => some false
  | .numCode code => compareNativeNumcodeValue logical code.toNat op literal
  | _ =>
    match literal with
    | .int64 literal => (valueAsI64 value).map (compareNativeOrdered · op literal.toInt)
    | .uint64 literal =>
      (valueAsU64 value).map fun value : Nat => compareNativeOrdered value op literal.toNat
    | .float64 bits => (valueAsF64 value).map (compareNativeFloats · op bits.toNat)

def compareNumericInValue (logical : CoveLogicalType) (value : CoveArrayValue) :
    List PredicateLiteral → Option Bool
  | [] => some false
  | literal :: literals =>
    match compareNumericValue logical .eq literal value with
    | none => none
    | some true => some true
    | some false => compareNumericInValue logical value literals

def compareFileCode (test : UInt32 → Bool) : CoveArrayValue → Option Bool
  | .null => some false
  | .fileCode code => some (test code)
  | _ => none

def compareBytes (test : Bytes → Bool) : CoveArrayValue → Option Bool
  | .null => some false
  | .bytes value | .ownedBytes value => some (test value)
  | _ => none

/-- Whether a row is kept; `none` where the value cannot be compared. -/
def keepsValue (logical : CoveLogicalType) (predicate : CovePredicate) (value : CoveArrayValue) :
    Option Bool :=
  match predicate with
  | .null _ .isNull => some (value = .null)
  | .null _ .isNotNull => some (value ≠ .null)
  | .numeric _ op literal => compareNumericValue logical op literal value
  | .numericIn _ literals => compareNumericInValue logical value literals
  | .numericNotIn _ literals =>
    if value = .null then some false
    else (compareNumericInValue logical value literals).map not
  | .fileCodeIn _ codes => compareFileCode (fun code => code ∈ codes) value
  | .fileCodeNotIn _ codes => compareFileCode (fun code => code ∉ codes) value
  | .fixedBytesEq _ literal | .varBytesEq _ literal => compareBytes (fun bytes => bytes = literal) value
  | .fixedBytesIn _ literals | .varBytesIn _ literals =>
    compareBytes (fun bytes => bytes ∈ literals) value
  | .varBytesPrefix _ start => compareBytes (fun bytes => start.isPrefixOf bytes) value

section

variable (state : DatasetState) (morsel : Morsel)

def keepsRow (predicate : CovePredicate) (row : Nat) : Option Bool :=
  keepsValue (state.columns (predicateColumnIndex predicate)).logical predicate
    (state.value (predicateColumnIndex predicate) row)

def lookupKeys : CovePredicate → Option (Nat × LookupKeyKind × List Nat)
  | .fileCodeIn i codes => some (i, .fileCode, codes.map UInt32.toNat)
  | .numeric i .eq literal =>
    let keys := numericLookupKeys (state.columns i).logical literal
    if keys.isEmpty then none else some (i, .numCode, keys)
  | .numericIn i literals =>
    let keys := numericInLookupKeys (state.columns i).logical literals
    if keys.isEmpty then none else some (i, .numCode, keys)
  | _ => none

def postedRows (index : LookupIndex) (keys : List Nat) : List Nat :=
  keys.flatMap fun key => ((index.rowsFor key).getD []).filterMap fun row =>
    if row.tableId ≠ state.tableId ∨ row.segmentId ≠ morsel.segmentId ∨
        row.morselId ≠ morsel.morselId then none
    else some row.rowInMorsel

/-- Narrows the mask by every index that answers a filter; `false` sends the scan back to the
pages. -/
def lookupSelection : List FilterPlan → Bool → SelectionMask → Bool × SelectionMask
  | [], sawLookupFilter, mask => (sawLookupFilter, mask)
  | filter :: filters, sawLookupFilter, mask =>
    match filter.predicate.bind (lookupKeys state) with
    | none => lookupSelection filters sawLookupFilter mask
    | some (columnIndex, keyKind, keys) =>
      match state.lookupFor (state.columns columnIndex).columnId with
      | none =>
        if sawLookupFilter && keyKind == .fileCode then (false, mask)
        else lookupSelection filters sawLookupFilter mask
      | some index =>
        if index.keyKind ≠ keyKind then (false, mask)
        else if (postedRows state morsel index keys).any (mask.length ≤ ·) then (false, mask)
        else
          let narrowed := mask.andMask
            ((SelectionMask.fillNone mask.length).setRows (postedRows state morsel index keys))
          if narrowed.allZero then (true, narrowed)
          else lookupSelection filters true narrowed

def lookupSelectionForMorsel (plan : ScanPlan) : Bool × SelectionMask :=
  lookupSelection state morsel plan.filters false (SelectionMask.fillAll morsel.rowCount)

def predicateIsIndexCovered (predicate : CovePredicate) : Bool :=
  match lookupKeys state predicate with
  | none => false
  | some (columnIndex, keyKind, _) =>
    (state.lookupFor (state.columns columnIndex).columnId).any fun index => index.keyKind == keyKind

def candidateRows (morselRowStart : Nat) (candidate : ScanCandidateRowRange) :
    Except CoveError (List Nat) :=
  if candidate.segmentId ≠ morsel.segmentId ∨ candidate.morselId ≠ morsel.morselId then .ok []
  else do
    let candidateEnd ← checkedAdd candidate.rowStart candidate.rowCount
    let start := max candidate.rowStart morselRowStart
    let finish := min candidateEnd (morselRowStart + morsel.rowCount)
    .ok ((List.range' start (finish - start)).map (· - morselRowStart))

def applyCoviCandidatesToSelection (plan : ScanPlan) (morselRowStart : Nat) (selection : Selection) :
    Except CoveError Selection :=
  match plan.coviCandidates with
  | none => .ok selection
  | some candidates =>
    if selection.isEmpty then .ok selection
    else do
      let _ ← checkedAdd morselRowStart morsel.rowCount
      let found ← candidates.mapM (candidateRows morsel morselRowStart)
      if found.flatten.isEmpty then .ok .none
      else
        .ok (Selection.fromRows (selection.rows.filter (· ∈ found.flatten)) morsel.rowCount)

/-- The row loop of `apply_predicate_to_selection`: a row that fails is cleared, a value that
cannot be compared gives up. -/
def applyPredicateToSelection (predicate : CovePredicate) (mask : SelectionMask) :
    Option SelectionMask :=
  mask.rows.foldlM (fun mask row =>
    match keepsRow state predicate row with
    | none => none
    | some true => some mask
    | some false => some (mask.clearBit row)) mask

def isEmptyMembership : CovePredicate → Bool
  | .fileCodeIn _ codes => codes.isEmpty
  | .numericIn _ literals => literals.isEmpty
  | _ => false

/-- A predicate that cannot be evaluated is an error of an exact filter. Of any other one, it
opens the whole morsel. -/
def fallBack (filter : FilterPlan) (reason : String) : Except CoveError Selection :=
  if filter.useKind = .fullRowPredicateExact then
    .error (.unsupportedEncoding ("exact predicate " ++ filter.display ++ " cannot be evaluated " ++ reason))
  else .ok (.allRows morsel.rowCount)

def applyFilters (skipIndexPredicates : Bool) : List FilterPlan → SelectionMask →
    Except CoveError Selection
  | [], mask => .ok (Selection.fromMask mask)
  | filter :: filters, mask =>
    match filter.predicate with
    | none => applyFilters skipIndexPredicates filters mask
    | some predicate =>
      if skipIndexPredicates && predicateIsIndexCovered state predicate then
        applyFilters skipIndexPredicates filters mask
      else if isEmptyMembership predicate then .ok .none
      else
        match state.pageLoad (predicateColumnIndex predicate) with
        | .failed error => .error error
        | .unsupportedEncoding => fallBack morsel filter "for page encoding"
        | .unsupportedRows => fallBack morsel filter "by Cove"
        | .decoded =>
          match applyPredicateToSelection state predicate mask with
          | none => fallBack morsel filter "by Cove"
          | some narrowed =>
            if narrowed.allZero then .ok .none
            else applyFilters skipIndexPredicates filters narrowed

variable (plan : ScanPlan)

def candidateMask (mask : SelectionMask) : Except CoveError SelectionMask :=
  if plan.coviCandidates.isSome then do
    let morselRowStart ← checkedAdd morsel.segmentRowStart morsel.firstRowInSegment
    let selection ← applyCoviCandidatesToSelection morsel plan morselRowStart (Selection.fromMask mask)
    .ok ((SelectionMask.fillNone morsel.rowCount).setRows selection.rows)
  else .ok mask

def selectedRowsForMorsel : Except CoveError Selection :=
  if planHasRowPredicate plan then do
    let looked := lookupSelectionForMorsel state morsel plan
    let mask := if looked.1 then looked.2 else SelectionMask.fillAll morsel.rowCount
    if mask.allZero then .ok .none
    else
      let mask ← candidateMask morsel plan mask
      if mask.allZero then .ok .none
      else applyFilters state morsel looked.1 plan.filters mask
  else do
    let morselRowStart ← checkedAdd morsel.segmentRowStart morsel.firstRowInSegment
    applyCoviCandidatesToSelection morsel plan morselRowStart (.allRows morsel.rowCount)

end

end CoveFormat.MorselScan
