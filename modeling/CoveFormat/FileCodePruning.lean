import CoveFormat.FileCodeRequests
import Mathlib.Data.Finset.Card

namespace CoveFormat.FileCodePruning

open ByteCodes CoveTypes ExceptRules FileCodeRequests List ResolvedQuery

inductive DictionaryValue
  | rawBytes (bytes : Bytes)
  | redactedPresent

structure DictionaryEntry where
  valueTag : Nat
  value : Except CoveError DictionaryValue

abbrev FileDictionary := List DictionaryEntry

def DictionaryEntry.key (entry : DictionaryEntry) : Option ExecutionCodeLiteralKey :=
  match entry.value with
  | .ok (.rawBytes bytes) => some ⟨entry.valueTag, bytes⟩
  | _ => none

def codeKey (dictionary : FileDictionary) (fileCode : Nat) : Option ExecutionCodeLiteralKey :=
  dictionary[fileCode]?.bind DictionaryEntry.key

/-- The search of `file_code_for_canonical`, from a given FileCode on. -/
def searchFileCode (errorCode sourceLabel : String) (key : ExecutionCodeLiteralKey) :
    Nat → List DictionaryEntry → Except BuildExecutionError (Option Nat)
  | _, [] => .ok none
  | fileCode, entry :: rest =>
    match entry.value with
    | .ok (.rawBytes bytes) =>
      if entry.valueTag = key.valueTag ∧ bytes = key.canonical then .ok (some fileCode)
      else searchFileCode errorCode sourceLabel key (fileCode + 1) rest
    | .ok .redactedPresent =>
      .error ⟨errorCode, sourceLabel ++ " cannot use redacted dictionary values", none⟩
    | .error e => .error ⟨errorCode, sourceLabel ++ " dictionary lookup failed", some e⟩

def fileCodeForCanonical (dictionary : FileDictionary) (key : ExecutionCodeLiteralKey)
    (errorCode sourceLabel : String) : Except BuildExecutionError (Option Nat) :=
  searchFileCode errorCode sourceLabel key 0 dictionary

inductive ExecutionCodeValue
  | unsigned (value : Nat)
  | signed (value : Int)
  | bytes (value : Bytes)
  deriving DecidableEq

/-- `filecode_to_execution`, by FileCode. -/
abbrev ExecutionCodeMap := List ExecutionCodeValue

def unsignedExecutionCode (executionMap : ExecutionCodeMap) (fileCode : Nat) :
    Except BuildExecutionError Nat :=
  match executionMap[fileCode]? with
  | none => .error ⟨"E_EXECUTION_CODE_MAP",
      "COVE-E execution-code map is missing a FileCode entry", none⟩
  | some (.unsigned value) => .ok value
  | some _ => .error ⟨"E_EXECUTION_CODE_MAP",
      "CoveQL FileCode predicates require unsigned COVE-E execution codes", none⟩

structure SurfaceRow where
  (objectTypeId segmentId rowIndex : Nat)
  deriving DecidableEq

/-- The system columns of the kernel rows; every row of the file is loaded at most once. -/
structure KernelRows where
  rows : List SurfaceRow
  distinct : rows.Nodup

def allNullElided : String := "all-null elided page"

/-- What a FileCode page holds, row by row: plain codes, codes through a local table, another
encoding, or no payload at all (with the constant its statistics stand for). -/
inductive PageLane
  | fileCodeU32 (codes : List (Option Nat))
  | localCode (values : List (Option Nat)) (localToGlobal : List Nat)
  | encoded (codes : List (Option Nat)) (reason : {reason : String // reason ≠ allNullElided})
  | elided (nullCount : Nat) (allNull allNonNull : Bool) (constant : Option Nat)

structure PropertyPage where
  (propertyId morselId rowCount : Nat)
  logicalType : CoveLogicalType
  physicalKind : CovePhysicalKind
  lane : PageLane

structure SegmentPages where
  (segmentId objectTypeId rowCount morselRowCount : Nat)
  propertyPages : List PropertyPage

/-- The FileCode of a local row of a page; `none` for NULL. -/
def PropertyPage.codeAt (page : PropertyPage) (localRow : Nat) : Option Nat :=
  match page.lane with
  | .fileCodeU32 codes => codes[localRow]?.join
  | .localCode values localToGlobal => values[localRow]?.join.bind (localToGlobal[·]?)
  | .encoded codes _ => codes[localRow]?.join
  | .elided nullCount allNull _ constant =>
    if allNull ∨ nullCount = page.rowCount then none else constant

section

variable (segment : SegmentPages)

def SegmentPages.pageStart (page : PropertyPage) : Nat :=
  page.morselId * segment.morselRowCount

def SegmentPages.pageOf (propertyId rowIndex : Nat) : Option PropertyPage :=
  segment.propertyPages.find? fun page =>
    page.propertyId = propertyId ∧ segment.pageStart page ≤ rowIndex ∧
      rowIndex < segment.pageStart page + page.rowCount

end

def storedCode (segments : List SegmentPages) (row : SurfaceRow) (propertyId : Nat) :
    Option Nat :=
  (segments.find? fun segment =>
      segment.segmentId = row.segmentId ∧ segment.objectTypeId = row.objectTypeId).bind
    fun segment => (segment.pageOf propertyId row.rowIndex).bind
      fun page => page.codeAt (row.rowIndex - segment.pageStart page)

def storedKey (dictionary : FileDictionary) (segments : List SegmentPages) (row : SurfaceRow)
    (propertyId : Nat) : Option ExecutionCodeLiteralKey :=
  (storedCode segments row propertyId).bind (codeKey dictionary)

/-- `surface_row_lookup_for_object`; a later row of one address replaces an earlier one. -/
def surfaceRowLookup (surface : KernelRows) (root segmentId rowIndex : Nat) :
    Option Nat :=
  (range surface.rows.length).reverse.find? fun row =>
    surface.rows[row]? = some ⟨root, segmentId, rowIndex⟩

section

variable (matchMode : ExecutionCodeMatchMode)

def isSelected (contains : Bool) : Bool :=
  match matchMode with
  | .includes => contains
  | .excludes => !contains

def selectValid (contains : Nat → Bool) (values : List (Option Nat)) : List Nat :=
  (range values.length).filter fun localRow =>
    match values[localRow]?.join with
    | some value => isSelected matchMode (contains value)
    | none => false

end

/-- `set_file_code_prune_surface_row` over the local rows of a page. -/
def setSurfaceRows (surface : KernelRows) (root segmentId pageRowStart : Nat)
    (localRows : List Nat) : Except BuildExecutionError (Finset Nat) := do
  rejectIf (∃ localRow ∈ localRows, 2 ^ 32 ≤ pageRowStart + localRow)
    ⟨"E_FILE_CODE_LITERAL_PRUNE",
      "single-file FileCode literal prune page row index exceeded u32", none⟩
  .ok (localRows.filterMap fun localRow =>
    surfaceRowLookup surface root segmentId (pageRowStart + localRow)).toFinset

def decodeBoundaryReasonForElidedPage (allNull allNonNull : Bool) : String :=
  if allNull then allNullElided
  else if allNonNull then "stats-only constant/elided non-null page requires stats materialization"
  else "property page has no retained payload"

def decodeBoundary (reason : String) : Except BuildExecutionError (Finset Nat) :=
  if reason = allNullElided then .ok ∅
  else .error ⟨"E_FILE_CODE_LITERAL_PRUNE",
    "single-file FileCode literal prune cannot execute over decode-boundary page: " ++ reason, none⟩

/-- One page of `file_code_bitmap_for_request`; `none` when the page is not counted. -/
def fileCodePage (surface : KernelRows) (request : ExecutionCodePredicateRequest)
    (targetCodes : List Nat) (root : Nat) (segment : SegmentPages) (page : PropertyPage) :
    Except BuildExecutionError (Option (Finset Nat)) :=
  let logicalType := (logicalTypeToCove request.logicalType).getD .utf8
  if page.propertyId ≠ request.propertyId ∨ page.logicalType ≠ logicalType ∨
      page.physicalKind ≠ .fileCode then .ok none
  else
    let set := setSurfaceRows surface root segment.segmentId (segment.pageStart page)
    (match page.lane with
      | .fileCodeU32 codes =>
        set (selectValid request.matchMode (fun code => code ∈ targetCodes) codes)
      | .localCode values localToGlobal =>
        let membership := fun value => match localToGlobal[value]? with
          | some code => decide (code ∈ targetCodes)
          | none => false
        set (selectValid request.matchMode membership values)
      | .encoded _ reason => decodeBoundary reason.val
      | .elided _ allNull allNonNull _ =>
        decodeBoundary (decodeBoundaryReasonForElidedPage allNull allNonNull)).map some

/-- The checks of `native_object_temporal_batch_from_segment` on the pages of a segment. -/
def checkBatch (segment : SegmentPages) : Except BuildExecutionError Unit :=
  checkAll (fun page => rejectIf (segment.rowCount < segment.pageStart page + page.rowCount)
    ⟨"E_FILE_CODE_LITERAL_PRUNE", "single-file FileCode literal prune native page binding failed",
      some .pageCorrupt⟩) segment.propertyPages

def scanPages (scan : PropertyPage → Except BuildExecutionError (Option (Finset Nat))) :
    List PropertyPage → Except BuildExecutionError (Finset Nat × Nat)
  | [] => .ok (∅, 0)
  | page :: rest => do
      let found ← scan page
      let (bitmap, pageCount) ← scanPages scan rest
      .ok (match found with
        | none => (bitmap, pageCount)
        | some rows => (rows ∪ bitmap, pageCount + 1))

def scanSegments (scan : SegmentPages → Except BuildExecutionError (Finset Nat × Nat)) :
    List SegmentPages → Except BuildExecutionError (Finset Nat × Nat)
  | [] => .ok (∅, 0)
  | segment :: rest => do
      let (rows, pages) ← scan segment
      let (bitmap, pageCount) ← scanSegments scan rest
      .ok (rows ∪ bitmap, pages + pageCount)

def fileCodeBitmapForRequest (segments : List SegmentPages)
    (surface : KernelRows) (root : Nat) (request : ExecutionCodePredicateRequest)
    (targetCodes : List Nat) : Except BuildExecutionError (Finset Nat × Nat) :=
  scanSegments (fun segment => do
    if segment.objectTypeId ≠ request.objectTypeId then .ok (∅, 0)
    else do
      checkBatch segment
      scanPages (fileCodePage surface request targetCodes root segment) segment.propertyPages)
    segments

/-- One row of a page of `execution_code_bitmap_for_request`: the surface row it sets. -/
def executionCodeRow (surface : KernelRows) (request : ExecutionCodePredicateRequest)
    (targetCodes : List Nat) (executionMap : ExecutionCodeMap) (root : Nat)
    (segment : SegmentPages) (page : PropertyPage) (localRow : Nat) :
    Except BuildExecutionError (Option Nat) :=
  match surfaceRowLookup surface root segment.segmentId (segment.pageStart page + localRow) with
  | none => .ok none
  | some surfaceRow =>
    match page.codeAt localRow with
    | none => .ok none
    | some fileCode =>
      (unsignedExecutionCode executionMap fileCode).map fun executionCode =>
        if isSelected request.matchMode (executionCode ∈ targetCodes) then some surfaceRow
        else none

def executionCodePage (surface : KernelRows) (request : ExecutionCodePredicateRequest)
    (targetCodes : List Nat) (executionMap : ExecutionCodeMap) (root : Nat)
    (segment : SegmentPages) (page : PropertyPage) :
    Except BuildExecutionError (Option (Finset Nat)) := do
  if page.propertyId ≠ request.propertyId ∨
      some page.logicalType ≠ logicalTypeToCove request.logicalType ∨
      page.physicalKind ≠ .fileCode then .ok none
  else do
    rejectIf (2 ^ 32 ≤ segment.pageStart page)
      ⟨"E_EXECUTION_CODE_MAP", "COVE-E page row offset overflowed", none⟩
    let rows := ((range page.rowCount).mapM
      (executionCodeRow surface request targetCodes executionMap root segment page)).map
        fun rows => some (rows.filterMap id).toFinset
    match page.lane with
    | .elided nullCount _ _ _ =>
      if nullCount = page.rowCount then .ok (some ∅)
      else .error ⟨"E_EXECUTION_CODE_MAP", "COVE-E FileCode predicate cannot execute over " ++
        "non-null payload-elided pages", none⟩
    | _ => rows

def executionCodeBitmapForRequest (segments : List SegmentPages)
    (surface : KernelRows) (root : Nat) (request : ExecutionCodePredicateRequest)
    (targetCodes : List Nat) (executionMap : ExecutionCodeMap) :
    Except BuildExecutionError (Finset Nat × Nat) :=
  scanSegments (fun segment =>
    if segment.objectTypeId ≠ request.objectTypeId then .ok (∅, 0)
    else scanPages (executionCodePage surface request targetCodes executionMap root segment)
      segment.propertyPages) segments

structure LiteralPrune where
  bitmap : Finset Nat
  (predicateCount pageCount matchedRows : Nat)

section

variable (resolve : ExecutionCodeLiteralKey → Except BuildExecutionError (Option Nat))
variable (bitmapFor : ExecutionCodePredicateRequest → List Nat →
  Except BuildExecutionError (Finset Nat × Nat))

/-- The codes of the literals of a request; `none` stands for the early return on a literal that
is not in the dictionary. -/
def targetCodes (matchMode : ExecutionCodeMatchMode) :
    List ExecutionCodeLiteralKey → Except BuildExecutionError (Option (List Nat))
  | [] => .ok (some [])
  | key :: rest => do
      match ← resolve key with
      | some code => (targetCodes matchMode rest).map (Option.map (code :: ·))
      | none => if matchMode = .includes then .ok none else targetCodes matchMode rest

def pruneRequests (predicateCount : Nat) (combined : Option (Finset Nat)) (totalPages : Nat) :
    List ExecutionCodePredicateRequest → Except BuildExecutionError (Option LiteralPrune)
  | [] => .ok (combined.map fun bitmap => ⟨bitmap, predicateCount, totalPages, bitmap.card⟩)
  | request :: rest => do
      match ← targetCodes resolve request.matchMode request.canonicalLiterals with
      | none => .ok (some ⟨∅, predicateCount, totalPages, 0⟩)
      | some codes => do
          let (bitmap, pageCount) ← bitmapFor request codes
          if pageCount = 0 then .ok none
          else
            pruneRequests predicateCount
              (some (match combined with
                | none => bitmap
                | some existing => existing ∩ bitmap))
              (totalPages + pageCount) rest

end

/-- The parts of the query that decide whether codes may be pruned at all. -/
structure PlannedScope where
  datasetFiles : Nat
  (allowsProtectedMetadata externalOverlay includeTombstones roleBinding history changes : Bool)
  providerOrExplainOutput : Bool
  rootObjectTypeId : Option Nat
  wherePredicate : Option ResolvedPredicate

def PlannedScope.plain (scope : PlannedScope) : Bool :=
  scope.allowsProtectedMetadata && !scope.externalOverlay && !scope.includeTombstones &&
    !scope.roleBinding && !scope.history && !scope.changes && !scope.providerOrExplainOutput

/-- What the query asks of the execution codes. -/
structure ExecutionRequest where
  (mappingRequested filecodeMapEmpty domainValidated : Bool)

def ExecutionRequest.active (options : ExecutionRequest) : Bool :=
  options.mappingRequested && !options.filecodeMapEmpty && options.domainValidated

structure ExecutionMount where
  (descriptorsPresent mapsToExecutionCode : Bool)
  dictionary : Option FileDictionary
  executionCodeMap : Option ExecutionCodeMap

section

variable (R : TextReading) (segments : List SegmentPages) (surface : KernelRows)
variable (scope : PlannedScope) (root : Nat)

def tryFileCodeLiteralPrune (mounted : Except BuildExecutionError (Option FileDictionary)) :
    Except BuildExecutionError (Option LiteralPrune) :=
  if 1 < scope.datasetFiles ∨ ¬ scope.plain ∨ scope.rootObjectTypeId ≠ some root then .ok none
  else
    match scope.wherePredicate with
    | none => .ok none
    | some predicate => do
        let requests ← collectExecutionCodePredicateRequests R root predicate
        if requests = [] then .ok none
        else do
          match ← mounted with
          | none => .ok none
          | some dictionary =>
            pruneRequests
              (fun key => fileCodeForCanonical dictionary key "E_FILE_CODE_LITERAL_PRUNE"
                "single-file FileCode literal prune")
              (fileCodeBitmapForRequest segments surface root) requests.length none 0 requests

def executionCodeForCanonical (dictionary : FileDictionary) (executionMap : ExecutionCodeMap)
    (key : ExecutionCodeLiteralKey) : Except BuildExecutionError (Option Nat) := do
  match ← fileCodeForCanonical dictionary key "E_EXECUTION_CODE_MAP" "COVE-E" with
  | none => .ok none
  | some fileCode => (unsignedExecutionCode executionMap fileCode).map some

def tryExecutionCodeFilecodePrune (mounted : Except BuildExecutionError ExecutionMount)
    (options : ExecutionRequest) : Except BuildExecutionError (Option LiteralPrune) :=
  if ¬ options.active ∨ ¬ scope.plain ∨ scope.rootObjectTypeId ≠ some root then .ok none
  else
    match scope.wherePredicate with
    | none => .ok none
    | some predicate => do
        let requests ← collectExecutionCodePredicateRequests R root predicate
        if requests = [] then .ok none
        else do
          let mount ← mounted
          if ¬ (mount.descriptorsPresent ∧ mount.mapsToExecutionCode) then .ok none
          else
            match mount.dictionary, mount.executionCodeMap with
            | some dictionary, some executionMap =>
              pruneRequests (executionCodeForCanonical dictionary executionMap)
                (fun request codes =>
                  executionCodeBitmapForRequest segments surface root request codes executionMap)
                requests.length none 0 requests
            | _, _ => .ok none

end

end CoveFormat.FileCodePruning
