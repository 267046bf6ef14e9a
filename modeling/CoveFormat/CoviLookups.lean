import CoveFormat.CoviPostings
import CoveFormat.OrderedMaps

namespace CoveFormat.CoviLookups

open ByteCodes CheckedArith CoviComparators CoviKeys CoviPostings ExceptRules FixedFields
  IntervalKeys List MetadataAggregates OrderedMaps SortedKeys
open Canonical (TextPredicates)
open ScopedRanges (Apart Covers EndsInRun)

inductive IndexCapabilityExactnessV2
  | exact
  | approximate
  | advisory
  deriving DecidableEq

inductive CoverageProofStrengthV2
  | exactTight
  | exactConservative
  | probabilisticConservative
  | advisoryOnly
  | engineLocal
  | approximateMayUnderInclude
  deriving DecidableEq

def CoverageProofStrengthV2.fromU8 : Nat → Option CoverageProofStrengthV2
  | 0 => some .exactTight
  | 1 => some .exactConservative
  | 2 => some .probabilisticConservative
  | 3 => some .advisoryOnly
  | 4 => some .engineLocal
  | 5 => some .approximateMayUnderInclude
  | _ => none

structure IndexCapabilityV2 where
  capabilityId : UInt32
  (supportsEq supportsRange supportsMembership supportsPrefix : UInt8)
  exactness : IndexCapabilityExactnessV2
  proofStrength : CoverageProofStrengthV2
  deriving DecidableEq

structure CoviKeyBlockV2 where
  (keyBlockId indexRootId : UInt32)
  keyCount : Nat
  encodingKind : CoviKeyEncodingKindV2
  comparatorKind : CoviComparatorKindV2
  keyData : Bytes
  deriving DecidableEq

structure CoviEntryBlockV2 where
  (indexRootId keyBlockId postingsBlockId : UInt32)
  entries : List CoviIndexEntryV2
  deriving DecidableEq

structure CoviReferencedFileV2 where
  (fileRef fileLen : Nat)

structure CoviRowRangeScopeV2 where
  (fileRef tableId segmentId morselId rowStart rowCount : Nat)

structure CoviValidationContextV2 where
  rowRangeScopes : List CoviRowRangeScopeV2
  allowFileCodeKeys : Bool

/-- The maps of an artifact that a lookup reads, from ids and section ids. -/
structure CoviMaps where
  roots : OrderedMap Nat CoviIndexRootV2
  capabilities : OrderedMap Nat IndexCapabilityV2
  keyBlocks : OrderedMap Nat CoviKeyBlockV2
  entryBlocks : OrderedMap Nat CoviEntryBlockV2
  postingsBlocks : OrderedMap Nat CoviPostingsBlockV2

def keyBytesForEntry (block : CoviKeyBlockV2) (entry : CoviIndexEntryV2) : Except CoveError Bytes :=
  slice block.keyData entry.keyOffset.toNat entry.keyLength.toNat

section

variable (P : TextPredicates) (crc32c : Bytes → UInt32)

def noComparatorContext : CoviLookupComparatorContextV2 := ⟨none, none⟩

def compareEntryKeyOrderForValidation (root : CoviIndexRootV2) (key previous : Bytes) :
    Except CoveError Ordering :=
  match compareKeyBytesForOrder P root.comparatorKind root.logical noComparatorContext key previous with
  | .ok ordering => .ok ordering
  | .error .badCovi =>
    if CoviComparatorKindV2.fromU16 root.comparatorKind = some .canonicalOrdering then
      .ok (orderingOf key previous)
    else .error .badCovi
  | .error error => .error error

def validateKeyBytesForRoot (root : CoviIndexRootV2) (key : Bytes) : Except CoveError Unit := do
  match ← okOrBadCovi (CoviKeyEncodingKindV2.fromU8 root.keyEncodingKind) with
  | .fileCode => rejectIf (key.length ≠ 4) .badCovi
  | .numCode => do
      let logical ← okOrBadCovi root.logical
      (compareNumcodeRangeKey logical key key).map fun _ => ()
  | .canonicalValueBytes | .canonicalHash64 => validateCanonicalKey P key
  | .canonicalHash128 => do
      let (_, canonical) ← splitHash128Key key
      validateCanonicalKey P canonical
  | .fixedBytes | .dimensionalTuple | .objectPathTuple => .ok ()
  | .utf8BytewisePrefix => validateUtf8Key P key
  | .intervalTuple => (parseIntervalKey P key).map fun _ => ()
  | .extension => .error .badCovi

def validateKeyOrder (root : CoviIndexRootV2) (previous : Bytes × CoviIndexEntryV2) (key : Bytes)
    (entry : CoviIndexEntryV2) : Except CoveError Unit := do
  let ordering ← compareEntryKeyOrderForValidation P root key previous.1
  rejectIf (ordering = .lt) .badCovi
  rejectIf (ordering = .eq ∧ previous.2.nextDuplicateRef ≠ entry.entryRef ∧
    ¬ (previous.2.postingsRef ≠ absentU32 ∧ previous.2.postingsRef = entry.postingsRef)) .badCovi

def validateEntriesFrom (root : CoviIndexRootV2) (keyBlock : CoviKeyBlockV2) (postingsCount : Nat)
    (previous : Option (Bytes × CoviIndexEntryV2)) : List CoviIndexEntryV2 → Except CoveError Unit
  | [] => .ok ()
  | entry :: entries => do
      rejectIf (entry.indexRootId ≠ root.indexRootId ∨
        some entry.keyKind ≠ CoviKeyEncodingKindV2.fromU8 root.keyEncodingKind ∨
        some entry.comparatorKind ≠ CoviComparatorKindV2.fromU16 root.comparatorKind) .badCovi
      rejectIf (entry.postingsRef ≠ absentU32 ∧ postingsCount ≤ entry.postingsRef.toNat) .badCovi
      let key ← keyBytesForEntry keyBlock entry
      validateKeyBytesForRoot P root key
      checkAll (fun previous => validateKeyOrder P root previous key entry)
        (if root.indexKind = .sorted ∨ root.indexKind = .sparseSorted then previous.toList else [])
      validateEntriesFrom root keyBlock postingsCount (some (key, entry)) entries

def validateFileRef (files : List CoviReferencedFileV2) (fileRef : Nat) :
    Except CoveError CoviReferencedFileV2 :=
  okOrBadCovi (files[fileRef]?.filter fun file => file.fileRef = fileRef)

def validateRowRangeScope (context : CoviValidationContextV2) (row : CoviRowRangePostingV2) :
    Except CoveError Unit :=
  if context.rowRangeScopes = [] then .ok ()
  else do
    let scope ← okOrBadCovi (context.rowRangeScopes.find? fun scope => scope.fileRef = row.fileRef ∧
      scope.tableId = row.tableId ∧ scope.segmentId = row.segmentId ∧ scope.morselId = row.morselId)
    let rowEnd ← checkedAdd row.rowStart row.rowCount
    let scopeEnd ← checkedAdd scope.rowStart scope.rowCount
    rejectIf (row.rowStart < scope.rowStart ∨ scopeEnd < rowEnd) .badCovi

def validateFileRefs (files : List CoviReferencedFileV2) (payload : Bytes) (width : Nat)
    (parse : Bytes → Except CoveError FixedPosting) : Except CoveError Unit :=
  checkAll (fun chunk => do
      let posting ← parse chunk
      (validateFileRef files (posting.getD 0 0)).map fun _ => ())
    (chunksExact width (payload.length / width) payload)

def validateByteRange (files : List CoviReferencedFileV2) (chunk : Bytes) : Except CoveError Unit := do
  let posting ← parseByteRangePosting crc32c chunk
  let file ← validateFileRef files (posting.getD 0 0)
  let finish ← checkedAdd (posting.getD 2 0) (posting.getD 3 0)
  rejectIf (file.fileLen < finish) .badCovi

def validatePosting (root : CoviIndexRootV2) (context : CoviValidationContextV2)
    (files : List CoviReferencedFileV2) (block : CoviPostingsBlockV2) (posting : CoviPostingsHeaderV2) :
    Except CoveError Unit := do
  rejectIf (posting.indexRootId ≠ root.indexRootId) .badCovi
  let payload ← block.postingPayload posting
  match posting.representation with
  | .sortedFileRefs => validateFileRefs files payload 12 (parseFileRefPosting crc32c)
  | .sortedSegmentRefs => validateFileRefs files payload 20 (parseSegmentRefPosting crc32c)
  | .sortedPageRefs => validateFileRefs files payload 28 (parsePageRefPosting crc32c)
  | .sortedMorselRefs => validateFileRefs files payload 24 (parseMorselRefPosting crc32c)
  | .rowRangeList => do
      let rows ← parseCoviRowRangePostings crc32c payload
      checkAll (fun row => do
        let _ ← validateFileRef files row.fileRef
        validateRowRangeScope context row) rows
  | .byteRangeList =>
    checkAll (validateByteRange crc32c files) (chunksExact 32 (payload.length / 32) payload)
  | .objectPathRefs => validateFileRefs files payload 40 (parseObjectPathPosting crc32c)
  | .dimensionalBucketRefs => validateFileRefs files payload 28 (parseDimensionalBucketPosting crc32c)
  | .rowOrdinalBitmap | .rowOrdinalDeltaVarint | .coverageSetRef | .extension => .ok ()

def validateRootBlocks (context : CoviValidationContextV2) (files : List CoviReferencedFileV2)
    (maps : CoviMaps) (root : CoviIndexRootV2) : Except CoveError Unit := do
  rejectIf (CoviKeyEncodingKindV2.fromU8 root.keyEncodingKind = some .fileCode ∧
    context.allowFileCodeKeys = false) .badCovi
  let keyBlock ← okOrBadCovi (maps.keyBlocks.get root.keyBlockSectionId.toNat)
  let entryBlock ← okOrBadCovi (maps.entryBlocks.get root.entryBlockSectionId.toNat)
  let postingsBlock ← okOrBadCovi (maps.postingsBlocks.get root.postingsBlockSectionId.toNat)
  rejectIf (keyBlock.indexRootId ≠ root.indexRootId ∨ entryBlock.indexRootId ≠ root.indexRootId ∨
    postingsBlock.indexRootId ≠ root.indexRootId ∨
    some keyBlock.encodingKind ≠ CoviKeyEncodingKindV2.fromU8 root.keyEncodingKind ∨
    some keyBlock.comparatorKind ≠ CoviComparatorKindV2.fromU16 root.comparatorKind ∨
    keyBlock.keyCount ≠ entryBlock.entries.length ∨ entryBlock.keyBlockId ≠ keyBlock.keyBlockId ∨
    entryBlock.postingsBlockId ≠ postingsBlock.postingsBlockId) .badCovi
  let capability ← okOrBadCovi (maps.capabilities.get root.indexRootId.toNat)
  rejectIf (root.capabilityRef = absentU32 ∨ capability.capabilityId ≠ root.capabilityRef) .badCovi
  validateEntriesFrom P root keyBlock postingsBlock.postings.length none entryBlock.entries
  checkAll (validatePosting crc32c root context files postingsBlock) postingsBlock.postings

end

/-- The maps of an artifact whose roots passed the validation. -/
structure ValidatedCoviArtifactV2 (P : TextPredicates) (crc32c : Bytes → UInt32) extends CoviMaps where
  context : CoviValidationContextV2
  referencedFiles : List CoviReferencedFileV2
  rootIds : ∀ entry ∈ roots.entries, entry.2.indexRootId.toNat = entry.1
  valid : checkAll (validateRootBlocks P crc32c context referencedFiles toCoviMaps) roots.values = .ok ()

section

def lookupCapabilitySupportsRequest (capability : IndexCapabilityV2) (request : CoviLookupRequestV2) : Bool :=
  (!request.requireExact || (capability.exactness = .exact &&
    (capability.proofStrength = .exactTight || capability.proofStrength = .exactConservative))) &&
    match request.op with
    | .eq => capability.supportsEq ≠ 0
    | .range _ _ => capability.supportsRange ≠ 0
    | .startsWith => capability.supportsPrefix ≠ 0
    | .membership => capability.supportsMembership ≠ 0

def rootSupportsExactCoviUse (root : CoviIndexRootV2) : Except CoveError Bool := do
  let proofStrength ← okOrBadCovi (CoverageProofStrengthV2.fromU8 root.proofStrength)
  .ok (proofStrength = .exactTight ∨ proofStrength = .exactConservative)

def requestKeyEncodingMatches : CoviKeyEncodingKindV2 → CoviLookupKeyV2 → Bool
  | .canonicalValueBytes, .canonicalValueBytes _ | .canonicalValueBytes, .canonicalHash _ _
  | .canonicalHash64, .canonicalHash _ _ | .canonicalHash128, .canonicalHash128 _ _
  | .fixedBytes, .fixedBytes _ | .utf8BytewisePrefix, .utf8BytewisePrefix _
  | .dimensionalTuple, .dimensionalTuple _ | .objectPathTuple, .objectPathTuple _ | .fileCode, .fileCode _
  | .numCode, .numCode _ | .intervalTuple, .intervalTuple _ => true
  | _, _ => false

def rootKeyEncodingMatchesRequest (root : CoviIndexRootV2) (request : CoviLookupRequestV2) : Bool :=
  match CoviKeyEncodingKindV2.fromU8 root.keyEncodingKind with
  | none => false
  | some encoding =>
    requestKeyEncodingMatches encoding request.lowerKey &&
      request.upperKey.all (requestKeyEncodingMatches encoding) &&
      request.membershipKeys.all (requestKeyEncodingMatches encoding)

def isIntervalTuple : CoviLookupKeyV2 → Bool
  | .intervalTuple _ => true
  | _ => false

def rootComparatorMatchesRequest (root : CoviIndexRootV2) (request : CoviLookupRequestV2) : Bool :=
  match CoviComparatorKindV2.fromU16 root.comparatorKind with
  | none | some .extensionRequired => false
  | some .intervalOverlap =>
    request.comparatorContext.intervalEncoding.isSome && isIntervalTuple request.lowerKey
  | some .domainRankOrdering => request.comparatorContext.domainRank.isSome
  | some .numCodeLogicalOrdering =>
    (request.logicalType.isSome || root.logical.isSome) &&
      !logicalTypesDiffer request.logicalType root.logical
  | some .canonicalOrdering | some .canonicalEquality | some .utf8BytewisePrefix
  | some .dimensionalTupleLexicographic | some .objectPathLexicographic => true

def rootMatchesTarget (root : CoviIndexRootV2) : CoviLookupTargetV2 → Bool
  | .tableColumn tableId columnId =>
    root.indexedTargetKind = .tableColumn && root.tableId = tableId && root.columnId = columnId
  | .projectionColumn tableId columnId =>
    root.indexedTargetKind = .projectionColumn && root.tableId = tableId && root.columnId = columnId
  | .objectProperty objectTypeId propertyId =>
    root.indexedTargetKind = .objectProperty && root.objectTypeId = objectTypeId &&
      root.propertyId = propertyId
  | .objectPath objectTypeId pathRef =>
    root.indexedTargetKind = .objectPath && root.objectTypeId = objectTypeId && root.pathRef = pathRef
  | .semanticDimension semanticDimensionRef =>
    root.indexedTargetKind = .semanticDimension && root.semanticDimensionRef = semanticDimensionRef
  | .dimensionalTuple semanticDimensionRef =>
    root.indexedTargetKind = .dimensionalTuple && root.semanticDimensionRef = semanticDimensionRef

variable (maps : CoviMaps)

def rootBlocksAvailable (root : CoviIndexRootV2) : Bool :=
  (maps.keyBlocks.get root.keyBlockSectionId.toNat).isSome &&
    (maps.entryBlocks.get root.entryBlockSectionId.toNat).isSome &&
    (maps.postingsBlocks.get root.postingsBlockSectionId.toNat).isSome

def lookupRootAmong (request : CoviLookupRequestV2) :
    List CoviIndexRootV2 → Except CoveError (CoviIndexRootV2 × IndexCapabilityV2)
  | [] => .error .badCovi
  | root :: roots =>
    match maps.capabilities.get root.indexRootId.toNat with
    | none => lookupRootAmong request roots
    | some capability =>
      if lookupCapabilitySupportsRequest capability request then do
        let exact ← if request.requireExact then rootSupportsExactCoviUse root else .ok true
        if exact && rootBlocksAvailable maps root && rootKeyEncodingMatchesRequest root request &&
            rootComparatorMatchesRequest root request then .ok (root, capability)
        else lookupRootAmong request roots
      else lookupRootAmong request roots

def lookupRoot (request : CoviLookupRequestV2) : Except CoveError (CoviIndexRootV2 × IndexCapabilityV2) :=
  lookupRootAmong maps request (maps.roots.values.filter fun root => rootMatchesTarget root request.target)

end

section

variable (P : TextPredicates) (crc32c : Bytes → UInt32)

/-- What the entries looked at so far have led to. -/
structure Collected where
  rows : List CoviRowRangePostingV2
  (byteRanges objectPaths dimensionalBuckets : List FixedPosting)
  rowOrdinalSetRefs : List Nat
  (fileRefs segmentRefs morselRefs pageRefs : List FixedPosting)

structure CoviCandidateSetV2 where
  exactness : IndexCapabilityExactnessV2
  proofStrength : CoverageProofStrengthV2
  rowRanges : List CoviRowRangePostingV2
  (byteRanges objectPaths dimensionalBuckets : List FixedPosting)
  rowOrdinalSetRefs : List Nat
  (fileRefs segmentRefs morselRefs pageRefs : List FixedPosting)

def addPosting (found : Collected) (representation : CoviPostingRepresentationV2) (payload : Bytes) :
    Except CoveError Collected :=
  match representation with
  | .rowRangeList => do
      let rows ← parseCoviRowRangePostings crc32c payload
      .ok { found with rows := found.rows ++ rows }
  | .byteRangeList => do
      let ranges ← parseFixedPayload payload 32 (parseByteRangePosting crc32c)
      .ok { found with byteRanges := found.byteRanges ++ ranges }
  | .objectPathRefs => do
      let paths ← parseFixedPayload payload 40 (parseObjectPathPosting crc32c)
      .ok { found with objectPaths := found.objectPaths ++ paths }
  | .dimensionalBucketRefs => do
      let buckets ← parseFixedPayload payload 28 (parseDimensionalBucketPosting crc32c)
      .ok { found with dimensionalBuckets := found.dimensionalBuckets ++ buckets }
  | .rowOrdinalBitmap | .rowOrdinalDeltaVarint => do
      let refs ← parseU32Refs payload
      .ok { found with rowOrdinalSetRefs := found.rowOrdinalSetRefs ++ refs }
  | .sortedFileRefs => do
      let refs ← parseFixedPayload payload 12 (parseFileRefPosting crc32c)
      .ok { found with fileRefs := found.fileRefs ++ refs }
  | .sortedSegmentRefs => do
      let refs ← parseFixedPayload payload 20 (parseSegmentRefPosting crc32c)
      .ok { found with segmentRefs := found.segmentRefs ++ refs }
  | .sortedMorselRefs => do
      let refs ← parseFixedPayload payload 24 (parseMorselRefPosting crc32c)
      .ok { found with morselRefs := found.morselRefs ++ refs }
  | .sortedPageRefs => do
      let refs ← parseFixedPayload payload 28 (parsePageRefPosting crc32c)
      .ok { found with pageRefs := found.pageRefs ++ refs }
  | .coverageSetRef | .extension => .error .badCovi

def satisfies (root : CoviIndexRootV2) (request : CoviLookupRequestV2) (block : CoviKeyBlockV2)
    (entry : CoviIndexEntryV2) : Except CoveError Bool :=
  if entry.indexRootId ≠ root.indexRootId then .ok false
  else do
    let key ← keyBytesForEntry block entry
    if ← entryHash64MayMatchRequest root request entry then keyMatches P root request key
    else .ok false

def postingOf (block : CoviPostingsBlockV2) (entry : CoviIndexEntryV2) :
    Except CoveError CoviPostingsHeaderV2 :=
  okOrBadCovi block.postings[entry.postingsRef.toNat]?

def lookupEntry (root : CoviIndexRootV2) (request : CoviLookupRequestV2) (keyBlock : CoviKeyBlockV2)
    (block : CoviPostingsBlockV2) (found : Collected) (entry : CoviIndexEntryV2) :
    Except CoveError Collected := do
  if ← satisfies P root request keyBlock entry then do
    let posting ← postingOf block entry
    let payload ← block.postingPayload posting
    addPosting crc32c found posting.representation payload
  else .ok found

/-- `sort` and `dedup`. -/
def sortedUnique {α : Type} [LinearOrder α] (xs : List α) : List α := dedupAdjacent (sortByKey id xs)

def candidatesOf (capability : IndexCapabilityV2) (found : Collected) :
    Except CoveError CoviCandidateSetV2 := do
  let rows ← normalizeRowRanges found.rows
  .ok { exactness := capability.exactness
        proofStrength := capability.proofStrength
        rowRanges := rows
        byteRanges := sortedUnique found.byteRanges
        objectPaths := sortedUnique found.objectPaths
        dimensionalBuckets := sortedUnique found.dimensionalBuckets
        rowOrdinalSetRefs := sortedUnique found.rowOrdinalSetRefs
        fileRefs := sortedUnique found.fileRefs
        segmentRefs := sortedUnique found.segmentRefs
        morselRefs := sortedUnique found.morselRefs
        pageRefs := sortedUnique found.pageRefs }

/-- The root that answers a request, with its blocks. -/
structure Located where
  root : CoviIndexRootV2
  capability : IndexCapabilityV2
  keyBlock : CoviKeyBlockV2
  entryBlock : CoviEntryBlockV2
  postingsBlock : CoviPostingsBlockV2
  deriving DecidableEq

def locate (maps : CoviMaps) (request : CoviLookupRequestV2) : Except CoveError Located := do
  let (root, capability) ← lookupRoot maps request
  let keyBlock ← okOrBadCovi (maps.keyBlocks.get root.keyBlockSectionId.toNat)
  let entryBlock ← okOrBadCovi (maps.entryBlocks.get root.entryBlockSectionId.toNat)
  let postingsBlock ← okOrBadCovi (maps.postingsBlocks.get root.postingsBlockSectionId.toNat)
  .ok ⟨root, capability, keyBlock, entryBlock, postingsBlock⟩

def lookup (maps : CoviMaps) (request : CoviLookupRequestV2) : Except CoveError CoviCandidateSetV2 := do
  rejectIf (request.op = .membership ∧ request.membershipKeys.isEmpty ∧ lowerKeyIsEmpty request) .badCovi
  let found ← locate maps request
  let collected ← found.entryBlock.entries.foldlM
    (lookupEntry P crc32c found.root request found.keyBlock found.postingsBlock)
    ⟨[], [], [], [], [], [], [], [], []⟩
  candidatesOf found.capability collected

end

section

variable (P : TextPredicates) (crc32c : Bytes → UInt32)

def rowsOf (block : CoviPostingsBlockV2) (entry : CoviIndexEntryV2) :
    Except CoveError (List CoviRowRangePostingV2) := do
  let posting ← postingOf block entry
  let payload ← block.postingPayload posting
  parseCoviRowRangePostings crc32c payload

variable (request : CoviLookupRequestV2) (found : Located)

def Located.Matches (entry : CoviIndexEntryV2) : Prop :=
  entry ∈ found.entryBlock.entries ∧ satisfies P found.root request found.keyBlock entry = .ok true

def Located.CarriesRowRanges : Prop :=
  ∀ entry, found.Matches P request entry → ∀ posting, postingOf found.postingsBlock entry = .ok posting →
    posting.representation = .rowRangeList

/-- The row lies in the posting of an entry whose key satisfies the request. -/
def Located.Posted (scope : RowScope) (row : Nat) : Prop :=
  ∃ entry, found.Matches P request entry ∧ ∃ rows, rowsOf crc32c found.postingsBlock entry = .ok rows ∧
    Covers (rows.map CoviRowRangePostingV2.range) scope row

def Located.matchedRows (entries : List CoviIndexEntryV2) : List CoviRowRangePostingV2 :=
  entries.flatMap fun entry =>
    if (satisfies P found.root request found.keyBlock entry).toOption = some true then
      (rowsOf crc32c found.postingsBlock entry).toOption.getD []
    else []

/-- Exactly the posted rows come out, in order and without ranges that touch. -/
def Located.Exact (candidates : CoviCandidateSetV2) : Prop :=
  (∀ scope row, Covers (candidates.rowRanges.map CoviRowRangePostingV2.range) scope row ↔
    found.Posted P crc32c request scope row) ∧
  (candidates.rowRanges.map CoviRowRangePostingV2.range).Pairwise Apart

end

section

variable {P : TextPredicates} {crc32c : Bytes → UInt32} {request : CoviLookupRequestV2} {site : Located}
  {entry : CoviIndexEntryV2} {entries : List CoviIndexEntryV2} {found next : Collected}

theorem addPosting_rowRangeList {payload : Bytes}
    (h : addPosting crc32c found .rowRangeList payload = .ok next) :
    ∃ rows, parseCoviRowRangePostings crc32c payload = .ok rows ∧ next.rows = found.rows ++ rows := by
  obtain ⟨rows, hrows, h⟩ := of_andThen h
  cases h
  exact ⟨rows, hrows, rfl⟩

theorem lookupEntry_ok (hrows : satisfies P site.root request site.keyBlock entry = .ok true →
      ∀ posting, postingOf site.postingsBlock entry = .ok posting → posting.representation = .rowRangeList)
    (h : lookupEntry P crc32c site.root request site.keyBlock site.postingsBlock found entry = .ok next) :
    (satisfies P site.root request site.keyBlock entry = .ok true ∧
      ∃ rows, rowsOf crc32c site.postingsBlock entry = .ok rows ∧ next.rows = found.rows ++ rows) ∨
    (satisfies P site.root request site.keyBlock entry = .ok false ∧ next = found) := by
  obtain ⟨chosen, hchosen, h⟩ := of_andThen h
  cases chosen with
  | false => exact .inr ⟨hchosen, (Except.ok.inj h).symm⟩
  | true =>
    obtain ⟨posting, hposting, h⟩ := of_andThen h
    obtain ⟨payload, hpayload, h⟩ := of_andThen h
    rw [hrows hchosen posting hposting] at h
    obtain ⟨rows, hparse, hnext⟩ := addPosting_rowRangeList h
    refine .inl ⟨hchosen, rows, ?_, hnext⟩
    exact andThen_ok hposting (andThen_ok hpayload hparse)

theorem matchedRows_cons : site.matchedRows P crc32c request (entry :: entries) =
    site.matchedRows P crc32c request [entry] ++ site.matchedRows P crc32c request entries := by
  simp only [Located.matchedRows, flatMap_cons, flatMap_nil, append_nil]

theorem collected_rows
    (hrows : ∀ entry ∈ entries, satisfies P site.root request site.keyBlock entry = .ok true →
      ∀ posting, postingOf site.postingsBlock entry = .ok posting → posting.representation = .rowRangeList)
    (h : entries.foldlM (lookupEntry P crc32c site.root request site.keyBlock site.postingsBlock) found =
      .ok next) : next.rows = found.rows ++ site.matchedRows P crc32c request entries ∧
    ∀ entry ∈ entries, satisfies P site.root request site.keyBlock entry = .ok true →
      ∃ rows, rowsOf crc32c site.postingsBlock entry = .ok rows := by
  induction entries generalizing found with
  | nil =>
    cases h
    exact ⟨(append_nil _).symm, forall_mem_nil _⟩
  | cons entry entries ih =>
    obtain ⟨hentry, hrest⟩ := forall_mem_cons.mp hrows
    obtain ⟨middle, hmiddle, h⟩ := of_andThen h
    obtain ⟨hnext, hposted⟩ := ih hrest h
    rw [hnext, matchedRows_cons, ← append_assoc]
    rcases lookupEntry_ok hentry hmiddle with ⟨hchosen, rows, hone, hrow⟩ | ⟨hchosen, rfl⟩
    · have hmatched : site.matchedRows P crc32c request [entry] = rows := by
        simp [Located.matchedRows, hchosen, hone, Except.toOption]
      rw [hmatched, hrow]
      exact ⟨rfl, forall_mem_cons.mpr ⟨fun _ => ⟨rows, hone⟩, hposted⟩⟩
    · have hmatched : site.matchedRows P crc32c request [entry] = [] := by
        simp [Located.matchedRows, hchosen, Except.toOption]
      rw [hmatched, append_nil]
      refine ⟨rfl, forall_mem_cons.mpr ⟨fun htrue => ?_, hposted⟩⟩
      exact absurd (Except.ok.inj (hchosen.symm.trans htrue)) Bool.false_ne_true

theorem covers_matchedRows_iff (hrows : ∀ entry, site.Matches P request entry →
      ∃ rows, rowsOf crc32c site.postingsBlock entry = .ok rows) {scope : RowScope} {row : Nat} :
    Covers ((site.matchedRows P crc32c request site.entryBlock.entries).map CoviRowRangePostingV2.range)
      scope row ↔ site.Posted P crc32c request scope row := by
  constructor
  · rintro ⟨range, hrange, hcovers⟩
    obtain ⟨posting, hposting, rfl⟩ := mem_map.mp hrange
    obtain ⟨entry, hentry, hposting⟩ := mem_flatMap.mp hposting
    split at hposting
    · rename_i hchosen
      have hmatches : site.Matches P request entry := ⟨hentry, toOption_eq_some_iff.mp hchosen⟩
      obtain ⟨rows, hparse⟩ := hrows entry hmatches
      rw [hparse] at hposting
      exact ⟨entry, hmatches, rows, hparse, _, mem_map_of_mem hposting, hcovers⟩
    · cases hposting
  · rintro ⟨entry, hmatches, rows, hparse, range, hrange, hcovers⟩
    refine ⟨range, ?_, hcovers⟩
    obtain ⟨posting, hposting, rfl⟩ := mem_map.mp hrange
    refine mem_map_of_mem (mem_flatMap.mpr ⟨entry, hmatches.1, ?_⟩)
    rw [if_pos (toOption_eq_some_iff.mpr hmatches.2), hparse]
    exact hposting

theorem lookup_ok {maps : CoviMaps} {candidates : CoviCandidateSetV2} (hsite : locate maps request = .ok site)
    (hrows : site.CarriesRowRanges P request) (h : lookup P crc32c maps request = .ok candidates) :
    candidates.rowRanges.map CoviRowRangePostingV2.range =
        ScopedRanges.merge (sortedRanges (site.matchedRows P crc32c request site.entryBlock.entries)) ∧
      ∀ entry, site.Matches P request entry → ∃ rows, rowsOf crc32c site.postingsBlock entry = .ok rows := by
  replace h := rest_ok h
  obtain ⟨other, hother, h⟩ := of_andThen h
  obtain rfl := Except.ok.inj (hother.symm.trans hsite)
  obtain ⟨collected, hcollected, h⟩ := of_andThen h
  obtain ⟨rows, hnormal, h⟩ := of_andThen h
  cases h
  obtain ⟨hall, hposted⟩ :=
      collected_rows (fun entry hentry hchosen => hrows entry ⟨hentry, hchosen⟩) hcollected
  rw [hall] at hnormal
  exact ⟨normalizeRowRanges_ok hnormal, fun entry hmatches => hposted entry hmatches.1 hmatches.2⟩

/-- A lookup brings back exactly the posted rows where, among the row ranges of all entries that match
in the order of the sort, none ends after the last of the run of touching ranges it is in. -/
theorem lookup_returns_posted_iff (artifact : ValidatedCoviArtifactV2 P crc32c)
    (request : CoviLookupRequestV2)
    (site : Located) (hsite : locate artifact.toCoviMaps request = .ok site)
    (hrows : site.CarriesRowRanges P request) (candidates : CoviCandidateSetV2)
    (h : lookup P crc32c artifact.toCoviMaps request = .ok candidates) :
    site.Exact P crc32c request candidates ↔
      EndsInRun (sortedRanges (site.matchedRows P crc32c request site.entryBlock.entries)) := by
  obtain ⟨hranges, hposted⟩ := lookup_ok hsite hrows h
  have hsorted := sortedRanges_sorted (site.matchedRows P crc32c request site.entryBlock.entries)
  rw [Located.Exact, hranges, and_iff_left (ScopedRanges.merge_apart hsorted),
    ← ScopedRanges.covers_merge_iff hsorted]
  refine forall₂_congr fun scope row => iff_congr Iff.rfl ?_
  rw [← covers_matchedRows_iff hposted, Covers.perm (sortedRanges_perm _)]

end

section

open CanonicalIdentity (asciiText)

def int64Key (n : UInt8) : Bytes := [3, n, 0, 0, 0, 0, 0, 0, 0]

def columnRoot : CoviIndexRootV2 where
  indexRootId := 0
  indexedTargetKind := .tableColumn
  indexKind := .sorted
  proofStrength := 0
  tableId := 1
  columnId := 2
  objectTypeId := absentU32
  propertyId := absentU32
  pathRef := absentU32
  semanticDimensionRef := absentU32
  logicalType := 5
  keyEncodingKind := 2
  comparatorKind := 1
  keyBlockSectionId := 10
  entryBlockSectionId := 11
  postingsBlockSectionId := 12
  capabilityRef := 0

def columnEntry (i : UInt32) : CoviIndexEntryV2 where
  entryRef := i
  indexRootId := 0
  keyKind := .canonicalValueBytes
  comparatorKind := .canonicalOrdering
  keyOffset := 9 * i.toUInt64
  keyLength := 9
  keyHash64 := 0
  postingsRef := i
  nextDuplicateRef := absentU32

def rowRangeBytes (rows : Nat × Nat) : Bytes :=
  encodeChecksummed castagnoli [(4, 0), (4, 1), (4, 0), (4, 0), (8, rows.1), (8, rows.2), (4, 0)]

def columnSite (five seven : Nat × Nat) : Located where
  root := columnRoot
  capability := ⟨0, 1, 1, 1, 0, .exact, .exactTight⟩
  keyBlock := ⟨0, 0, 2, .canonicalValueBytes, .canonicalOrdering, int64Key 5 ++ int64Key 7⟩
  entryBlock := ⟨0, 0, 0, [columnEntry 0, columnEntry 1]⟩
  postingsBlock := ⟨0, 0, [⟨0, .rowRangeList, 0, 40⟩, ⟨0, .rowRangeList, 40, 40⟩],
    rowRangeBytes five ++ rowRangeBytes seven⟩

def twoValues (five seven : Nat × Nat) : CoviMaps where
  roots := OrderedMap.empty.entryOr 0 columnRoot id
  capabilities := OrderedMap.empty.entryOr 0 (columnSite five seven).capability id
  keyBlocks := OrderedMap.empty.entryOr 10 (columnSite five seven).keyBlock id
  entryBlocks := OrderedMap.empty.entryOr 11 (columnSite five seven).entryBlock id
  postingsBlocks := OrderedMap.empty.entryOr 12 (columnSite five seven).postingsBlock id

def fromFive : CoviLookupRequestV2 where
  target := .tableColumn 1 2
  op := .range true false
  lowerKey := .canonicalValueBytes (int64Key 5)
  upperKey := none
  membershipKeys := []
  logicalType := none
  comparatorContext := noComparatorContext
  requireExact := true

def nestedRows : ValidatedCoviArtifactV2 asciiText castagnoli where
  toCoviMaps := twoValues (0, 10) (2, 2)
  context := ⟨[], false⟩
  referencedFiles := [⟨0, 4096⟩]
  rootIds := by decide
  valid := by decide +kernel

def touchingRows : ValidatedCoviArtifactV2 asciiText castagnoli where
  toCoviMaps := twoValues (0, 2) (2, 2)
  context := ⟨[], false⟩
  referencedFiles := [⟨0, 4096⟩]
  rootIds := by decide
  valid := by decide +kernel

theorem columnSite_carries (five seven : Nat × Nat) :
    (columnSite five seven).CarriesRowRanges asciiText fromFive := by
  intro entry hmatches posting hposting
  have hmem := mem_of_getElem? (okOrBadCovi_ok_iff.mp hposting)
  rcases mem_cons.mp hmem with rfl | hmem
  · rfl
  · rw [mem_singleton.mp hmem]

theorem lookup_returns_posted_iff_touching : ∃ candidates,
    lookup asciiText castagnoli touchingRows.toCoviMaps fromFive = .ok candidates ∧
      (columnSite (0, 2) (2, 2)).Exact asciiText castagnoli fromFive candidates := by
  have hsite : locate touchingRows.toCoviMaps fromFive = .ok (columnSite (0, 2) (2, 2)) := by decide +kernel
  have hok : (lookup asciiText castagnoli touchingRows.toCoviMaps fromFive).isOk = true := by decide +kernel
  cases hrun : lookup asciiText castagnoli touchingRows.toCoviMaps fromFive with
  | error e =>
    rw [hrun] at hok
    cases hok
  | ok candidates =>
    refine ⟨candidates, rfl, (lookup_returns_posted_iff touchingRows fromFive _ hsite
      (columnSite_carries _ _) candidates hrun).mpr ?_⟩
    decide +kernel

/-- The rows 0 to 9 have the value 5 and the rows 2 and 3 the value 7, and the rows 4 to 9 are lost. -/
theorem nested_rows_lost : ∃ candidates,
    locate nestedRows.toCoviMaps fromFive = .ok (columnSite (0, 10) (2, 2)) ∧
      (columnSite (0, 10) (2, 2)).CarriesRowRanges asciiText fromFive ∧
      lookup asciiText castagnoli nestedRows.toCoviMaps fromFive = .ok candidates ∧
      ¬ (columnSite (0, 10) (2, 2)).Exact asciiText castagnoli fromFive candidates := by
  have hsite : locate nestedRows.toCoviMaps fromFive = .ok (columnSite (0, 10) (2, 2)) := by decide +kernel
  have hok : (lookup asciiText castagnoli nestedRows.toCoviMaps fromFive).isOk = true := by decide +kernel
  cases hrun : lookup asciiText castagnoli nestedRows.toCoviMaps fromFive with
  | error e =>
    rw [hrun] at hok
    cases hok
  | ok candidates =>
    refine ⟨candidates, hsite, columnSite_carries _ _, rfl, fun hexact => ?_⟩
    obtain ⟨hranges, hposted⟩ := lookup_ok hsite (columnSite_carries _ _) hrun
    have hcovers := (hexact.1 (toLex (0, toLex (1, toLex (0, 0)))) 7).mpr
      ((covers_matchedRows_iff hposted).mp (by decide +kernel))
    rw [hranges] at hcovers
    revert hcovers
    decide +kernel

end

end CoveFormat.CoviLookups
