import CoveFormat.IntervalKeys

namespace CoveFormat.CoviComparators

open ByteCodes CoveTypes CoviKeys ExceptRules IntervalKeys MetadataAggregates NumCodes
  SortedKeys
open Canonical (TextPredicates)
open Floats (f64OfF32)

def absentU32 : UInt32 := 0xffffffff

inductive CoviKeyEncodingKindV2
  | fileCode
  | numCode
  | canonicalValueBytes
  | canonicalHash64
  | canonicalHash128
  | fixedBytes
  | utf8BytewisePrefix
  | intervalTuple
  | dimensionalTuple
  | objectPathTuple
  | extension
  deriving DecidableEq

def CoviKeyEncodingKindV2.fromU8 : Nat → Option CoviKeyEncodingKindV2
  | 0 => some .fileCode
  | 1 => some .numCode
  | 2 => some .canonicalValueBytes
  | 3 => some .canonicalHash64
  | 4 => some .canonicalHash128
  | 5 => some .fixedBytes
  | 6 => some .utf8BytewisePrefix
  | 7 => some .intervalTuple
  | 8 => some .dimensionalTuple
  | 9 => some .objectPathTuple
  | 255 => some .extension
  | _ => none

inductive CoviComparatorKindV2
  | canonicalEquality
  | canonicalOrdering
  | domainRankOrdering
  | numCodeLogicalOrdering
  | utf8BytewisePrefix
  | intervalOverlap
  | dimensionalTupleLexicographic
  | objectPathLexicographic
  | extensionRequired
  deriving DecidableEq

def CoviComparatorKindV2.fromU16 : Nat → Option CoviComparatorKindV2
  | 0 => some .canonicalEquality
  | 1 => some .canonicalOrdering
  | 2 => some .domainRankOrdering
  | 3 => some .numCodeLogicalOrdering
  | 4 => some .utf8BytewisePrefix
  | 5 => some .intervalOverlap
  | 6 => some .dimensionalTupleLexicographic
  | 7 => some .objectPathLexicographic
  | 255 => some .extensionRequired
  | _ => none

/-- An entry of an entry block; its id, its flags, its checksum and its references to coverage sets
and aggregate answers are used by no function of the model. -/
structure CoviIndexEntryV2 where
  (entryRef indexRootId : UInt32)
  keyKind : CoviKeyEncodingKindV2
  comparatorKind : CoviComparatorKindV2
  keyOffset : UInt64
  keyLength : UInt32
  keyHash64 : UInt64
  (postingsRef nextDuplicateRef : UInt32)
  deriving DecidableEq

-- The UTF-8 and the JSON test of the standard and the JSON library.
variable (P : TextPredicates)

inductive CoviIndexedTargetKindV2
  | tableColumn
  | objectProperty
  | objectPath
  | associationEndpoint
  | projectionColumn
  | semanticDimension
  | dimensionalTuple
  | externalTarget
  deriving DecidableEq

inductive CoviIndexKindV2
  | hash
  | sorted
  | sparseSorted
  | trie
  | rangeBucket
  | bitmap
  | minimalPerfectHash
  | aggregateOnly
  | extension
  deriving DecidableEq

/-- What looking a key up reads of an index root. -/
structure CoviIndexRootV2 where
  indexRootId : UInt32
  indexedTargetKind : CoviIndexedTargetKindV2
  indexKind : CoviIndexKindV2
  proofStrength : Nat
  (tableId columnId objectTypeId propertyId pathRef semanticDimensionRef : UInt32)
  (logicalType keyEncodingKind comparatorKind : Nat)
  (keyBlockSectionId entryBlockSectionId postingsBlockSectionId capabilityRef : UInt32)
  deriving DecidableEq

inductive CoviLookupOpV2
  | eq
  | range (lowerInclusive upperInclusive : Bool)
  | startsWith
  | membership
  deriving DecidableEq

inductive CoviLookupKeyV2
  | canonicalValueBytes (bytes : Bytes)
  | fileCode (code : UInt32)
  | numCode (code : UInt64)
  | intervalTuple (key : ParsedIntervalKey)
  | canonicalHash (hash64 : UInt64) (canonicalValueBytes : Bytes)
  | canonicalHash128 (hash128 : Bytes) (canonicalValueBytes : Bytes)
  | fixedBytes (bytes : Bytes)
  | utf8BytewisePrefix (bytes : Bytes)
  | dimensionalTuple (bytes : Bytes)
  | objectPathTuple (bytes : Bytes)

inductive CoviIntervalEncodingV2
  | canonicalBoundsV1
  deriving DecidableEq

structure CoviLookupComparatorContextV2 where
  domainRank : Option (List UInt32)
  intervalEncoding : Option CoviIntervalEncodingV2

inductive CoviLookupTargetV2
  | tableColumn (tableId columnId : UInt32)
  | projectionColumn (tableId columnId : UInt32)
  | objectProperty (objectTypeId propertyId : UInt32)
  | objectPath (objectTypeId pathRef : UInt32)
  | semanticDimension (semanticDimensionRef : UInt32)
  | dimensionalTuple (semanticDimensionRef : UInt32)

structure CoviLookupRequestV2 where
  target : CoviLookupTargetV2
  op : CoviLookupOpV2
  lowerKey : CoviLookupKeyV2
  upperKey : Option CoviLookupKeyV2
  membershipKeys : List CoviLookupKeyV2
  logicalType : Option CoveLogicalType
  comparatorContext : CoviLookupComparatorContextV2
  requireExact : Bool

def intervalBound : Option Bytes → Bytes
  | none => leBytes 4 unbounded
  | some bound => leBytes 4 (min bound.length (unbounded - 1)) ++ bound

def intervalKeyBytes (key : ParsedIntervalKey) : Bytes :=
  intervalBound key.lower ++ intervalBound key.upper ++ [flagsOf key]

def CoviLookupKeyV2.keyBytes : CoviLookupKeyV2 → Bytes
  | .canonicalValueBytes bytes => bytes
  | .fileCode code => leBytes 4 code.toNat
  | .numCode code => leBytes 8 code.toNat
  | .intervalTuple key => intervalKeyBytes key
  | .canonicalHash _ bytes | .canonicalHash128 _ bytes | .fixedBytes bytes | .utf8BytewisePrefix bytes
  | .dimensionalTuple bytes | .objectPathTuple bytes => bytes

def CoviLookupKeyV2.hash64 : CoviLookupKeyV2 → Option UInt64
  | .canonicalHash hash64 _ => some hash64
  | _ => none

def CoviLookupRequestV2.requestKeys (request : CoviLookupRequestV2) : List CoviLookupKeyV2 :=
  request.lowerKey :: request.membershipKeys

/-- `ok_or(CoveError::BadCovi)`. -/
def okOrBadCovi {α : Type} (found : Option α) : Except CoveError α :=
  match found with
  | some value => .ok value
  | none => .error .badCovi

theorem okOrBadCovi_ok_iff {α : Type} {found : Option α} {value : α} :
    okOrBadCovi found = .ok value ↔ found = some value := by
  cases found <;> simp [okOrBadCovi]

def compareNumcodeRangeKey (logical : CoveLogicalType) (left right : Bytes) : Except CoveError Ordering := do
  rejectIf (left.length ≠ 8 ∨ right.length ≠ 8) .badCovi
  let left := leNat left
  let right := leNat right
  match logical with
  | .float32 => compareFloatRangeKey (f64OfF32 (left % 2 ^ 32)) (f64OfF32 (right % 2 ^ 32))
  | .float64 => compareFloatRangeKey left right
  | _ =>
    match signedWidth logical, unsignedWidth logical with
    | some width, _ => .ok (orderingOf (signed width left) (signed width right))
    | none, some width => .ok (orderingOf (left % 2 ^ width) (right % 2 ^ width))
    | none, none => .error .badCovi

def invalidRank : UInt32 := 0xffffffff

section

variable (context : CoviLookupComparatorContextV2)

def domainRankForKey (key : Bytes) : Except CoveError Nat := do
  rejectIf (key.length ≠ 4) .badCovi
  match context.domainRank with
  | none => .error (.unsupportedEncoding "COVE-I DomainRankOrdering requires rank context")
  | some fileCodeToRank => do
      let rank ← okOrBadCovi fileCodeToRank[leNat key]?
      rejectIf (rank = invalidRank) .badCovi
      .ok rank.toNat

def compareDomainRankKey (left right : Bytes) :
    Except CoveError Ordering := do
  let leftRank ← domainRankForKey context left
  let rightRank ← domainRankForKey context right
  .ok (orderingOf leftRank rightRank)

end

def compareKeyBytesPrimaryOrder (comparatorKind : Nat) (logicalType : Option CoveLogicalType)
    (context : CoviLookupComparatorContextV2) (left right : Bytes) : Except CoveError Ordering := do
  match ← okOrBadCovi (CoviComparatorKindV2.fromU16 comparatorKind) with
  | .numCodeLogicalOrdering => do
      let logical ← okOrBadCovi logicalType
      compareNumcodeRangeKey logical left right
  | .canonicalOrdering => compareCanonicalOrderingKey P left right
  | .domainRankOrdering => compareDomainRankKey context left right
  | .utf8BytewisePrefix | .dimensionalTupleLexicographic | .objectPathLexicographic =>
    .ok (orderingOf left right)
  | .canonicalEquality => do
      validateCanonicalKey P left
      validateCanonicalKey P right
      .ok (orderingOf left right)
  | .intervalOverlap =>
    .error (.unsupportedEncoding "COVE-I interval-overlap comparator is not an ordering comparator")
  | .extensionRequired => .error (.unsupportedEncoding "COVE-I extension comparator is not supported")

def compareKeyBytesForOrder (comparatorKind : Nat) (logicalType : Option CoveLogicalType)
    (context : CoviLookupComparatorContextV2) (left right : Bytes) : Except CoveError Ordering := do
  let ordering ← compareKeyBytesPrimaryOrder P comparatorKind logicalType context left right
  if ordering = .eq then .ok (orderingOf left right) else .ok ordering

def validateUtf8Key (bytes : Bytes) : Except CoveError Unit := rejectIf (P.utf8Valid bytes = false) .badCovi

def splitHash128Key (key : Bytes) : Except CoveError (Bytes × Bytes) := do
  rejectIf (key.length ≤ 16) .badCovi
  .ok (key.take 16, key.drop 16)

def rawEncodingRangeOrder (root : CoviIndexRootV2) (left right : Bytes) :
    Except CoveError (Option Ordering) := do
  match ← okOrBadCovi (CoviKeyEncodingKindV2.fromU8 root.keyEncodingKind) with
  | .fixedBytes | .dimensionalTuple | .objectPathTuple => .ok (some (orderingOf left right))
  | .utf8BytewisePrefix => do
      validateUtf8Key P left
      validateUtf8Key P right
      .ok (some (orderingOf left right))
  | .canonicalHash64 | .canonicalHash128 => .error .badCovi
  | _ => .ok none

def CoviIndexRootV2.logical (root : CoviIndexRootV2) : Option CoveLogicalType :=
  CoveLogicalType.fromU16 root.logicalType

def logicalTypesDiffer (request root : Option CoveLogicalType) : Bool :=
  match request, root with
  | some request, some root => request ≠ root
  | _, _ => false

def compareRangeKey (root : CoviIndexRootV2) (request : CoviLookupRequestV2) (left right : Bytes) :
    Except CoveError Ordering := do
  match ← rawEncodingRangeOrder P root left right with
  | some ordering => .ok ordering
  | none => do
      rejectIf (logicalTypesDiffer request.logicalType root.logical) .badCovi
      compareKeyBytesPrimaryOrder P root.comparatorKind (request.logicalType.or root.logical)
        request.comparatorContext left right

def requestHash128ForCanonical (request : CoviLookupRequestV2) (canonical : Bytes) : Option Bytes :=
  request.requestKeys.findSome? fun key =>
    match key with
    | .canonicalHash128 hash128 bytes => if bytes = canonical then some hash128 else none
    | _ => none

def rawEncodingKeyEquals (root : CoviIndexRootV2) (request : CoviLookupRequestV2) (left right : Bytes) :
    Except CoveError (Option Bool) := do
  match ← okOrBadCovi (CoviKeyEncodingKindV2.fromU8 root.keyEncodingKind) with
  | .fixedBytes | .dimensionalTuple | .objectPathTuple => .ok (some (left = right))
  | .utf8BytewisePrefix => do
      validateUtf8Key P left
      validateUtf8Key P right
      .ok (some (left = right))
  | .canonicalHash64 => do
      validateCanonicalKey P left
      validateCanonicalKey P right
      .ok (some (left = right))
  | .canonicalHash128 => do
      let requestHash ← okOrBadCovi (requestHash128ForCanonical request right)
      let (hash, canonical) ← splitHash128Key left
      validateCanonicalKey P canonical
      validateCanonicalKey P right
      .ok (some (hash = requestHash ∧ canonical = right))
  | _ => .ok none

def intervalKeysOverlap (request : CoviLookupRequestV2) (left right : Bytes) : Except CoveError Bool := do
  rejectIf (request.comparatorContext.intervalEncoding ≠ some .canonicalBoundsV1)
    (.unsupportedEncoding "COVE-I IntervalOverlap requires interval encoding context")
  let left ← parseIntervalKey P left
  let right ← parseIntervalKey P right
  intervalsOverlap P left right

def keyEquals (root : CoviIndexRootV2) (request : CoviLookupRequestV2) (left right : Bytes) :
    Except CoveError Bool := do
  match ← rawEncodingKeyEquals P root request left right with
  | some result => .ok result
  | none =>
    match ← okOrBadCovi (CoviComparatorKindV2.fromU16 root.comparatorKind) with
    | .numCodeLogicalOrdering | .canonicalOrdering | .domainRankOrdering | .utf8BytewisePrefix
    | .dimensionalTupleLexicographic | .objectPathLexicographic =>
      (compareRangeKey P root request left right).map (· = .eq)
    | .canonicalEquality => do
        validateCanonicalKey P left
        validateCanonicalKey P right
        .ok (left = right)
    | .intervalOverlap => intervalKeysOverlap P request left right
    | .extensionRequired => .error (.unsupportedEncoding "COVE-I extension comparator is not supported")

def keyHasPrefix (root : CoviIndexRootV2) (key start : Bytes) : Except CoveError Bool := do
  let encoding ← okOrBadCovi (CoviKeyEncodingKindV2.fromU8 root.keyEncodingKind)
  rejectIf (encoding ≠ .utf8BytewisePrefix) .badCovi
  validateUtf8Key P key
  validateUtf8Key P start
  .ok (start.isPrefixOf key)

section

variable (request : CoviLookupRequestV2)

def lowerKeyIsEmpty : Bool :=
  match request.lowerKey with
  | .canonicalValueBytes bytes => bytes.isEmpty
  | _ => false

def membershipKeyBytes : List Bytes :=
  let lower := if request.op ≠ .membership ∨ !lowerKeyIsEmpty request then [request.lowerKey.keyBytes] else []
  dedupAdjacent (sortByKey id (lower ++ request.membershipKeys.map CoviLookupKeyV2.keyBytes))

end

def anyKeyEquals (root : CoviIndexRootV2) (request : CoviLookupRequestV2) (key : Bytes) :
    List Bytes → Except CoveError Bool
  | [] => .ok false
  | candidate :: candidates => do
      if ← keyEquals P root request key candidate then .ok true
      else anyKeyEquals root request key candidates

variable (root : CoviIndexRootV2)

def upperHolds (request : CoviLookupRequestV2) (key : Bytes) (inclusive : Bool) :
    Except CoveError Bool :=
  match request.upperKey with
  | none => .ok true
  | some upper => do
      let ordering ← compareRangeKey P root request key upper.keyBytes
      .ok (if inclusive then ordering ≠ .gt else ordering = .lt)

def keyMatches (request : CoviLookupRequestV2) (key : Bytes) : Except CoveError Bool :=
  let lower := request.lowerKey.keyBytes
  match request.op with
  | .eq => keyEquals P root request key lower
  | .membership => anyKeyEquals P root request key (membershipKeyBytes request)
  | .startsWith => keyHasPrefix P root key lower
  | .range lowerInclusive upperInclusive => do
      let comparator ← okOrBadCovi (CoviComparatorKindV2.fromU16 root.comparatorKind)
      if comparator = .intervalOverlap then intervalKeysOverlap P request key lower
      else do
        let ordering ← compareRangeKey P root request key lower
        let upperOk ← upperHolds P root request key upperInclusive
        .ok ((if lowerInclusive then ordering ≠ .lt else ordering = .gt) ∧ upperOk = true)

def entryHash64MayMatchRequest (request : CoviLookupRequestV2) (entry : CoviIndexEntryV2) :
    Except CoveError Bool := do
  let encoding ← okOrBadCovi (CoviKeyEncodingKindV2.fromU8 root.keyEncodingKind)
  let hashes := request.requestKeys.filterMap CoviLookupKeyV2.hash64
  .ok (encoding ≠ .canonicalHash64 ∨ hashes = [] ∨ entry.keyHash64 ∈ hashes)

end CoveFormat.CoviComparators
