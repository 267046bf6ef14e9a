import CoveFormat.ByteCodes
import CoveFormat.ExceptRules
import CoveFormat.JsonValue
import CoveFormat.SortedKeys
import Mathlib.Data.Prod.Lex
import Mathlib.Data.String.Basic

namespace CoveFormat.IdentityKeys

open ByteCodes JsonValue SortedKeys

def asBytes (text : String) : Bytes := text.toUTF8.data.toList

theorem asBytes_inj {a b : String} (h : asBytes a = asBytes b) : a = b := by
  apply String.toByteArray_inj.mp
  apply ByteArray.ext
  apply Array.toList_inj.mp
  exact h

/-- A byte string after its length as a `u64`. -/
def lenBytes (bytes : Bytes) : Bytes := leBytes 8 bytes.length ++ bytes

structure MapJoinKeyComponent where
  (roleId sourceColumn logicalType canonicalization nullPolicy : String)
  /-- The resolver the component is bound to. -/
  resolution : Option String

structure MapIdentityRule where
  (ruleId objectType confidenceClass : String)
  autoMerge : Option Bool
  (candidateOnly allowReviewedEquivalence : Bool)
  functionIds : List String
  joinKeys : List MapJoinKeyComponent

structure MapRowRule where
  (ruleId sourceId identityRuleId : String)

structure MapSourceEntry where
  sourceId : String
  snapshotDigest : Option String

structure MapTypedIdentityReference where
  (kind objectType : String)
  identityRuleId : Option String := none
  resolverId : Option String := none
  canonicalKey : Option String := none
  joinKeySha256 : Option String := none
  sourceId : Option String := none
  sourceRowIdentity : Option String := none
  sourceSnapshotDigest : Option String := none
  schemaFingerprint : Option String := none
  rowDigest : Option String := none
  identityAlias : Option String := none

structure MapCanonicalAnchorComponent where
  (roleId logicalType resolvedValue : String)

structure MapCanonicalAnchor where
  (kind objectType identityRuleId : String)
  components : List MapCanonicalAnchorComponent

structure MapReviewedDecision where
  (decisionId decision : String)
  (left right : MapTypedIdentityReference)
  canonicalAnchor : Option MapCanonicalAnchor

/-- The parts of a mapping that planning reads. Identity rules and sources are numbered in
the order of their catalogs, which reject a second entry of the same id. -/
structure MappingContext where
  mappingId : Bytes
  mappingVersion : String
  identityRules : List MapIdentityRule
  sources : List MapSourceEntry
  rowRules : List MapRowRule
  doNotMerge : List (String × String)
  reviewedDecisions : List MapReviewedDecision
  objectTypes : List (String × Nat)
  identityRules_nodup : (identityRules.map (·.ruleId)).Nodup
  sources_nodup : (sources.map (·.sourceId)).Nodup

namespace MappingContext

variable (context : MappingContext)

def identityRule (ruleId : String) : Option MapIdentityRule :=
  context.identityRules.find? (·.ruleId == ruleId)

def source (sourceId : String) : Option MapSourceEntry :=
  context.sources.find? (·.sourceId == sourceId)

/-- The number of entries when the rule is unknown, which stands for `usize::MAX`. -/
def identityRuleOrder (ruleId : String) : Nat := (context.identityRules.map (·.ruleId)).idxOf ruleId

def sourceOrder (sourceId : String) : Nat := (context.sources.map (·.sourceId)).idxOf sourceId

def typeId (objectType : String) : Option Nat :=
  (context.objectTypes.find? (·.1 == objectType)).map (·.2)

end MappingContext

structure SourceRow where
  sourceId : String
  rowIndex : Nat
  values : List (String × Value)

/-- What planning reads of the record that a resolver leaves behind. -/
structure ResolutionMetadata where
  resolverId : String
  canonicalKey : Option String
  deriving DecidableEq

structure ResolvedJoinKeyComponent where
  identityValue : String
  materializesIdentity : Bool
  effectiveConfidenceClass : Option String
  metadata : ResolutionMetadata

/-- Text normalisation, resolvers, canonical encoding and hashing, given from outside. -/
structure KeyLibrary where
  resolveJoinKeyComponent :
    MapJoinKeyComponent → Value → String → Except String ResolvedJoinKeyComponent
  applyCanonicalization : Value → String → List String → Except String Value
  canonicalComponentBytes : String → Value → Except String Bytes
  reviewedAnchorComponentValue : String → String → Except String Value
  rowJson : List (String × Value) → String
  sha256Hex : Bytes → String

structure JoinKeyEvaluation where
  tuple : Bytes
  materializesIdentity : Bool
  effectiveConfidenceClass : Option String
  resolutionMetadata : List ResolutionMetadata

def identityConfidenceRank (confidence : String) : Nat :=
  if confidence = "authoritative" ∨ confidence = "reviewed_authoritative" then 0
  else if confidence = "strong_deterministic" then 1
  else if confidence = "source_scoped" then 2
  else if confidence = "weak_deterministic" then 3
  else if confidence = "candidate_only" ∨ confidence = "candidate" then 4
  else 5

def mostRestrictiveConfidence (left right : String) : String :=
  if identityConfidenceRank right ≤ identityConfidenceRank left then left else right

def joinKeyComponent (roleId logicalType : String) (value : Option Bytes) : Bytes :=
  lenBytes (asBytes roleId) ++ lenBytes (asBytes logicalType) ++
    match value with
    | none => [0]
    | some value => 1 :: lenBytes value

def joinKeyTuple (objectTypeId : Nat) (identityRuleId : String)
    (components : List (String × String × Option Bytes)) : Bytes :=
  asBytes "COVE-MAP-JOIN-KEY-V1" ++ leBytes 4 objectTypeId ++ lenBytes (asBytes identityRuleId) ++
    leBytes 4 components.length ++
      components.flatMap fun component =>
        joinKeyComponent component.1 component.2.1 component.2.2

section

variable (lib : KeyLibrary)

def evaluateComponent (rule : MapIdentityRule) (row : SourceRow) (component : MapJoinKeyComponent) :
    Except String (Option Bytes × Option ResolvedJoinKeyComponent) :=
  match row.values.lookup component.sourceColumn with
  | none | some .null =>
    if component.nullPolicy ∈ ["reject", "reject-null", "all_components_required"] then
      .error s!"identity rule '{rule.ruleId}' rejected null/missing source column '{component.sourceColumn}'"
    else .ok (none, none)
  | some raw =>
    if component.resolution.isSome then do
      let resolved ← lib.resolveJoinKeyComponent component raw rule.objectType
      let encoded ← lib.canonicalComponentBytes component.logicalType
        (.string resolved.identityValue)
      .ok (some encoded, some resolved)
    else do
      let value ← lib.applyCanonicalization raw component.canonicalization rule.functionIds
      let encoded ← lib.canonicalComponentBytes component.logicalType value
      .ok (some encoded, none)

def joinKeyTupleFromRule (rule : MapIdentityRule) (row : SourceRow) (objectTypeId : Nat) :
    Except String JoinKeyEvaluation := do
  let evaluated ← rule.joinKeys.mapM (evaluateComponent lib rule row)
  let resolved := evaluated.filterMap (·.2)
  .ok {
    tuple := joinKeyTuple objectTypeId rule.ruleId
      ((rule.joinKeys.zip evaluated).map fun pair =>
        (pair.1.roleId, pair.1.logicalType, pair.2.1))
    materializesIdentity := resolved.all (·.materializesIdentity)
    effectiveConfidenceClass :=
      (resolved.filterMap (·.effectiveConfidenceClass)).foldl (fun found confidence =>
        some (match found with
          | none => confidence
          | some existing => mostRestrictiveConfidence existing confidence)) none
    resolutionMetadata := resolved.map (·.metadata) }

def jsonLogicalTypeName : Value → String
  | .null => "null"
  | .bool _ => "bool"
  | .number (.posInt n) => if n < 2 ^ 63 then "int64" else "uint64"
  | .number (.negInt _) => "int64"
  | .number (.float _) => "float64"
  | .string _ => "utf8"
  | .array _ => "list"
  | .object _ => "struct"

variable (row : SourceRow)

def rowDigest : String := lib.sha256Hex (asBytes (lib.rowJson row.values))

def schemaFingerprint : String :=
  lib.sha256Hex (asBytes ("|".intercalate
    (row.values.map fun field => s!"{field.1}:{jsonLogicalTypeName field.2}")))

end

def sourceRowIdentity (row : SourceRow) : String := s!"{row.sourceId}:{row.rowIndex}"

inductive IdentityMergeClass
  | mergeGlobal
  | mergeWithinSource
  | singleton
  deriving DecidableEq

/-- An identity that a row asserts through one of its row rules. -/
structure IdentityKey where
  sourceId : String
  rowIndex : Nat
  (rowDigest schemaFingerprint sourceRowIdentity rowRuleId identityRuleId objectType : String)
  (objectTypeId classRank ruleOrder sourceOrder : Nat)
  joinKeyTuple : Bytes
  joinKeySha256 : String
  mergeClass : IdentityMergeClass
  resolutionMetadata : List ResolutionMetadata
  deriving DecidableEq

structure CandidateMatch where
  sourceId : String
  rowIndex : Nat
  (rowDigest schemaFingerprint sourceRowIdentity rowRuleId identityRuleId objectType : String)
  (joinKeySha256 identityAlias : String)
  resolutionMetadata : List ResolutionMetadata

namespace IdentityKey

section

variable (key : IdentityKey)

def mergeGroupKey : Option Bytes :=
  match key.mergeClass with
  | .singleton => none
  | .mergeGlobal =>
    some (lenBytes (asBytes key.objectType) ++ lenBytes (asBytes key.identityRuleId) ++
      lenBytes key.joinKeyTuple)
  | .mergeWithinSource =>
    some (lenBytes (asBytes key.objectType) ++ lenBytes (asBytes key.identityRuleId) ++
      lenBytes (asBytes key.sourceId) ++ lenBytes key.joinKeyTuple)

def goidSourceScope : Option String :=
  match key.mergeClass with
  | .mergeGlobal => none
  | .mergeWithinSource => some key.sourceId
  | .singleton => some key.sourceRowIdentity

def anchorAlias : String := s!"{key.identityRuleId}:{key.joinKeySha256}"

def aliases : List String :=
  [key.sourceRowIdentity, key.rowDigest, key.anchorAlias, s!"{key.objectType}:{key.joinKeySha256}"]

end

abbrev AnchorSortKey := Nat ×ₗ Nat ×ₗ Nat ×ₗ Bytes ×ₗ String

variable (key : IdentityKey)

def anchorSortKey : AnchorSortKey :=
  toLex (key.classRank, toLex (key.ruleOrder, toLex (key.sourceOrder,
    toLex (key.joinKeyTuple, key.sourceRowIdentity))))

def resolverFamily : List (String ×ₗ String) :=
  dedupAdjacent (sortByKey id (key.resolutionMetadata.filterMap fun metadata =>
    metadata.canonicalKey.map fun canonicalKey => toLex (metadata.resolverId, canonicalKey)))

end IdentityKey

def mergeClass (rule : MapIdentityRule) (evaluation : JoinKeyEvaluation) : IdentityMergeClass :=
  let confidence := evaluation.effectiveConfidenceClass.getD rule.confidenceClass
  if confidence = "authoritative" then
    if rule.autoMerge.getD true then .mergeGlobal else .singleton
  else if confidence = "strong_deterministic" then
    if rule.autoMerge.getD false then .mergeGlobal else .singleton
  else if confidence = "source_scoped" then .mergeWithinSource
  else .singleton

def identityClassRank (confidence : String) : Nat :=
  if confidence = "authoritative" then 0
  else if confidence = "strong_deterministic" then 1
  else if confidence = "source_scoped" then 2
  else if confidence = "weak_deterministic" then 3
  else 4

def isCandidateIdentityRule (rule : MapIdentityRule) : Bool :=
  rule.candidateOnly || rule.confidenceClass == "candidate"

end CoveFormat.IdentityKeys
