import CoveFormat.CoveTypes
import CoveFormat.Grouping
import CoveFormat.JsonValue
import Mathlib.Data.Prod.Lex

namespace CoveFormat.ObjectSurface

open CoveTypes JsonValue Temporal

def objectTypeFlagLinkObject : UInt32 := 0x00000004
def objectTypeFlagAssociationObject : UInt32 := 0x00000008

def propertyFlagAssociationFromGoid : UInt32 := 0x00000001
def propertyFlagAssociationToGoid : UInt32 := 0x00000002
def propertyFlagAssociationType : UInt32 := 0x00000004
def propertyFlagEvidenceRef : UInt32 := 0x00000040
def propertyFlagMappingRuleRef : UInt32 := 0x00000080

/-- An entry of the object catalog; its property entries are used by the page decoders only. -/
structure ObjectTypeEntryV1 where
  objectTypeId : Nat
  typeName : String
  flags : UInt32

structure CoveObjectPropertyValue where
  propertyId : Nat
  propertyName : String
  logicalType : CoveLogicalType
  physicalKind : CovePhysicalKind
  flags : UInt32
  value : Value
  redacted : Bool

structure CoveAssociationMetadata where
  (associationType sourceGoid targetGoid evidenceRef mappingRuleRef : Option String)

structure CoveObjectRecord where
  objectTypeId : Nat
  objectTypeName : String
  objectTypeFlags : UInt32
  (segmentId rowIndex : Nat)
  timestampUs : Int
  (csn branchKey : Nat)
  (goid recordId : Id16)
  recordKind : RecordKind
  prevRef : Option CoveRecordRefV1
  properties : List CoveObjectPropertyValue
  association : Option CoveAssociationMetadata

inductive CoveObjectTemporalCut
  | latestCommitted
  | timestampUs (value : Int)
  | csn (value : Nat)

inductive CoveObjectTombstoneStatus
  | live
  | tombstoned
  deriving DecidableEq

structure CoveObjectState where
  objectTypeId : Nat
  objectTypeName : String
  objectTypeFlags : UInt32
  branchKey : Nat
  (goid latestRecordId : Id16)
  (latestSegmentId latestRowIndex : Nat)
  timestampUs : Int
  csn : Nat
  recordKind : RecordKind
  tombstoneStatus : CoveObjectTombstoneStatus
  properties : List CoveObjectPropertyValue
  association : Option CoveAssociationMetadata

section

-- `Display` of the JSON values, which belongs to the JSON package.
variable (render : Value → String)

def jsonValueToString : Value → Option String
  | .null => none
  | .string value => some value
  | .bool value => some (if value then "true" else "false")
  | other => some (render other)

def propertyStringByFlag (properties : List CoveObjectPropertyValue) (flag : UInt32) :
    Option String :=
  (properties.find? (·.flags &&& flag != 0)).bind fun p => jsonValueToString render p.value

def associationLabel : List Char := "Association:".toList

/-- `type_name.strip_prefix("Association:")`. -/
def strippedTypeName (typeName : String) : Option String :=
  if associationLabel.isPrefixOf typeName.toList then
    some (String.ofList (typeName.toList.drop associationLabel.length))
  else none

variable (t : ObjectTypeEntryV1)

def objectTypeIsAssociationLike : Bool :=
  t.flags &&& (objectTypeFlagAssociationObject ||| objectTypeFlagLinkObject) != 0 ||
    associationLabel.isPrefixOf t.typeName.toList

def associationMetadata (properties : List CoveObjectPropertyValue) :
    Option CoveAssociationMetadata :=
  if objectTypeIsAssociationLike t then
    some {
      associationType :=
        (propertyStringByFlag render properties propertyFlagAssociationType).or
          (strippedTypeName t.typeName)
      sourceGoid := propertyStringByFlag render properties propertyFlagAssociationFromGoid
      targetGoid := propertyStringByFlag render properties propertyFlagAssociationToGoid
      evidenceRef := propertyStringByFlag render properties propertyFlagEvidenceRef
      mappingRuleRef := propertyStringByFlag render properties propertyFlagMappingRuleRef }
  else none

end

inductive CoveObjectPropertyPredicateOp
  | eq
  | ne
  | lt
  | ltEq
  | gt
  | gtEq
  | isNull
  | isNotNull

inductive CoveObjectPropertyPredicateLiteral
  | null
  | bool (value : Bool)
  | i64 (value : Int)
  | u64 (value : Nat)
  | f64Bits (bits : Nat)
  | string (value : String)

structure CoveObjectPropertyPredicateCandidate where
  (objectTypeId propertyId : Nat)
  op : CoveObjectPropertyPredicateOp
  literal : Option CoveObjectPropertyPredicateLiteral
  proofState : String

structure CoveObjectAssociationEndpointCandidate where
  associationTypeId : Nat
  endpointRole : String
  candidateGoid : Option Id16

structure CoveObjectReadPushdownOptions where
  enabled : Bool := false
  temporalCut : Option CoveObjectTemporalCut := none
  branchKey : Option Nat := none
  candidateGoids : List Id16 := []
  associationEndpointCandidates : List CoveObjectAssociationEndpointCandidate := []
  propertyCandidates : List CoveObjectPropertyPredicateCandidate := []

def comparePropertyValueLiteral (value : Value) :
    CoveObjectPropertyPredicateLiteral → Option Ordering
  | .null => if value.isNull then some .eq else none
  | .bool expected => value.asBool.map (compare · expected)
  | .i64 expected => value.asI64.map (compare · expected)
  | .u64 expected => value.asU64.map (compare · expected)
  | .f64Bits expected =>
    if f64IsNan expected then none
    else (value.asF64.filter fun actual => !f64IsNan actual).map
      fun actual => compare (f64Key actual) (f64Key expected)
  | .string expected => value.asStr.map (compare · expected)

def orderingMatches : CoveObjectPropertyPredicateOp → Ordering → Bool
  | .eq, ordering => ordering == .eq
  | .ne, ordering => ordering != .eq
  | .lt, ordering => ordering == .lt
  | .ltEq, ordering => ordering == .lt || ordering == .eq
  | .gt, ordering => ordering == .gt
  | .gtEq, ordering => ordering == .gt || ordering == .eq
  | .isNull, _ | .isNotNull, _ => true

def propertyCandidateValueMatches (value : Value) (c : CoveObjectPropertyPredicateCandidate) :
    Bool :=
  match c.op with
  | .isNull => value.isNull
  | .isNotNull => !value.isNull
  | op => ((c.literal.bind (comparePropertyValueLiteral value)).map (orderingMatches op)).getD true

def propertyValue (properties : List CoveObjectPropertyValue) (propertyId : Nat) : Value :=
  ((properties.find? (·.propertyId == propertyId)).map (·.value)).getD .null

def propertyCandidatesMatch (objectTypeId : Nat) (values : List CoveObjectPropertyValue)
    (pushdown : CoveObjectReadPushdownOptions) : Bool :=
  (pushdown.propertyCandidates.filter (·.objectTypeId == objectTypeId)).all fun c =>
    if c.proofState ≠ "proven_exact" then true
    else propertyCandidateValueMatches (propertyValue values c.propertyId) c

end CoveFormat.ObjectSurface
