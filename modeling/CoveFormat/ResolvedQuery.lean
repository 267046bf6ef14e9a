import CoveFormat.ByteCodes
import CoveFormat.CoveError

namespace CoveFormat.ResolvedQuery

open ByteCodes

inductive AstCompareOp
  | eq
  | ne
  | lt
  | le
  | gt
  | ge
  deriving DecidableEq

inductive ResolvedSystemField
  | goid
  | objectType
  | branchKey
  | timestampUs
  | csn
  | recordKind
  | sourceGoid
  | targetGoid
  | associationType
  | validFrom
  | validTo
  | sourceId
  | sourceRowIdentity
  | ruleId
  | assertionId
  | outputObjectId
  | observedSchemaFingerprint
  | observedSnapshotDigest
  deriving DecidableEq

structure ResolvedPath where
  displayName : String
  (objectTypeId propertyId : Option Nat)
  systemField : Option ResolvedSystemField
  (logicalType physicalKind : String)
  collationId : Option Nat

inductive ResolvedLiteralValue
  | null
  | boolean (value : Bool)
  | string (value : String)
  | signedInteger (value : Int)
  | unsignedInteger (value : Nat)
  | bigInteger (text : String)
  | decimal (canonical : String) (precision scale : Nat)
  | timestampMicros (micros : Int) (canonicalRfc3339 : String)
  | uuid (canonicalHex : String) (bytes : {b : Bytes // b.length = 16})
  | binary (canonicalHex : String) (bytes : Bytes)
  deriving DecidableEq

structure ResolvedLiteral where
  logicalType : String
  typedValue : ResolvedLiteralValue

/-- The expression forms that neither the code pruning nor the kernel looks into. -/
inductive ResidualForm
  | aggregateCall
  | association
  | evidence
  | tableExists
  | conditional

inductive ResolvedExpr
  | path (path : ResolvedPath)
  | literal (literal : ResolvedLiteral)
  | functionCall (functionId : String) (deterministic : Bool) (logicalType : String)
      (args : List ResolvedExpr)
  | residual (form : ResidualForm) (logicalType : Option String) (fields : String)

inductive ResolvedPredicate
  | compare (left : ResolvedExpr) (op : AstCompareOp) (right : ResolvedExpr)
  | inList (expr : ResolvedExpr) (values : List ResolvedLiteral)
  | nullCheck (expr : ResolvedExpr) (negated : Bool)
  | exists (expr : ResolvedExpr)
  | boolExpr (expr : ResolvedExpr)
  | not (inner : ResolvedPredicate)
  | and (parts : List ResolvedPredicate)
  | or (parts : List ResolvedPredicate)

theorem predicate_induction {motive : ResolvedPredicate → Prop}
    (compare : ∀ left op right, motive (.compare left op right))
    (inList : ∀ expr values, motive (.inList expr values))
    (nullCheck : ∀ expr negated, motive (.nullCheck expr negated))
    (exists_ : ∀ expr, motive (.exists expr)) (boolExpr : ∀ expr, motive (.boolExpr expr))
    (not : ∀ inner, motive inner → motive (.not inner))
    (and : ∀ parts, (∀ part ∈ parts, motive part) → motive (.and parts))
    (or : ∀ parts, (∀ part ∈ parts, motive part) → motive (.or parts))
    (predicate : ResolvedPredicate) : motive predicate := by
  refine @ResolvedPredicate.rec motive (fun parts => ∀ part ∈ parts, motive part)
    compare inList nullCheck exists_ boolExpr not and or ?_ ?_ predicate
  · simp
  · intro part parts hpart hparts
    exact List.forall_mem_cons.mpr ⟨hpart, hparts⟩

/-- An error of a query step: its code, its message and the error the message ends with. -/
structure BuildExecutionError where
  (code message : String)
  cause : Option CoveError

end CoveFormat.ResolvedQuery
