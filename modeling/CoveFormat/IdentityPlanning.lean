import CoveFormat.Grouping
import CoveFormat.IdentityKeys
import CoveFormat.UnionFind
import Mathlib.Data.List.MinMax

namespace CoveFormat.IdentityPlanning

open ByteCodes ExceptRules SortedKeys Grouping IdentityKeys

/-- What one row rule makes of a row. -/
inductive RowOutput
  | candidate (candidate : CandidateMatch)
  | key (key : IdentityKey)

def RowOutput.candidate? : RowOutput → Option CandidateMatch
  | .candidate found => some found
  | .key _ => none

def RowOutput.key? : RowOutput → Option IdentityKey
  | .candidate _ => none
  | .key found => some found

def okOr {α : Type} (found : Option α) (message : String) : Except String α :=
  match found with
  | some a => .ok a
  | none => .error message

section

variable (lib : KeyLibrary) (context : MappingContext)

def candidateMatch (row : SourceRow) (rowRule : MapRowRule) (rule : MapIdentityRule)
    (evaluation : JoinKeyEvaluation) : CandidateMatch where
  sourceId := row.sourceId
  rowIndex := row.rowIndex
  rowDigest := rowDigest lib row
  schemaFingerprint := schemaFingerprint lib row
  sourceRowIdentity := sourceRowIdentity row
  rowRuleId := rowRule.ruleId
  identityRuleId := rule.ruleId
  objectType := rule.objectType
  joinKeySha256 := lib.sha256Hex evaluation.tuple
  identityAlias := s!"{rule.ruleId}:{lib.sha256Hex evaluation.tuple}"
  resolutionMetadata := evaluation.resolutionMetadata

variable (row : SourceRow)

def identityKey (rowRule : MapRowRule) (rule : MapIdentityRule) (objectTypeId : Nat)
    (evaluation : JoinKeyEvaluation) : IdentityKey where
  sourceId := row.sourceId
  rowIndex := row.rowIndex
  rowDigest := rowDigest lib row
  schemaFingerprint := schemaFingerprint lib row
  sourceRowIdentity := sourceRowIdentity row
  rowRuleId := rowRule.ruleId
  identityRuleId := rule.ruleId
  objectType := rule.objectType
  objectTypeId := objectTypeId
  classRank := identityClassRank rule.confidenceClass
  ruleOrder := context.identityRuleOrder rule.ruleId
  sourceOrder := context.sourceOrder row.sourceId
  joinKeyTuple := evaluation.tuple
  joinKeySha256 := lib.sha256Hex evaluation.tuple
  mergeClass := mergeClass rule evaluation
  resolutionMetadata := evaluation.resolutionMetadata

def planRowRule (rowRule : MapRowRule) : Except String RowOutput := do
  let rule ← okOr (context.identityRule rowRule.identityRuleId)
    s!"row rule '{rowRule.ruleId}' references missing identity rule '{rowRule.identityRuleId}'"
  let objectTypeId ← okOr (context.typeId rule.objectType) s!"unknown object type '{rule.objectType}'"
  let evaluation ← joinKeyTupleFromRule lib rule row objectTypeId
  if isCandidateIdentityRule rule || !evaluation.materializesIdentity then
    .ok (.candidate (candidateMatch lib row rowRule rule evaluation))
  else .ok (.key (identityKey lib context row rowRule rule objectTypeId evaluation))

def planRow : Except String (List RowOutput) := do
  let matchingRules := context.rowRules.filter (·.sourceId == row.sourceId)
  rejectIf (matchingRules = []) s!"source '{row.sourceId}' has no declared row semantic rule"
  matchingRules.mapM (planRowRule lib context row)

end

def placed (keys : List IdentityKey) (indexes : List Nat) : List (Nat × IdentityKey) :=
  indexes.filterMap fun index => (keys[index]?).map fun key => (index, key)

def keysAt (keys : List IdentityKey) (indexes : List Nat) : List IdentityKey :=
  (placed keys indexes).map (·.2)

def groupEdges : List Nat → List (Nat × Nat)
  | [] => []
  | first :: rest => rest.map fun index => (first, index)

def mergeGroups (keys : List IdentityKey) : List (Bytes × List (Bytes × Nat)) :=
  grouped (·.1) (keys.zipIdx.filterMap fun (key, index) => key.mergeGroupKey.map (·, index))

def mergeEdges (keys : List IdentityKey) : List (Nat × Nat) :=
  (mergeGroups keys).flatMap fun group => groupEdges (group.2.map (·.2))

section

variable (context : MappingContext)

def referenceKinds : List String :=
  ["identity_join_key", "resolver_key", "source_row", "row_digest", "identity_alias"]

def referenceMatchesOptional (expected : Option String) (actual : String) : Bool :=
  expected.all (· == actual)

section

variable (reference : MapTypedIdentityReference)

def matchesSourceRow (key : IdentityKey) : Bool :=
  match reference.sourceId.bind context.source with
  | none => false
  | some expectedSource =>
    reference.identityRuleId == some key.identityRuleId
      && some key.sourceId == reference.sourceId
      && some key.sourceRowIdentity == reference.sourceRowIdentity
      && some key.schemaFingerprint == reference.schemaFingerprint
      && expectedSource.snapshotDigest == reference.sourceSnapshotDigest

def matchesReference (key : IdentityKey) : Bool :=
  key.objectType == reference.objectType &&
    if reference.kind = "identity_join_key" then
      reference.identityRuleId == some key.identityRuleId
        && reference.joinKeySha256 == some key.joinKeySha256
    else if reference.kind = "resolver_key" then
      key.resolutionMetadata.any fun metadata =>
        some metadata.resolverId == reference.resolverId
          && metadata.canonicalKey == reference.canonicalKey
    else if reference.kind = "source_row" then matchesSourceRow context reference key
    else if reference.kind = "row_digest" then
      reference.rowDigest == some key.rowDigest
        && referenceMatchesOptional reference.identityRuleId key.identityRuleId
        && referenceMatchesOptional reference.sourceId key.sourceId
        && referenceMatchesOptional reference.sourceRowIdentity key.sourceRowIdentity
    else if reference.kind = "identity_alias" then
      reference.identityAlias.any fun name => key.aliases.contains name
    else false

def matchedIndexes (keys : List IdentityKey) : List Nat :=
  (List.range keys.length).filter fun index =>
    (keys[index]?).any (matchesReference context reference)

def resolveTypedReference (keys : List IdentityKey) :
    Except String (List Nat) := do
  rejectIf (reference.kind ∉ referenceKinds ∧ ∃ key ∈ keys, key.objectType = reference.objectType)
    s!"reviewed identity reference kind '{reference.kind}' is unsupported"
  let indexes := matchedIndexes context reference keys
  rejectIf (indexes = [])
    s!"reviewed identity reference '{reference.kind}' did not match any planned identity"
  rejectIf (reference.kind = "row_digest" ∧ 1 < indexes.length)
    s!"reviewed row_digest reference matched {indexes.length} planned identities; use source_row or identity_join_key for an unambiguous review decision"
  .ok indexes

end

structure ReviewedAnchor where
  identityRuleId : String
  joinKeyTuple : Bytes
  identityAlias : String
  deriving DecidableEq

structure ReviewedSameObjectEdge where
  (left right : Nat)
  canonicalAnchor : Option ReviewedAnchor

structure ReviewedDoNotMergeConstraint where
  (left right : List Nat)

def reviewedSameObjectObjectType : List IdentityKey → Except String String
  | [] => .error "reviewed same-object decision has no left or right matches"
  | first :: rest => do
      checkAll (fun key : IdentityKey => rejectIf (key.objectType ≠ first.objectType)
        s!"reviewed same-object decision crosses object types '{first.objectType}' and '{key.objectType}'")
        rest
      .ok first.objectType

def validateReviewedSameObjectAllowed (matched : List IdentityKey) : Except String String := do
  let objectType ← reviewedSameObjectObjectType matched
  checkAll (fun key : IdentityKey => do
    let rule ← okOr (context.identityRule key.identityRuleId)
      s!"reviewed decision references missing identity rule '{key.identityRuleId}'"
    rejectIf (¬ rule.allowReviewedEquivalence)
      s!"identity rule '{rule.ruleId}' does not allow reviewed equivalence") matched
  .ok objectType

def reviewedDecisionRequiresAnchor (matched : List IdentityKey) : Bool :=
  1 < (matched.map (·.identityRuleId)).dedup.length ||
    1 < (matched.map (·.resolverFamily)).dedup.length

def validateReviewedAnchorShape (rule : MapIdentityRule) (anchor : MapCanonicalAnchor) :
    Except String Unit := do
  rejectIf (anchor.components.length ≠ rule.joinKeys.length)
    s!"reviewed canonical anchor for identity rule '{rule.ruleId}' has {anchor.components.length} components, expected {rule.joinKeys.length}"
  checkAll (fun pair : (MapCanonicalAnchorComponent × MapJoinKeyComponent) × Nat =>
    rejectIf (pair.1.1.roleId ≠ pair.1.2.roleId ∨ pair.1.1.logicalType ≠ pair.1.2.logicalType)
      s!"reviewed canonical anchor component {pair.2} does not match identity rule '{rule.ruleId}' join key shape")
    (anchor.components.zip rule.joinKeys).zipIdx

variable (lib : KeyLibrary)

def reviewedAnchorJoinKeyTuple (objectTypeId : Nat) (anchor : MapCanonicalAnchor) :
    Except String Bytes := do
  let components ← anchor.components.mapM fun component => do
    let value ← lib.reviewedAnchorComponentValue component.logicalType component.resolvedValue
    let encoded ← lib.canonicalComponentBytes component.logicalType value
    .ok (component.roleId, component.logicalType, some encoded)
  .ok (joinKeyTuple objectTypeId anchor.identityRuleId components)

def reviewedAnchor (anchor : MapCanonicalAnchor) : Except String ReviewedAnchor := do
  rejectIf (anchor.kind ≠ "resolved_join_key")
    s!"reviewed canonical anchor kind '{anchor.kind}' is unsupported"
  let rule ← okOr (context.identityRule anchor.identityRuleId)
    s!"reviewed canonical anchor references missing identity rule '{anchor.identityRuleId}'"
  rejectIf (rule.objectType ≠ anchor.objectType)
    s!"reviewed canonical anchor object type '{anchor.objectType}' does not match identity rule '{anchor.identityRuleId}'"
  validateReviewedAnchorShape rule anchor
  let objectTypeId ← okOr (context.typeId anchor.objectType)
    s!"unknown object type '{anchor.objectType}'"
  let tuple ← reviewedAnchorJoinKeyTuple lib objectTypeId anchor
  .ok {
    identityRuleId := anchor.identityRuleId
    joinKeyTuple := tuple
    identityAlias := s!"{anchor.identityRuleId}:{lib.sha256Hex tuple}" }

/-- What a decision says about the identities its two references match. -/
inductive Verdict
  | sameObject (canonicalAnchor : Option ReviewedAnchor)
  | doNotMerge

def judge (decision : MapReviewedDecision) (matched : List IdentityKey) : Except String Verdict :=
  if decision.decision = "same_object" then do
    let objectType ← validateReviewedSameObjectAllowed context matched
    rejectIf (reviewedDecisionRequiresAnchor matched ∧ decision.canonicalAnchor.isNone)
      s!"reviewed decision '{decision.decisionId}' requires canonical_anchor"
    match decision.canonicalAnchor with
    | none => .ok (.sameObject none)
    | some anchor => do
        rejectIf (anchor.objectType ≠ objectType)
          s!"reviewed canonical anchor object type '{anchor.objectType}' does not match reviewed same-object object type '{objectType}'"
        let anchor ← reviewedAnchor context lib anchor
        .ok (.sameObject (some anchor))
  else if decision.decision = "do_not_merge" then .ok .doNotMerge
  else .error s!"reviewed decision '{decision.decisionId}' has unsupported decision '{decision.decision}'"

structure ReviewedDecision where
  (left right : List Nat)
  verdict : Verdict

def reviewDecision (keys : List IdentityKey) (decision : MapReviewedDecision) :
    Except String ReviewedDecision := do
  let left ← resolveTypedReference context decision.left keys
  let right ← resolveTypedReference context decision.right keys
  let verdict ← judge context lib decision (keysAt keys (left ++ right))
  .ok ⟨left, right, verdict⟩

def ReviewedDecision.sameObject (reviewed : ReviewedDecision) : List ReviewedSameObjectEdge :=
  match reviewed.verdict with
  | .doNotMerge => []
  | .sameObject anchor =>
    reviewed.left.flatMap fun left => reviewed.right.map fun right => ⟨left, right, anchor⟩

def sameObjectEdges (reviewed : List ReviewedDecision) : List ReviewedSameObjectEdge :=
  reviewed.flatMap (·.sameObject)

def ReviewedDecision.doNotMerge (reviewed : ReviewedDecision) :
    Option ReviewedDoNotMergeConstraint :=
  match reviewed.verdict with
  | .doNotMerge => some ⟨reviewed.left, reviewed.right⟩
  | .sameObject _ => none

end

def identityForest (keys : List IdentityKey) (edges : List ReviewedSameObjectEdge) : UnionFind :=
  ((UnionFind.new keys.length).unionAll (mergeEdges keys)).unionAll
    (edges.map fun edge => (edge.left, edge.right))

def components (forest : UnionFind) (count : Nat) : List (Nat × List Nat) :=
  grouped forest.root (List.range count)

def validateDoNotMerge (constraints : List (String × String)) (components : List (Nat × List Nat))
    (keys : List IdentityKey) : Except String Unit :=
  checkAll (fun component : Nat × List Nat =>
    let aliases := (keysAt keys component.2).flatMap (·.aliases)
    checkAll (fun constraint : String × String =>
      rejectIf (constraint.1 ∈ aliases ∧ constraint.2 ∈ aliases)
        s!"identity resolution violates do-not-merge constraint '{constraint.1}' <-> '{constraint.2}'")
      constraints) components

def validateReviewedDoNotMerge (constraints : List ReviewedDoNotMergeConstraint)
    (forest : UnionFind) : Except String Unit :=
  checkAll (fun constraint : ReviewedDoNotMergeConstraint =>
    checkAll (fun left : Nat =>
      checkAll (fun right : Nat =>
        rejectIf (forest.root left = forest.root right)
          "identity resolution violates reviewed do-not-merge constraint") constraint.right)
      constraint.left) constraints

def ReviewedSameObjectEdge.inside (indexes : List Nat) (edge : ReviewedSameObjectEdge) : Bool :=
  indexes.contains edge.left && indexes.contains edge.right

def reviewedAnchorForComponent (indexes : List Nat) (edges : List ReviewedSameObjectEdge) :
    Except String (Option ReviewedAnchor) := do
  let anchors := ((edges.filter (·.inside indexes)).filterMap (·.canonicalAnchor)).dedup
  rejectIf (1 < anchors.length)
    "reviewed same-object component has conflicting canonical anchors"
  .ok anchors.head?

/-- What the identities of a component have in common. -/
structure ComponentName where
  objectType : String
  objectTypeId : Nat
  identityRuleId : String
  joinKeyTuple : Bytes
  canonicalAnchor : String
  sourceScope : Option String

def anchorOf (members : List (Nat × IdentityKey)) : Option IdentityKey :=
  (members.argmin fun member => toLex (member.2.anchorSortKey, member.1)).map (·.2)

/-- A reviewed anchor replaces the anchor of the component; a reviewed merge drops the
source scope of the anchor. -/
def componentName (anchor : IdentityKey) (reviewedAnchor : Option ReviewedAnchor)
    (hasReviewedMerge : Bool) : ComponentName :=
  match reviewedAnchor with
  | some reviewed => {
      objectType := anchor.objectType
      objectTypeId := anchor.objectTypeId
      identityRuleId := reviewed.identityRuleId
      joinKeyTuple := reviewed.joinKeyTuple
      canonicalAnchor := reviewed.identityAlias
      sourceScope := none }
  | none => {
      objectType := anchor.objectType
      objectTypeId := anchor.objectTypeId
      identityRuleId := anchor.identityRuleId
      joinKeyTuple := anchor.joinKeyTuple
      canonicalAnchor := anchor.anchorAlias
      sourceScope := if hasReviewedMerge then none else anchor.goidSourceScope }

def nameComponent (keys : List IdentityKey) (edges : List ReviewedSameObjectEdge)
    (indexes : List Nat) : Except String ComponentName := do
  let anchor ← okOr (anchorOf (placed keys indexes)) "empty identity component"
  let reviewedAnchor ← reviewedAnchorForComponent indexes edges
  .ok (componentName anchor reviewedAnchor (edges.any (·.inside indexes)))

structure PlannedIdentity (Goid : Type) where
  sourceId : String
  rowIndex : Nat
  (rowDigest schemaFingerprint sourceRowIdentity rowRuleId identityRuleId objectType : String)
  (joinKeySha256 identityAlias equivalenceId canonicalAnchor : String)
  goid : Goid
  resolutionMetadata : List ResolutionMetadata

structure IdentityPlan (Goid : Type) where
  canonical : List (PlannedIdentity Goid)
  candidates : List CandidateMatch

/-- The hash of the parts that make up a global object id, and its hexadecimal text. -/
structure GoidLibrary (Goid : Type) where
  goid16Parts : List Bytes → Goid
  hexEncode : Goid → String

section

variable {Goid : Type} [LinearOrder Goid] (goids : GoidLibrary Goid) (context : MappingContext)
  (lib : KeyLibrary)

def mappedGoid (objectTypeId : Nat) (anchorKind anchorBytes : Bytes) (sourceScope : Option String) :
    Goid :=
  goids.goid16Parts [context.mappingId, asBytes context.mappingVersion, leBytes 4 objectTypeId,
    anchorKind, anchorBytes, asBytes (sourceScope.getD "")]

def ComponentName.goid (name : ComponentName) : Goid :=
  mappedGoid goids context name.objectTypeId (asBytes name.identityRuleId) name.joinKeyTuple
    name.sourceScope

def plannedIdentity (name : ComponentName) (key : IdentityKey) : PlannedIdentity Goid where
  sourceId := key.sourceId
  rowIndex := key.rowIndex
  rowDigest := key.rowDigest
  schemaFingerprint := key.schemaFingerprint
  sourceRowIdentity := key.sourceRowIdentity
  rowRuleId := key.rowRuleId
  identityRuleId := key.identityRuleId
  objectType := key.objectType
  joinKeySha256 := key.joinKeySha256
  identityAlias := key.anchorAlias
  equivalenceId := s!"{name.objectType}:{goids.hexEncode (name.goid goids context)}"
  canonicalAnchor := name.canonicalAnchor
  goid := name.goid goids context
  resolutionMetadata := key.resolutionMetadata

def PlannedIdentity.sortKey (identity : PlannedIdentity Goid) : String ×ₗ Nat ×ₗ String ×ₗ Goid :=
  toLex (identity.sourceId, toLex (identity.rowIndex, toLex (identity.identityRuleId, identity.goid)))

def candidateSortKey (candidate : CandidateMatch) : String ×ₗ Nat ×ₗ String ×ₗ String :=
  toLex (candidate.sourceId, toLex (candidate.rowIndex,
    toLex (candidate.identityRuleId, candidate.joinKeySha256)))

def planKeys (keys : List IdentityKey) : Except String (List (Nat × PlannedIdentity Goid)) := do
  let reviewed ← context.reviewedDecisions.mapM (reviewDecision context lib keys)
  let sameObject := sameObjectEdges reviewed
  let forest := identityForest keys sameObject
  let components := components forest keys.length
  validateDoNotMerge context.doNotMerge components keys
  validateReviewedDoNotMerge (reviewed.filterMap (·.doNotMerge)) forest
  let planned ← components.mapM fun component => do
    let name ← nameComponent keys sameObject component.2
    .ok ((placed keys component.2).map fun member =>
      (member.1, plannedIdentity goids context name member.2))
  .ok planned.flatten

variable (rows : List SourceRow)

def rowOutputs : Except String (List RowOutput) :=
  (rows.mapM (planRow lib context)).map List.flatten

def planIdentities : Except String (IdentityPlan Goid) := do
  let outputs ← rowOutputs context lib rows
  let planned ← planKeys goids context lib (outputs.filterMap (·.key?))
  .ok {
    canonical := sortByKey (·.sortKey) (planned.map (·.2))
    candidates := sortByKey candidateSortKey (outputs.filterMap (·.candidate?)) }

end

end CoveFormat.IdentityPlanning
