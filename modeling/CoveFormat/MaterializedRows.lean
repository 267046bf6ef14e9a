import CoveFormat.IdentityPlanning
import CoveFormat.PropertyValues

namespace CoveFormat.MaterializedRows

open ByteCodes ExceptRules SortedKeys Grouping JsonValue Temporal ObjectSurface TemporalPushdown
  ExprEval IdentityKeys IdentityPlanning PropertyValues

/-- An object type of the catalog with its properties, whose ids are distinct. -/
structure CatalogType extends ObjectTypeEntryV1 where
  properties : List PropertyEntryV1
  properties_nodup : (properties.map (·.propertyId)).Nodup

structure MapPropertyBinding where
  propertyId : String
  /-- `property_id_from_binding`, a hash of the id. -/
  number : Nat
  (propertyName sourceColumn valueExpression missingPolicy conflictPolicy : String)
  sourcePriority : Option Int
  assertionId : String

inductive SourceOperationKind
  | fact
  | insert
  | upsert
  | patchProperty
  | replaceObjectState
  | closeAssociation
  | expireAndCreate
  | tombstoneObject
  | tombstoneProperty
  | tombstoneAssociation
  | redactEvidence
  | evidenceOnly
  | correction

structure MapRowSemanticRule extends MapRowRule where
  rowSemanticsKind : String
  sourceOperationKind : SourceOperationKind
  recordKind : String
  propertyBindings : List MapPropertyBinding

structure MaterializedProperty where
  entry : PropertyEntryV1
  value : Value
  (assertionId sourceId : String)
  sourceRowIndex : Nat
  sourcePriority : Int
  sourceOrder : Nat
  conflictPolicy : String

def MaterializedProperty.id (p : MaterializedProperty) : Nat := p.entry.propertyId

/-- The properties of a row in the order of their ids. -/
structure PropertyMap where
  entries : List MaterializedProperty
  ordered : entries.Pairwise fun a b => a.id < b.id

namespace PropertyMap

def empty : PropertyMap := ⟨[], .nil⟩

def get? (m : PropertyMap) (propertyId : Nat) : Option MaterializedProperty :=
  m.entries.find? (·.id == propertyId)

def insert (m : PropertyMap) (p : MaterializedProperty) : PropertyMap where
  entries := sortByKey (·.id) (p :: m.entries.filter (·.id ≠ p.id))
  ordered := by
    apply sortByKey_strict
    rw [List.map_cons, List.nodup_cons, List.mem_map]
    constructor
    · rintro ⟨q, hq, hid⟩
      exact of_decide_eq_true (List.mem_filter.mp hq).2 hid
    · exact nodup_keys_of_strict (m.ordered.filter _)

def filter (m : PropertyMap) (keep : MaterializedProperty → Bool) : PropertyMap :=
  ⟨m.entries.filter keep, m.ordered.filter keep⟩

end PropertyMap

structure ObjectRow where
  (goid recordId : Id16)
  objectTypeId : Nat
  (objectType sourceId : String)
  sourceRowIndex : Nat
  recordKind : RecordKind
  properties : PropertyMap

def ObjectRow.value (row : ObjectRow) (propertyId : Nat) : Value :=
  ((row.properties.get? propertyId).map (·.value)).getD .null

/-- What materialization reads of a mapping besides what planning reads. -/
structure MaterializationContext where
  planning : MappingContext
  rowRules : List MapRowSemanticRule
  sourcePriority : String → Option Int
  objectTypes : List CatalogType
  planned_rules : planning.rowRules = rowRules.map (·.toMapRowRule)
  planned_types : planning.objectTypes = objectTypes.map fun t => (t.typeName, t.objectTypeId)
  objectTypes_nodup : (objectTypes.map (·.objectTypeId)).Nodup

structure MaterializedModel where
  objectTypes : List CatalogType
  rows : List ObjectRow

def rowRuleMaterializesObject (rule : MapRowSemanticRule) : Except String Bool :=
  if rule.rowSemanticsKind ∈ ["Object", "EventObject", "LinkObject", "Composite", "Dispatched",
      "KeyValueFragment", "Tombstone"] then .ok true
  else if rule.rowSemanticsKind ∈ ["AssociationOnly", "EvidenceOnly", "ProjectionOnly"] then .ok false
  else .error s!"unsupported row_semantics_kind '{rule.rowSemanticsKind}'"

def recordKindFromName (name : String) : Except String RecordKind :=
  if name ∈ ["delta", "Delta"] then .ok .delta
  else if name ∈ ["snapshot", "Snapshot"] then .ok .snapshot
  else if name ∈ ["baseline", "Baseline", "upsert", "Upsert"] then .ok .baseline
  else if name ∈ ["tombstone", "Tombstone"] then .ok .tombstone
  else .error s!"unsupported COVE-O record kind '{name}'"

def recordKindForRowRule (rule : MapRowSemanticRule) : Except String RecordKind :=
  if rule.rowSemanticsKind = "Tombstone" then .ok .tombstone
  else
    match rule.sourceOperationKind with
    | .patchProperty | .closeAssociation | .expireAndCreate | .redactEvidence | .correction =>
      .ok .delta
    | .replaceObjectState => .ok .snapshot
    | .tombstoneObject | .tombstoneProperty | .tombstoneAssociation => .ok .tombstone
    | .fact | .insert | .upsert | .evidenceOnly => recordKindFromName rule.recordKind

def sourceLabel : List Char := "source.".toList

def expressionColumn (expression : String) (fallbackColumn : Option String) : String :=
  let expression := trim expression
  if sourceLabel.isPrefixOf expression.toList then
    String.ofList (expression.toList.drop sourceLabel.length)
  else if expression = "" then fallbackColumn.getD ""
  else expression

def sourceValueForExpression (row : SourceRow) (expression : String)
    (fallbackColumn : Option String) (missingPolicy label : String) : Except String Value :=
  let column := expressionColumn expression fallbackColumn
  let value := (row.values.lookup column).getD .null
  if ¬ value.isNull then .ok value
  else if missingPolicy = "reject" then
    .error s!"source column '{column}' required by '{label}' is missing/null"
  else .ok .null

def sourceValueForBinding (row : SourceRow) (binding : MapPropertyBinding) : Except String Value :=
  sourceValueForExpression row binding.valueExpression (some binding.sourceColumn)
    binding.missingPolicy binding.propertyName

def validatePropertyConflictPolicy (policy : String) : Except String Unit :=
  rejectIf (policy ∉ ["reject_conflict", "source_priority_wins"])
    s!"unsupported property conflict_policy '{policy}'"

section

variable (context : MaterializationContext)

/-- The priority of a binding, else of its source, else the place of the source in the
catalog; an unknown source has the place `usize::MAX`, which is -1 as an `i64`. -/
def sourcePriorityOf (row : SourceRow) (binding : MapPropertyBinding) : Int :=
  (binding.sourcePriority.or (context.sourcePriority row.sourceId)).getD
    (if context.planning.sources.any (·.sourceId == row.sourceId) then
      (context.planning.sourceOrder row.sourceId : Int) else -1)

def bindProperty (rule : MapRowSemanticRule) (row : SourceRow) (t : CatalogType)
    (properties : PropertyMap) (binding : MapPropertyBinding) : Except String PropertyMap := do
  let entry ← okOr (t.properties.find? (·.propertyId == binding.number))
    s!"row rule '{rule.ruleId}' references undeclared property '{binding.propertyId}'"
  let value ← sourceValueForBinding row binding
  validatePropertyConflictPolicy binding.conflictPolicy
  rejectIf (value.isNull ∧ ¬ entry.nullable)
    s!"non-nullable property '{binding.propertyName}' was null/missing for {row.sourceId}:{row.rowIndex}"
  rejectIf ((properties.get? binding.number).isSome ∧ binding.conflictPolicy = "reject_conflict")
    s!"duplicate materialized value for property '{binding.propertyName}'"
  .ok (properties.insert {
    entry := entry
    value := value
    assertionId := binding.assertionId
    sourceId := row.sourceId
    sourceRowIndex := row.rowIndex
    sourcePriority := sourcePriorityOf context row binding
    sourceOrder := context.planning.sourceOrder row.sourceId
    conflictPolicy := binding.conflictPolicy })

def materializeProperties (rule : MapRowSemanticRule) (row : SourceRow) (t : CatalogType) :
    Except String PropertyMap :=
  rule.propertyBindings.foldlM (bindProperty context rule row t) .empty

/-- `digest` is the first 16 bytes of a SHA-256. -/
def recordIdFor (digest : Bytes → Id16) (sourceId : String) (rowIndex : Nat) (ruleId : String)
    (goid : Id16) : Id16 :=
  digest (asBytes s!"{sourceId}:{rowIndex}:{ruleId}:{hexEncode goid}")

def sourceRowOf (rows : List SourceRow) (identity : PlannedIdentity Id16) : Option SourceRow :=
  (rows.filter fun row =>
    row.sourceId = identity.sourceId ∧ row.rowIndex = identity.rowIndex).getLast?

def materializeObject (digest : Bytes → Id16) (rows : List SourceRow)
    (identity : PlannedIdentity Id16) : Except String (Option ObjectRow) := do
  let rule ← okOr (context.rowRules.find? (·.ruleId == identity.rowRuleId))
    s!"planned row references missing row rule '{identity.rowRuleId}'"
  let row ← okOr (sourceRowOf rows identity) "planned identity references missing source row"
  let materializes ← rowRuleMaterializesObject rule
  if !materializes then .ok none
  else do
    let t ← okOr (context.objectTypes.find? (·.typeName == identity.objectType))
      s!"unknown object type '{identity.objectType}'"
    let properties ← materializeProperties context rule row t
    let kind ← recordKindForRowRule rule
    .ok (some {
      goid := identity.goid
      recordId := recordIdFor digest identity.sourceId identity.rowIndex identity.rowRuleId
        identity.goid
      objectTypeId := t.objectTypeId
      objectType := identity.objectType
      sourceId := identity.sourceId
      sourceRowIndex := identity.rowIndex
      recordKind := kind
      properties := properties })

end

/-- A value for a property of a GOID, with the row it comes from. -/
structure ConflictCandidate where
  rowIndex : Nat
  goid : Id16
  property : MaterializedProperty

def ConflictCandidate.group (c : ConflictCandidate) : Id16 ×ₗ Nat := toLex (c.goid, c.property.id)

def conflictCandidates (rows : List ObjectRow) : List ConflictCandidate :=
  rows.zipIdx.flatMap fun entry => entry.1.properties.entries.map fun p =>
    ⟨entry.2, entry.1.goid, p⟩

def ConflictCandidate.precedence (c : ConflictCandidate) : Int ×ₗ Nat ×ₗ Nat ×ₗ String ×ₗ Nat :=
  toLex (c.property.sourcePriority, toLex (c.property.sourceOrder,
    toLex (c.property.sourceRowIndex, toLex (c.property.assertionId, c.rowIndex))))

-- the order that computes, whatever other orders of the integers are in scope
local instance instPreorderInt : Preorder Int := Int.instLinearOrder.toPreorder

def suppressedCandidates (group : (Id16 ×ₗ Nat) × List ConflictCandidate) :
    Except String (List ConflictCandidate) :=
  if group.2.length ≤ 1 then .ok []
  else
    match (group.2.map (·.property.conflictPolicy)).dedup with
    | [policy] => do
        validatePropertyConflictPolicy policy
        match group.2.filter fun c => !c.property.value.isNull with
        | [] => .ok []
        | first :: others =>
          if policy = "reject_conflict" then do
            rejectIf (others.any fun c => !sameValue c.property.value first.property.value)
              s!"unresolved property conflict for property_id {group.1.2} on {hexEncode group.1.1}"
            .ok (group.2.filter (·.property.value.isNull))
          else
            match (first :: others).argmin (·.precedence) with
            | none => .error "empty source-priority conflict group"
            | some winner =>
              .ok (group.2.filter fun c => c.rowIndex ≠ winner.rowIndex ∨
                c.property.assertionId ≠ winner.property.assertionId)
    | _ => .error
        s!"conflicting policies declared for property_id {group.1.2} on {hexEncode group.1.1}"

def withoutSuppressed (suppressed : List ConflictCandidate) (rows : List ObjectRow) :
    List ObjectRow :=
  rows.zipIdx.map fun entry => { entry.1 with
    properties := entry.1.properties.filter fun p =>
      !suppressed.any fun c => c.rowIndex == entry.2 && c.property.id == p.id }

def resolvePropertyConflicts (rows : List ObjectRow) : Except String (List ObjectRow) := do
  let suppressed ← (grouped ConflictCandidate.group (conflictCandidates rows)).mapM
    suppressedCandidates
  .ok (withoutSuppressed suppressed.flatten rows)

def ObjectRow.isEmpty (row : ObjectRow) : Bool := row.properties.entries.isEmpty

def pruneEmptyShadowRows (rows : List ObjectRow) : List ObjectRow :=
  rows.filter fun row => !(row.isEmpty && rows.any fun other =>
    !other.isEmpty && other.objectTypeId == row.objectTypeId && other.goid == row.goid)

def rowSortKey (row : ObjectRow) : Nat ×ₗ String ×ₗ Nat ×ₗ Nat ×ₗ Nat :=
  toLex (row.objectTypeId, toLex (row.sourceId, toLex (row.sourceRowIndex,
    toLex (row.goid, row.recordId))))

/-- The materialized rows of a mapping; the rows of its associations are given. -/
def materialize (context : MaterializationContext) (keys : KeyLibrary) (goids : GoidLibrary Id16)
    (digest : Bytes → Id16) (associationRows : List ObjectRow) (rows : List SourceRow) :
    Except String MaterializedModel := do
  let plan ← planIdentities goids context.planning keys rows
  let objectRows ← plan.canonical.mapM (materializeObject context digest rows)
  let resolved ← resolvePropertyConflicts (objectRows.filterMap id ++ associationRows)
  .ok ⟨context.objectTypes, sortByKey rowSortKey (pruneEmptyShadowRows resolved)⟩

end CoveFormat.MaterializedRows
