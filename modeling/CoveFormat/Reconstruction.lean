import CoveFormat.ObjectSurface
import Mathlib.Data.Prod.Lex

namespace CoveFormat.Reconstruction

open ExceptRules SortedKeys Grouping JsonValue Temporal ObjectSurface

structure CoveObjectReconstructionOptions where
  temporalCut : CoveObjectTemporalCut := .latestCommitted
  branchKey : Option Nat := none
  includeTombstones : Bool := false

section

variable (r : CoveObjectRecord)

def recordVisibleAtCut : CoveObjectTemporalCut → Bool
  | .latestCommitted => true
  | .timestampUs value => r.timestampUs ≤ value
  | .csn value => r.csn ≤ value

def recordSortKey : Int ×ₗ Nat ×ₗ Nat ×ₗ Nat ×ₗ Nat :=
  toLex (r.timestampUs, toLex (r.csn, toLex (r.segmentId, toLex (r.rowIndex, r.recordId))))

def objectKey : Nat ×ₗ Nat ×ₗ Nat :=
  toLex (r.objectTypeId, toLex (r.branchKey, r.goid))

def address : Nat × Nat := (r.segmentId, r.rowIndex)

end

def target (ref : CoveRecordRefV1) : Nat × Nat := (ref.segmentId, ref.rowIndex)

section

variable (records : List CoveObjectRecord)

def byRef (a : Nat × Nat) : Option CoveObjectRecord :=
  (records.filter fun r => address r = a).getLast?

def validatePrevRef (r : CoveObjectRecord) : Except CoveError Unit :=
  match r.prevRef with
  | none => .ok ()
  | some ref => do
      rejectIf (1 < ref.targetKind) .refInvalid
      match byRef records (target ref) with
      | none => .error .refInvalid
      | some prev => rejectIf (prev.objectTypeId ≠ r.objectTypeId ∨ prev.branchKey ≠ r.branchKey ∨
          prev.goid ≠ r.goid ∨ recordSortKey r ≤ recordSortKey prev) .refInvalid

def validatePrevRefs : Except CoveError Unit :=
  checkAll (validatePrevRef records) records

end

def validateRecordChainStep (r : CoveObjectRecord) (current : Option CoveObjectState) :
    Except CoveError Unit :=
  match r.prevRef, current with
  | none, _ => .ok ()
  | some _, none => .error .refInvalid
  | some ref, some state =>
    rejectIf (state.latestSegmentId ≠ ref.segmentId ∨ state.latestRowIndex ≠ ref.rowIndex)
      .refInvalid

def stateFromFullRecord (r : CoveObjectRecord) : CoveObjectState where
  objectTypeId := r.objectTypeId
  objectTypeName := r.objectTypeName
  objectTypeFlags := r.objectTypeFlags
  branchKey := r.branchKey
  goid := r.goid
  latestRecordId := r.recordId
  latestSegmentId := r.segmentId
  latestRowIndex := r.rowIndex
  timestampUs := r.timestampUs
  csn := r.csn
  recordKind := r.recordKind
  tombstoneStatus := if r.recordKind = .tombstone then .tombstoned else .live
  properties := r.properties
  association := r.association

def advance (s : CoveObjectState) (r : CoveObjectRecord) : CoveObjectState :=
  { s with
    latestRecordId := r.recordId
    latestSegmentId := r.segmentId
    latestRowIndex := r.rowIndex
    timestampUs := r.timestampUs
    csn := r.csn
    recordKind := r.recordKind }

def upsertProperty (p : CoveObjectPropertyValue) :
    List CoveObjectPropertyValue → List CoveObjectPropertyValue
  | [] => [p]
  | existing :: rest =>
    if existing.propertyId = p.propertyId then p :: rest else existing :: upsertProperty p rest

def upsertProperties (properties updates : List CoveObjectPropertyValue) :
    List CoveObjectPropertyValue :=
  updates.foldl (fun acc p => upsertProperty p acc) properties

section

variable (render : Value → String)

def associationMetadataFromState (s : CoveObjectState) : Option CoveAssociationMetadata :=
  associationMetadata render ⟨s.objectTypeId, s.objectTypeName, s.objectTypeFlags⟩ s.properties

def applyDeltaRecord (s : CoveObjectState) (r : CoveObjectRecord) : CoveObjectState :=
  let updated := { advance s r with
    tombstoneStatus := .live
    properties := upsertProperties s.properties r.properties }
  { updated with association := associationMetadataFromState render updated }

def foldRecord (current : Option CoveObjectState) (r : CoveObjectRecord) :
    Except CoveError CoveObjectState := do
  validateRecordChainStep r current
  match r.recordKind, current with
  | .baseline, _ | .snapshot, _ => .ok (stateFromFullRecord r)
  | .delta, some s => .ok (applyDeltaRecord render s r)
  | .delta, none => .ok (stateFromFullRecord r)
  | .tombstone, some s => .ok { advance s r with tombstoneStatus := .tombstoned }
  | .tombstone, none => .ok { stateFromFullRecord r with tombstoneStatus := .tombstoned }
  | .reservedLegacyMaterializedDelta, _ =>
    .error (.badSchema "reserved legacy materialized delta cannot be reconstructed")

def foldRecords : Option CoveObjectState → List CoveObjectRecord →
    Except CoveError (Option CoveObjectState)
  | current, [] => .ok current
  | current, r :: rs => (foldRecord render current r).bind fun s => foldRecords (some s) rs

def isReported (options : CoveObjectReconstructionOptions) (s : CoveObjectState) : Bool :=
  options.includeTombstones || s.tombstoneStatus == .live

def reconstructGroups (options : CoveObjectReconstructionOptions) :
    List ((Nat ×ₗ Nat ×ₗ Nat) × List CoveObjectRecord) → Except CoveError (List CoveObjectState)
  | [] => .ok []
  | (_, records) :: groups => do
      let current ← foldRecords render none (sortByKey recordSortKey records)
      let states ← reconstructGroups options groups
      .ok ((current.filter (isReported options)).toList ++ states)

def isSelected (options : CoveObjectReconstructionOptions) (r : CoveObjectRecord) : Bool :=
  options.branchKey.all (r.branchKey == ·) && recordVisibleAtCut r options.temporalCut

def stateObject (s : CoveObjectState) : Nat ×ₗ Nat ×ₗ Nat :=
  toLex (s.objectTypeId, toLex (s.branchKey, s.goid))

def stateSortKey (s : CoveObjectState) : (Nat ×ₗ Nat ×ₗ Nat) ×ₗ Int ×ₗ Nat :=
  toLex (stateObject s, toLex (s.timestampUs, s.csn))

def reconstructObjectStates (records : List CoveObjectRecord)
    (options : CoveObjectReconstructionOptions) : Except CoveError (List CoveObjectState) := do
  validatePrevRefs records
  let states ← reconstructGroups render options
    (grouped objectKey (records.filter (isSelected options)))
  .ok (sortByKey stateSortKey states)

end

end CoveFormat.Reconstruction
