import CoveFormat.SortedKeys
import CoveFormat.CoveTypes
import Mathlib.Data.Finmap
import Mathlib.Data.Prod.Lex

namespace CoveFormat.SparsePatch

open SortedKeys Temporal

def deltaPropertyOpSetValue : Nat := 0
def deltaPropertyOpSetNull : Nat := 1
def deltaPropertyOpClear : Nat := 2
def deltaPropertyOpTombstone : Nat := 3
def deltaPropertyOpRedact : Nat := 4

def deltaTombstoneKindObject : Nat := 0
def deltaTombstoneKindProperty : Nat := 1
def deltaTombstoneKindAssociation : Nat := 2
def deltaTombstoneKindEvidence : Nat := 3
def deltaTombstoneKindProjectionRow : Nat := 4
def deltaTombstoneKindNone : Nat := 255

def deltaRefNone : Nat := 4294967295

structure DeltaSparsePatchPropertyOpV1 where
  (propertyId propertyOp tombstoneKind valueRef redactionRef flags : Nat)

inductive DeltaSparsePatchPropertyStateV1
  | valueRef (ref : Nat)
  | null
  | clear
  | tombstone (kind : Nat)
  | redacted (redactionRef : Nat)

structure DeltaSparseObjectKeyV1 where
  scopeKind : Nat
  scopeId : Id16
  (branchIdentityRef objectTypeId : Nat)
  goid : Id16
  deriving DecidableEq

inductive DeltaSparseObjectTombstoneStatusV1
  | live
  | tombstoned
  deriving DecidableEq

/-- `BTreeMap<u32, DeltaSparsePatchPropertyStateV1>`. -/
abbrev PropertyStates := Finmap (fun _ : Nat => DeltaSparsePatchPropertyStateV1)

structure DeltaSparseObjectStateV1 where
  key : DeltaSparseObjectKeyV1
  latestRecordId : Id16
  latestTimestampUs : Int
  latestCsn : Nat
  latestRecordKind : RecordKind
  tombstoneStatus : DeltaSparseObjectTombstoneStatusV1
  properties : PropertyStates

namespace DeltaSparsePatchPropertyOpV1

variable (p : DeltaSparsePatchPropertyOpV1)

def validate : Except CoveError Unit :=
  if p.flags ≠ 0 then .error .reservedNotZero
  else if p.propertyOp = deltaPropertyOpSetValue then
    if p.tombstoneKind ≠ deltaTombstoneKindNone then
      .error (.badSection "SetValue sparse patch operation cannot carry a tombstone kind")
    else if p.valueRef = deltaRefNone then
      .error (.badSection "SetValue sparse patch operation requires value_ref")
    else if p.redactionRef ≠ deltaRefNone then
      .error (.badSection "SetValue sparse patch operation cannot carry redaction_ref")
    else .ok ()
  else if p.propertyOp = deltaPropertyOpSetNull ∨ p.propertyOp = deltaPropertyOpClear then
    if p.tombstoneKind ≠ deltaTombstoneKindNone ∨ p.valueRef ≠ deltaRefNone ∨
        p.redactionRef ≠ deltaRefNone then
      .error (.badSection "null/clear sparse patch operations must not carry payload refs")
    else .ok ()
  else if p.propertyOp = deltaPropertyOpTombstone then
    if p.tombstoneKind ∉ [deltaTombstoneKindObject, deltaTombstoneKindProperty,
        deltaTombstoneKindAssociation, deltaTombstoneKindEvidence,
        deltaTombstoneKindProjectionRow] then
      .error (.badSection "Tombstone sparse patch operation has unknown tombstone_kind")
    else if p.valueRef ≠ deltaRefNone ∨ p.redactionRef ≠ deltaRefNone then
      .error (.badSection "Tombstone sparse patch operation must not carry payload refs")
    else .ok ()
  else if p.propertyOp = deltaPropertyOpRedact then
    if p.tombstoneKind ≠ deltaTombstoneKindNone then
      .error (.badSection "Redact sparse patch operation cannot carry a tombstone kind")
    else if p.valueRef ≠ deltaRefNone ∨ p.redactionRef = deltaRefNone then
      .error (.badSection "Redact sparse patch operation requires only redaction_ref")
    else .ok ()
  else .error (.badSection "sparse patch operation has unknown property_op")

def propertyState : Except CoveError DeltaSparsePatchPropertyStateV1 :=
  p.validate.bind fun _ =>
    if p.propertyOp = deltaPropertyOpSetValue then .ok (.valueRef p.valueRef)
    else if p.propertyOp = deltaPropertyOpSetNull then .ok .null
    else if p.propertyOp = deltaPropertyOpClear then .ok .clear
    else if p.propertyOp = deltaPropertyOpTombstone then .ok (.tombstone p.tombstoneKind)
    else if p.propertyOp = deltaPropertyOpRedact then .ok (.redacted p.redactionRef)
    else .error (.badSection "sparse patch operation has unknown property_op")

end DeltaSparsePatchPropertyOpV1

structure DeltaSparsePatchRecordV1 where
  scopeKind : Nat
  scopeId : Id16
  (branchIdentityRef objectTypeId : Nat)
  (goid recordId : Id16)
  timestampUs : Int
  csn : Nat
  recordKind : RecordKind
  flags : Nat
  changedProperties : List DeltaSparsePatchPropertyOpV1

/-- The loop of `DeltaSparsePatchRecordV1::validate` over the changed properties. -/
def validateProperties : Option Nat → List DeltaSparsePatchPropertyOpV1 → Except CoveError Unit
  | _, [] => .ok ()
  | previousPropertyId, p :: ps =>
    if previousPropertyId.any (p.propertyId ≤ ·) then
      .error (.badSection "sparse patch properties must be sorted by unique property_id")
    else p.validate.bind fun _ => validateProperties (some p.propertyId) ps

/-- The loop of `apply_to_property_state`. -/
def applyProperties : List DeltaSparsePatchPropertyOpV1 → PropertyStates →
    Except CoveError PropertyStates
  | [], state => .ok state
  | p :: ps, state =>
    p.propertyState.bind fun s => applyProperties ps (state.insert p.propertyId s)

namespace DeltaSparsePatchRecordV1

variable (r : DeltaSparsePatchRecordV1)

def objectKey : DeltaSparseObjectKeyV1 :=
  ⟨r.scopeKind, r.scopeId, r.branchIdentityRef, r.objectTypeId, r.goid⟩

def validate : Except CoveError Unit :=
  if r.flags ≠ 0 then .error .reservedNotZero
  else if r.recordKind = .reservedLegacyMaterializedDelta then
    .error (.badSection "sparse patch record cannot use reserved legacy record kind")
  else if r.changedProperties = [] then
    .error (.badSection "sparse patch record requires changed properties")
  else validateProperties none r.changedProperties

def applyToPropertyState (state : PropertyStates) : Except CoveError PropertyStates :=
  r.validate.bind fun _ => applyProperties r.changedProperties state

end DeltaSparsePatchRecordV1

def sparseRecordTombstoneStatus (r : DeltaSparsePatchRecordV1) :
    DeltaSparseObjectTombstoneStatusV1 :=
  let hasObjectTombstoneOp := r.changedProperties.any fun p =>
    p.propertyOp == deltaPropertyOpTombstone && p.tombstoneKind == deltaTombstoneKindObject
  if r.recordKind = .tombstone ∨ hasObjectTombstoneOp then .tombstoned else .live

/-- `BTreeMap<DeltaSparseObjectKeyV1, DeltaSparseObjectStateV1>`. -/
abbrev StateTable := Finmap (fun _ : DeltaSparseObjectKeyV1 => DeltaSparseObjectStateV1)

/-- The variables of the reconstruction loop. -/
structure Reconstruction where
  seenRecordIds : Finset (DeltaSparseObjectKeyV1 × Id16)
  seenObjectCsns : Finset (DeltaSparseObjectKeyV1 × Nat)
  states : StateTable

def Reconstruction.start : Reconstruction := ⟨∅, ∅, ∅⟩

def writeState (r : DeltaSparsePatchRecordV1) (properties : PropertyStates) :
    DeltaSparseObjectStateV1 :=
  ⟨r.objectKey, r.recordId, r.timestampUs, r.csn, r.recordKind, sparseRecordTombstoneStatus r,
    properties⟩

def keptProperties (states : StateTable) (key : DeltaSparseObjectKeyV1) : PropertyStates :=
  ((states.lookup key).map DeltaSparseObjectStateV1.properties).getD ∅

def Reconstruction.step (s : Reconstruction) (r : DeltaSparsePatchRecordV1) :
    Except CoveError Reconstruction :=
  r.validate.bind fun _ =>
    if (r.objectKey, r.recordId) ∈ s.seenRecordIds then
      .error (.badSection
        "COVEDELTA sparse state reconstruction found duplicate record_id for object")
    else if (r.objectKey, r.csn) ∈ s.seenObjectCsns then
      .error (.badSection "COVEDELTA sparse state reconstruction found duplicate CSN for object")
    else
      (r.applyToPropertyState (keptProperties s.states r.objectKey)).map fun properties =>
        ⟨insert (r.objectKey, r.recordId) s.seenRecordIds,
          insert (r.objectKey, r.csn) s.seenObjectCsns,
          s.states.insert r.objectKey (writeState r properties)⟩

def Reconstruction.run : Reconstruction → List DeltaSparsePatchRecordV1 →
    Except CoveError Reconstruction
  | s, [] => .ok s
  | s, r :: rs => (s.step r).bind fun s => s.run rs

def recordOrder (r : DeltaSparsePatchRecordV1) : ℕ ×ₗ ℤ ×ₗ ℕ :=
  toLex (r.csn, toLex (r.timestampUs, r.recordId))

def reconstructSparsePatchStateTable (records : List DeltaSparsePatchRecordV1) :
    Except CoveError StateTable :=
  (Reconstruction.start.run (sortByKey recordOrder records)).map Reconstruction.states

end CoveFormat.SparsePatch
