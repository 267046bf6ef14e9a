import CoveFormat.CoveTypes
import CoveFormat.FixedFields

namespace CoveFormat.StateHashes

open ByteCodes ExceptRules FixedFields SelfDelimiting Temporal
open List hiding Vector

def appendLenPrefixed (out bytes : Bytes) : Except CoveError Bytes := do
  rejectIf (2 ^ 32 ≤ bytes.length) .arithOverflow
  .ok (out ++ leBytes 4 bytes.length ++ bytes)

def lenPrefixed (bytes : Bytes) : Bytes := leBytes 4 bytes.length ++ bytes

theorem appendLenPrefixed_ok_iff {out bytes z : Bytes} :
    appendLenPrefixed out bytes = .ok z ↔ bytes.length < 2 ^ 32 ∧ out ++ lenPrefixed bytes = z := by
  simp only [appendLenPrefixed, andThen_eq_ok_iff, rejectIf_eq_ok_iff, not_le, Except.ok.injEq,
    lenPrefixed, append_assoc, exists_const]

theorem lenPrefixed_cancel {a b r s : Bytes} (ha : a.length < 2 ^ 32) (hb : b.length < 2 ^ 32)
    (h : lenPrefixed a ++ r = lenPrefixed b ++ s) : a = b ∧ r = s := by
  rw [lenPrefixed, lenPrefixed, append_assoc, append_assoc] at h
  have hlen := leBytes_separates (k := 4) ha hb h
  exact append_inj (append_inj_right h (by simp)) hlen

def valueVisible : UInt8 := 0
def valueNull : UInt8 := 1
def valueClear : UInt8 := 2
def valueTombstone : UInt8 := 3
def valueRedacted : UInt8 := 4

def tombstoneDeleted : UInt8 := 1

structure CoveObjectDeltaStateHashPropertyV1 where
  propertyId : UInt32
  logicalType : UInt16
  collationId : UInt32
  valueState : UInt8
  (canonicalValue redactionCommitment : Bytes)
  hiddenValueCommitment : Option Bytes

namespace CoveObjectDeltaStateHashPropertyV1

section

variable (p : CoveObjectDeltaStateHashPropertyV1)

def validate : Except CoveError Unit :=
  if p.valueState = valueVisible then
    rejectIf (p.redactionCommitment ≠ [] ∨ p.hiddenValueCommitment.isSome)
      (.badSection "visible state-hash properties cannot carry redaction commitments")
  else if p.valueState = valueNull ∨ p.valueState = valueClear ∨ p.valueState = valueTombstone then
    rejectIf (p.canonicalValue ≠ [] ∨ p.redactionCommitment ≠ [] ∨ p.hiddenValueCommitment.isSome)
      (.badSection "non-visible state-hash properties must not carry value bytes")
  else if p.valueState = valueRedacted then
    rejectIf (p.canonicalValue ≠ [] ∨ p.redactionCommitment = [])
      (.badSection "redacted state-hash properties require only a redaction commitment")
  else .error (.badSection "state-hash property has unknown value_state")

def fields : Fields :=
  [(4, p.propertyId.toNat), (2, p.logicalType.toNat), (4, p.collationId.toNat),
    (1, p.valueState.toNat)]

end

def hiddenBytes : Option Bytes → Bytes
  | some commitment => 1 :: lenPrefixed commitment
  | none => [0]

section

variable (p : CoveObjectDeltaStateHashPropertyV1)

def bytes : Bytes :=
  encodeFields p.fields ++ (lenPrefixed p.canonicalValue ++ (lenPrefixed p.redactionCommitment ++
    hiddenBytes p.hiddenValueCommitment))

/-- The lengths fit their prefixes. -/
def Short : Prop :=
  p.canonicalValue.length < 2 ^ 32 ∧ p.redactionCommitment.length < 2 ^ 32 ∧
    ∀ commitment, p.hiddenValueCommitment = some commitment → commitment.length < 2 ^ 32

theorem fields_fit : Fit p.fields := by
  intro f hf
  simp only [fields, mem_cons, not_mem_nil, or_false] at hf
  rcases hf with rfl | rfl | rfl | rfl
  · exact p.propertyId.toNat_lt
  · exact p.logicalType.toNat_lt
  · exact p.collationId.toNat_lt
  · exact p.valueState.toNat_lt

end

theorem hidden_cancel {a b : Option Bytes} {r s : Bytes}
    (ha : ∀ c, a = some c → c.length < 2 ^ 32) (hb : ∀ c, b = some c → c.length < 2 ^ 32)
    (h : hiddenBytes a ++ r = hiddenBytes b ++ s) : a = b ∧ r = s := by
  cases a with
  | none =>
    cases b with
    | none => exact ⟨rfl, append_cancel_left h⟩
    | some d => cases (List.cons.inj h).1
  | some c =>
    cases b with
    | none => cases (List.cons.inj h).1
    | some d =>
      obtain ⟨rfl, hrs⟩ := lenPrefixed_cancel (ha c rfl) (hb d rfl) (List.cons.inj h).2
      exact ⟨rfl, hrs⟩

theorem bytes_separates (p : CoveObjectDeltaStateHashPropertyV1) :
    Separates (fun p x => p.Short ∧ x = p.bytes) Eq p := by
  rintro q x y r s ⟨hp, rfl⟩ ⟨hq, rfl⟩ h
  simp only [bytes, append_assoc] at h
  obtain ⟨hfields, h⟩ := @encodeFields_cancel p.fields q.fields _ _ rfl p.fields_fit q.fields_fit h
  obtain ⟨hvalue, h⟩ := lenPrefixed_cancel hp.1 hq.1 h
  obtain ⟨hredaction, h⟩ := lenPrefixed_cancel hp.2.1 hq.2.1 h
  obtain ⟨hhidden, -⟩ := hidden_cancel hp.2.2 hq.2.2 h
  simp only [fields, List.cons.injEq, Prod.mk.injEq, true_and, and_true, UInt32.toNat_inj,
    UInt16.toNat_inj, UInt8.toNat_inj] at hfields
  have hpq : p = q := by
    cases p
    cases q
    simp_all
  exact ⟨hpq, by rw [hpq]⟩

end CoveObjectDeltaStateHashPropertyV1

open CoveObjectDeltaStateHashPropertyV1

def appendProperty (out : Bytes) (p : CoveObjectDeltaStateHashPropertyV1) :
    Except CoveError Bytes := do
  let out := out ++ encodeFields p.fields
  let out ← appendLenPrefixed out p.canonicalValue
  let out ← appendLenPrefixed out p.redactionCommitment
  match p.hiddenValueCommitment with
  | some commitment => appendLenPrefixed (out ++ [1]) commitment
  | none => .ok (out ++ [0])

def appendProperties (out : Bytes) :
    List CoveObjectDeltaStateHashPropertyV1 → Except CoveError Bytes
  | [] => .ok out
  | p :: ps => do
      let out ← appendProperty out p
      appendProperties out ps

theorem appendProperty_ok_iff {out z : Bytes} {p : CoveObjectDeltaStateHashPropertyV1} :
    appendProperty out p = .ok z ↔ p.Short ∧ out ++ p.bytes = z := by
  simp only [appendProperty, andThen_eq_ok_iff, appendLenPrefixed_ok_iff, Short, bytes]
  cases p.hiddenValueCommitment with
  | none => simp [and_assoc, hiddenBytes]
  | some commitment => simp [and_assoc, hiddenBytes, appendLenPrefixed_ok_iff]

theorem appendProperties_ok_iff {out z : Bytes} {ps : List CoveObjectDeltaStateHashPropertyV1} :
    appendProperties out ps = .ok z ↔ (∀ p ∈ ps, p.Short) ∧ out ++ (ps.map bytes).flatten = z := by
  induction ps generalizing out with
  | nil => simp [appendProperties]
  | cons p ps ih =>
    simp only [appendProperties, andThen_eq_ok_iff, appendProperty_ok_iff, ih,
      forall_mem_cons, map_cons, flatten_cons]
    constructor
    · rintro ⟨_, ⟨hp, rfl⟩, hps, rfl⟩
      exact ⟨⟨hp, hps⟩, (append_assoc _ _ _).symm⟩
    · rintro ⟨⟨hp, hps⟩, rfl⟩
      exact ⟨_, ⟨hp, rfl⟩, hps, append_assoc _ _ _⟩

abbrev Id16Bytes := Vector UInt8 16

structure CoveObjectDeltaStateHashV1 where
  scopeKind : UInt16
  scopeId : Id16Bytes
  canonicalBranchIdentity : Bytes
  objectTypeId : UInt32
  (goid predecessorRecordId : Id16Bytes)
  predecessorCsn : UInt64
  predecessorTimestampUs : Int64
  recordKind : RecordKind
  tombstoneState : UInt8
  properties : List CoveObjectDeltaStateHashPropertyV1

/-- `COVEDELTA_OBJECT_STATE_HASH_V1` and a zero byte. -/
def stateHashMagic : Bytes :=
  [0x43, 0x4f, 0x56, 0x45, 0x44, 0x45, 0x4c, 0x54, 0x41, 0x5f, 0x4f, 0x42, 0x4a, 0x45, 0x43, 0x54,
    0x5f, 0x53, 0x54, 0x41, 0x54, 0x45, 0x5f, 0x48, 0x41, 0x53, 0x48, 0x5f, 0x56, 0x31, 0]

/-- The loop of `validate`, with the property id before. -/
def validateProperties : Option UInt32 → List CoveObjectDeltaStateHashPropertyV1 →
    Except CoveError Unit
  | _, [] => .ok ()
  | previous, p :: ps => do
      rejectIf (previous.any (p.propertyId ≤ ·))
        (.badSection "state-hash properties must be sorted by unique property_id")
      p.validate
      validateProperties (some p.propertyId) ps

namespace CoveObjectDeltaStateHashV1

variable (state : CoveObjectDeltaStateHashV1)

def validate : Except CoveError Unit := do
  rejectIf (state.recordKind = .reservedLegacyMaterializedDelta)
    (.badSection "state-hash material cannot use reserved legacy record kind")
  rejectIf (tombstoneDeleted < state.tombstoneState)
    (.badSection "state-hash material has unknown tombstone state")
  validateProperties none state.properties

def canonicalMaterial : Except CoveError Bytes := do
  state.validate
  let out := stateHashMagic ++ leBytes 2 state.scopeKind.toNat ++ state.scopeId.toList
  let out ← appendLenPrefixed out state.canonicalBranchIdentity
  let out := out ++ leBytes 4 state.objectTypeId.toNat ++ state.goid.toList ++
    state.predecessorRecordId.toList ++ leBytes 8 state.predecessorCsn.toNat ++
    leBytes 8 state.predecessorTimestampUs.toUInt64.toNat ++ [recordKindByte state.recordKind] ++
    [state.tombstoneState]
  rejectIf (2 ^ 32 ≤ state.properties.length) .arithOverflow
  appendProperties (out ++ leBytes 4 state.properties.length) state.properties

def material : Bytes :=
  stateHashMagic ++ (leBytes 2 state.scopeKind.toNat ++ (state.scopeId.toList ++
    (lenPrefixed state.canonicalBranchIdentity ++ (leBytes 4 state.objectTypeId.toNat ++
      (state.goid.toList ++ (state.predecessorRecordId.toList ++
        (leBytes 8 state.predecessorCsn.toNat ++
          (leBytes 8 state.predecessorTimestampUs.toUInt64.toNat ++
            ([recordKindByte state.recordKind] ++ ([state.tombstoneState] ++
              (leBytes 4 state.properties.length ++
                (state.properties.map bytes).flatten)))))))))))

structure Fits : Prop where
  branch : state.canonicalBranchIdentity.length < 2 ^ 32
  count : state.properties.length < 2 ^ 32
  properties : ∀ p ∈ state.properties, p.Short

variable {state}

theorem canonicalMaterial_ok {z : Bytes} (h : state.canonicalMaterial = .ok z) :
    state.Fits ∧ z = state.material := by
  replace h := rest_ok h
  obtain ⟨out, hbranch, h⟩ := of_andThen h
  obtain ⟨hshort, rfl⟩ := appendLenPrefixed_ok_iff.mp hbranch
  obtain ⟨hcount, h⟩ := of_reject h
  obtain ⟨hproperties, rfl⟩ := appendProperties_ok_iff.mp h
  refine ⟨⟨hshort, not_le.mp hcount, hproperties⟩, ?_⟩
  simp only [material, append_assoc]

theorem leBytes_cancel {k m n : Nat} {r s : Bytes} (hm : m < 256 ^ k) (hn : n < 256 ^ k)
    (h : leBytes k m ++ r = leBytes k n ++ s) : m = n ∧ r = s :=
  ⟨leBytes_separates hm hn h, append_inj_right h (by simp)⟩

theorem id16_cancel {v w : Id16Bytes} {r s : Bytes} (h : v.toList ++ r = w.toList ++ s) :
    v = w ∧ r = s := by
  obtain ⟨hv, hrs⟩ := append_inj h (by simp)
  exact ⟨Vector.toList_inj.mp hv, hrs⟩

theorem int64_inj {a b : Int64} (h : a.toUInt64.toNat = b.toUInt64.toNat) : a = b := by
  have h := UInt64.toNat_inj.mp h
  cases a
  cases b
  exact congrArg _ h

theorem material_inj {s t : CoveObjectDeltaStateHashV1} (hs : s.Fits) (ht : t.Fits)
    (h : s.material = t.material) : s = t := by
  have h := append_cancel_left h
  obtain ⟨hscope, h⟩ := leBytes_cancel s.scopeKind.toNat_lt t.scopeKind.toNat_lt h
  obtain ⟨hscopeId, h⟩ := id16_cancel h
  obtain ⟨hbranch, h⟩ := lenPrefixed_cancel hs.branch ht.branch h
  obtain ⟨htype, h⟩ := leBytes_cancel s.objectTypeId.toNat_lt t.objectTypeId.toNat_lt h
  obtain ⟨hgoid, h⟩ := id16_cancel h
  obtain ⟨hrecord, h⟩ := id16_cancel h
  obtain ⟨hcsn, h⟩ := leBytes_cancel s.predecessorCsn.toNat_lt t.predecessorCsn.toNat_lt h
  obtain ⟨htime, h⟩ := leBytes_cancel s.predecessorTimestampUs.toUInt64.toNat_lt
    t.predecessorTimestampUs.toUInt64.toNat_lt h
  obtain ⟨hkind, h⟩ := List.cons.inj h
  obtain ⟨htombstone, h⟩ := List.cons.inj h
  obtain ⟨hcount, h⟩ := leBytes_cancel (show _ < 256 ^ 4 from hs.count) ht.count h
  have hcodes : ∀ {ps : List CoveObjectDeltaStateHashPropertyV1}, (∀ p ∈ ps, p.Short) →
      Forall₂ (fun p x => p.Short ∧ x = p.bytes) ps (ps.map bytes) := by
    intro ps hps
    rw [forall₂_map_right_iff, forall₂_same]
    exact fun p hp => ⟨hps p hp, rfl⟩
  have h' : (s.properties.map bytes).flatten ++ [] = (t.properties.map bytes).flatten ++ [] := by
    rw [append_nil, append_nil]
    exact h
  obtain ⟨hproperties, -⟩ := separates_sequence (fun p _ => bytes_separates p) hcount
    (hcodes hs.properties) (hcodes ht.properties) h'
  have hkind := recordKindByte_inj hkind
  have htime := int64_inj htime
  cases s
  cases t
  simp_all [UInt16.toNat_inj, UInt32.toNat_inj, UInt64.toNat_inj]

theorem canonical_material_injective {s t : CoveObjectDeltaStateHashV1} {z : Bytes}
    (hs : s.canonicalMaterial = .ok z) (ht : t.canonicalMaterial = .ok z) : s = t := by
  obtain ⟨hsfits, hsz⟩ := canonicalMaterial_ok hs
  obtain ⟨htfits, htz⟩ := canonicalMaterial_ok ht
  exact material_inj hsfits htfits (hsz.symm.trans htz)

def sampleState (properties : List CoveObjectDeltaStateHashPropertyV1) :
    CoveObjectDeltaStateHashV1 where
  scopeKind := 1
  scopeId := Vector.replicate 16 7
  canonicalBranchIdentity := [0x6d]
  objectTypeId := 3
  goid := Vector.replicate 16 9
  predecessorRecordId := Vector.replicate 16 0
  predecessorCsn := 5
  predecessorTimestampUs := -1
  recordKind := .tombstone
  tombstoneState := tombstoneDeleted
  properties := properties

theorem canonical_material_injective_sample :
    let visible := ⟨1, 2, 0, valueVisible, [0x61], [], none⟩
    let redacted := ⟨4, 2, 0, valueRedacted, [], [0xff], some []⟩
    ∃ z, (sampleState [visible, redacted]).canonicalMaterial = .ok z ∧
      (sampleState ([redacted, visible].reverse)).canonicalMaterial = .ok z ∧
      sampleState [visible, redacted] = sampleState [redacted, visible].reverse := by
  intro visible redacted
  have hz : (sampleState [visible, redacted]).canonicalMaterial =
      .ok (sampleState [visible, redacted]).material := by decide +kernel
  exact ⟨_, hz, hz, canonical_material_injective hz hz⟩

end CoveObjectDeltaStateHashV1

end CoveFormat.StateHashes
