import CoveFormat.Reconstruction
import CoveFormat.OrderedMaps

namespace CoveFormat.KernelSurfaceBuilder

open CoveTypes JsonValue List ObjectSurface OrderedMaps Temporal

inductive CoveObjectKernelPropertyValues
  | bool (values : List (Option Bool))
  | i64 (values : List (Option Int))
  | u64 (values : List (Option Nat))
  | f64 (values : List (Option Nat))
  | string (values : List (Option String))
  | json (values : List Value)

/-- The entry of a lane in one row; past the end of the lane it is null. -/
inductive LaneCell
  | null
  | bool (value : Bool)
  | i64 (value : Int)
  | u64 (value : Nat)
  | f64 (bits : Nat)
  | string (value : String)
  | json (value : Value)

def LaneCell.ofJson : Value → LaneCell
  | .null => null
  | value => json value

/-- `values.get(row)` of each kind of lane. -/
def CoveObjectKernelPropertyValues.get (values : CoveObjectKernelPropertyValues) (row : Nat) :
    LaneCell :=
  match values with
  | bool values => (values[row]?.join).elim .null .bool
  | i64 values => (values[row]?.join).elim .null .i64
  | u64 values => (values[row]?.join).elim .null .u64
  | f64 values => (values[row]?.join).elim .null .f64
  | string values => (values[row]?.join).elim .null .string
  | json values => (values[row]?).elim .null .ofJson

def kernelPropertyValues (values : List Value) : CoveObjectKernelPropertyValues :=
  if values.all fun v => v.isNull || v.asBool.isSome then .bool (values.map (·.asBool))
  else if values.all fun v => v.isNull || v.asI64.isSome then .i64 (values.map (·.asI64))
  else if values.all fun v => v.isNull || v.asU64.isSome then .u64 (values.map (·.asU64))
  else if values.all fun v => v.isNull || v.asF64.isSome then .f64 (values.map (·.asF64))
  else if values.all fun v => v.isNull || v.asStr.isSome then .string (values.map (·.asStr))
  else .json values

structure CoveObjectKernelSystemLanes where
  (objectTypeIds segmentIds rowIndices : List Nat)
  timestampUs : List Int
  (csn branchKeys : List Nat)
  (goids recordIds : List Id16)
  recordKinds : List RecordKind
  prevRefs : List (Option CoveRecordRefV1)

def CoveObjectKernelSystemLanes.len (lanes : CoveObjectKernelSystemLanes) : Nat :=
  lanes.objectTypeIds.length

structure CoveObjectKernelPropertyLane (Values : Type) where
  (objectTypeId propertyId : Nat)
  propertyName : String
  logicalType : CoveLogicalType
  physicalKind : CovePhysicalKind
  flags : UInt32
  values : Values

abbrev CoveObjectKernelPropertyLaneBuilder := CoveObjectKernelPropertyLane (List Value)

structure CoveObjectKernelSurface where
  objectTypes : List ObjectTypeEntryV1
  system : CoveObjectKernelSystemLanes
  propertyLanes : List (CoveObjectKernelPropertyLane CoveObjectKernelPropertyValues)

/-- The builder; its lanes are in a `BTreeMap` by object type and property. -/
structure CoveObjectKernelSurfaceBuilder where
  objectTypes : List ObjectTypeEntryV1
  system : CoveObjectKernelSystemLanes
  propertyLanes : OrderedMap (Nat ×ₗ Nat) CoveObjectKernelPropertyLaneBuilder

/-- The arguments of one `push_record`. -/
structure PushedRecord where
  objectType : ObjectTypeEntryV1
  (segmentId rowIndex : Nat)
  row : TemporalRowEntryV1
  properties : List CoveObjectPropertyValue

def newBuilder (objectTypes : List ObjectTypeEntryV1) : CoveObjectKernelSurfaceBuilder :=
  ⟨objectTypes, ⟨[], [], [], [], [], [], [], [], [], []⟩, .empty⟩

def CoveObjectKernelSystemLanes.push (lanes : CoveObjectKernelSystemLanes) (r : PushedRecord) :
    CoveObjectKernelSystemLanes where
  objectTypeIds := lanes.objectTypeIds ++ [r.objectType.objectTypeId]
  segmentIds := lanes.segmentIds ++ [r.segmentId]
  rowIndices := lanes.rowIndices ++ [r.rowIndex]
  timestampUs := lanes.timestampUs ++ [r.row.timestampUs]
  csn := lanes.csn ++ [r.row.csn]
  branchKeys := lanes.branchKeys ++ [r.row.branchKey]
  goids := lanes.goids ++ [r.row.goid]
  recordIds := lanes.recordIds ++ [r.row.recordId]
  recordKinds := lanes.recordKinds ++ [r.row.recordKind]
  prevRefs := lanes.prevRefs ++ [r.row.prevRef]

def pushProperty (objectTypeId rowSlot surfaceLen : Nat)
    (lanes : OrderedMap (Nat ×ₗ Nat) CoveObjectKernelPropertyLaneBuilder)
    (property : CoveObjectPropertyValue) :
    OrderedMap (Nat ×ₗ Nat) CoveObjectKernelPropertyLaneBuilder :=
  lanes.entryOr (toLex (objectTypeId, property.propertyId))
    { objectTypeId
      propertyId := property.propertyId
      propertyName := property.propertyName
      logicalType := property.logicalType
      physicalKind := property.physicalKind
      flags := property.flags
      values := replicate surfaceLen .null }
    fun lane => { lane with values := lane.values.set rowSlot property.value }

def pushRecord (builder : CoveObjectKernelSurfaceBuilder) (r : PushedRecord) :
    CoveObjectKernelSurfaceBuilder :=
  let rowSlot := builder.system.len
  let system := builder.system.push r
  let padded := builder.propertyLanes.mapValues fun lane =>
    { lane with values := lane.values ++ [.null] }
  { builder with
    system
    propertyLanes := r.properties.foldl (pushProperty r.objectType.objectTypeId rowSlot system.len) padded }

def finish (builder : CoveObjectKernelSurfaceBuilder) : CoveObjectKernelSurface where
  objectTypes := builder.objectTypes
  system := builder.system
  propertyLanes := builder.propertyLanes.values.map fun lane =>
    { lane with values := kernelPropertyValues lane.values }

def carriedBy (objectTypeId : Nat) (properties : List CoveObjectPropertyValue) (key : Nat ×ₗ Nat) :
    Value :=
  if objectTypeId = (ofLex key).1 then
    ((properties.filter (·.propertyId = (ofLex key).2)).getLast?.map (·.value)).getD .null
  else .null

def carried (r : PushedRecord) (key : Nat ×ₗ Nat) : Value :=
  carriedBy r.objectType.objectTypeId r.properties key

/-- Some record carries the property. -/
def Carries (records : List PushedRecord) (key : Nat ×ₗ Nat) : Prop :=
  ∃ r ∈ records, ∃ p ∈ r.properties, toLex (r.objectType.objectTypeId, p.propertyId) = key

def systemOf (records : List PushedRecord) : CoveObjectKernelSystemLanes where
  objectTypeIds := records.map (·.objectType.objectTypeId)
  segmentIds := records.map (·.segmentId)
  rowIndices := records.map (·.rowIndex)
  timestampUs := records.map (·.row.timestampUs)
  csn := records.map (·.row.csn)
  branchKeys := records.map (·.row.branchKey)
  goids := records.map (·.row.goid)
  recordIds := records.map (·.row.recordId)
  recordKinds := records.map (·.row.recordKind)
  prevRefs := records.map (·.row.prevRef)

/-- Each lane has one slot for each record, with the value that the record carries. -/
structure Aligned (builder : CoveObjectKernelSurfaceBuilder) (records : List PushedRecord) : Prop where
  system : builder.system = systemOf records
  lane : ∀ key lane, builder.propertyLanes.get key = some lane →
    toLex (lane.objectTypeId, lane.propertyId) = key ∧ lane.values = records.map (carried · key)
  present : ∀ key, (builder.propertyLanes.get key).isSome ↔ Carries records key

section

variable {builder : CoveObjectKernelSurfaceBuilder} {records : List PushedRecord} {r : PushedRecord}

theorem newBuilder_aligned (objectTypes : List ObjectTypeEntryV1) :
    Aligned (newBuilder objectTypes) [] := by
  refine ⟨rfl, fun key lane h => ?_, fun key => ?_⟩
  · cases h
  · refine iff_of_false Bool.false_ne_true ?_
    rintro ⟨r, hr, -⟩
    cases hr

theorem systemOf_push (records : List PushedRecord) (r : PushedRecord) :
    (systemOf records).push r = systemOf (records ++ [r]) := by
  simp [systemOf, CoveObjectKernelSystemLanes.push]

variable {key : Nat ×ₗ Nat}

theorem key_eq_iff {objectTypeId propertyId : Nat} :
    toLex (objectTypeId, propertyId) = key ↔ objectTypeId = (ofLex key).1 ∧ propertyId = (ofLex key).2 :=
  Prod.ext_iff

theorem carriedBy_snoc (objectTypeId : Nat) (properties : List CoveObjectPropertyValue)
    (p : CoveObjectPropertyValue) (key : Nat ×ₗ Nat) :
    carriedBy objectTypeId (properties ++ [p]) key =
      if toLex (objectTypeId, p.propertyId) = key then p.value
      else carriedBy objectTypeId properties key := by
  rw [carriedBy, carriedBy]
  by_cases ht : objectTypeId = (ofLex key).1
  · by_cases hid : p.propertyId = (ofLex key).2
    · rw [if_pos ht, if_pos (key_eq_iff.mpr ⟨ht, hid⟩)]
      simp [filter_append, hid]
    · rw [if_pos ht, if_neg fun h => hid (key_eq_iff.mp h).2, if_pos ht]
      simp [filter_append, hid]
  · rw [if_neg ht, if_neg fun h => ht (key_eq_iff.mp h).1, if_neg ht]

/-- The lanes while the properties of a record are pushed: the slots of the records before, and the
one of this record with what its properties so far carry. -/
structure Filling (lanes : OrderedMap (Nat ×ₗ Nat) CoveObjectKernelPropertyLaneBuilder)
    (records : List PushedRecord) (objectTypeId : Nat) (properties : List CoveObjectPropertyValue) :
    Prop where
  lane : ∀ key lane, lanes.get key = some lane → toLex (lane.objectTypeId, lane.propertyId) = key ∧
    lane.values = records.map (carried · key) ++ [carriedBy objectTypeId properties key]
  present : ∀ key, (lanes.get key).isSome ↔
    Carries records key ∨ ∃ p ∈ properties, toLex (objectTypeId, p.propertyId) = key

variable {lanes : OrderedMap (Nat ×ₗ Nat) CoveObjectKernelPropertyLaneBuilder} {objectTypeId : Nat}
  {properties : List CoveObjectPropertyValue}

theorem carried_of_not_carries (h : ¬ Carries records key) :
    records.map (carried · key) = replicate records.length .null := by
  refine eq_replicate_iff.mpr ⟨length_map _, fun v hv => ?_⟩
  obtain ⟨r, hr, rfl⟩ := mem_map.mp hv
  rw [carried, carriedBy]
  split
  · rename_i ht
    have hnone : r.properties.filter (·.propertyId = (ofLex key).2) = [] := by
      refine filter_eq_nil_iff.mpr fun p hp hid => h ⟨r, hr, p, hp, ?_⟩
      exact key_eq_iff.mpr ⟨ht, of_decide_eq_true hid⟩
    rw [hnone]
    rfl
  · rfl

theorem carriedBy_of_absent (h : ¬ ∃ p ∈ properties, toLex (objectTypeId, p.propertyId) = key) :
    carriedBy objectTypeId properties key = .null := by
  rw [carriedBy]
  split
  · rename_i ht
    have hnone : properties.filter (·.propertyId = (ofLex key).2) = [] := by
      refine filter_eq_nil_iff.mpr fun p hp hid => h ⟨p, hp, ?_⟩
      exact key_eq_iff.mpr ⟨ht, of_decide_eq_true hid⟩
    rw [hnone]
    rfl
  · rfl

theorem pushProperty_filling (p : CoveObjectPropertyValue)
    (h : Filling lanes records objectTypeId properties) :
    Filling (pushProperty objectTypeId records.length (records.length + 1) lanes p) records objectTypeId
      (properties ++ [p]) := by
  refine ⟨fun key lane hlane => ?_, fun key => ?_⟩
  · rw [pushProperty, OrderedMap.get_entryOr] at hlane
    rw [carriedBy_snoc]
    split at hlane
    · rename_i hkey
      cases hlane
      cases hold : lanes.get (toLex (objectTypeId, p.propertyId)) with
      | none =>
        have habsent := (h.present (toLex (objectTypeId, p.propertyId))).not.mp (by simp [hold])
        refine ⟨hkey, ?_⟩
        rw [← hkey, carried_of_not_carries fun hc => habsent (.inl hc)]
        simp [replicate_succ']
      | some old =>
        obtain ⟨hids, hvalues⟩ := h.lane _ _ hold
        refine ⟨hids.trans hkey, ?_⟩
        rw [Option.getD_some, hvalues, ← hkey]
        simp
    · rename_i hkey
      rw [if_neg hkey]
      exact h.lane key lane hlane
  · rw [pushProperty, OrderedMap.get_entryOr]
    by_cases hkey : toLex (objectTypeId, p.propertyId) = key
    · rw [if_pos hkey]
      exact iff_of_true rfl (.inr ⟨p, by simp, hkey⟩)
    · rw [if_neg hkey, h.present key]
      simp [hkey]

variable (properties) in
theorem pushProperties_filling (h : Filling lanes records objectTypeId []) :
    Filling (properties.foldl (pushProperty objectTypeId records.length (records.length + 1)) lanes)
      records objectTypeId properties := by
  induction properties using reverseRecOn with
  | nil => exact h
  | append_singleton properties p ih =>
    rw [List.foldl_append]
    exact pushProperty_filling p ih

theorem pushRecord_aligned (h : Aligned builder records) (r : PushedRecord) :
    Aligned (pushRecord builder r) (records ++ [r]) := by
  have hlen : builder.system.len = records.length := by
    rw [h.system]
    exact length_map _
  have hlen' : (builder.system.push r).len = records.length + 1 := by
    rw [h.system, systemOf_push]
    exact (length_map _).trans (by simp)
  have hpadded : Filling (builder.propertyLanes.mapValues fun lane =>
      { lane with values := lane.values ++ [.null] }) records r.objectType.objectTypeId [] := by
    refine ⟨fun key lane hlane => ?_, fun key => ?_⟩
    · rw [OrderedMap.get_mapValues] at hlane
      obtain ⟨old, hold, rfl⟩ := Option.map_eq_some_iff.mp hlane
      obtain ⟨hids, hvalues⟩ := h.lane key old hold
      refine ⟨hids, ?_⟩
      rw [hvalues, carriedBy_of_absent (by simp)]
    · rw [OrderedMap.get_mapValues, Option.isSome_map, h.present key]
      simp
  have hfilled := pushProperties_filling r.properties hpadded
  refine ⟨?_, fun key lane hlane => ?_, fun key => ?_⟩
  · rw [← systemOf_push, ← h.system]
    rfl
  · rw [pushRecord, hlen, hlen'] at hlane
    rw [map_append]
    exact hfilled.lane key lane hlane
  · rw [pushRecord, hlen, hlen', hfilled.present key]
    simp [Carries, or_and_right, exists_or]

theorem run_aligned (objectTypes : List ObjectTypeEntryV1) (records : List PushedRecord) :
    Aligned (records.foldl pushRecord (newBuilder objectTypes)) records := by
  induction records using reverseRecOn with
  | nil => exact newBuilder_aligned objectTypes
  | append_singleton records r ih =>
    rw [List.foldl_append]
    exact pushRecord_aligned ih r

/-- `CoveObjectKernelPropertyValues::len`. -/
def valuesLen : CoveObjectKernelPropertyValues → Nat
  | .bool values | .i64 values | .u64 values | .f64 values | .string values | .json values => values.length

def integerOf : Number → Option Int
  | .posInt n | .negInt n => some n
  | .float _ => none

/-- The slot of a typed lane holds the JSON value. -/
def Holds : LaneCell → Value → Prop
  | .null, v => v = .null
  | .bool b, v => v = .bool b
  | .i64 n, v => ∃ number, v = .number number ∧ integerOf number = some n
  | .u64 n, v => ∃ number, v = .number number ∧ integerOf number = some (n : Int)
  | .f64 bits, v => v.asF64 = some bits
  | .string text, v => v = .string text
  | .json w, v => v = w

variable {values : List Value} {i : Nat} {v : Value}

theorem kernelPropertyValues_len (values : List Value) :
    valuesLen (kernelPropertyValues values) = values.length := by
  rw [kernelPropertyValues]
  repeat' split
  all_goals simp [valuesLen]

theorem bool_holds (h : v.isNull || v.asBool.isSome) : Holds (v.asBool.elim .null .bool) v := by
  cases v with
  | null | bool => rfl
  | number | string | array | object => cases h

theorem i64_holds (h : v.isNull || v.asI64.isSome) : Holds (v.asI64.elim .null .i64) v := by
  cases v with
  | null => rfl
  | number n =>
    cases n with
    | posInt n =>
      by_cases hn : n < 2 ^ 63
      · rw [Value.asI64, if_pos hn]
        exact ⟨_, rfl, rfl⟩
      · rw [Value.asI64, if_neg hn] at h
        cases h
    | negInt n => exact ⟨_, rfl, rfl⟩
    | float => cases h
  | bool | string | array | object => cases h

theorem u64_holds (h : v.isNull || v.asU64.isSome) : Holds (v.asU64.elim .null .u64) v := by
  cases v with
  | null => rfl
  | number n =>
    cases n with
    | posInt n => exact ⟨_, rfl, rfl⟩
    | negInt | float => cases h
  | bool | string | array | object => cases h

theorem string_holds (h : v.isNull || v.asStr.isSome) : Holds (v.asStr.elim .null .string) v := by
  cases v with
  | null | string => rfl
  | bool | number | array | object => cases h

theorem json_holds (v : Value) : Holds (.ofJson v) v := by
  cases v <;> rfl

theorem kernelPropertyValues_holds (hv : values[i]? = some v)
    (hf64 : ∀ slots, kernelPropertyValues values ≠ .f64 slots) :
    Holds ((kernelPropertyValues values).get i) v := by
  have hmem := mem_of_getElem? hv
  rw [kernelPropertyValues] at hf64 ⊢
  split
  · rename_i hall
    simpa [CoveObjectKernelPropertyValues.get, hv] using bool_holds (all_eq_true.mp hall v hmem)
  · rename_i hbool
    rw [if_neg hbool] at hf64
    split
    · rename_i hall
      simpa [CoveObjectKernelPropertyValues.get, hv] using i64_holds (all_eq_true.mp hall v hmem)
    · rename_i hi64
      rw [if_neg hi64] at hf64
      split
      · rename_i hall
        simpa [CoveObjectKernelPropertyValues.get, hv] using u64_holds (all_eq_true.mp hall v hmem)
      · rename_i hu64
        rw [if_neg hu64] at hf64
        split
        · rename_i hall
          rw [if_pos hall] at hf64
          exact absurd rfl (hf64 _)
        · split
          · rename_i hall
            simpa [CoveObjectKernelPropertyValues.get, hv] using
              string_holds (all_eq_true.mp hall v hmem)
          · simpa [CoveObjectKernelPropertyValues.get, hv] using json_holds v

def laneKey {Values : Type} (lane : CoveObjectKernelPropertyLane Values) : Nat ×ₗ Nat :=
  toLex (lane.objectTypeId, lane.propertyId)

theorem Aligned.mem_finish_iff (h : Aligned builder records)
    {lane : CoveObjectKernelPropertyLane CoveObjectKernelPropertyValues} :
    lane ∈ (finish builder).propertyLanes ↔
      ∃ raw, builder.propertyLanes.get (laneKey lane) = some raw ∧
        lane = { raw with values := kernelPropertyValues raw.values } := by
  rw [finish]
  simp only [mem_map, OrderedMap.values]
  constructor
  · rintro ⟨raw, ⟨⟨key, raw'⟩, hentry, rfl⟩, rfl⟩
    have hget := OrderedMap.mem_entries_iff.mp hentry
    obtain ⟨hkey, -⟩ := h.lane key raw' hget
    exact ⟨raw', hkey ▸ hget, rfl⟩
  · rintro ⟨raw, hraw, heq⟩
    exact ⟨raw, ⟨_, OrderedMap.mem_entries_iff.mpr hraw, rfl⟩, heq.symm⟩

theorem Aligned.keys_finish (h : Aligned builder records) :
    (finish builder).propertyLanes.map laneKey = builder.propertyLanes.keys := by
  rw [finish, map_map, OrderedMap.values, map_map, OrderedMap.keys]
  refine map_congr_left fun entry hentry => ?_
  exact (h.lane entry.1 entry.2 (OrderedMap.mem_entries_iff.mp hentry)).1

/-- After any run of pushes each system lane and each property lane has one slot a record, a property
lane for each property that some record carries, and in the lanes that are not of doubles each slot
is the value of its record. -/
theorem kernel_lanes_aligned (objectTypes : List ObjectTypeEntryV1) (records : List PushedRecord) :
    let surface := finish (records.foldl pushRecord (newBuilder objectTypes))
    surface.system = systemOf records ∧ (surface.propertyLanes.map laneKey).Pairwise (· < ·) ∧
      (∀ key, key ∈ surface.propertyLanes.map laneKey ↔ Carries records key) ∧
      ∀ lane ∈ surface.propertyLanes, valuesLen lane.values = records.length ∧
        ((∀ slots, lane.values ≠ .f64 slots) → ∀ i r, records[i]? = some r →
          Holds (lane.values.get i) (carried r (laneKey lane))) := by
  intro surface
  have h := run_aligned objectTypes records
  refine ⟨h.system, ?_, fun key => ?_, fun lane hlane => ?_⟩
  · rw [h.keys_finish]
    exact OrderedMap.sorted _
  · rw [h.keys_finish, OrderedMap.mem_keys_iff, h.present key]
  · obtain ⟨raw, hraw, heq⟩ := h.mem_finish_iff.mp hlane
    obtain ⟨-, hvalues⟩ := h.lane _ raw hraw
    have hlane : lane.values = kernelPropertyValues (records.map (carried · (laneKey lane))) := by
      rw [← hvalues, heq]
    rw [hlane]
    refine ⟨by rw [kernelPropertyValues_len, length_map], fun hf64 i r hr => ?_⟩
    exact kernelPropertyValues_holds (by rw [List.getElem?_map, hr]; rfl) hf64

end

end CoveFormat.KernelSurfaceBuilder
