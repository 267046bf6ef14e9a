import CoveFormat.AsOfPruning
import CoveFormat.DeltaSkips

namespace CoveFormat.DeltaAppends

open ExceptRules JsonValue Temporal ObjectSurface Reconstruction TemporalPushdown AsOfPruning
  DeltaRecords DeltaFile ObjectDelta DeltaSkips List Except

variable {σ : Type} {offset : Nat}

/-- The options of a reader that decide which records it makes. -/
structure CoveObjectReadOptions where
  requestedObjectTypeNames : List String := []
  includeProjectionCatalog : Bool := true
  includeAssociationObjectTypes : Bool := false
  includeRecords : Bool := true
  includeEvidenceIndex : Bool := true

def CoveObjectReadOptions.requestsObjectType (o : CoveObjectReadOptions) (t : ObjectTypeEntryV1) :
    Bool :=
  if o.requestedObjectTypeNames.any (· == t.typeName) then true
  else if o.includeAssociationObjectTypes && objectTypeIsAssociationLike t then true
  else o.requestedObjectTypeNames.isEmpty && !o.includeAssociationObjectTypes

def objectTypeById (id : Nat) :
    List ObjectTypeEntryV1 → Option { t : ObjectTypeEntryV1 // t.objectTypeId = id }
  | [] => none
  | t :: ts =>
    (objectTypeById id ts).or (if h : t.objectTypeId = id then some ⟨t, h⟩ else none)

/-- What reading a delta does besides making records of its rows. The state holds the rest of the
surface, the effective catalog and the dictionaries of the parents. -/
structure DeltaReader (σ : Type) where
  appendEvidencePatches : σ → List MapEvidenceIndex → Except CoveError σ
  appendProjectionPatches : σ → List MapProjectionCatalog → Except CoveError σ
  applyCatalogPatches : σ → List ObjectTypeCatalogPatch → Except CoveError σ
  objectTypes : σ → List ObjectTypeEntryV1
  openDictionary : σ → CoveDeltaFile → DeltaContents → Except CoveError σ
  decodeColumns : σ → (segment : TemporalSegmentData) → ObjectTypeEntryV1 →
    Except CoveError { values : List (List CoveObjectPropertyValue) //
      values.length = segment.rows.length }
  keepDictionary : σ → CoveDeltaFile → σ

structure CoveObjectSurface (σ : Type) where
  records : List CoveObjectRecord
  rest : σ

def checkedSegmentIdAdd (segmentId offset : Nat) (context : String) : Except CoveError Nat := do
  rejectIf (2 ^ 32 ≤ segmentId + offset) (.badSchema context)
  .ok (segmentId + offset)

def nextAvailableSegmentId : Nat → List CoveObjectRecord → Except CoveError Nat
  | next, [] => .ok next
  | next, r :: rs => do
      let candidate ← checkedSegmentIdAdd r.segmentId 1
        "base temporal segment_id overflow during delta readback"
      nextAvailableSegmentId (max next candidate) rs

def remapRecordSegmentRefs (offset : Nat) (r : CoveObjectRecord) :
    Except CoveError CoveObjectRecord := do
  let segmentId ← checkedSegmentIdAdd r.segmentId offset
    "delta record segment_id overflow during base readback"
  match r.prevRef with
  | none => .ok { r with segmentId := segmentId }
  | some ref => do
      let prevSegmentId ← checkedSegmentIdAdd ref.segmentId offset
        "delta record prev_ref segment_id overflow during base readback"
      .ok { r with
        segmentId := segmentId
        prevRef := some { ref with segmentId := prevSegmentId } }

/-- `if b { x = update(x)?; }`. -/
def updateIf {α : Type} (b : Bool) (x : α) (update : α → Except CoveError α) : Except CoveError α :=
  if b then update x else .ok x

/-- The local variables of the loop over the segments of a delta. -/
structure SegmentLoop where
  records : List CoveObjectRecord
  maxRemappedSegmentId : Option Nat

section

variable (render : Value → String) (reader : DeltaReader σ) (options : CoveObjectReadOptions)

def appendSegment (rest : σ) (offset : Nat) (loop : SegmentLoop) (segment : TemporalSegmentData) :
    Except CoveError SegmentLoop := do
  let remapped ← checkedSegmentIdAdd segment.header.segmentId offset
    "delta temporal segment_id overflow during base readback"
  let maxRemapped := (loop.maxRemappedSegmentId.map (max · remapped)).getD remapped
  match objectTypeById segment.header.objectTypeId (reader.objectTypes rest) with
  | none => .error (.badSchema ("delta temporal segment references missing object_type_id " ++
      toString segment.header.objectTypeId))
  | some ⟨t, typed⟩ =>
    if ¬ options.requestsObjectType t then
      .ok { loop with maxRemappedSegmentId := some maxRemapped }
    else do
      let ⟨values, aligned⟩ ← reader.decodeColumns rest segment t
      let records ← (recordsFromSegment render {} ⟨segment, t, values, typed, aligned⟩).mapM
        (remapRecordSegmentRefs offset)
      .ok ⟨loop.records ++ records, some maxRemapped⟩

def segmentIdAfter (next : Nat) : Option Nat → Except CoveError Nat
  | some maxRemapped =>
    checkedSegmentIdAdd maxRemapped 1 "delta temporal segment_id overflow after base readback"
  | none => .ok next

/-- The local variables of the loop over the deltas. -/
structure DeltaLoop (σ : Type) where
  surface : CoveObjectSurface σ
  nextSegmentId : Nat

def appendDelta (loop : DeltaLoop σ) (f : CoveDeltaFile) : Except CoveError (DeltaLoop σ) :=
  if f.sections.isEmpty then .ok loop
  else do
    let validation ← validateObjectDelta f
    let rest ← updateIf options.includeEvidenceIndex loop.surface.rest
      (reader.appendEvidencePatches · validation.contents.evidencePatches)
    let rest ← updateIf options.includeProjectionCatalog rest
      (reader.appendProjectionPatches · validation.contents.projectionPatches)
    if ¬ options.includeRecords then .ok { loop with surface := { loop.surface with rest := rest } }
    else do
      let rest ← reader.applyCatalogPatches rest validation.contents.catalogPatches
      let rest ← reader.openDictionary rest f validation.contents
      let segments ← validation.contents.temporalSegments.foldlM
        (appendSegment render reader options rest loop.nextSegmentId)
        ⟨loop.surface.records, none⟩
      let nextSegmentId ← segmentIdAfter loop.nextSegmentId segments.maxRemappedSegmentId
      .ok ⟨⟨segments.records, reader.keepDictionary rest f⟩, nextSegmentId⟩

def appendDeltaRecordsToObjectSurface (surface : CoveObjectSurface σ)
    (deltaFiles : List CoveDeltaFile) : Except CoveError (CoveObjectSurface σ) :=
  if !options.includeRecords && !options.includeEvidenceIndex &&
      !options.includeProjectionCatalog then .ok surface
  else do
    let next ← updateIf options.includeRecords 0 (nextAvailableSegmentId · surface.records)
    let loop ← deltaFiles.foldlM (appendDelta render reader options) ⟨surface, next⟩
    .ok loop.surface

end

theorem checkedSegmentIdAdd_ok {segmentId id : Nat} {context : String}
    (h : checkedSegmentIdAdd segmentId offset context = .ok id) : id = segmentId + offset := by
  replace h := rest_ok h
  exact (ok.inj h).symm

theorem nextAvailableSegmentId_ok {records : List CoveObjectRecord} {next found : Nat}
    (h : nextAvailableSegmentId next records = .ok found) :
    next ≤ found ∧ ∀ r ∈ records, r.segmentId < found := by
  induction records generalizing next with
  | nil =>
    cases h
    exact ⟨le_rfl, forall_mem_nil _⟩
  | cons r rs ih =>
    obtain ⟨candidate, hcandidate, h⟩ := of_andThen h
    obtain rfl := checkedSegmentIdAdd_ok hcandidate
    obtain ⟨hle, hall⟩ := ih h
    exact ⟨(le_max_left _ _).trans hle,
      forall_mem_cons.mpr ⟨Nat.lt_of_succ_le ((le_max_right _ _).trans hle), hall⟩⟩

/-- What remapping does to a record: its address and the target of its previous record move by
the offset. -/
structure Remapped (offset : Nat) (r s : CoveObjectRecord) : Prop where
  address : address s = (r.segmentId + offset, r.rowIndex)
  prevRef : ∀ ref, s.prevRef = some ref → offset ≤ ref.segmentId

theorem remapRecordSegmentRefs_ok {r s : CoveObjectRecord}
    (h : remapRecordSegmentRefs offset r = .ok s) : Remapped offset r s := by
  obtain ⟨id, hid, h⟩ := of_andThen h
  obtain rfl := checkedSegmentIdAdd_ok hid
  split at h
  · rename_i hnone
    cases h
    exact ⟨rfl, fun ref href => absurd (hnone.symm.trans href) nofun⟩
  · obtain ⟨prevId, hprev, h⟩ := of_andThen h
    obtain rfl := checkedSegmentIdAdd_ok hprev
    cases h
    refine ⟨rfl, fun ref href => ?_⟩
    cases href
    exact Nat.le_add_left _ _

def rowAddresses (offset : Nat) (s : TemporalSegmentData) : List (Nat × Nat) :=
  (range s.rows.length).map fun i => (s.header.segmentId + offset, i)

theorem recordsFromSegment_addresses (render : Value → String) (s : SegmentSurface) :
    (recordsFromSegment render {} s).map address = rowAddresses 0 s.segment := by
  have hlen : (s.segment.rows.zip s.valuesByRow).length = s.segment.rows.length := by
    rw [length_zip, s.aligned, min_self]
  rw [recordsFromSegment_default, map_map, rowAddresses, ← hlen, range_eq_range',
    ← zipIdx_map_snd 0, map_map]
  rfl

theorem rowAddresses_shift (offset : Nat) (s : TemporalSegmentData) :
    (rowAddresses 0 s).map (fun a => (a.1 + offset, a.2)) = rowAddresses offset s := by
  rw [rowAddresses, rowAddresses, map_map]
  rfl

/-- Records added for segments at an offset: the addresses of their rows, and previous records at
or above the offset. -/
structure AddedFor (offset : Nat) (segments : List TemporalSegmentData)
    (added : List CoveObjectRecord) : Prop where
  addresses : added.map address = segments.flatMap (rowAddresses offset)
  prevRef : ∀ r ∈ added, ∀ ref, r.prevRef = some ref → offset ≤ ref.segmentId

theorem AddedFor.append {ss ts : List TemporalSegmentData} {xs ys : List CoveObjectRecord}
    (hx : AddedFor offset ss xs) (hy : AddedFor offset ts ys) :
    AddedFor offset (ss ++ ts) (xs ++ ys) where
  addresses := by rw [map_append, hx.addresses, hy.addresses, flatMap_append]
  prevRef := fun r hr => (mem_append.mp hr).elim (hx.prevRef r) (hy.prevRef r)

section

variable {render : Value → String} {reader : DeltaReader σ} {options : CoveObjectReadOptions}
  {rest : σ} {loop loop' : SegmentLoop}

theorem addedFor_segment {s : SegmentSurface} {added : List CoveObjectRecord}
    (h : (recordsFromSegment render {} s).mapM (remapRecordSegmentRefs offset) = .ok added) :
    AddedFor offset [s.segment] added where
  addresses := by
    have hmap : (recordsFromSegment render {} s).map
        (fun r => ((address r).1 + offset, (address r).2)) = added.map address :=
      map_eq_of_forall₂ (forall₂_of_mapM h) fun r t hr =>
        (remapRecordSegmentRefs_ok hr).address.symm
    rw [← hmap, flatMap_singleton, ← rowAddresses_shift, ← recordsFromSegment_addresses render,
      map_map]
    rfl
  prevRef := fun r hr => by
    obtain ⟨t, -, ht⟩ := exists_of_mem_mapM h hr
    exact (remapRecordSegmentRefs_ok ht).prevRef

/-- The greatest id that the loop knows is not below the ids of these segments. -/
structure Reaches (offset : Nat) (segments : List TemporalSegmentData) (loop : SegmentLoop) :
    Prop where
  segment : ∀ s ∈ segments,
    ∃ m, loop.maxRemappedSegmentId = some m ∧ s.header.segmentId + offset ≤ m
  offset : ∀ m, loop.maxRemappedSegmentId = some m → offset ≤ m

variable {segments : List TemporalSegmentData} {s : TemporalSegmentData}

theorem Reaches.snoc (h : Reaches offset segments loop)
    (hmax : loop'.maxRemappedSegmentId = some ((loop.maxRemappedSegmentId.map
      (max · (s.header.segmentId + offset))).getD (s.header.segmentId + offset))) :
    Reaches offset (segments ++ [s]) loop' := by
  have hle : s.header.segmentId + offset ≤
      (loop.maxRemappedSegmentId.map (max · (s.header.segmentId + offset))).getD
        (s.header.segmentId + offset) := by
    cases loop.maxRemappedSegmentId with
    | none => exact le_rfl
    | some m => exact le_max_right _ _
  refine ⟨fun t ht => ⟨_, hmax, ?_⟩, fun m hm => ?_⟩
  · rcases mem_append.mp ht with ht | ht
    · obtain ⟨m, hm, hle⟩ := h.segment t ht
      rw [hm]
      exact hle.trans (le_max_left _ _)
    · obtain rfl := mem_singleton.mp ht
      exact hle
  · obtain rfl := Option.some.inj (hmax.symm.trans hm)
    exact (Nat.le_add_left _ _).trans hle

section

variable (hall : ∀ t, options.requestsObjectType t = true)
include hall

theorem appendSegment_ok (hreach : Reaches offset segments loop)
    (h : appendSegment render reader options rest offset loop s = .ok loop') :
    (∃ added, loop'.records = loop.records ++ added ∧ AddedFor offset [s] added) ∧
      Reaches offset (segments ++ [s]) loop' := by
  obtain ⟨remapped, hremapped, h⟩ := of_andThen h
  obtain rfl := checkedSegmentIdAdd_ok hremapped
  split at h
  · cases h
  · rename_i t typed hfound
    rw [if_neg (by simp [hall t])] at h
    obtain ⟨⟨values, aligned⟩, -, h⟩ := of_andThen h
    obtain ⟨added, hadded, h⟩ := of_andThen h
    cases h
    exact ⟨⟨added, rfl, addedFor_segment hadded⟩, hreach.snoc rfl⟩

theorem appendSegments_ok {before : List TemporalSegmentData} (hreach : Reaches offset before loop)
    (h : segments.foldlM (appendSegment render reader options rest offset) loop = .ok loop') :
    (∃ added, loop'.records = loop.records ++ added ∧ AddedFor offset segments added) ∧
      Reaches offset (before ++ segments) loop' := by
  induction segments generalizing before loop with
  | nil =>
    cases h
    exact ⟨⟨[], by simp, rfl, forall_mem_nil _⟩, by simpa using hreach⟩
  | cons s ss ih =>
    obtain ⟨next, hnext, h⟩ := of_andThen h
    obtain ⟨⟨first, hfirst, haddFirst⟩, hreach⟩ := appendSegment_ok hall hreach hnext
    obtain ⟨⟨others, hothers, haddOthers⟩, hreach⟩ := ih hreach h
    refine ⟨⟨first ++ others, ?_, haddFirst.append haddOthers⟩, by simpa using hreach⟩
    rw [hothers, hfirst, append_assoc]

end

def segmentsOf (f : CoveDeltaFile) : List TemporalSegmentData :=
  f.sections.flatMap CoveDeltaSection.temporalSegments

/-- A step of the loop over the deltas: the next free id does not fall, the new records lie between
the two, and the rest is unchanged. -/
structure DeltaStep (f : CoveDeltaFile) (loop loop' : DeltaLoop σ) : Prop where
  next : loop.nextSegmentId ≤ loop'.nextSegmentId
  added : ∃ added, loop'.surface.records = loop.surface.records ++ added ∧
    AddedFor loop.nextSegmentId (segmentsOf f) added ∧
    ∀ r ∈ added, r.segmentId < loop'.nextSegmentId

variable {f : CoveDeltaFile} {loop loop' : DeltaLoop σ}

theorem appendDelta_ok (hall : ∀ t, options.requestsObjectType t = true)
    (hrecords : options.includeRecords = true)
    (h : appendDelta render reader options loop f = .ok loop') : DeltaStep f loop loop' := by
  rw [appendDelta] at h
  by_cases hempty : f.sections.isEmpty
  · rw [if_pos hempty] at h
    cases h
    refine ⟨le_rfl, [], by simp, ?_, forall_mem_nil _⟩
    rw [segmentsOf, List.isEmpty_iff.mp hempty]
    exact ⟨rfl, forall_mem_nil _⟩
  · rw [if_neg hempty] at h
    obtain ⟨v, hv, h⟩ := of_andThen h
    obtain ⟨rest, -, h⟩ := of_andThen h
    obtain ⟨rest, -, h⟩ := of_andThen h
    rw [if_neg (not_not.mpr hrecords)] at h
    obtain ⟨rest, -, h⟩ := of_andThen h
    obtain ⟨rest, -, h⟩ := of_andThen h
    obtain ⟨segments, hsegments, h⟩ := of_andThen h
    obtain ⟨next, hnext, h⟩ := of_andThen h
    cases h
    rw [validateObjectDelta_segments hv] at hsegments
    have hstart : Reaches loop.nextSegmentId [] ⟨loop.surface.records, none⟩ :=
      ⟨nofun, nofun⟩
    obtain ⟨⟨added, hadded, hfor⟩, hreach⟩ := appendSegments_ok hall hstart hsegments
    have hids : ∀ r ∈ added, ∃ s ∈ segmentsOf f,
        r.segmentId = s.header.segmentId + loop.nextSegmentId := by
      intro r hr
      have hmem := hfor.addresses ▸ mem_map_of_mem hr
      obtain ⟨s, hs, hrow⟩ := mem_flatMap.mp hmem
      obtain ⟨i, -, hi⟩ := mem_map.mp hrow
      exact ⟨s, hs, congrArg Prod.fst hi.symm⟩
    cases hmax : segments.maxRemappedSegmentId with
    | none =>
      rw [hmax] at hnext
      cases hnext
      refine ⟨le_rfl, added, hadded, hfor, fun r hr => ?_⟩
      obtain ⟨s, hs, -⟩ := hids r hr
      obtain ⟨m, hm, -⟩ := hreach.segment s hs
      cases hmax.symm.trans hm
    | some m =>
      rw [hmax] at hnext
      obtain rfl := checkedSegmentIdAdd_ok hnext
      refine ⟨(hreach.offset m hmax).trans (Nat.le_succ m), added, hadded, hfor, fun r hr => ?_⟩
      obtain ⟨s, hs, hid⟩ := hids r hr
      obtain ⟨m', hm', hle⟩ := hreach.segment s hs
      obtain rfl := Option.some.inj (hmax.symm.trans hm')
      rw [hid]
      exact Nat.lt_succ_of_le hle

/-- Segments of the delta that have rows have ids of their own. -/
def DistinctSegmentIds (f : CoveDeltaFile) : Prop :=
  (segmentsOf f).Pairwise fun s t =>
    s.rows ≠ [] → t.rows ≠ [] → s.header.segmentId ≠ t.header.segmentId

theorem mem_rowAddresses {a : Nat × Nat} :
    a ∈ rowAddresses offset s ↔ a.1 = s.header.segmentId + offset ∧ a.2 < s.rows.length := by
  obtain ⟨id, i⟩ := a
  rw [rowAddresses, mem_map]
  constructor
  · rintro ⟨j, hj, h⟩
    obtain ⟨rfl, rfl⟩ := Prod.mk.inj h
    exact ⟨rfl, mem_range.mp hj⟩
  · rintro ⟨rfl, hi⟩
    exact ⟨i, mem_range.mpr hi, rfl⟩

theorem rowAddresses_disjoint_iff {t : TemporalSegmentData} :
    List.Disjoint (rowAddresses offset s) (rowAddresses offset t) ↔
      (s.rows ≠ [] → t.rows ≠ [] → s.header.segmentId ≠ t.header.segmentId) := by
  constructor
  · intro h hs ht heq
    -- both segments have a first row
    have hfirst : (s.header.segmentId + offset, 0) ∈ rowAddresses offset s :=
      mem_rowAddresses.mpr ⟨rfl, length_pos_of_ne_nil hs⟩
    have hsecond : (s.header.segmentId + offset, 0) ∈ rowAddresses offset t :=
      mem_rowAddresses.mpr ⟨by rw [heq], length_pos_of_ne_nil ht⟩
    exact h hfirst hsecond
  · intro h a hs ht
    obtain ⟨hids, his⟩ := mem_rowAddresses.mp hs
    obtain ⟨hidt, hit⟩ := mem_rowAddresses.mp ht
    refine h (ne_nil_of_length_pos (by omega)) (ne_nil_of_length_pos (by omega)) ?_
    omega

theorem segment_addresses_nodup_iff :
    ((segmentsOf f).flatMap (rowAddresses offset)).Nodup ↔ DistinctSegmentIds f := by
  have hrows : ∀ s ∈ segmentsOf f, (rowAddresses offset s).Nodup := by
    intro s _
    refine nodup_range.map fun i j h => (Prod.mk.inj h).2
  rw [nodup_flatMap, and_iff_right hrows, DistinctSegmentIds]
  exact List.Pairwise.iff fun s t => rowAddresses_disjoint_iff

/-- All records have ids below the next free one. -/
def Bounded (loop : DeltaLoop σ) : Prop :=
  ∀ r ∈ loop.surface.records, r.segmentId < loop.nextSegmentId

theorem DeltaStep.bounded (h : DeltaStep f loop loop') (hb : Bounded loop) : Bounded loop' := by
  obtain ⟨added, hrecords, -, hbelow⟩ := h.added
  intro r hr
  rw [hrecords] at hr
  rcases mem_append.mp hr with hr | hr
  · exact (hb r hr).trans_le h.next
  · exact hbelow r hr

theorem DeltaStep.nodup_iff (h : DeltaStep f loop loop') (hb : Bounded loop) :
    (loop'.surface.records.map address).Nodup ↔
      (loop.surface.records.map address).Nodup ∧ DistinctSegmentIds f := by
  obtain ⟨added, hrecords, hfor, -⟩ := h.added
  have hapart : ∀ a ∈ loop.surface.records.map address, ∀ b ∈ added.map address, a ≠ b := by
    intro a ha b hb' heq
    obtain ⟨r, hr, rfl⟩ := mem_map.mp ha
    rw [hfor.addresses, ← heq] at hb'
    obtain ⟨s, -, hs⟩ := mem_flatMap.mp hb'
    have hid := (mem_rowAddresses.mp hs).1
    have hlt := hb r hr
    change r.segmentId = _ at hid
    omega
  rw [hrecords, map_append, nodup_append, hfor.addresses, segment_addresses_nodup_iff,
    ← hfor.addresses]
  exact ⟨fun ⟨hold, hnew, _⟩ => ⟨hold, hnew⟩, fun ⟨hold, hnew⟩ => ⟨hold, hnew, hapart⟩⟩

variable {fs : List CoveDeltaFile}

theorem appendDeltas_ok (hall : ∀ t, options.requestsObjectType t = true)
    (hrecords : options.includeRecords = true) (hb : Bounded loop)
    (h : fs.foldlM (appendDelta render reader options) loop = .ok loop') :
    ((loop'.surface.records.map address).Nodup ↔
      (loop.surface.records.map address).Nodup ∧ ∀ f ∈ fs, DistinctSegmentIds f) ∧
    ∃ added, loop'.surface.records = loop.surface.records ++ added ∧
      ∀ r ∈ added, ∀ ref, r.prevRef = some ref → loop.nextSegmentId ≤ ref.segmentId := by
  induction fs generalizing loop with
  | nil =>
    cases h
    exact ⟨by simp, [], by simp, forall_mem_nil _⟩
  | cons f fs ih =>
    obtain ⟨next, hnext, h⟩ := of_andThen h
    have hstep := appendDelta_ok hall hrecords hnext
    obtain ⟨hnodup, others, hothers, hprev⟩ := ih (hstep.bounded hb) h
    obtain ⟨first, hfirst, hfor, -⟩ := hstep.added
    refine ⟨?_, first ++ others, ?_, fun r hr ref href => ?_⟩
    · rw [hnodup, hstep.nodup_iff hb, forall_mem_cons, and_assoc]
    · rw [hothers, hfirst, append_assoc]
    · rcases mem_append.mp hr with hr | hr
      · exact hfor.prevRef r hr ref href
      · exact hstep.next.trans (hprev r hr ref href)

variable (hrecords : options.includeRecords = false)
include hrecords

theorem appendDelta_records (h : appendDelta render reader options loop f = .ok loop') :
    loop'.surface.records = loop.surface.records := by
  rw [appendDelta] at h
  by_cases hempty : f.sections.isEmpty
  · rw [if_pos hempty] at h
    rw [ok.inj h]
  · rw [if_neg hempty] at h
    obtain ⟨v, hv, h⟩ := of_andThen h
    obtain ⟨rest, -, h⟩ := of_andThen h
    obtain ⟨rest, -, h⟩ := of_andThen h
    rw [if_pos (by simp [hrecords])] at h
    rw [← ok.inj h]

theorem appendDeltas_records (h : fs.foldlM (appendDelta render reader options) loop = .ok loop') :
    loop'.surface.records = loop.surface.records := by
  induction fs generalizing loop with
  | nil => rw [ok.inj h]
  | cons f fs ih =>
    obtain ⟨next, hnext, h⟩ := of_andThen h
    rw [ih h, appendDelta_records hrecords hnext]

end

/-- The records of the base stay, the addresses are distinct, and no previous record of an
appended record is at the address of a record of the base. -/
structure Unambiguous (base all : List CoveObjectRecord) : Prop where
  distinct : (all.map address).Nodup
  appended : ∃ added, all = base ++ added ∧
    ∀ r ∈ added, ∀ ref, r.prevRef = some ref → ∀ p ∈ base, address p ≠ target ref

theorem appended_unambiguous_iff {σ : Type} {render : Value → String} {reader : DeltaReader σ}
    {options : CoveObjectReadOptions} {base out : CoveObjectSurface σ}
    {deltaFiles : List CoveDeltaFile} (hbase : (base.records.map address).Nodup)
    (hall : ∀ t, options.requestsObjectType t = true)
    (h : appendDeltaRecordsToObjectSurface render reader options base deltaFiles = .ok out) :
    Unambiguous base.records out.records ↔
      options.includeRecords = false ∨ ∀ f ∈ deltaFiles, DistinctSegmentIds f := by
  rw [appendDeltaRecordsToObjectSurface] at h
  cases hrecords : options.includeRecords with
  | false =>
    have hsame : out.records = base.records := by
      split at h
      · rw [ok.inj h]
      · obtain ⟨next, -, h⟩ := of_andThen h
        obtain ⟨loop, hloop, h⟩ := of_andThen h
        rw [← ok.inj h, appendDeltas_records hrecords hloop]
    refine iff_of_true ⟨hsame ▸ hbase, [], ?_, forall_mem_nil _⟩ (.inl rfl)
    rw [hsame, append_nil]
  | true =>
    rw [if_neg (by simp [hrecords])] at h
    obtain ⟨next, hnext, h⟩ := of_andThen h
    obtain ⟨loop, hloop, h⟩ := of_andThen h
    cases h
    rw [updateIf, if_pos hrecords] at hnext
    have hbelow := (nextAvailableSegmentId_ok hnext).2
    have hb : Bounded (⟨base, next⟩ : DeltaLoop σ) := hbelow
    obtain ⟨hnodup, added, hadded, hprev⟩ := appendDeltas_ok hall hrecords hb hloop
    constructor
    · intro hu
      exact .inr (hnodup.mp hu.distinct).2
    · rintro (hfalse | hdistinct)
      · cases hfalse
      · refine ⟨hnodup.mpr ⟨hbase, hdistinct⟩, added, hadded, fun r hr ref href p hp heq => ?_⟩
        have hid : p.segmentId = ref.segmentId := congrArg Prod.fst heq
        have hle := hprev r hr ref href
        have hlt := hbelow p hp
        change next ≤ _ at hle
        omega

def sampleReader : DeltaReader Unit where
  appendEvidencePatches := fun _ _ => .ok ()
  appendProjectionPatches := fun _ _ => .ok ()
  applyCatalogPatches := fun _ _ => .ok ()
  objectTypes := fun _ => [⟨7, "person", 0⟩]
  openDictionary := fun _ _ _ => .ok ()
  decodeColumns := fun _ segment _ =>
    .ok ⟨replicate segment.rows.length [], List.length_replicate⟩
  keepDictionary := fun _ _ => ()

def sampleSegment (segmentId recordId : Nat) : TemporalSegmentData where
  header := ⟨segmentId, 7, 5, 5, 10, 10⟩
  rows := [⟨5, 10, 0, 42, recordId, .delta, none⟩]

def sampleDelta (first second : Nat) : CoveDeltaFile where
  header := ⟨0, 0, 0, 9, 1, 2, 3, 1, 1, 10, 11, 5, 6, 0, 1, 0, 0, 0, 0, 0, 0⟩
  parentRefs := [⟨0, deltaParentRefLineageParent, 8, 3, 400, 0, 1, 32, 0, 0, 0, 0, 0, 0⟩]
  sections := [
    { entry := ⟨4, 1, 0, 0⟩, payload := { temporalSegment := .ok (sampleSegment first 100) } },
    { entry := ⟨4, 1, 0, 0⟩, payload := { temporalSegment := .ok (sampleSegment second 101) } }]
  footer := ⟨0⟩
  postscript := ⟨0, 0⟩

def sampleBase : CoveObjectSurface Unit where
  records := [⟨7, "person", 0, 3, 0, 4, 9, 0, 42, 99, .baseline, none, [], none⟩]
  rest := ()

/-- Both segments are moved to the id after the base's, and both have a row 0. -/
theorem repeated_segment_id : (∃ v, validateObjectDelta (sampleDelta 0 0) = .ok v) ∧
      (sampleBase.records.map address).Nodup ∧
      ∃ out, appendDeltaRecordsToObjectSurface (fun _ => "") sampleReader {} sampleBase
        [sampleDelta 0 0] = .ok out ∧ ¬ (out.records.map address).Nodup :=
  ⟨⟨_, rfl⟩, by decide, _, rfl, by decide⟩

theorem requests_all (t : ObjectTypeEntryV1) :
    ({} : CoveObjectReadOptions).requestsObjectType t = true := rfl

theorem appended_samples :
    (∃ out, appendDeltaRecordsToObjectSurface (fun _ => "") sampleReader {} sampleBase
      [sampleDelta 0 1, sampleDelta 2 7] = .ok out ∧ Unambiguous sampleBase.records out.records) ∧
    ∃ out, appendDeltaRecordsToObjectSurface (fun _ => "") sampleReader {} sampleBase
      [sampleDelta 0 1, sampleDelta 2 2] = .ok out ∧
        ¬ Unambiguous sampleBase.records out.records := by
  constructor
  · have hout : ∃ out, appendDeltaRecordsToObjectSurface (fun _ => "") sampleReader {} sampleBase
        [sampleDelta 0 1, sampleDelta 2 7] = .ok out := ⟨_, rfl⟩
    obtain ⟨out, hout⟩ := hout
    refine ⟨out, hout, (appended_unambiguous_iff (by decide) requests_all hout).mpr (.inr ?_)⟩
    simp only [forall_mem_cons]
    exact ⟨by unfold DistinctSegmentIds; decide, by unfold DistinctSegmentIds; decide, forall_mem_nil _⟩
  · have hout : ∃ out, appendDeltaRecordsToObjectSurface (fun _ => "") sampleReader {} sampleBase
        [sampleDelta 0 1, sampleDelta 2 2] = .ok out := ⟨_, rfl⟩
    obtain ⟨out, hout⟩ := hout
    refine ⟨out, hout, fun h => ?_⟩
    rcases (appended_unambiguous_iff (by decide) requests_all hout).mp h with h | h
    · cases h
    · have hdistinct := h (sampleDelta 2 2) (by simp)
      unfold DistinctSegmentIds at hdistinct
      exact absurd hdistinct (by decide)

end CoveFormat.DeltaAppends
