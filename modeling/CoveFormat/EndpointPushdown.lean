import CoveFormat.AsOfPruning
import CoveFormat.DroppedRecords

namespace CoveFormat.EndpointPushdown

open SortedKeys JsonValue Temporal ObjectSurface Reconstruction ReconstructionRuns KeptRecords
  ReconstructedStates DroppedRecords TemporalPushdown AsOfPruning List

variable {k : Nat ×ₗ Nat ×ₗ Nat} {render : Value → String} {options : CoveObjectReconstructionOptions}
  {candidates : List CoveObjectAssociationEndpointCandidate} {segments : List SegmentSurface}
  {bloom : Option TemporalBloomIndex} {s : SegmentSurface} {r : CoveObjectRecord}

def endpointPushdown (candidates : List CoveObjectAssociationEndpointCandidate) :
    CoveObjectReadPushdownOptions :=
  { enabled := true, associationEndpointCandidates := candidates }

def applicable (candidates : List CoveObjectAssociationEndpointCandidate) (t : Nat) :
    List CoveObjectAssociationEndpointCandidate :=
  candidates.filter fun c => c.associationTypeId == t && c.candidateGoid.isSome

def endpointsMatch (candidates : List CoveObjectAssociationEndpointCandidate)
    (s : CoveObjectState) : Bool :=
  associationEndpointCandidateMatch s.association (applicable candidates s.objectTypeId) = .hit

def isRetained (render : Value → String)
    (candidates : List CoveObjectAssociationEndpointCandidate) (segments : List SegmentSurface)
    (r : CoveObjectRecord) : Bool :=
  (segments.find? (·.segment.header.segmentId == r.segmentId)).all fun s =>
    (endpointCandidateRecordGoids render s (endpointPushdown candidates)).all (·.contains r.goid)

section

variable (hunique : (segments.map fun s => s.segment.header.segmentId).Nodup)
include hunique

theorem isRetained_eq (hs : s ∈ segments) (hr : r ∈ recordsFromSegment render {} s) :
    isRetained render candidates segments r =
      (endpointCandidateRecordGoids render s (endpointPushdown candidates)).all
        (·.contains r.goid) := by
  rw [isRetained]
  cases hf : segments.find? (·.segment.header.segmentId == r.segmentId) with
  | none =>
    have hn := List.find?_eq_none.mp hf s hs
    rw [segmentId_of_mem hr] at hn
    exact absurd (beq_self_eq_true _) hn
  | some s' =>
    have hid := List.find?_some hf
    have hss : s' = s := inj_on_of_nodup_map hunique (mem_of_find?_eq_some hf) hs
      ((eq_of_beq hid).trans (segmentId_of_mem hr))
    rw [hss, Option.all_some]

theorem readRecords_endpoint :
    readRecords render bloom (endpointPushdown candidates) segments =
      (allRecords render segments).filter (isRetained render candidates segments) := by
  rw [readRecords, allRecords_eq, List.filter_flatMap]
  apply flatMap_congr
  intro s hs
  change recordsFromSegment render (endpointPushdown candidates) s = _
  rw [recordsFromSegment_default, filter_map, recordsFromSegment]
  apply congrArg
  apply filter_congr
  intro entry hentry
  have hmem : recordOf render s entry ∈ recordsFromSegment render {} s := by
    rw [recordsFromSegment_default]
    exact mem_map_of_mem hentry
  have hrow : rowMatchesPushdown entry.1.1 s.objectType (endpointPushdown candidates) = true := by
    simp [rowMatchesPushdown, endpointPushdown]
  have hproperty : propertyCandidatesMatch s.objectType.objectTypeId entry.1.2
      (endpointPushdown candidates) = true := rfl
  rw [Function.comp_apply, isRetained_eq hunique hs hmem, isKeptRow, hrow, hproperty, Bool.and_true,
    Bool.true_and]
  rfl

end

/-- A candidate asks for this endpoint. -/
def NamesEndpoint (cs : List CoveObjectAssociationEndpointCandidate) (role text : String) : Prop :=
  ∃ c ∈ cs, (c.endpointRole = role ∨ c.endpointRole = "either") ∧
    ∃ goid ∈ c.candidateGoid, text = hexEncode goid

def CarriesEndpoint (render : Value → String) (cs : List CoveObjectAssociationEndpointCandidate)
    (flag : UInt32) (role : String) (properties : List CoveObjectPropertyValue) : Prop :=
  ∃ v ∈ properties, (v.flags &&& flag != 0) = true ∧
    ∃ text ∈ jsonValueToString render v.value, NamesEndpoint cs role text

/-- Some property carries an endpoint that a candidate asks for. -/
def CarriesMatch (render : Value → String) (cs : List CoveObjectAssociationEndpointCandidate)
    (properties : List CoveObjectPropertyValue) : Prop :=
  CarriesEndpoint render cs propertyFlagAssociationFromGoid "source" properties ∨
    CarriesEndpoint render cs propertyFlagAssociationToGoid "target" properties

variable {cs : List CoveObjectAssociationEndpointCandidate} {flag : UInt32}

theorem carriesEndpoint_upsertProperties {role : String} {ps qs : List CoveObjectPropertyValue}
    (h : CarriesEndpoint render cs flag role (upsertProperties ps qs)) :
    CarriesEndpoint render cs flag role ps ∨ CarriesEndpoint render cs flag role qs := by
  obtain ⟨v, hv, hrest⟩ := h
  rcases mem_upsertProperties hv with hv | hv
  · exact .inl ⟨v, hv, hrest⟩
  · exact .inr ⟨v, hv, hrest⟩

theorem upsertable_not_carriesMatch (cs : List CoveObjectAssociationEndpointCandidate) :
    Upsertable fun properties => ¬ CarriesMatch render cs properties := by
  intro ps qs hp hq h
  rcases h with h | h
  · rcases carriesEndpoint_upsertProperties h with h | h
    · exact hp (.inl h)
    · exact hq (.inl h)
  · rcases carriesEndpoint_upsertProperties h with h | h
    · exact hp (.inr h)
    · exact hq (.inr h)

theorem matchEndpoints_hit {source target : String} (h : matchEndpoints source target cs = .hit) :
    NamesEndpoint cs "source" source ∨ NamesEndpoint cs "target" target := by
  induction cs with
  | nil => cases h
  | cons c cs ih =>
    have hlater : matchEndpoints source target cs = .hit →
        NamesEndpoint (c :: cs) "source" source ∨ NamesEndpoint (c :: cs) "target" target := by
      intro h
      refine (ih h).imp ?_ ?_ <;>
      · rintro ⟨c', hc', hrest⟩
        exact ⟨c', mem_cons_of_mem _ hc', hrest⟩
    rw [matchEndpoints] at h
    split at h
    · cases h
    · rename_i goid hgoid
      have hhere : ∀ role text, (c.endpointRole = role ∨ c.endpointRole = "either") →
          text = hexEncode goid → NamesEndpoint (c :: cs) role text := fun role text hr ht =>
        ⟨c, mem_cons_self, hr, goid, hgoid, ht⟩
      split at h
      · rename_i hrole
        split at h
        · rename_i heq
          exact .inl (hhere "source" source (.inl hrole) heq)
        · exact hlater h
      · split at h
        · rename_i hrole
          split at h
          · rename_i heq
            exact .inr (hhere "target" target (.inl hrole) heq)
          · exact hlater h
        · split at h
          · rename_i hrole
            split at h
            · rename_i heq
              exact heq.imp (hhere "source" source (.inr hrole)) (hhere "target" target (.inr hrole))
            · exact hlater h
          · cases h

variable {properties : List CoveObjectPropertyValue}

theorem propertyStringByFlag_carried {text : String}
    (h : propertyStringByFlag render properties flag = some text) :
    ∃ v ∈ properties, (v.flags &&& flag != 0) = true ∧ text ∈ jsonValueToString render v.value := by
  obtain ⟨v, hv, htext⟩ := Option.bind_eq_some_iff.mp h
  have hflag := List.find?_some hv
  exact ⟨v, mem_of_find?_eq_some hv, hflag, htext⟩

theorem carriesMatch_of_hit {t : ObjectTypeEntryV1}
    (h : associationEndpointCandidateMatch (associationMetadata render t properties) cs = .hit) :
    CarriesMatch render cs properties := by
  rw [associationEndpointCandidateMatch] at h
  split at h
  · rename_i source target hsource htarget
    rw [associationMetadata] at hsource htarget
    split at hsource
    · rename_i hlike
      rw [if_pos hlike] at htarget
      obtain ⟨v, hv, hvf, hvt⟩ := propertyStringByFlag_carried hsource
      obtain ⟨w, hw, hwf, hwt⟩ := propertyStringByFlag_carried htarget
      rcases matchEndpoints_hit h with hn | hn
      · exact .inl ⟨v, hv, hvf, source, hvt, hn⟩
      · exact .inr ⟨w, hw, hwf, target, hwt, hn⟩
    · cases hsource
  · cases h

/-- No row of the object is kept, and no row that counts carries a matching endpoint. -/
def Unmatched (render : Value → String) (options : CoveObjectReconstructionOptions)
    (candidates : List CoveObjectAssociationEndpointCandidate) (segments : List SegmentSurface)
    (k : Nat ×ₗ Nat ×ₗ Nat) : Prop :=
  ∀ r ∈ objectRecords options (allRecords render segments) k,
    isRetained render candidates segments r = false ∧
    (Unsuperseded (objectRecords options (allRecords render segments) k) r →
      ¬ CarriesMatch render (applicable candidates (ofLex k).1) r.properties)

def typeOf (r : CoveObjectRecord) : ObjectTypeEntryV1 :=
  ⟨r.objectTypeId, r.objectTypeName, r.objectTypeFlags⟩

theorem association_of_mem (h : r ∈ allRecords render segments) :
    r.association = associationMetadata render (typeOf r) r.properties := by
  obtain ⟨s, -, hrs⟩ := mem_allRecords.mp h
  obtain ⟨row, values, -, -, hreq⟩ := mem_segmentRecords.mp hrs
  rw [hreq]
  rfl

theorem outcome_unmatched (h : Unmatched render options candidates segments k) :
    ∀ s ∈ outcome render options (objectRecords options (allRecords render segments) k),
      endpointsMatch candidates s = false := by
  intro s hs
  have hobject := outcome_object (fun r hr => (mem_objectRecords.mp hr).2.2) s hs
  rw [outcome] at hs
  split at hs
  · rename_i c hc
    have hsc := (Option.mem_filter_iff.mp hs).1
    have hassociation := foldRecords_association hc (fun s hs => by cases hs) (fun r hr =>
      association_of_mem (mem_objectRecords.mp (mem_history.mp hr)).1) s hsc
    have hupsertable : Upsertable fun properties =>
        ¬ CarriesMatch render (applicable candidates (ofLex k).1) properties :=
      upsertable_not_carriesMatch _
    have hcarries := history_properties hupsertable (sortByKey_pairwise _ _) hc (fun r hr hlate =>
        (h r (mem_history.mp hr)).2 fun f hf => hlate f (mem_history.mpr hf)) s hsc
    refine decide_eq_false fun hhit => hcarries ?_
    have htype : s.objectTypeId = (ofLex k).1 := congrArg (fun k => (ofLex k).1) hobject
    rw [hassociation, htype] at hhit
    exact carriesMatch_of_hit hhit
  · cases hs

/-- Reading by endpoints and testing the states again gives the answers of all rows. -/
def EndpointExact (render : Value → String) (options : CoveObjectReconstructionOptions)
    (bloom : Option TemporalBloomIndex)
    (candidates : List CoveObjectAssociationEndpointCandidate) (segments : List SegmentSurface) :
    Prop :=
  ∀ S, reconstructObjectStates render (allRecords render segments) options = .ok S →
    ∃ T, reconstructObjectStates render
        (readRecords render bloom (endpointPushdown candidates) segments) options = .ok T ∧
      T.filter (endpointsMatch candidates) = S.filter (endpointsMatch candidates)

/-- The rows show a match by their last writes, in an object that is not deleted. -/
def ShowsMatch (render : Value → String) (options : CoveObjectReconstructionOptions)
    (candidates : List CoveObjectAssociationEndpointCandidate) (rs : List CoveObjectRecord) :
    Prop :=
  ∃ r ∈ rs.getLast?, (options.includeTombstones = true ∨ r.recordKind ≠ .tombstone) ∧
    associationEndpointCandidateMatch (associationMetadata render (typeOf r) (lastWrites rs))
      (applicable candidates r.objectTypeId) = .hit

/-- The last row is kept, and without the dropped rows every property has the last write it has
with them. -/
structure KeptSuffice (keep : CoveObjectRecord → Bool) (rs : List CoveObjectRecord) : Prop where
  last : ∀ r ∈ rs.getLast?, keep r = true
  writes : lastWrites (rs.filter keep) = lastWrites rs

/-- A match shown by all rows of the object, or by the kept ones, is shown by both. -/
def MatchKept (render : Value → String) (options : CoveObjectReconstructionOptions)
    (candidates : List CoveObjectAssociationEndpointCandidate)
    (keep : CoveObjectRecord → Bool) (rs : List CoveObjectRecord) : Prop :=
  ShowsMatch render options candidates rs ∨ ShowsMatch render options candidates (rs.filter keep) →
    KeptSuffice keep rs

section

variable {t : ObjectTypeEntryV1} {rs : List CoveObjectRecord} {c c' : Option CoveObjectState}
  {keep : CoveObjectRecord → Bool} {st st' : CoveObjectState}

def stateType (s : CoveObjectState) : ObjectTypeEntryV1 :=
  ⟨s.objectTypeId, s.objectTypeName, s.objectTypeFlags⟩

theorem foldRecord_type (h : foldRecord render c r = .ok st)
    (hc : ∀ s ∈ c, stateType s = typeOf r) : stateType st = typeOf r := by
  replace h := ExceptRules.rest_ok h
  cases hk : r.recordKind <;> rw [hk] at h
  case reservedLegacyMaterializedDelta => cases h
  case baseline | snapshot =>
    rw [← Except.ok.inj h]
    rfl
  case delta | tombstone =>
    cases c with
    | none =>
      rw [← Except.ok.inj h]
      rfl
    | some s =>
      rw [← Except.ok.inj h]
      exact hc s rfl

theorem foldRecords_type (h : foldRecords render c rs = .ok c') (hc : ∀ s ∈ c, stateType s = t)
    (hrs : ∀ r ∈ rs, typeOf r = t) : ∀ s ∈ c', stateType s = t := by
  induction rs generalizing c with
  | nil =>
    rw [← Except.ok.inj h]
    exact hc
  | cons r rs ih =>
    obtain ⟨hr, hrs⟩ := forall_mem_cons.mp hrs
    obtain ⟨s, hs, h⟩ := ExceptRules.bind_eq_ok_iff.mp h
    refine ih h (fun s' hs' => ?_) hrs
    obtain rfl := Option.some.inj hs'
    rw [← hr] at hc ⊢
    exact foldRecord_type hs hc

/-- Rows of one object, read with one catalog entry. -/
structure OneObject (render : Value → String) (t : ObjectTypeEntryV1) (k : Nat ×ₗ Nat ×ₗ Nat)
    (rs : List CoveObjectRecord) : Prop where
  object : ∀ r ∈ rs, objectKey r = k
  type : ∀ r ∈ rs, typeOf r = t
  association : ∀ r ∈ rs, r.association = associationMetadata render (typeOf r) r.properties

theorem OneObject.filter (h : OneObject render t k rs) : OneObject render t k (rs.filter keep) :=
  ⟨fun r hr => h.object r (mem_of_mem_filter hr), fun r hr => h.type r (mem_of_mem_filter hr),
    fun r hr => h.association r (mem_of_mem_filter hr)⟩

/-- What the state of an object tells of its rows. -/
structure Tells (render : Value → String) (t : ObjectTypeEntryV1) (k : Nat ×ₗ Nat ×ₗ Nat)
    (rs : List CoveObjectRecord) (s : CoveObjectState) : Prop where
  latest : ∃ r ∈ rs.getLast?, ShowsLatest s r
  object : stateObject s = k
  type : stateType s = t
  properties : s.properties = lastWrites rs
  association : s.association = associationMetadata render t (lastWrites rs)

theorem tells_of_fold (hone : OneObject render t k rs)
    (h : foldRecords render none rs = .ok (some st)) : Tells render t k rs st := by
  have htype := foldRecords_type h (fun s hs => by cases hs) hone.type st rfl
  have hproperties := properties_eq_lastWrites h
  refine ⟨latest_of_fold h, foldRecords_object h hone.object st rfl, htype, hproperties, ?_⟩
  have hassociation := foldRecords_association h (fun s hs => by cases hs) hone.association st rfl
  rw [hassociation, ← hproperties, ← htype]
  rfl

theorem state_eq_of_tells {rs' : List CoveObjectRecord} (h : Tells render t k rs st)
    (h' : Tells render t k rs' st') (hlast : rs.getLast? = rs'.getLast?)
    (hwrites : lastWrites rs = lastWrites rs') : st = st' := by
  obtain ⟨r, hr, hshows⟩ := h.latest
  obtain ⟨r', hr', hshows'⟩ := h'.latest
  rw [hlast] at hr
  obtain rfl := Option.mem_unique hr hr'
  obtain ⟨-, hrest⟩ := Prod.mk.inj (toLex.injective (h.object.trans h'.object.symm))
  obtain ⟨hbranch, hgoid⟩ := Prod.mk.inj (toLex.injective hrest)
  obtain ⟨hid, hname, hflags⟩ := ObjectTypeEntryV1.mk.inj (h.type.trans h'.type.symm)
  have hproperties := h.properties.trans (hwrites.trans h'.properties.symm)
  have hassociation : st.association = st'.association := by
    rw [h.association, h'.association, hwrites]
  have hstatus : st.tombstoneStatus = st'.tombstoneStatus := by
    have hiff := hshows.tombstoned.trans hshows'.tombstoned.symm
    cases hst : st.tombstoneStatus <;> cases hst' : st'.tombstoneStatus <;> simp_all
  cases st
  cases st'
  exact CoveObjectState.mk.injEq .. ▸ ⟨hid, hname, hflags, hbranch, hgoid,
    hshows.recordId.trans hshows'.recordId.symm, hshows.segmentId.trans hshows'.segmentId.symm,
    hshows.rowIndex.trans hshows'.rowIndex.symm, hshows.timestampUs.trans hshows'.timestampUs.symm,
    hshows.csn.trans hshows'.csn.symm, hshows.recordKind.trans hshows'.recordKind.symm, hstatus,
    hproperties, hassociation⟩

theorem showsMatch_iff (hone : OneObject render t k rs)
    (h : foldRecords render none rs = .ok (some st)) :
    ShowsMatch render options candidates rs ↔
      isReported options st = true ∧ endpointsMatch candidates st = true := by
  have htells := tells_of_fold hone h
  obtain ⟨r, hr, hshows⟩ := htells.latest
  have htype : typeOf r = t := hone.type r (mem_of_getLast? hr)
  have hid : st.objectTypeId = r.objectTypeId :=
    congrArg ObjectTypeEntryV1.objectTypeId (htells.type.trans htype.symm)
  rw [isReported_iff hshows, endpointsMatch, htells.association, hid, decide_eq_true_eq, ShowsMatch]
  constructor
  · rintro ⟨r', hr', hreported, hhit⟩
    obtain rfl := Option.mem_unique hr hr'
    rw [htype] at hhit
    exact ⟨hreported, hhit⟩
  · rintro ⟨hreported, hhit⟩
    rw [← htype] at hhit
    exact ⟨r, hr, hreported, hhit⟩

/-- The state that a history gives, when it is reported and matches. -/
theorem answer_iff (hone : OneObject render t k rs) (hc : foldRecords render none rs = .ok c) :
    st ∈ (c.filter (isReported options)).filter (endpointsMatch candidates) ↔
      c = some st ∧ ShowsMatch render options candidates rs := by
  rw [Option.mem_filter_iff, Option.mem_filter_iff, and_assoc, Option.mem_def]
  refine and_congr_right fun hst => ?_
  rw [hst] at hc
  exact (showsMatch_iff hone hc).symm

theorem fold_isSome (hc : foldRecords render none rs = .ok c)
    (h : ShowsMatch render options candidates rs) : ∃ s, c = some s := by
  obtain ⟨r, hr, -⟩ := h
  exact foldRecords_isSome hc (mem_of_getLast? hr)

theorem KeptSuffice.getLast? (h : KeptSuffice keep rs) :
    (rs.filter keep).getLast? = rs.getLast? := by
  cases hlast : rs.getLast? with
  | none =>
    rw [getLast?_eq_none_iff.mp hlast]
    rfl
  | some r => exact getLast?_filter hlast (h.last r hlast)

theorem KeptSuffice.showsMatch_iff (h : KeptSuffice keep rs) :
    ShowsMatch render options candidates (rs.filter keep) ↔
      ShowsMatch render options candidates rs := by
  rw [ShowsMatch, ShowsMatch, h.getLast?, h.writes]

theorem same_answer_iff (hone : OneObject render t k rs)
    (hunique : ∀ p ∈ rs, ∀ q ∈ rs, address p = address q → p = q)
    (hc : foldRecords render none rs = .ok c)
    (hc' : foldRecords render none (rs.filter keep) = .ok c') :
    (c'.filter (isReported options)).filter (endpointsMatch candidates) =
        (c.filter (isReported options)).filter (endpointsMatch candidates) ↔
      MatchKept render options candidates keep rs := by
  constructor
  · intro hsame hshows
    have hboth : ∃ s, c = some s ∧ c' = some s := by
      rcases hshows with hshows | hshows
      · obtain ⟨s, hs⟩ := fold_isSome hc hshows
        have hmem := (answer_iff hone hc).mpr ⟨hs, hshows⟩
        rw [← hsame] at hmem
        exact ⟨s, hs, ((answer_iff hone.filter hc').mp hmem).1⟩
      · obtain ⟨s, hs⟩ := fold_isSome hc' hshows
        have hmem := (answer_iff hone.filter hc').mpr ⟨hs, hshows⟩
        rw [hsame] at hmem
        exact ⟨s, ((answer_iff hone hc).mp hmem).1, hs⟩
    obtain ⟨s, rfl, rfl⟩ := hboth
    obtain ⟨⟨r, hr, hlatest⟩, -, -, hwrites, -⟩ := tells_of_fold hone hc
    obtain ⟨⟨r', hr', hlatest'⟩, -, -, hwrites', -⟩ := tells_of_fold hone.filter hc'
    refine ⟨fun p hp => ?_, hwrites'.symm.trans hwrites⟩
    obtain rfl := Option.mem_unique hr hp
    obtain ⟨hmem, hkeep⟩ := mem_filter.mp (mem_of_getLast? hr')
    have haddress : address r = address r' := Prod.ext
      (hlatest.segmentId.symm.trans hlatest'.segmentId)
      (hlatest.rowIndex.symm.trans hlatest'.rowIndex)
    rwa [hunique r (mem_of_getLast? hr) r' hmem haddress]
  · intro hkept
    ext st
    refine (answer_iff hone.filter hc').trans (Iff.trans ?_ (answer_iff hone hc).symm)
    by_cases hshows : ShowsMatch render options candidates rs ∨
        ShowsMatch render options candidates (rs.filter keep)
    · have hsuffice := hkept hshows
      rw [hsuffice.showsMatch_iff, or_self] at hshows
      obtain ⟨s, rfl⟩ := fold_isSome hc hshows
      obtain ⟨s', rfl⟩ := fold_isSome hc' (hsuffice.showsMatch_iff.mpr hshows)
      rw [hsuffice.showsMatch_iff, state_eq_of_tells (tells_of_fold hone.filter hc')
        (tells_of_fold hone hc) hsuffice.getLast? hsuffice.writes]
    · obtain ⟨hall, hkept⟩ := not_or.mp hshows
      simp only [hall, hkept, and_false]

end

section

variable (hunique : (segments.map fun s => s.segment.header.segmentId).Nodup)
include hunique

theorem prevClosed_of_exact {S : List CoveObjectState}
    (h : reconstructObjectStates render (allRecords render segments) options = .ok S)
    (hexact : EndpointExact render options bloom candidates segments) :
    PrevClosed (isRetained render candidates segments) (allRecords render segments) := by
  obtain ⟨T, hT, -⟩ := hexact S h
  rw [readRecords_endpoint hunique] at hT
  exact closed_of_validatePrevRefs (fun p hp q hq => address_unique hunique hp hq)
    (reconstruct_ok_iff.mp hT).1

omit hunique in
theorem oneObject_of_mem (hcatalog : ∀ s ∈ segments, ∀ s' ∈ segments,
      s.objectType.objectTypeId = s'.objectType.objectTypeId → s.objectType = s'.objectType)
    (hk : k ∈ objects options (allRecords render segments)) :
    ∃ t, OneObject render t k (history (objectRecords options (allRecords render segments) k)) := by
  obtain ⟨b, hb, hbk⟩ := Grouping.mem_keysOf.mp hk
  obtain ⟨s, hs, hbs⟩ := mem_allRecords.mp (mem_of_mem_filter hb)
  refine ⟨s.objectType, fun r hr => ?_, fun r hr => ?_, fun r hr => ?_⟩
  all_goals obtain ⟨hr, -, hrk⟩ := mem_objectRecords.mp (mem_history.mp hr)
  · exact hrk
  · obtain ⟨s', hs', hrs⟩ := mem_allRecords.mp hr
    obtain ⟨row, values, -, -, hreq⟩ := mem_segmentRecords.mp hrs
    obtain ⟨row', values', -, -, hbeq⟩ := mem_segmentRecords.mp hbs
    have htype : typeOf r = s'.objectType := by
      rw [hreq]
      rfl
    rw [htype]
    refine hcatalog s' hs' s hs ?_
    have hid := (Prod.mk.inj (toLex.injective (hrk.trans hbk.symm))).1
    rw [hreq, hbeq] at hid
    exact hid
  · exact association_of_mem hr

theorem answer_kept_iff {S : List CoveObjectState}
    (hcatalog : ∀ s ∈ segments, ∀ s' ∈ segments,
      s.objectType.objectTypeId = s'.objectType.objectTypeId → s.objectType = s'.objectType)
    (h : reconstructObjectStates render (allRecords render segments) options = .ok S)
    (hclosed : PrevClosed (isRetained render candidates segments) (allRecords render segments))
    (hk : k ∈ objects options (allRecords render segments)) :
    (outcome render options ((objectRecords options (allRecords render segments) k).filter
          (isRetained render candidates segments))).filter (endpointsMatch candidates) =
        (outcome render options (objectRecords options (allRecords render segments) k)).filter
          (endpointsMatch candidates) ↔
      MatchKept render options candidates (isRetained render candidates segments)
        (history (objectRecords options (allRecords render segments) k)) := by
  obtain ⟨t, hone⟩ := oneObject_of_mem hcatalog hk
  obtain ⟨c, hc⟩ := fold_exists h k
  obtain ⟨c', hc'⟩ := fold_kept hc hclosed
  rw [outcome_of_ok hc, outcome_of_ok hc']
  rw [history_filter] at hc'
  refine same_answer_iff hone (fun p hp q hq => ?_) hc hc'
  exact address_unique hunique (mem_objectRecords.mp (mem_history.mp hp)).1
    (mem_objectRecords.mp (mem_history.mp hq)).1

/-- Dropping rows by their endpoints is exact as long as no kept row follows a dropped one and no
match is gained or lost by the dropped rows; it is enough that they are superseded, belong to a
deleted object, or are all rows of an object that shows no match. -/
theorem endpoint_pushdown_exact_iff {S : List CoveObjectState}
    (hcatalog : ∀ s ∈ segments, ∀ s' ∈ segments,
      s.objectType.objectTypeId = s'.objectType.objectTypeId → s.objectType = s'.objectType)
    (h : reconstructObjectStates render (allRecords render segments) options = .ok S) :
    (EndpointExact render options bloom candidates segments ↔
      PrevClosed (isRetained render candidates segments) (allRecords render segments) ∧
      ∀ k ∈ objects options (allRecords render segments),
        MatchKept render options candidates (isRetained render candidates segments)
          (history (objectRecords options (allRecords render segments) k))) ∧
    (PrevClosed (isRetained render candidates segments) (allRecords render segments) →
      (∀ k ∈ objects options (allRecords render segments),
        Superseded options (isRetained render candidates segments) (allRecords render segments) k ∨
        Deleted options (isRetained render candidates segments) (allRecords render segments) k ∨
        Unmatched render options candidates segments k) →
      EndpointExact render options bloom candidates segments) := by
  have hexact : EndpointExact render options bloom candidates segments ↔
      ∃ T, reconstructObjectStates render ((allRecords render segments).filter
          (isRetained render candidates segments)) options = .ok T ∧
        T.filter (endpointsMatch candidates) = S.filter (endpointsMatch candidates) := by
    rw [EndpointExact, readRecords_endpoint hunique]
    constructor
    · exact fun hall => hall S h
    · intro hone S' hS'
      rwa [← Except.ok.inj (h.symm.trans hS')]
  refine ⟨⟨fun hall => ?_, ?_⟩, fun hclosed hobject => ?_⟩
  · have hclosed := prevClosed_of_exact hunique h hall
    refine ⟨hclosed, fun k hk => (answer_kept_iff hunique hcatalog h hclosed hk).mp ?_⟩
    exact (answers_agree_iff h hclosed).mp (hexact.mp hall) k hk
  · rintro ⟨hclosed, hkept⟩
    refine hexact.mpr ((answers_agree_iff h hclosed).mpr fun k hk => ?_)
    exact (answer_kept_iff hunique hcatalog h hclosed hk).mpr (hkept k hk)
  · refine hexact.mpr (answers_agree h hclosed fun k hk => ?_)
    refine (hobject k hk).imp_right (Or.imp_right fun hun => ?_)
    exact ⟨fun r hr => (hun r hr).1, outcome_unmatched hun⟩

end

def endpoints (source : Option Id16) : List CoveObjectPropertyValue :=
  [⟨1, "from", .utf8, .varBytes, propertyFlagAssociationFromGoid,
      (source.map fun id => Value.string (hexEncode id)).getD .null, false⟩,
    ⟨2, "to", .utf8, .varBytes, propertyFlagAssociationToGoid, .string (hexEncode 2), false⟩]

def knowsSegmentOf (n : Nat) (rows : List (TemporalRowEntryV1 × Option Id16)) : SegmentSurface where
  segment := ⟨⟨n, 9, n, n, n, n⟩, rows.map (·.1)⟩
  objectType := ⟨9, "Association:Knows", objectTypeFlagAssociationObject⟩
  valuesByRow := rows.map fun row => endpoints row.2
  typed := rfl
  aligned := by rw [List.length_map, List.length_map]

def knowsSegment (n : Nat) (kind : RecordKind) (source : Id16) : SegmentSurface :=
  knowsSegmentOf n [(⟨n, n, 0, 77, 100 + n, kind, none⟩, some source)]

def fromOne : List CoveObjectAssociationEndpointCandidate := [⟨9, "source", some 1⟩]

/-- The segment in which the association moves away from object 1 is dropped for its GOID. -/
theorem moved_endpoint_resurrected :
    ¬ ∀ (render : Value → String) (options : CoveObjectReconstructionOptions)
      (bloom : Option TemporalBloomIndex)
      (candidates : List CoveObjectAssociationEndpointCandidate) (segments : List SegmentSurface),
      validSegments segments → (∀ c ∈ candidates, c.candidateGoid.isSome = true) →
        EndpointExact render options bloom candidates segments := by
  intro h
  have hconcrete : ∀ c ∈ fromOne, c.candidateGoid.isSome = true := by
    intro c hc
    rw [mem_singleton.mp hc]
    rfl
  have hvalid : validSegments [knowsSegment 1 .baseline 1, knowsSegment 2 .delta 3] := rfl
  have hfull : ∃ S, reconstructObjectStates (fun _ => "")
      (allRecords (fun _ => "") [knowsSegment 1 .baseline 1, knowsSegment 2 .delta 3]) {} = .ok S ∧
      (S.filter (endpointsMatch fromOne)).length = 0 := ⟨_, rfl, by decide⟩
  have hkept : ∃ T, reconstructObjectStates (fun _ => "")
      (readRecords (fun _ => "") none (endpointPushdown fromOne)
        [knowsSegment 1 .baseline 1, knowsSegment 2 .delta 3]) {} = .ok T ∧
      (T.filter (endpointsMatch fromOne)).length = 1 := ⟨_, rfl, by decide⟩
  obtain ⟨S, hS, hnone⟩ := hfull
  obtain ⟨T, hT, hone⟩ := hkept
  obtain ⟨T', hT', hsame⟩ := h _ _ _ _ _ hvalid hconcrete S hS
  obtain rfl := Except.ok.inj (hT.symm.trans hT')
  rw [hsame, hnone] at hone
  cases hone

def fromThree : List CoveObjectAssociationEndpointCandidate := [⟨9, "source", some 3⟩]

/-- Association 77 moves to object 3 by a Snapshot row, and association 88 ends. -/
def movedSegments : List SegmentSurface :=
  [knowsSegmentOf 1 [(⟨1, 1, 0, 77, 101, .baseline, none⟩, some 1),
      (⟨1, 1, 0, 88, 102, .baseline, none⟩, some 1)],
    knowsSegmentOf 2 [(⟨2, 2, 0, 77, 103, .snapshot, none⟩, some 3)],
    knowsSegmentOf 3 [(⟨3, 3, 0, 77, 104, .delta, some ⟨2, 0, 1⟩⟩, some 3),
      (⟨3, 3, 0, 88, 105, .tombstone, none⟩, none)]]

theorem endpoint_pushdown_exact_iff_moved :
    (allRecords (fun _ => "") movedSegments).length = 5 ∧
      (readRecords (fun _ => "") none (endpointPushdown fromThree) movedSegments).length = 3 ∧
      EndpointExact (fun _ => "") {} none fromThree movedSegments ∧
      ∀ k ∈ objects {} (allRecords (fun _ => "") movedSegments),
        MatchKept (fun _ => "") {} fromThree (isRetained (fun _ => "") fromThree movedSegments)
          (history (objectRecords {} (allRecords (fun _ => "") movedSegments) k)) := by
  have hunique : (movedSegments.map fun s => s.segment.header.segmentId).Nodup := by decide
  have hcatalog : ∀ s ∈ movedSegments, ∀ s' ∈ movedSegments,
      s.objectType.objectTypeId = s'.objectType.objectTypeId → s.objectType = s'.objectType := by
    intro s hs s' hs' _
    have htype : ∀ s ∈ movedSegments,
        s.objectType = ⟨9, "Association:Knows", objectTypeFlagAssociationObject⟩ := by
      simp [movedSegments, knowsSegmentOf]
    rw [htype s hs, htype s' hs']
  have hread : reconstructObjectStates (fun _ => "") (allRecords (fun _ => "") movedSegments) {} =
      .ok _ := rfl
  obtain ⟨hiff, henough⟩ := @endpoint_pushdown_exact_iff (fun _ => "") {} fromThree movedSegments
    none hunique _ hcatalog hread
  have hclosed : PrevClosed (isRetained (fun _ => "") fromThree movedSegments)
      (allRecords (fun _ => "") movedSegments) := by
    unfold PrevClosed
    decide
  have hobjects : objects {} (allRecords (fun _ => "") movedSegments) =
      [toLex (9, toLex (0, 77)), toLex (9, toLex (0, 88))] := by decide
  have hexact : EndpointExact (fun _ => "") {} none fromThree movedSegments := by
    refine henough hclosed fun k hk => ?_
    rw [hobjects] at hk
    simp only [mem_cons, not_mem_nil, or_false] at hk
    obtain rfl | rfl := hk
    · refine .inl ?_
      unfold Superseded
      decide
    · refine .inr (.inl ⟨rfl, ?_⟩)
      exact ⟨_, rfl, by decide, rfl⟩
  exact ⟨by decide, by decide, hexact, (hiff.mp hexact).2⟩

end CoveFormat.EndpointPushdown
