import CoveFormat.CompactedStates

namespace CoveFormat.StateCompaction

open ExceptRules SortedKeys Grouping CoveTypes JsonValue Temporal ObjectSurface Reconstruction
  ReconstructionRuns KeptRecords TemporalPushdown AsOfPruning IdentityComponents PropertyValues
  MaterializedRows SegmentRecords Compaction StoredForms CompactedStates List

variable {p : PropertyEntryV1}

variable {lib : PropertyLibrary} {render : Value → String} {types : List CatalogType}
  {catalog : ObjectTypeCatalog} {states : List CoveObjectState}
  {b : ReconstructedTemporalSegmentBuild} {builds : List ReconstructedTemporalSegmentBuild}

/-- What a compaction keeps of a state; a null value and no value are the same. -/
structure SameState (s r : CoveObjectState) : Prop where
  object : stateObject r = stateObject s
  liveness : r.tombstoneStatus = s.tombstoneStatus
  csn : r.csn = s.csn
  timestampUs : r.timestampUs = s.timestampUs
  latestRecordId : r.latestRecordId = s.latestRecordId
  values : ∀ propertyId, propertyValue r.properties propertyId = propertyValue s.properties propertyId

/-- The ranges of timestamps and CSNs hold all rows. -/
structure Bounds (startUs endUs : Int) (csnMin csnMax : Nat) (rows : List TemporalRowEntryV1) :
    Prop where
  timestampUs : ∀ row ∈ rows, startUs ≤ row.timestampUs ∧ row.timestampUs ≤ endUs
  csn : ∀ row ∈ rows, csnMin ≤ row.csn ∧ row.csn ≤ csnMax

/-- The states survive a compaction, and pruned reads of the compacted file agree with full ones. -/
structure Preserves (lib : PropertyLibrary) (render : Value → String)
    (states : List CoveObjectState) (file : CompactedFile) : Prop where
  states : ∃ surfaces restored, readCompacted lib file = .ok surfaces ∧
    reconstructObjectStates render (allRecords render surfaces) withTombstones = .ok restored ∧
    List.Forall₂ SameState states restored ∧
    ∀ cut branch goids, PruningKeeps render none cut branch goids surfaces
  headers : ∀ b ∈ file.segments, Bounds b.header.timeRangeStartUs b.header.timeRangeEndUs
    b.header.csnMin b.header.csnMax b.data.rows
  index : ∀ entry ∈ file.index.zip file.segments, Bounds entry.1.timeRangeStartUs
    entry.1.timeRangeEndUs entry.1.csnMin entry.1.csnMax entry.2.data.rows

def CompactionPreserves (lib : PropertyLibrary) (render : Value → String)
    (catalog : ObjectTypeCatalog) (states : List CoveObjectState) : Prop :=
  ∃ file, compactCoveOFromObjectStates lib catalog states = .ok file ∧
    Preserves lib render states file

/-- The properties of a state are catalogued, and none is stored as a code or redacted. -/
structure Catalogued (types : List CatalogType) (s : CoveObjectState) : Prop where
  type : ∃ t ∈ types, t.objectTypeId = s.objectTypeId ∧
    ∀ q ∈ s.properties, ∃ p ∈ t.properties, p.propertyId = q.propertyId
  plain : ∀ q ∈ s.properties, q.physicalKind ≠ .fileCode ∧ q.redacted = false

/-- In each type the CSNs follow the timestamps, all columns may be declared and take the values of
the states, and the counts fit. -/
structure Compactable (lib : PropertyLibrary) (types : List CatalogType)
    (states : List CoveObjectState) : Prop where
  fits : FileFits types states
  cataloguable : ∀ t ∈ types, ∀ p ∈ t.properties, Cataloguable p
  order : ∀ a ∈ states, ∀ c ∈ states, a.objectTypeId = c.objectTypeId →
    a.timestampUs < c.timestampUs → a.csn ≤ c.csn
  values : ∀ s ∈ states, ∀ t ∈ types, t.objectTypeId = s.objectTypeId → ∀ p ∈ t.properties,
    declaredNumeric p = false ∧ Survives lib p (propertyValue s.properties p.propertyId)

section

/-- A state is tombstoned when its latest record is a tombstone, and its kind is a published one. -/
def KindTells (s : CoveObjectState) : Prop :=
  s.recordKind ≠ .reservedLegacyMaterializedDelta ∧
    s.tombstoneStatus = if s.recordKind = .tombstone then .tombstoned else .live

variable {c : Option CoveObjectState}

theorem foldRecord_kind {r : CoveObjectRecord} {s : CoveObjectState}
    (h : foldRecord render c r = .ok s) : KindTells s := by
  replace h := rest_ok h
  cases hk : r.recordKind with
  | reservedLegacyMaterializedDelta =>
    rw [hk] at h
    cases h
  | baseline | snapshot =>
    rw [hk] at h
    rw [← Except.ok.inj h]
    simp [KindTells, stateFromFullRecord, hk]
  | delta =>
    rw [hk] at h
    cases c <;> rw [← Except.ok.inj h] <;>
      simp [KindTells, stateFromFullRecord, applyDeltaRecord, advance, hk]
  | tombstone =>
    rw [hk] at h
    cases c <;> rw [← Except.ok.inj h] <;> simp [KindTells, stateFromFullRecord, advance, hk]

theorem foldRecords_kind {rs : List CoveObjectRecord} (h : foldRecords render none rs = .ok c) :
    ∀ s ∈ c, KindTells s := by
  cases rs using List.reverseRecOn with
  | nil =>
    rw [← Except.ok.inj h]
    intro s hs
    cases hs
  | append_singleton rs r =>
    obtain ⟨c', s, -, hs, rfl⟩ := foldRecords_snoc_ok.mp h
    intro s' hs'
    rw [← Option.some.inj hs']
    exact foldRecord_kind hs

variable {records : List CoveObjectRecord} {options : CoveObjectReconstructionOptions}

variable (h : reconstructObjectStates render records options = .ok states)
include h

theorem reconstructed_kind : ∀ s ∈ states, KindTells s := by
  obtain ⟨-, hall, rfl⟩ := reconstruct_ok_iff.mp h
  intro s hs
  obtain ⟨k, hk, hs⟩ := mem_filterMap.mp hs
  obtain ⟨c, hc⟩ := hall k hk
  rw [outcome_of_ok hc] at hs
  exact foldRecords_kind hc s (Option.mem_filter_iff.mp hs).1

theorem reconstructed_strict : states.Pairwise fun a c => stateObject a < stateObject c := by
  obtain ⟨-, -, rfl⟩ := reconstruct_ok_iff.mp h
  refine pairwise_filterMap.mpr ((keysOf_strict objectKey _).imp ?_)
  intro k k' hlt s hs s' hs'
  rwa [outcome_object (fun r hr => (mem_under.mp hr).2) s hs,
    outcome_object (fun r hr => (mem_under.mp hr).2) s' hs']

end

section

variable {d : TemporalSegmentData}

section

variable (h : validateSegment d = .ok ())
include h

theorem validateSegment_last :
    ∀ last ∈ d.rows.getLast?,
      last.timestampUs ≤ d.header.timeRangeEndUs ∧ last.csn ≤ d.header.csnMax := by
  iterate 5 replace h := rest_ok h
  intro last hlast
  have hn := of_rejectIf h
  rw [Option.mem_def.mp hlast, Option.any_some, Bool.or_eq_true, decide_eq_true_eq,
    decide_eq_true_eq, not_or, not_lt, not_lt] at hn
  exact hn

theorem row_bounds_last {row : TemporalRowEntryV1} (hrow : row ∈ d.rows) :
    row.timestampUs ≤ d.header.timeRangeEndUs ∧ row.csn ≤ d.header.csnMax := by
  obtain ⟨-, horder, hcsn, -⟩ := validateSegment_ok h
  have hlast := validateSegment_last h
  have horder := isChain_iff_pairwise.mp horder
  have hcsn := isChain_iff_pairwise.mp hcsn
  generalize d.rows = rows at hrow horder hcsn hlast
  cases rows using List.reverseRecOn with
  | nil => cases hrow
  | append_singleton rows last =>
    obtain ⟨hts, hmax⟩ := hlast last List.getLast?_concat
    rcases mem_append.mp hrow with hrow | hrow
    · have hkey := (pairwise_append.mp horder).2.2 row hrow last mem_cons_self
      have hle := (pairwise_append.mp hcsn).2.2 row hrow last mem_cons_self
      exact ⟨(timestamp_le_of_rowKey_le hkey).trans hts, hle.trans hmax⟩
    · rw [mem_singleton.mp hrow]
      exact ⟨hts, hmax⟩

theorem bounds_of_valid :
    Bounds d.header.timeRangeStartUs d.header.timeRangeEndUs d.header.csnMin d.header.csnMax
      d.rows :=
  ⟨fun _ hrow => ⟨(row_bounds h hrow).1, (row_bounds_last h hrow).1⟩,
    fun _ hrow => ⟨(row_bounds h hrow).2, (row_bounds_last h hrow).2⟩⟩

end

theorem excludedByBloom_none (header : TemporalSegmentHeaderV1)
    (pushdown : CoveObjectReadPushdownOptions) :
    segmentExcludedByTemporalBloom header none pushdown = false := by
  unfold segmentExcludedByTemporalBloom
  split
  · cases ‹none = some _›
  · rfl

theorem pruning_keeps_compacted (h : validateSegments (builds.map (·.data)) = .ok ())
    (cut : Option CoveObjectTemporalCut) (branch : Option Nat) (goids : List Id16) :
    PruningKeeps render none cut branch goids (builds.map (compactedSurface lib)) := by
  have hvalid : validSegments (builds.map (compactedSurface lib)) := by
    rw [validSegments, map_map]
    exact h
  refine pruning_keeps_of_checked (checked_of_valid hvalid) ?_
  rintro ⟨s, -, hx, -⟩
  rw [excludedByBloom_none] at hx
  cases hx

end

theorem compact_ok_iff {file : CompactedFile} :
    compactCoveOFromObjectStates lib catalog states = .ok file ↔
      ∃ builds, reconstructedTemporalSegments lib catalog.types states = .ok builds ∧
        file = compactedFile catalog builds ∧ writeSections lib file = .ok () ∧
          validateFile lib file = .ok () := by
  simp only [compactCoveOFromObjectStates, andThen_eq_ok_iff, mapError_eq_ok_iff, Except.ok.injEq]
  constructor
  · rintro ⟨builds, hbuilds, ⟨⟩, hwrite, ⟨⟩, hvalid, rfl⟩
    exact ⟨builds, hbuilds, rfl, hwrite, hvalid⟩
  · rintro ⟨builds, hbuilds, rfl, hwrite, hvalid⟩
    exact ⟨builds, hbuilds, (), hwrite, (), hvalid, rfl⟩

namespace Compactable

variable {s : CoveObjectState} {t : CatalogType}

variable (h : Compactable lib types states) (hs : s ∈ states) (ht : t ∈ types)
  (hid : t.objectTypeId = s.objectTypeId) (hp : p ∈ t.properties)
include h hs ht hid hp

theorem written : Written p := by
  have hpair := (h.cataloguable t ht p hp).2
  rwa [(h.values s hs t ht hid p hp).1] at hpair

theorem comesBack : ∃ stored, ComesBack lib p (propertyValue s.properties p.propertyId) stored :=
  comesBack_of_survives (h.written hs ht hid hp) (h.values s hs t ht hid p hp).2

end Compactable

theorem page_exists {rows : List CoveObjectState}
    (h : ∀ s ∈ rows, (∀ q ∈ s.properties, q.redacted = false) ∧
      ∃ stored, ComesBack lib p (propertyValue s.properties p.propertyId) stored) :
    ∃ page, reconstructedPropertyPage lib rows p = .ok page := by
  apply exists_mapM
  intro s hs
  obtain ⟨hplain, stored, hstored⟩ := h s hs
  refine ⟨stored, rejectIf_andThen ?_ hstored.appended⟩
  rw [any_eq_true]
  rintro ⟨q, hq, hredacted⟩
  rw [hplain q hq, Bool.and_false] at hredacted
  cases hredacted

theorem segments_exist (hkinds : ∀ s ∈ states, s.recordKind ≠ .reservedLegacyMaterializedDelta)
    (hstates : ∀ s ∈ states, Catalogued types s) (h : Compactable lib types states) :
    ∃ builds, reconstructedTemporalSegments lib types states = .ok builds := by
  have hpublished : checkAll (fun s : CoveObjectState =>
      rejectIf (s.recordKind = .reservedLegacyMaterializedDelta)
        "cannot compact reserved legacy materialized-delta records") states = .ok () :=
    checkAll_eq_ok_iff.mpr fun s hs => rejectIf_ok (hkinds s hs)
  have hgroups : ∃ builds, (grouped (·.objectTypeId) states).zipIdx.mapM
      (reconstructedTemporalSegment lib types) = .ok builds := by
    apply exists_mapM
    rintro ⟨group, i⟩ hgroup
    have hi : i < 2 ^ 32 := by
      have hlt := (List.getElem?_eq_some_iff.mp (mem_zipIdx_iff_getElem?.mp hgroup)).1
      rw [grouped, length_map] at hlt
      exact hlt.trans ((Nat.le_add_right _ _).trans_lt h.fits.segments)
    obtain ⟨k, hk, rfl⟩ := mem_map.mp (fst_mem_of_mem_zipIdx hgroup)
    obtain ⟨s, hs, rfl⟩ := mem_keysOf.mp hk
    obtain ⟨t, ht, hid, -⟩ := (hstates s hs).type
    obtain ⟨t', hfind⟩ : ∃ t', types.find? (·.objectTypeId == s.objectTypeId) = some t' :=
      Option.isSome_iff_exists.mp (List.find?_isSome.mpr ⟨t, ht, by rw [hid]; exact beq_self_eq_true _⟩)
    have hid' := List.find?_some hfind
    rw [beq_iff_eq] at hid'
    have hpages : ∃ columns, t'.properties.mapM (reconstructedPropertyPage lib
        (sortByKey stateRowKey (under (·.objectTypeId) s.objectTypeId states))) = .ok columns := by
      refine exists_mapM fun p hp => page_exists fun s' hs' => ?_
      obtain ⟨hs', htype⟩ := mem_under.mp ((sortByKey_perm _ _).mem_iff.mp hs')
      refine ⟨fun q hq => ((hstates s' hs').plain q hq).2, ?_⟩
      exact h.comesBack hs' (mem_of_find?_eq_some hfind) (hid'.trans htype.symm) hp
    obtain ⟨columns, hcolumns⟩ := hpages
    have hrows : (sortByKey stateRowKey (under (·.objectTypeId) s.objectTypeId states)).length <
        2 ^ 32 := by
      rw [(sortByKey_perm _ _).length_eq]
      exact (length_filter_le _ _).trans_lt h.fits.stateCount
    have hcount : t'.properties.length < 2 ^ 32 :=
      (h.fits.catalog.properties t' (mem_of_find?_eq_some hfind)).trans (by decide)
    exact ⟨_, andThen_ok (okOr_eq_ok_iff.mpr hfind) (rejectIf_andThen hi.not_ge
      (rejectIf_andThen hrows.not_ge (rejectIf_andThen hcount.not_ge (andThen_ok hcolumns rfl))))⟩
  obtain ⟨builds, hbuilds⟩ := hgroups
  exact ⟨builds, andThen_ok hpublished hbuilds⟩

section

variable (h : BuiltFrom lib types states builds)
include h

theorem columns_accepted (hcompactable : Compactable lib types states) (hb : b ∈ builds) :
    ColumnsAccepted lib b := by
  intro column hcolumn
  have hp := (of_mem_zip hcolumn).1
  have hpage := page_forall₂ (h.pages_zip hb hcolumn)
  have hrow : ∀ s ∈ b.rows, declaredNumeric column.1 = false ∧ Written column.1 ∧
      Survives lib column.1 (propertyValue s.properties column.1.propertyId) := by
    intro s hs
    obtain ⟨hs, htype⟩ := (h.row_mem hb).mp hs
    obtain ⟨hdeclared, hsurvives⟩ :=
      hcompactable.values s hs b.objectType (h.catalogued b hb) htype.symm column.1 hp
    exact ⟨hdeclared, hcompactable.written hs (h.catalogued b hb) htype.symm hp, hsurvives⟩
  have hstored : ∀ stored ∈ column.2, ∃ s ∈ b.rows, appendPropertyValue lib column.1
      (propertyValue s.properties column.1.propertyId) = .ok stored := fun stored hstored =>
    forall₂_mem_left hpage.flip hstored
  obtain ⟨s₀, hs₀⟩ : ∃ s, s ∈ b.rows := by
    obtain ⟨s, hs, htype⟩ := mem_keysOf.mp (by rw [← h.typeIds]; exact mem_map_of_mem hb)
    exact ⟨s, (h.row_mem hb).mpr ⟨hs, htype⟩⟩
  obtain ⟨hdeclared, hwritten, hsurvives⟩ := hrow s₀ hs₀
  obtain ⟨hfile, -, -⟩ := (survives_iff hwritten).mp hsurvives
  refine rejectIf_andThen (by rw [hdeclared]; exact Bool.false_ne_true)
    (rejectIf_andThen hfile (rejectIf_andThen ?_ ?_))
  · rintro ⟨hnullable, hcount⟩
    obtain ⟨s, hs, happend⟩ := hstored .null (count_pos_iff.mp (Nat.pos_of_ne_zero hcount))
    have hnull := ((survives_iff hwritten).mp (hrow s hs).2.2).2.1
      ((stored_eq_null_iff happend).mp rfl)
    rw [hnullable] at hnull
    cases hnull
  · refine checkAll_eq_ok_iff.mpr fun stored hmem => ?_
    obtain ⟨s, hs, happend⟩ := hstored stored hmem
    obtain ⟨stored', hback⟩ := comesBack_of_survives hwritten (hrow s hs).2.2
    obtain rfl := Except.ok.inj (hback.appended.symm.trans happend)
    exact hback.accepted

theorem survives_of_accepted (hb : b ∈ builds) (haccepted : ColumnsAccepted lib b)
    (hp : p ∈ b.objectType.properties) (hcataloguable : Cataloguable p) {s : CoveObjectState}
    (hs : s ∈ b.rows)
    (hback : writtenValue lib p (propertyValue s.properties p.propertyId) =
      some (propertyValue s.properties p.propertyId)) :
    declaredNumeric p = false ∧ Survives lib p (propertyValue s.properties p.propertyId) := by
  obtain ⟨page, hcolumn⟩ : ∃ page, (p, page) ∈ b.objectType.properties.zip b.columns := by
    obtain ⟨i, hi, rfl⟩ := getElem_of_mem hp
    have hj : i < b.columns.length := by rw [← (h.pages b hb).length_eq]; exact hi
    refine ⟨b.columns[i], mem_of_getElem? (i := i) ?_⟩
    exact List.getElem?_zip_eq_some.mpr ⟨List.getElem?_eq_getElem hi, List.getElem?_eq_getElem hj⟩
  obtain ⟨hflags, hcheck⟩ := of_reject (haccepted _ hcolumn)
  obtain ⟨hfile, hcheck⟩ := of_reject hcheck
  obtain ⟨hnullable, hcheck⟩ := of_reject hcheck
  obtain ⟨stored, hstored, happend⟩ := forall₂_mem_left (page_forall₂ (h.pages_zip hb hcolumn)) hs
  obtain ⟨stored', hstored', hdecoded⟩ := Option.bind_eq_some_iff.mp hback
  obtain rfl := Except.ok.inj ((toOption_eq_some_iff.mp hstored').symm.trans happend)
  have hcheck := checkAll_eq_ok_iff.mp hcheck _ hstored
  have hdeclared := Bool.eq_false_iff.mpr hflags
  have hwritten := hcataloguable.2
  rw [hdeclared] at hwritten
  refine ⟨hdeclared, (survives_iff hwritten).mpr ⟨hfile, fun hnull => ?_, stored', happend, hcheck,
      toOption_eq_some_iff.mp hdecoded⟩⟩
  have hzero := (stored_eq_null_iff happend).mpr hnull
  refine Bool.of_not_eq_false fun hfalse => hnullable ⟨hfalse, ?_⟩
  exact (count_pos_iff.mpr (by rw [← hzero]; exact hstored)).ne'

end

section

theorem writtenValue_of_comesBack {v : Value} {stored : StoredValue}
    (hback : ComesBack lib p v stored) : writtenValue lib p v = some v := by
  rw [writtenValue, hback.appended]
  change (decodePropertyValue lib p stored).toOption = some v
  rw [hback.decoded]
  rfl

variable {s r : CoveObjectState}

section

variable (h : BuiltFrom lib types states builds)
include h

theorem propertyValue_restored (hr : Restored render lib builds s r) {t : CatalogType}
    (ht : t ∈ types) (hnodup : (types.map (·.objectTypeId)).Nodup)
    (hid : t.objectTypeId = s.objectTypeId) (hp : p ∈ t.properties) :
      propertyValue r.properties p.propertyId = readBack lib s p := by
  obtain ⟨b, hb, i, hrow, rfl⟩ := hr
  have htype := ((h.row_mem hb).mp (mem_of_getElem? hrow)).2
  obtain rfl := inj_on_of_nodup_map hnodup ht (h.catalogued b hb) (hid.trans htype)
  exact propertyValue_withValue hp

theorem sameState_of_restored (hnodup : (types.map (·.objectTypeId)).Nodup) (hs : s ∈ states)
    (hkind : KindTells s) (hcatalogued : Catalogued types s)
    (hcompactable : Compactable lib types states) (hr : Restored render lib builds s r) : SameState s r := by
  obtain ⟨b, hb, i, hrow, hrestored⟩ := id hr
  have htype := ((h.row_mem hb).mp (mem_of_getElem? hrow)).2
  refine ⟨?_, ?_, ?_, ?_, ?_, fun propertyId => ?_⟩
  · rw [hrestored, stateObject, stateObject, htype]
    rfl
  · rw [hrestored, hkind.2]
    rfl
  · rw [hrestored]
    rfl
  · rw [hrestored]
    rfl
  · rw [hrestored]
    rfl
  · by_cases hp : ∃ p ∈ b.objectType.properties, p.propertyId = propertyId
    · obtain ⟨p, hp, rfl⟩ := hp
      obtain ⟨stored, hback⟩ := hcompactable.comesBack hs (h.catalogued b hb) htype.symm hp
      rw [propertyValue_restored h hr (h.catalogued b hb) hnodup htype.symm hp, readBack,
        writtenValue_of_comesBack hback]
      rfl
    · obtain ⟨t, ht, hid, hproperties⟩ := hcatalogued.type
      obtain rfl := inj_on_of_nodup_map hnodup ht (h.catalogued b hb) (hid.trans htype)
      rw [propertyValue_of_missing, propertyValue_of_missing]
      · intro q hq heq
        obtain ⟨p, hmem, hpid⟩ := hproperties q hq
        exact hp ⟨p, hmem, hpid.trans heq⟩
      · rw [hrestored]
        intro q hq heq
        obtain ⟨p, hmem, rfl⟩ := mem_map.mp hq
        exact hp ⟨p, hmem, heq⟩

theorem follows_iff : (∀ b ∈ builds, CsnFollows b.rows) ↔
    ∀ a ∈ states, ∀ c ∈ states, a.objectTypeId = c.objectTypeId →
      a.timestampUs < c.timestampUs → a.csn ≤ c.csn := by
  constructor
  · intro hfollows a ha c hc htype
    obtain ⟨b, hb, hab⟩ := h.exists_segment ha
    exact hfollows b hb a ((h.row_mem hb).mpr ⟨ha, hab.symm⟩) c
      ((h.row_mem hb).mpr ⟨hc, (hab.trans htype).symm⟩)
  · intro horder b hb a ha c hc
    obtain ⟨ha, hatype⟩ := (h.row_mem hb).mp ha
    obtain ⟨hc, hctype⟩ := (h.row_mem hb).mp hc
    exact horder a ha c hc (hatype.trans hctype.symm)

theorem readable_of_compactable (hcompactable : Compactable lib types states) (hb : b ∈ builds)
    (hp : p ∈ b.objectType.properties) : ReadableStates lib b.rows p := by
  intro s hs
  obtain ⟨hs, htype⟩ := (h.row_mem hb).mp hs
  obtain ⟨stored, hback⟩ := hcompactable.comesBack hs (h.catalogued b hb) htype.symm hp
  rw [writtenValue_of_comesBack hback]
  rfl

/-- A restored state with the values it had before has values that survive. -/
theorem survives_of_same (hnodup : (types.map (·.objectTypeId)).Nodup) (hs : s ∈ states)
    {t : CatalogType} (ht : t ∈ types) (hid : t.objectTypeId = s.objectTypeId)
    (hp : p ∈ t.properties) (hcataloguable : Cataloguable p)
    (haccepted : ∀ b ∈ builds, ColumnsAccepted lib b)
    (hreadable : ∀ b ∈ builds, ∀ p ∈ b.objectType.properties, ReadableStates lib b.rows p)
    (hr : Restored render lib builds s r) (hsame : SameState s r) :
    declaredNumeric p = false ∧ Survives lib p (propertyValue s.properties p.propertyId) := by
  obtain ⟨b, hb, hab⟩ := h.exists_segment hs
  obtain rfl := inj_on_of_nodup_map hnodup ht (h.catalogued b hb) (hid.trans hab.symm)
  have hrow := (h.row_mem hb).mpr ⟨hs, hid.symm⟩
  refine survives_of_accepted h hb (haccepted b hb) hp hcataloguable hrow ?_
  have hvalue := hsame.values p.propertyId
  rw [propertyValue_restored h hr ht hnodup hid hp, readBack] at hvalue
  obtain ⟨v, hv⟩ := Option.isSome_iff_exists.mp (hreadable b hb p hp s hrow)
  rw [hv, Option.getD_some] at hvalue
  rw [hv, hvalue]

end

variable {α β : Type} {R S : α → β → Prop} {xs : List α} {ys : List β}

theorem forall₂_and (hr : List.Forall₂ R xs ys) (hs : List.Forall₂ S xs ys) :
    List.Forall₂ (fun x y => R x y ∧ S x y) xs ys := by
  induction hr with
  | nil => exact .nil
  | cons hxy _ ih =>
    obtain ⟨hxy', hs⟩ := forall₂_cons.mp hs
    exact .cons ⟨hxy, hxy'⟩ (ih hs)

theorem forall₂_of_mem (h : List.Forall₂ R xs ys) (himp : ∀ x ∈ xs, ∀ y, R x y → S x y) :
    List.Forall₂ S xs ys := by
  induction h with
  | nil => exact .nil
  | cons hxy _ ih =>
    obtain ⟨hx, hxs⟩ := forall_mem_cons.mp himp
    exact .cons (hx _ hxy) (ih hxs)

end

section

variable {records : List CoveObjectRecord} {options : CoveObjectReconstructionOptions}
  (hstates : reconstructObjectStates render records options = .ok states)
include hstates

theorem reconstructed_published :
    ∀ s ∈ states, s.recordKind ≠ .reservedLegacyMaterializedDelta :=
  fun s hs => (reconstructed_kind hstates s hs).1

theorem compactable_of_preserves (hkeeps : CompactionPreserves lib render catalog states) :
    Compactable lib catalog.types states := by
  have hpublished := reconstructed_published hstates
  obtain ⟨file, hcompact, hpreserves⟩ := hkeeps
  obtain ⟨builds, hbuilds, rfl, hwrite, hvalid⟩ := compact_ok_iff.mp hcompact
  have h := builtFrom_of_ok hbuilds
  obtain ⟨hcataloguable, hfollows, haccepted⟩ := (h.validateFile_iff hpublished).mp hvalid
  obtain ⟨surfaces, restored, hread, hrestored, hsame, -⟩ := hpreserves.states
  obtain ⟨hreadable, rfl⟩ := (h.read_iff hpublished hvalid).mp hread
  obtain ⟨restored', hrestored', hfrom⟩ := @BuiltFrom.reconstruct_compacted _ render _ _ _ h
    hpublished (reconstructed_strict hstates)
  rw [allRecords_compacted, hrestored'] at hrestored
  cases hrestored
  refine ⟨(h.writeSections_iff.mp hwrite).2, hcataloguable, (follows_iff h).mp hfollows,
    fun s hs t ht hid p hp => ?_⟩
  obtain ⟨r, -, hr, hsame⟩ := forall₂_mem_left (forall₂_and hfrom hsame) hs
  exact survives_of_same h catalog.types_nodup hs ht hid hp (hcataloguable t ht p hp) haccepted
    hreadable hr hsame

theorem preserves_of_compactable (hcatalogued : ∀ s ∈ states, Catalogued catalog.types s)
    (hcompactable : Compactable lib catalog.types states) :
    CompactionPreserves lib render catalog states := by
  have hpublished := reconstructed_published hstates
  obtain ⟨builds, hbuilds⟩ := segments_exist hpublished hcatalogued hcompactable
  have h := builtFrom_of_ok hbuilds
  have hfollows := (follows_iff h).mpr hcompactable.order
  have haccepted : ∀ b ∈ builds, ColumnsAccepted lib b := fun b hb =>
    columns_accepted h hcompactable hb
  have hvalid := (h.validateFile_iff hpublished).mpr
    ⟨hcompactable.cataloguable, hfollows, haccepted⟩
  have hwrite := h.writeSections_iff.mpr ⟨fun b hb => trustSegment_ok (h.pages b hb)
    (hcompactable.cataloguable _ (h.catalogued b hb))
    ((h.validate_iff hpublished hb).mpr (hfollows b hb)) (haccepted b hb), hcompactable.fits⟩
  have hbounds : ∀ b ∈ builds, Bounds b.header.timeRangeStartUs b.header.timeRangeEndUs
      b.header.csnMin b.header.csnMax b.data.rows := fun b hb =>
    bounds_of_valid ((h.validate_iff hpublished hb).mpr (hfollows b hb))
  obtain ⟨restored, hrestored, hfrom⟩ := @BuiltFrom.reconstruct_compacted _ render _ _ _ h
    hpublished (reconstructed_strict hstates)
  refine ⟨_, compact_ok_iff.mpr ⟨builds, hbuilds, rfl, hwrite, hvalid⟩, ⟨_, restored,
    (h.read_iff hpublished hvalid).mpr
      ⟨fun b hb p hp => readable_of_compactable h hcompactable hb hp, rfl⟩, ?_, ?_, ?_⟩, hbounds, ?_⟩
  · rw [allRecords_compacted]
    exact hrestored
  · exact forall₂_of_mem hfrom fun s hs r hr => sameState_of_restored h catalog.types_nodup hs
      (reconstructed_kind hstates s hs) (hcatalogued s hs) hcompactable hr
  · exact pruning_keeps_compacted ((h.validateSegments_iff hpublished).mpr hfollows)
  · have hzip : (builds.map (·.indexEntry)).zip (builds.map id) =
        builds.map fun b => (b.indexEntry, b) := zip_map'
    rw [map_id] at hzip
    change ∀ entry ∈ (builds.map (·.indexEntry)).zip builds, _
    rw [hzip]
    exact forall_mem_map.mpr hbounds

end

def textLibrary : PropertyLibrary where
  jsonText _ := ""
  parseJson _ := none
  fileCodeFor _ _ := .error "COVE-MAP writer needs a file dictionary for FileCode properties"
  fileCodeValue _ _ := .error .badFileCode

def nameProperty : PropertyEntryV1 := ⟨1, "name", .utf8, .varBytes, true, 0⟩

def personCatalog : ObjectTypeCatalog where
  types := [⟨⟨1, "Person", 1⟩, [nameProperty], by decide⟩]
  types_nodup := by decide

def personSegment (segmentId : Nat) (goid : Id16) (timestampUs : Int) (csn : Nat) (name : String) :
    SegmentSurface where
  segment := ⟨⟨segmentId, 1, timestampUs, timestampUs, csn, csn⟩,
    [⟨timestampUs, csn, 0, goid, goid, .baseline, none⟩]⟩
  objectType := ⟨1, "Person", 1⟩
  valuesByRow := [[nameProperty.withValue (.string name)]]
  typed := rfl
  aligned := rfl

def people : List SegmentSurface := [personSegment 0 1 10 5 "Ann", personSegment 1 2 20 3 "Bob"]

def peopleStates : Except CoveError (List CoveObjectState) :=
  reconstructObjectStates (fun _ => "") (allRecords (fun _ => "") people) withTombstones

theorem catalogued_of_names {states : List CoveObjectState}
    (h : (states.all fun s => s.objectTypeId == 1 && s.properties.all fun q =>
      q.propertyId == 1 && q.physicalKind == .varBytes && !q.redacted) = true) :
    ∀ s ∈ states, Catalogued personCatalog.types s := by
  intro s hs
  obtain ⟨htype, hproperties⟩ := Bool.and_eq_true_iff.mp (all_eq_true.mp h s hs)
  have hq : ∀ q ∈ s.properties, q.propertyId = 1 ∧ q.physicalKind = .varBytes ∧
      q.redacted = false := by
    intro q hq
    have hq := all_eq_true.mp hproperties q hq
    simpa [and_assoc] using hq
  refine ⟨⟨_, mem_singleton.mpr rfl, (eq_of_beq htype).symm, fun q hmem => ?_⟩, fun q hmem => ?_⟩
  · exact ⟨nameProperty, mem_singleton.mpr rfl, (hq q hmem).1.symm⟩
  · rw [(hq q hmem).2.1]
    exact ⟨CovePhysicalKind.noConfusion, (hq q hmem).2.2⟩

def peopleInOrder : List SegmentSurface := [personSegment 0 1 10 3 "Ann", personSegment 1 2 20 5 "Bob"]

theorem personCatalog_fits : CatalogFits personCatalog.types where
  typeCount := by decide
  properties := by decide
  typeNames := by decide
  propertyNames := by decide

/-- Two persons are compacted when the later one has the greater CSN. -/
theorem compactable_persons {ann bob : CoveObjectState}
    (hann : ann.objectTypeId = 1) (hbob : bob.objectTypeId = 1)
    (hname : (propertyValue ann.properties 1).asStr = some "Ann")
    (hname' : (propertyValue bob.properties 1).asStr = some "Bob")
    (htime : ann.timestampUs < bob.timestampUs) (hcsn : ann.csn < bob.csn) :
    Compactable textLibrary personCatalog.types [ann, bob] := by
  have htext : ∀ {v : Value} {text : String}, v.asStr = some text → text.utf8ByteSize < 2 ^ 32 →
      Survives textLibrary nameProperty v := by
    intro v text hv hsize
    cases v with
    | string value =>
      obtain rfl := Option.some.inj hv
      exact .text value rfl (.inl rfl) hsize
    | _ => cases hv
  refine ⟨⟨personCatalog_fits, (by decide : 2 < 2 ^ 32), ?_⟩, ?_, ?_, ?_⟩
  · simp only [keysOf, map_cons, map_nil, hann, hbob]
    decide
  · rintro t ht p hp
    obtain rfl := mem_singleton.mp ht
    obtain rfl := mem_singleton.mp hp
    exact ⟨CoveLogicalType.noConfusion, rfl⟩
  · simp only [forall_mem_cons, not_mem_nil, false_implies, implies_true, and_true]
    omega
  · simp only [forall_mem_cons, not_mem_nil, false_implies, implies_true, and_true]
    refine ⟨fun t ht _ p hp => ?_, fun t ht _ p hp => ?_⟩ <;> obtain rfl := mem_singleton.mp ht <;>
      obtain rfl := mem_singleton.mp hp
    · exact ⟨rfl, htext hname (by decide)⟩
    · exact ⟨rfl, htext hname' (by decide)⟩

end CoveFormat.StateCompaction
