import CoveFormat.GoidSeparation
import CoveFormat.SegmentRecords

namespace CoveFormat.SourceMerge

open ByteCodes ExceptRules SortedKeys Grouping JsonValue Temporal ObjectSurface Reconstruction
  KeptRecords TemporalPushdown AsOfPruning IdentityKeys IdentityPlanning IdentityComponents
  PropertyValues MaterializedRows SegmentBuild SegmentRecords ExprEval List

variable {row : ObjectRow}

variable {lib : PropertyLibrary} {render : Value → String} {m : MaterializedModel}
  {b : TemporalSegmentBuild} {builds : List TemporalSegmentBuild}

/-- The rows of a mapping without tombstones and snapshots. -/
def WritesValues (rows : List ObjectRow) : Prop :=
  ∀ row ∈ rows, row.recordKind = .baseline ∨ row.recordKind = .delta

instance (rows : List ObjectRow) : Decidable (WritesValues rows) :=
  inferInstanceAs (Decidable (∀ row ∈ rows, _))

/-- What the builder makes of a model: a segment for each type that has rows. -/
structure Built (lib : PropertyLibrary) (m : MaterializedModel) (builds : List TemporalSegmentBuild) :
    Prop where
  types : builds.map (·.objectType.objectTypeId) = keysOf (·.objectTypeId) m.rows
  segmentIds : builds.map (·.segmentId) = range builds.length
  catalogued : ∀ b ∈ builds, b.objectType ∈ m.objectTypes
  rows : ∀ b ∈ builds, b.rows =
    sortByKey segmentRowKey (under (·.objectTypeId) b.objectType.objectTypeId m.rows)
  stored : ∀ b ∈ builds, Stored lib b

theorem buildSegment_ok {types : List CatalogType} {entry : (Nat × List ObjectRow) × Nat}
    (h : buildSegment lib types entry = .ok b) :
    b.segmentId = entry.2 ∧ b.objectType ∈ types ∧ b.objectType.objectTypeId = entry.1.1 ∧
      b.rows = sortByKey segmentRowKey entry.1.2 ∧ Stored lib b := by
  obtain ⟨t, ht, h⟩ := of_andThen h
  obtain ⟨columns, hcolumns, h⟩ := of_andThen h
  cases h
  have ht := okOr_eq_ok_iff.mp ht
  have hid := List.find?_some ht
  exact ⟨rfl, mem_of_find?_eq_some ht, eq_of_beq hid, rfl, mapM_eq_ok_iff.mp hcolumns⟩

theorem built_of_ok (h : buildTemporalSegments lib m = .ok builds) : Built lib m builds := by
  obtain ⟨htypes, hids, hgroups⟩ := segments_of_groups
    (fun _ _ hb => ⟨(buildSegment_ok hb).1, (buildSegment_ok hb).2.2.1⟩) h
  refine ⟨htypes, hids, fun b hb => ?_, fun b hb => ?_, fun b hb => ?_⟩
  · obtain ⟨i, hb⟩ := hgroups b hb
    exact (buildSegment_ok hb).2.1
  · obtain ⟨i, hb⟩ := hgroups b hb
    exact (buildSegment_ok hb).2.2.2.1
  · obtain ⟨i, hb⟩ := hgroups b hb
    exact (buildSegment_ok hb).2.2.2.2

def fileRecords (render : Value → String) (lib : PropertyLibrary)
    (builds : List TemporalSegmentBuild) : List CoveObjectRecord :=
  builds.flatMap fun b => b.rows.zipIdx.map (recordAt render lib b)

theorem allRecords_surfaces :
    allRecords render (builds.map (surfaceOf lib)) = fileRecords render lib builds := by
  rw [allRecords_eq, flatMap_map, fileRecords]
  apply flatMap_congr
  intro b _
  exact surface_records

namespace Built

variable (h : Built lib m builds)
include h

theorem row_mem (hb : b ∈ builds) :
    row ∈ b.rows ↔ row ∈ m.rows ∧ row.objectTypeId = b.objectType.objectTypeId := by
  rw [h.rows b hb, (sortByKey_perm _ _).mem_iff, mem_under]

theorem exists_segment (hrow : row ∈ m.rows) :
    ∃ b ∈ builds, b.objectType.objectTypeId = row.objectTypeId := by
  have hkey : row.objectTypeId ∈ keysOf (·.objectTypeId) m.rows := mem_keysOf.mpr ⟨row, hrow, rfl⟩
  rw [← h.types] at hkey
  exact mem_map.mp hkey

theorem types_nodup : (builds.map (·.objectType.objectTypeId)).Nodup := by
  rw [h.types]
  exact (keysOf_strict _ _).imp ne_of_lt

theorem segmentIds_nodup : (builds.map (·.segmentId)).Nodup := by
  rw [h.segmentIds]
  exact nodup_range

theorem read_ok_iff (hkinds : ∀ row ∈ m.rows, row.recordKind ≠ .reservedLegacyMaterializedDelta)
    {surfaces : List SegmentSurface} :
    builds.mapM (readSegment lib) = .ok surfaces ↔
      (∀ b ∈ builds, ∀ p ∈ b.objectType.properties, Readable lib b.rows p) ∧
      surfaces = builds.map (surfaceOf lib) := by
  refine mapM_eq_ok_map_iff fun b hb s => ?_
  rw [readSegment_ok_iff (h.stored b hb)]
  refine and_iff_right (validate_built fun row hrow => ?_)
  exact hkinds row ((h.row_mem hb).mp hrow).1

theorem records_under (hb : b ∈ builds) (goid : Id16) :
    under objectKey (toLex (b.objectType.objectTypeId, toLex (0, goid)))
      (fileRecords render lib builds) = firstRecords render lib b goid b.rows.length := by
  have htype : ∀ x ∈ builds, ∀ r ∈ x.rows.zipIdx.map (recordAt render lib x),
      decide (objectKey r = toLex (b.objectType.objectTypeId, toLex (0, goid))) = true →
      x.objectType.objectTypeId = b.objectType.objectTypeId := by
    intro x _ r hr hkey
    obtain ⟨entry, -, rfl⟩ := mem_map.mp hr
    exact (Prod.mk.inj (of_decide_eq_true hkey)).1
  rw [under, fileRecords, filter_flatMap htype, filter_ident h.types_nodup hb, flatMap_singleton,
    filter_map, firstRecords, take_length, rowsOfGoid]
  apply congrArg
  apply filter_congr
  intro entry _
  have hkey : objectKey (recordAt render lib b entry) =
      toLex (b.objectType.objectTypeId, toLex (0, entry.1.goid)) := rfl
  rw [Function.comp, hkey]
  simp

end Built

theorem recordAt_lt {x y : ObjectRow × Nat} (h : x.2 < y.2) :
    recordSortKey (recordAt render lib b x) < recordSortKey (recordAt render lib b y) := by
  refine Prod.Lex.toLex_lt_toLex.mpr (.inr ⟨rfl, ?_⟩)
  exact Prod.Lex.toLex_lt_toLex.mpr (.inl h)

theorem history_firstRecords (goid : Id16) (n : Nat) :
    history (firstRecords render lib b goid n) = firstRecords render lib b goid n := by
  apply sortByKey_of_sorted
  exact pairwise_map.mpr (((zipIdx_pairwise _).filter _).imp fun hlt => (recordAt_lt hlt).le)

theorem mem_fileRecords {r : CoveObjectRecord} : r ∈ fileRecords render lib builds ↔
    ∃ b ∈ builds, ∃ row, b.rows[r.rowIndex]? = some row ∧
      r = recordAt render lib b (row, r.rowIndex) := by
  simp only [fileRecords, mem_flatMap, mem_map, mem_zipIdx_iff_getElem?]
  constructor
  · rintro ⟨b, hb, ⟨row, i⟩, hrow, rfl⟩
    exact ⟨b, hb, row, hrow, rfl⟩
  · rintro ⟨b, hb, row, hrow, hr⟩
    exact ⟨b, hb, _, hrow, hr.symm⟩

namespace Built

variable (h : Built lib m builds)
include h

theorem address_unique {r p : CoveObjectRecord} (hr : r ∈ fileRecords render lib builds)
    (hp : p ∈ fileRecords render lib builds) (haddress : address r = address p) : r = p := by
  obtain ⟨hsegment, hindex⟩ := Prod.mk.inj haddress
  obtain ⟨b, hb, row, hrow, hr⟩ := mem_fileRecords.mp hr
  obtain ⟨b', hb', row', hrow', hp⟩ := mem_fileRecords.mp hp
  rw [hr, hp] at hsegment
  obtain rfl := inj_on_of_nodup_map h.segmentIds_nodup hb hb' hsegment
  rw [← hindex, hrow] at hrow'
  rw [hr, hp, ← hindex, Option.some.inj hrow']

theorem validatePrevRefs_ok : validatePrevRefs (fileRecords render lib builds) = .ok () := by
  refine checkAll_eq_ok_iff.mpr fun r hr => ?_
  obtain ⟨b, hb, row, -, hreq⟩ := mem_fileRecords.mp hr
  cases href : r.prevRef with
  | none => rw [validatePrevRef, href]
  | some ref =>
    have hmem : ref ∈ (entryOf b (row, r.rowIndex)).prevRef := by
      rw [hreq] at href
      exact href
    obtain ⟨hsegment, hkind, hlt, row', hrow', hgoid⟩ := prevRef_mem hmem
    have hp : recordAt render lib b (row', ref.rowIndex) ∈ fileRecords render lib builds :=
      mem_fileRecords.mpr ⟨b, hb, row', hrow', rfl⟩
    refine validatePrevRef_of_previous (fun q hq => h.address_unique hq hp) hp href ?_
    refine ⟨Prod.ext hsegment.symm rfl, ?_, ?_, by rw [hkind]; exact Nat.zero_le 1⟩
    · rw [hreq]
      exact congrArg (fun g => toLex (_, toLex (0, g))) hgoid
    · rw [hreq]
      exact recordAt_lt hlt

end Built

def objectRows (m : MaterializedModel) (row : ObjectRow) : List ObjectRow :=
  sortByKey segmentRowKey (m.rows.filter fun other =>
    other.objectTypeId = row.objectTypeId ∧ other.goid = row.goid)

def rowObject (row : ObjectRow) : Nat ×ₗ Nat ×ₗ Nat :=
  toLex (row.objectTypeId, toLex (0, row.goid))

theorem rowsOfGoid_map_fst (goid : Id16) (rows : List ObjectRow) :
    (rowsOfGoid goid rows).map Prod.fst = rows.filter fun row => row.goid = goid := by
  have hzip : rows.filter (fun row => row.goid = goid) =
      (rows.zipIdx.map Prod.fst).filter fun row => row.goid = goid := by
    rw [zipIdx_map_fst]
  rw [hzip, filter_map]
  rfl

theorem objectRows_eq (h : Built lib m builds) (hb : b ∈ builds) (hrow : row ∈ b.rows) :
    objectRows m row = (rowsOfGoid row.goid b.rows).map Prod.fst := by
  rw [rowsOfGoid_map_fst, h.rows b hb, objectRows, under, ← sortByKey_filter, filter_filter]
  apply congrArg
  apply filter_congr
  intro other _
  rw [((h.row_mem hb).mp hrow).2, Bool.decide_and, Bool.and_comm]

theorem isSelected_default (r : CoveObjectRecord) : isSelected {} r = true := rfl

theorem objectRecords_default (records : List CoveObjectRecord) (k : Nat ×ₗ Nat ×ₗ Nat) :
    objectRecords {} records k = under objectKey k records := by
  rw [objectRecords, filter_eq_self.mpr fun r _ => isSelected_default r]

theorem history_object (h : Built lib m builds) (hb : b ∈ builds) (goid : Id16) :
    history (objectRecords {} (fileRecords render lib builds)
      (toLex (b.objectType.objectTypeId, toLex (0, goid)))) =
      firstRecords render lib b goid b.rows.length := by
  rw [objectRecords_default, h.records_under hb, history_firstRecords]

def fileStates (render : Value → String) (lib : PropertyLibrary)
    (builds : List TemporalSegmentBuild) : List CoveObjectState :=
  (objects {} (fileRecords render lib builds)).filterMap fun k =>
    outcome render {} (objectRecords {} (fileRecords render lib builds) k)

theorem reconstruct_file (h : Built lib m builds)
    (hkinds : ∀ row ∈ m.rows, row.recordKind ≠ .reservedLegacyMaterializedDelta) :
    reconstructObjectStates render (fileRecords render lib builds) {} =
      .ok (fileStates render lib builds) := by
  refine reconstruct_ok_iff.mpr ⟨h.validatePrevRefs_ok, fun k hk => ?_, rfl⟩
  obtain ⟨r, hr, rfl⟩ := mem_keysOf.mp hk
  obtain ⟨b, hb, row, hrow, hreq⟩ := mem_fileRecords.mp (mem_of_mem_filter hr)
  have hkey : objectKey r = toLex (b.objectType.objectTypeId, toLex (0, row.goid)) := by
    rw [hreq]
    rfl
  rw [hkey, history_object h hb]
  refine foldRecords_exists (fun row hrow => ?_) row.goid le_rfl
  exact hkinds row ((h.row_mem hb).mp hrow).1

theorem readValues_ids (t : CatalogType) (row : ObjectRow) :
    (readValues lib t row).map (·.propertyId) = t.properties.map (·.propertyId) := by
  rw [readValues, map_map]
  rfl

theorem object_state (h : Built lib m builds) (hkinds : WritesValues m.rows) (hb : b ∈ builds)
    (hrow : row ∈ b.rows) :
    ∃ s last, (objectRows m row).getLast? = some last ∧
      s.properties = readValues lib b.objectType last ∧
      outcome render {} (objectRecords {} (fileRecords render lib builds) (rowObject row)) =
        some s := by
  have hpublished : ∀ row ∈ b.rows, row.recordKind ≠ .reservedLegacyMaterializedDelta := by
    intro row hrow hk
    rcases hkinds row ((h.row_mem hb).mp hrow).1 with h | h <;> rw [hk] at h <;> cases h
  obtain ⟨c, hc⟩ : ∃ c, foldRecords render none
      (firstRecords render lib b row.goid b.rows.length) = .ok c :=
    foldRecords_exists hpublished row.goid le_rfl
  have hrecords : ∀ r ∈ firstRecords render lib b row.goid b.rows.length,
      (r.recordKind = .baseline ∨ r.recordKind = .delta) ∧
        r.properties.map (·.propertyId) = b.objectType.properties.map (·.propertyId) := by
    intro r hr
    obtain ⟨entry, hentry, rfl⟩ := mem_map.mp hr
    have hmem := fst_mem_of_mem_zipIdx (mem_of_mem_filter hentry)
    rw [take_length] at hmem
    exact ⟨hkinds entry.1 ((h.row_mem hb).mp hmem).1, readValues_ids _ _⟩
  obtain ⟨hlast, hlive⟩ := foldRecords_last b.objectType.properties_nodup hrecords hc
  rw [firstRecords, take_length, List.getLast?_map, Option.map_map] at hlast
  have hne : rowsOfGoid row.goid b.rows ≠ [] := by
    intro hnil
    have hfilter := rowsOfGoid_map_fst row.goid b.rows
    rw [hnil, map_nil] at hfilter
    exact filter_eq_nil_iff.mp hfilter.symm row hrow (decide_eq_true rfl)
  rw [List.getLast?_eq_some_getLast hne, Option.map_some] at hlast
  obtain ⟨s, rfl, hproperties⟩ := Option.map_eq_some_iff.mp hlast
  refine ⟨s, ((rowsOfGoid row.goid b.rows).getLast hne).1, ?_, hproperties, ?_⟩
  · rw [objectRows_eq h hb hrow, List.getLast?_map, List.getLast?_eq_some_getLast hne,
      Option.map_some]
  · have htype := ((h.row_mem hb).mp hrow).2
    have hreported : isReported {} s = true := by
      rw [isReported, hlive s rfl]
      rfl
    rw [rowObject, htype, outcome, history_object h hb, hc]
    exact Option.filter_some_pos hreported

/-- Some row of an object carries a value for the property. -/
def Carries (rows : List ObjectRow) (propertyId : Nat) : Prop :=
  ∃ row ∈ rows, (row.value propertyId).isNull = false

/-- The value is one that a row of the object carries. -/
def CarriedBy (rows : List ObjectRow) (propertyId : Nat) (value : Value) : Prop :=
  ∃ row ∈ rows, (row.value propertyId).isNull = false ∧
    sameValue value (row.value propertyId) = true

/-- A state has a value that survived in a row of its object, and none only when no row has one. -/
structure KeepsValue (rows : List ObjectRow) (propertyId : Nat) (s : CoveObjectState) : Prop where
  carried : Carries rows propertyId →
    CarriedBy rows propertyId (propertyValue s.properties propertyId)
  absent : ¬ Carries rows propertyId → (propertyValue s.properties propertyId).isNull = true

/-- The latest states of the file have what the materialized rows of their objects carry. -/
def MergeKeeps (lib : PropertyLibrary) (render : Value → String) (m : MaterializedModel)
    (builds : List TemporalSegmentBuild) : Prop :=
  ∃ states, latestStates lib render builds = .ok states ∧
    ∀ row ∈ m.rows, ∀ t ∈ m.objectTypes, t.objectTypeId = row.objectTypeId →
      ∃ s ∈ states, stateObject s = rowObject row ∧
        ∀ p ∈ t.properties, KeepsValue (objectRows m row) p.propertyId s

/-- What is written can be read, and the last row of an object carries a value for each
property for which a row of the object does. -/
structure LastRowsCarry (lib : PropertyLibrary) (m : MaterializedModel) : Prop where
  readable : ∀ row ∈ m.rows, ∀ t ∈ m.objectTypes, t.objectTypeId = row.objectTypeId →
    ∀ p ∈ t.properties, (writtenValue lib p (row.value p.propertyId)).isSome
  last : ∀ row ∈ m.rows, ∀ t ∈ m.objectTypes, t.objectTypeId = row.objectTypeId →
    ∀ p ∈ t.properties, Carries (objectRows m row) p.propertyId →
      ∀ last ∈ (objectRows m row).getLast?,
        CarriedBy (objectRows m row) p.propertyId (readValue lib last p)

variable {t : CatalogType} {p : PropertyEntryV1}

theorem propertyValue_readValues (hp : p ∈ t.properties) (row : ObjectRow) :
    propertyValue (readValues lib t row) p.propertyId = readValue lib row p :=
  propertyValue_withValue hp

theorem readValue_of_null (h : (row.value p.propertyId).isNull = true) :
    (readValue lib row p).isNull = true := by
  rw [readValue, writtenValue, appendPropertyValue, if_pos h, appendNullPlaceholder]
  cases p.physicalKind <;> first | rfl | (simp only []; split <;> rfl)

theorem published_of_writesValues (hkinds : WritesValues m.rows) :
    ∀ row ∈ m.rows, row.recordKind ≠ .reservedLegacyMaterializedDelta := by
  intro row hrow hk
  rcases hkinds row hrow with h | h <;> rw [hk] at h <;> cases h

section

variable (h : Built lib m builds)
include h

theorem latestStates_ok_iff (hkinds : WritesValues m.rows) {states : List CoveObjectState} :
    latestStates lib render builds = .ok states ↔
      (∀ b ∈ builds, ∀ p ∈ b.objectType.properties, Readable lib b.rows p) ∧
      states = fileStates render lib builds := by
  have hpublished := published_of_writesValues hkinds
  simp only [latestStates, andThen_eq_ok_iff, h.read_ok_iff hpublished]
  constructor
  · rintro ⟨_, ⟨hreadable, rfl⟩, hstates⟩
    rw [allRecords_surfaces, reconstruct_file h hpublished] at hstates
    exact ⟨hreadable, (Except.ok.inj hstates).symm⟩
  · rintro ⟨hreadable, rfl⟩
    refine ⟨_, ⟨hreadable, rfl⟩, ?_⟩
    rw [allRecords_surfaces]
    exact reconstruct_file h hpublished

theorem readable_iff (htypes : (m.objectTypes.map (·.objectTypeId)).Nodup) :
    (∀ b ∈ builds, ∀ p ∈ b.objectType.properties, Readable lib b.rows p) ↔
      ∀ row ∈ m.rows, ∀ t ∈ m.objectTypes, t.objectTypeId = row.objectTypeId →
        ∀ p ∈ t.properties, (writtenValue lib p (row.value p.propertyId)).isSome := by
  constructor
  · intro hreadable row hrow t ht hid p hp
    obtain ⟨b, hb, htype⟩ := h.exists_segment hrow
    obtain rfl := inj_on_of_nodup_map htypes ht (h.catalogued b hb) (hid.trans htype.symm)
    exact hreadable b hb p hp row ((h.row_mem hb).mpr ⟨hrow, htype.symm⟩)
  · intro hreadable b hb p hp row hrow
    obtain ⟨hrow, htype⟩ := (h.row_mem hb).mp hrow
    exact hreadable row hrow b.objectType (h.catalogued b hb) htype.symm p hp

theorem state_of_row (hkinds : WritesValues m.rows)
    (htypes : (m.objectTypes.map (·.objectTypeId)).Nodup) (hrow : row ∈ m.rows)
    (ht : t ∈ m.objectTypes) (hid : t.objectTypeId = row.objectTypeId) :
    ∃ s last, (objectRows m row).getLast? = some last ∧
      (∀ p ∈ t.properties, propertyValue s.properties p.propertyId = readValue lib last p) ∧
      ∀ states, latestStates lib render builds = .ok states →
        ∀ s', s' ∈ states ∧ stateObject s' = rowObject row ↔ s' = s := by
  obtain ⟨b, hb, htype⟩ := h.exists_segment hrow
  obtain rfl := inj_on_of_nodup_map htypes ht (h.catalogued b hb) (hid.trans htype.symm)
  obtain ⟨s, last, hlast, hproperties, hs⟩ :=
    object_state h hkinds hb ((h.row_mem hb).mpr ⟨hrow, hid.symm⟩)
  refine ⟨s, last, hlast, fun p hp => ?_, fun states hstates s' => ?_⟩
  · rw [hproperties, propertyValue_readValues hp]
  · obtain ⟨-, rfl⟩ := (latestStates_ok_iff h hkinds).mp hstates
    rw [fileStates, mem_outcomes, hs, Option.some.injEq, eq_comm]

end

theorem materialize_types_nodup {context : MaterializationContext} {keys : KeyLibrary}
    {goids : GoidLibrary Id16} {digest : Bytes → Id16} {associationRows : List ObjectRow}
    {rows : List SourceRow}
    (hm : materialize context keys goids digest associationRows rows = .ok m) :
    (m.objectTypes.map (·.objectTypeId)).Nodup := by
  obtain ⟨plan, -, hm⟩ := of_andThen hm
  obtain ⟨objectRows, -, hm⟩ := of_andThen hm
  obtain ⟨resolved, -, hm⟩ := of_andThen hm
  rw [← Except.ok.inj hm]
  exact context.objectTypes_nodup

theorem lastRowsCarry_of_keeps (h : Built lib m builds) (hkinds : WritesValues m.rows)
    (htypes : (m.objectTypes.map (·.objectTypeId)).Nodup)
    (hkeeps : MergeKeeps lib render m builds) : LastRowsCarry lib m := by
  obtain ⟨states, hstates, hkeeps⟩ := hkeeps
  refine ⟨(readable_iff h htypes).mp ((latestStates_ok_iff h hkinds).mp hstates).1, ?_⟩
  intro row hrow t ht hid p hp hcarries last hlast
  obtain ⟨s, last', hlast', hvalues, hunique⟩ := state_of_row h hkinds htypes hrow ht hid
  obtain ⟨s', hmem, hobject, hkept⟩ := hkeeps row hrow t ht hid
  obtain rfl := (hunique states hstates s').mp ⟨hmem, hobject⟩
  obtain rfl := Option.some.inj (hlast'.symm.trans hlast)
  rw [← hvalues p hp]
  exact (hkept p hp).carried hcarries

/-- A merge of sources loses no value exactly when the last row of every object has them all. -/
theorem merge_keeps_iff {context : MaterializationContext} {keys : KeyLibrary}
    {goids : GoidLibrary Id16} {digest : Bytes → Id16} {associationRows : List ObjectRow}
    {rows : List SourceRow}
    (hm : materialize context keys goids digest associationRows rows = .ok m)
    (hkinds : WritesValues m.rows) (hbuild : buildTemporalSegments lib m = .ok builds) :
    MergeKeeps lib render m builds ↔ LastRowsCarry lib m := by
  have h := built_of_ok hbuild
  have htypes := materialize_types_nodup hm
  refine ⟨lastRowsCarry_of_keeps h hkinds htypes, ?_⟩
  rintro ⟨hreadable, hcarry⟩
  have hstates : latestStates lib render builds = .ok (fileStates render lib builds) :=
    (latestStates_ok_iff h hkinds).mpr ⟨(readable_iff h htypes).mpr hreadable, rfl⟩
  refine ⟨_, hstates, fun row hrow t ht hid => ?_⟩
  obtain ⟨s, last, hlast, hvalues, hunique⟩ := state_of_row h hkinds htypes hrow ht hid
  obtain ⟨hmem, hobject⟩ := (hunique _ hstates s).mpr rfl
  refine ⟨s, hmem, hobject, fun p hp => ⟨fun hcarries => ?_, fun hnone => ?_⟩⟩
  · rw [hvalues p hp]
    exact hcarry row hrow t ht hid p hp hcarries last hlast
  · rw [hvalues p hp]
    refine readValue_of_null (Bool.of_not_eq_false fun hnull => ?_)
    exact hnone ⟨last, mem_of_getLast? hlast, hnull⟩

theorem eq_null_of_sameValue {v w : Value} (hv : v.isNull = true) (h : sameValue v w = true) :
    w = .null := by
  obtain rfl : v = .null := by
    cases v with
    | null => rfl
    | _ => exact absurd hv Bool.false_ne_true
  cases w with
  | null => rfl
  | _ => exact absurd h Bool.false_ne_true

def losesValue (lib : PropertyLibrary) (m : MaterializedModel) : Bool :=
  m.rows.any fun row => m.objectTypes.any fun t =>
    t.objectTypeId == row.objectTypeId && t.properties.any fun p =>
      (objectRows m row).any (fun other => !(other.value p.propertyId).isNull) &&
        (objectRows m row).getLast?.any fun last => (readValue lib last p).isNull

theorem not_keeps_of_losesValue (h : Built lib m builds) (hkinds : WritesValues m.rows)
    (htypes : (m.objectTypes.map (·.objectTypeId)).Nodup) (hloses : losesValue lib m = true) :
    ¬ MergeKeeps lib render m builds := by
  intro hkeeps
  obtain ⟨row, hrow, hloses⟩ := any_eq_true.mp hloses
  obtain ⟨t, ht, hloses⟩ := any_eq_true.mp hloses
  obtain ⟨hid, hloses⟩ := Bool.and_eq_true_iff.mp hloses
  obtain ⟨p, hp, hloses⟩ := any_eq_true.mp hloses
  obtain ⟨hcarries, hnull⟩ := Bool.and_eq_true_iff.mp hloses
  obtain ⟨other, hother, hvalue⟩ := any_eq_true.mp hcarries
  obtain ⟨last, hlast, hnull⟩ := (Option.any_eq_true _ _).mp hnull
  have hcarried := (lastRowsCarry_of_keeps h hkinds htypes hkeeps).last row hrow t ht
    (eq_of_beq hid) p hp ⟨other, hother, (Bool.not_eq_true' _).mp hvalue⟩ last hlast
  obtain ⟨x, -, hx, hsame⟩ := hcarried
  rw [eq_null_of_sameValue hnull hsame] at hx
  cases hx

def personRule : MapIdentityRule where
  ruleId := "person"
  objectType := "Person"
  confidenceClass := "authoritative"
  autoMerge := none
  candidateOnly := false
  allowReviewedEquivalence := false
  functionIds := ["identity"]
  joinKeys := [⟨"email", "email", "utf8", "none", "reject", none⟩]

def textProperty (number : Nat) (name : String) : PropertyEntryV1 :=
  ⟨number, name, .utf8, .varBytes, true, 0⟩

def textBinding (number : Nat) (name : String) : MapPropertyBinding :=
  ⟨name, number, name, name, "", "null", "source_priority_wins", none, name⟩

def peopleRule (sourceId : String) (binding : MapPropertyBinding) : MapRowSemanticRule where
  ruleId := sourceId
  sourceId := sourceId
  identityRuleId := "person"
  rowSemanticsKind := "Object"
  sourceOperationKind := .upsert
  recordKind := "upsert"
  propertyBindings := [binding]

def peopleMapping : MaterializationContext where
  planning := {
    mappingId := replicate 16 0
    mappingVersion := "1"
    identityRules := [personRule]
    sources := [⟨"crm", none⟩, ⟨"erp", none⟩]
    rowRules := [⟨"crm", "crm", "person"⟩, ⟨"erp", "erp", "person"⟩]
    doNotMerge := []
    reviewedDecisions := []
    objectTypes := [("Person", 1)]
    identityRules_nodup := by decide
    sources_nodup := GoidSeparation.accountMapping.sources_nodup }
  rowRules := [peopleRule "crm" (textBinding 1 "name"), peopleRule "erp" (textBinding 2 "phone")]
  sourcePriority _ := none
  objectTypes := [⟨⟨1, "Person", 1⟩, [textProperty 1 "name", textProperty 2 "phone"], by decide⟩]
  planned_rules := rfl
  planned_types := rfl
  objectTypes_nodup := by decide

def personRow (sourceId column value : String) : SourceRow :=
  ⟨sourceId, 0, [("email", .string "ann@example"), (column, .string value)]⟩

def personRows : List SourceRow := [personRow "crm" "name" "Ann", personRow "erp" "phone" "1"]

def firstBytes : Bytes → Id16 := fun bytes => leNat (bytes.take 16)

def shortGoids : GoidLibrary Id16 := ⟨fun parts => firstBytes parts.flatten.reverse, hexEncode⟩

def plainTexts : PropertyLibrary where
  jsonText _ := ""
  parseJson _ := none
  fileCodeFor _ _ := .error "COVE-MAP writer needs a file dictionary for FileCode properties"
  fileCodeValue _ _ := .error .badFileCode

def materializedPeople : Except String MaterializedModel :=
  materialize peopleMapping GoidSeparation.shortTexts shortGoids firstBytes [] personRows

theorem people_lose_value : ∃ m builds, materializedPeople = .ok m ∧ WritesValues m.rows ∧
    buildTemporalSegments plainTexts m = .ok builds ∧
      ¬ MergeKeeps plainTexts (fun _ => "") m builds := by
  have hrun : (materializedPeople.toOption.any fun m => decide (WritesValues m.rows) &&
      losesValue plainTexts m && (buildTemporalSegments plainTexts m).toOption.isSome) = true := by
    decide +kernel
  obtain ⟨m, hm, hrun⟩ := (Option.any_eq_true _ _).mp hrun
  obtain ⟨hrun, hbuild⟩ := Bool.and_eq_true_iff.mp hrun
  obtain ⟨hkinds, hloses⟩ := Bool.and_eq_true_iff.mp hrun
  obtain ⟨builds, hbuild⟩ := Option.isSome_iff_exists.mp hbuild
  have hm := toOption_eq_some_iff.mp hm
  have hbuild := toOption_eq_some_iff.mp hbuild
  have hkinds := of_decide_eq_true hkinds
  exact ⟨m, builds, hm, hkinds, hbuild, not_keeps_of_losesValue (built_of_ok hbuild) hkinds
    (materialize_types_nodup hm) hloses⟩

/-- A person with two rows of one source, and another person of the other source. -/
def keptRows : List SourceRow :=
  [personRow "crm" "name" "Ann",
    ⟨"crm", 1, [("email", .string "ann@example"), ("name", .string "Anna")]⟩,
    ⟨"erp", 0, [("email", .string "bob@example"), ("phone", .string "1")]⟩]

def lastRowsCarry (lib : PropertyLibrary) (m : MaterializedModel) : Bool :=
  m.rows.all fun row => m.objectTypes.all fun t =>
    t.objectTypeId != row.objectTypeId || t.properties.all fun p =>
      (writtenValue lib p (row.value p.propertyId)).isSome &&
        ((objectRows m row).all (fun other => (other.value p.propertyId).isNull) ||
          (objectRows m row).getLast?.all fun last => (objectRows m row).any fun other =>
            !(other.value p.propertyId).isNull &&
              sameValue (readValue lib last p) (other.value p.propertyId))

theorem lastRowsCarry_carry (h : lastRowsCarry lib m = true) : LastRowsCarry lib m := by
  have hproperty : ∀ row ∈ m.rows, ∀ t ∈ m.objectTypes, t.objectTypeId = row.objectTypeId →
      ∀ p ∈ t.properties, _ := fun row hrow t ht hid p hp =>
    Bool.and_eq_true_iff.mp (all_eq_true.mp ((Bool.or_eq_true_iff.mp
      (all_eq_true.mp (all_eq_true.mp h row hrow) t ht)).resolve_left (by simp [hid])) p hp)
  refine ⟨fun row hrow t ht hid p hp => (hproperty row hrow t ht hid p hp).1, ?_⟩
  rintro row hrow t ht hid p hp ⟨other, hother, hvalue⟩ last hlast
  obtain hnull | hlasts := Bool.or_eq_true_iff.mp (hproperty row hrow t ht hid p hp).2
  · rw [all_eq_true.mp hnull other hother] at hvalue
    cases hvalue
  · obtain ⟨x, hx, hsame⟩ := any_eq_true.mp ((Option.all_eq_true _ _).mp hlasts last hlast)
    obtain ⟨hx', hsame⟩ := Bool.and_eq_true_iff.mp hsame
    exact ⟨x, hx, (Bool.not_eq_true' _).mp hx', hsame⟩

theorem merge_keeps_iff_people : ∃ m builds,
    materialize peopleMapping GoidSeparation.shortTexts shortGoids firstBytes [] keptRows = .ok m ∧
      buildTemporalSegments plainTexts m = .ok builds ∧
        MergeKeeps plainTexts (fun _ => "") m builds := by
  have hrun : ((materialize peopleMapping GoidSeparation.shortTexts shortGoids firstBytes []
      keptRows).toOption.any fun m => decide (WritesValues m.rows) && lastRowsCarry plainTexts m &&
        (buildTemporalSegments plainTexts m).toOption.isSome) = true := by
    decide +kernel
  obtain ⟨m, hm, hrun⟩ := (Option.any_eq_true _ _).mp hrun
  obtain ⟨hrun, hbuild⟩ := Bool.and_eq_true_iff.mp hrun
  obtain ⟨hkinds, hcarry⟩ := Bool.and_eq_true_iff.mp hrun
  obtain ⟨builds, hbuild⟩ := Option.isSome_iff_exists.mp hbuild
  have hm := toOption_eq_some_iff.mp hm
  have hbuild := toOption_eq_some_iff.mp hbuild
  exact ⟨m, builds, hm, hbuild, (merge_keeps_iff hm (of_decide_eq_true hkinds) hbuild).mpr
    (lastRowsCarry_carry hcarry)⟩

end CoveFormat.SourceMerge
