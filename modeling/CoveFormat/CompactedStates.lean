import CoveFormat.StoredForms
import Mathlib.Data.List.Perm.Basic

namespace CoveFormat.CompactedStates

open ExceptRules SortedKeys Grouping JsonValue ObjectSurface Reconstruction KeptRecords
  TemporalPushdown AsOfPruning IdentityComponents PropertyValues MaterializedRows SegmentRecords
  Compaction StoredForms List

variable {lib : PropertyLibrary} {render : Value → String} {types : List CatalogType}
  {catalog : ObjectTypeCatalog} {states : List CoveObjectState}
  {b : ReconstructedTemporalSegmentBuild} {builds : List ReconstructedTemporalSegmentBuild}

/-- The pair of types of a property that a catalog may declare. -/
def Cataloguable (p : PropertyEntryV1) : Prop :=
  p.logicalType ≠ .null ∧
    isLogicalPhysicalPair (declaredNumeric p) p.logicalType p.physicalKind = true

theorem catalog_validate_iff :
    catalog.validate = .ok () ↔ ∀ t ∈ catalog.types, ∀ p ∈ t.properties, Cataloguable p := by
  simp only [ObjectTypeCatalog.validate, ObjectTypeCatalog.validateProperty, checkAll_eq_ok_iff,
    rejectIf_andThen_iff, rejectIf_eq_ok_iff, Bool.not_eq_false, Cataloguable, ne_eq]

/-- The counts and the texts of the catalog fit their length fields. -/
structure CatalogFits (types : List CatalogType) : Prop where
  typeCount : types.length < 2 ^ 32
  properties : ∀ t ∈ types, t.properties.length < 2 ^ 16
  typeNames : ∀ t ∈ types, t.typeName.utf8ByteSize < 2 ^ 16
  propertyNames : ∀ t ∈ types, ∀ p ∈ t.properties, p.propertyName.utf8ByteSize < 2 ^ 16

/-- All counts of a compacted file fit their fields; it has three sections beside the segments. -/
structure FileFits (types : List CatalogType) (states : List CoveObjectState) : Prop where
  catalog : CatalogFits types
  stateCount : states.length < 2 ^ 32
  segments : (keysOf (·.objectTypeId) states).length + 3 < 2 ^ 32

theorem catalog_serialize_iff : catalog.serialize = .ok () ↔ CatalogFits catalog.types := by
  simp only [ObjectTypeCatalog.serialize, ObjectTypeCatalog.serializeType, checkAll_eq_ok_iff,
    rejectIf_andThen_iff, rejectIf_eq_ok_iff, not_le]
  constructor
  · rintro ⟨hcount, hall⟩
    exact ⟨hcount, fun t ht => (hall t ht).1, fun t ht => (hall t ht).2.1,
      fun t ht => (hall t ht).2.2⟩
  · intro h
    exact ⟨h.typeCount, fun t ht => ⟨h.properties t ht, h.typeNames t ht, h.propertyNames t ht⟩⟩

/-- What the compaction makes of the states: a segment for each type that has any. -/
structure BuiltFrom (lib : PropertyLibrary) (types : List CatalogType) (states : List CoveObjectState)
    (builds : List ReconstructedTemporalSegmentBuild) : Prop where
  typeIds : builds.map (·.objectType.objectTypeId) = keysOf (·.objectTypeId) states
  segmentIds : builds.map (·.segmentId) = range builds.length
  catalogued : ∀ b ∈ builds, b.objectType ∈ types
  rows : ∀ b ∈ builds, b.rows =
    sortByKey stateRowKey (under (·.objectTypeId) b.objectType.objectTypeId states)
  pages : ∀ b ∈ builds, Forall₂ (fun p page => reconstructedPropertyPage lib b.rows p = .ok page)
    b.objectType.properties b.columns

theorem reconstructedSegment_ok {entry : (Nat × List CoveObjectState) × Nat}
    (h : reconstructedTemporalSegment lib types entry = .ok b) :
    b.segmentId = entry.2 ∧ b.objectType ∈ types ∧ b.objectType.objectTypeId = entry.1.1 ∧
      b.rows = sortByKey stateRowKey entry.1.2 ∧
      Forall₂ (fun p page => reconstructedPropertyPage lib b.rows p = .ok page)
        b.objectType.properties b.columns := by
  obtain ⟨t, ht, h⟩ := of_andThen h
  iterate 3 replace h := rest_ok h
  obtain ⟨columns, hcolumns, h⟩ := of_andThen h
  cases h
  have ht := okOr_eq_ok_iff.mp ht
  have hid := List.find?_some ht
  exact ⟨rfl, mem_of_find?_eq_some ht, eq_of_beq hid, rfl, mapM_eq_ok_iff.mp hcolumns⟩

theorem builtFrom_of_ok (h : reconstructedTemporalSegments lib types states = .ok builds) :
    BuiltFrom lib types states builds := by
  replace h := rest_ok h
  obtain ⟨htypes, hids, hgroups⟩ := segments_of_groups
    (fun _ _ hb => ⟨(reconstructedSegment_ok hb).1, (reconstructedSegment_ok hb).2.2.1⟩) h
  refine ⟨htypes, hids, fun b hb => ?_, fun b hb => ?_, fun b hb => ?_⟩
  · obtain ⟨i, hb⟩ := hgroups b hb
    exact (reconstructedSegment_ok hb).2.1
  · obtain ⟨i, hb⟩ := hgroups b hb
    exact (reconstructedSegment_ok hb).2.2.2.1
  · obtain ⟨i, hb⟩ := hgroups b hb
    exact (reconstructedSegment_ok hb).2.2.2.2

def readBack (lib : PropertyLibrary) (s : CoveObjectState) (p : PropertyEntryV1) : Value :=
  (writtenValue lib p (propertyValue s.properties p.propertyId)).getD .null

def readBackValues (lib : PropertyLibrary) (t : CatalogType) (s : CoveObjectState) :
    List CoveObjectPropertyValue :=
  t.properties.map fun p => p.withValue (readBack lib s p)

/-- Whatever the states store for the property can be read back. -/
def ReadableStates (lib : PropertyLibrary) (rows : List CoveObjectState) (p : PropertyEntryV1) :
    Prop :=
  ∀ s ∈ rows, (writtenValue lib p (propertyValue s.properties p.propertyId)).isSome

variable {rows : List CoveObjectState} {p : PropertyEntryV1} {page : List StoredValue}

section

variable (h : reconstructedPropertyPage lib rows p = .ok page)
include h

theorem page_forall₂ :
    Forall₂ (fun s stored =>
      appendPropertyValue lib p (propertyValue s.properties p.propertyId) = .ok stored) rows page := by
  refine (mapM_eq_ok_iff.mp h).imp fun s stored hs => ?_
  replace hs := rest_ok hs
  exact hs

theorem decodeStates_ok_iff {values : List CoveObjectPropertyValue} :
    page.mapM (fun stored => (decodePropertyValue lib p stored).map p.withValue) = .ok values ↔
      ReadableStates lib rows p ∧ values = rows.map fun s => p.withValue (readBack lib s p) := by
  rw [mapM_mapM_eq_ok_iff (mapM_of_forall₂ (page_forall₂ h))]
  simp only [written_value_iff]
  exact forall₂_eq_map_iff

end

def compactedSurface (lib : PropertyLibrary) (b : ReconstructedTemporalSegmentBuild) :
    SegmentSurface where
  segment := b.data
  objectType := b.objectType.toObjectTypeEntryV1
  valuesByRow := b.rows.map (readBackValues lib b.objectType)
  typed := Eq.refl b.data.header.objectTypeId
  aligned := by rw [List.length_map, ReconstructedTemporalSegmentBuild.data, List.length_map]

theorem readCompactedSegment_ok_iff
    (h : Forall₂ (fun p page => reconstructedPropertyPage lib b.rows p = .ok page)
      b.objectType.properties b.columns) {s : SegmentSurface} :
    readCompactedSegment lib b = .ok s ↔ validateSegment b.data = .ok () ∧
      (∀ p ∈ b.objectType.properties, ReadableStates lib b.rows p) ∧ s = compactedSurface lib b := by
  have hdecode := @decodePages_ok_iff lib (ReadableStates lib b.rows)
    (fun p => b.rows.map fun s => p.withValue (readBack lib s p)) _ _
    (h.imp fun _ _ hpage _ => decodeStates_ok_iff hpage)
  simp only [readCompactedSegment, andThen_eq_ok_iff, hdecode, Except.ok.injEq]
  constructor
  · rintro ⟨⟨⟩, hvalid, _, ⟨hreadable, rfl⟩, rfl⟩
    refine ⟨hvalid, hreadable, ?_⟩
    congr 1
    exact rowsOfColumns_map _ _ _
  · rintro ⟨hvalid, hreadable, rfl⟩
    refine ⟨(), hvalid, _, ⟨hreadable, rfl⟩, ?_⟩
    congr 1
    exact rowsOfColumns_map _ _ _

/-- Where the timestamps increase the CSNs do not decrease. -/
def CsnFollows (rows : List CoveObjectState) : Prop :=
  ∀ a ∈ rows, ∀ c ∈ rows, a.timestampUs < c.timestampUs → a.csn ≤ c.csn

theorem csn_pairwise_iff (hsorted : rows.Pairwise fun a c => stateRowKey a ≤ stateRowKey c) :
    (rows.Pairwise fun a c => a.csn ≤ c.csn) ↔ CsnFollows rows := by
  constructor
  · intro hcsn a ha c hc
    have hpairs : rows.Pairwise fun a c => (a.timestampUs < c.timestampUs → a.csn ≤ c.csn) ∧
        (c.timestampUs < a.timestampUs → c.csn ≤ a.csn) := by
      refine (hsorted.and hcsn).imp fun {a c} h => ⟨fun _ => h.2, fun hlt => ?_⟩
      rcases Prod.Lex.toLex_le_toLex.mp h.1 with hkey | ⟨hkey, -⟩
      · exact absurd hkey hlt.not_gt
      · exact absurd hkey hlt.ne'
    have hsymm : Std.Symm fun a c : CoveObjectState =>
        (a.timestampUs < c.timestampUs → a.csn ≤ c.csn) ∧
          (c.timestampUs < a.timestampUs → c.csn ≤ a.csn) := ⟨fun _ _ h => ⟨h.2, h.1⟩⟩
    exact (hpairs.forall_of_forall (fun _ _ => ⟨fun _ => le_rfl, fun _ => le_rfl⟩) ha hc).1
  · intro hfollows
    refine hsorted.imp_of_mem fun {a c} ha hc hkey => ?_
    rcases Prod.Lex.toLex_le_toLex.mp hkey with hlt | ⟨-, hkey⟩
    · exact hfollows a ha c hc hlt
    · rcases Prod.Lex.toLex_le_toLex.mp hkey with hlt | ⟨heq, -⟩
      · exact hlt.le
      · exact heq.le

theorem validate_data_iff (hkinds : ∀ s ∈ b.rows, s.recordKind ≠ .reservedLegacyMaterializedDelta)
    (hsorted : b.rows.Pairwise fun a c => stateRowKey a ≤ stateRowKey c) :
    validateSegment b.data = .ok () ↔ CsnFollows b.rows := by
  rw [← csn_pairwise_iff hsorted]
  constructor
  · intro h
    obtain ⟨-, -, hcsn, -⟩ := validateSegment_ok h
    have hpairs := isChain_iff_pairwise.mp ((isChain_map stateRow).mp hcsn)
    exact hpairs
  · intro hcsn
    refine andThen_eq_ok_iff.mpr ⟨(), ?_, andThen_eq_ok_iff.mpr ⟨(), ?_, andThen_eq_ok_iff.mpr ⟨(), ?_,
      andThen_eq_ok_iff.mpr ⟨(), ?_, andThen_eq_ok_iff.mpr ⟨(), ?_, ?_⟩⟩⟩⟩⟩
    · refine checkAll_eq_ok_iff.mpr (forall_mem_map.mpr fun s hs => ?_)
      exact rejectIf_ok (hkinds s hs)
    · refine checkPairs_eq_ok_iff.mpr (pairwise_map.mpr (hsorted.imp fun hle => ?_)).isChain
      exact rejectIf_ok (not_lt.mpr hle)
    · refine checkPairs_eq_ok_iff.mpr (pairwise_map.mpr (hcsn.imp fun hle => ?_)).isChain
      exact rejectIf_ok (not_lt.mpr hle)
    · refine checkAll_eq_ok_iff.mpr fun entry hentry => ?_
      obtain ⟨s, -, hs⟩ := mem_map.mp (fst_mem_of_mem_zipIdx hentry)
      rw [validatePrevRefOrder, ← hs]
      rfl
    · rw [rejectIf_eq_ok_iff, ReconstructedTemporalSegmentBuild.data,
        ReconstructedTemporalSegmentBuild.header, List.head?_map]
      cases b.rows.head? with
      | none => exact Bool.false_ne_true
      | some first => simp [stateRow]
    · rw [rejectIf_eq_ok_iff, ReconstructedTemporalSegmentBuild.data,
        ReconstructedTemporalSegmentBuild.header, List.getLast?_map]
      cases b.rows.getLast? with
      | none => exact Bool.false_ne_true
      | some last => simp [stateRow]

theorem indexEntry_eq (b : ReconstructedTemporalSegmentBuild) :
    b.indexEntry = entryForSegment b.data := by
  simp only [ReconstructedTemporalSegmentBuild.indexEntry, entryForSegment,
    ReconstructedTemporalSegmentBuild.data, ReconstructedTemporalSegmentBuild.header,
    length_map, countP_map, map_map]
  rfl

def compactedFile (catalog : ObjectTypeCatalog) (builds : List ReconstructedTemporalSegmentBuild) :
    CompactedFile :=
  ⟨catalog, builds.map (·.indexEntry), builds⟩

/-- The columns of a segment pass file validation. -/
def ColumnsAccepted (lib : PropertyLibrary) (b : ReconstructedTemporalSegmentBuild) : Prop :=
  ∀ column ∈ b.objectType.properties.zip b.columns,
    validatePropertyColumn lib column.1 column.2 = .ok ()

namespace BuiltFrom

variable {s : CoveObjectState}

variable (h : BuiltFrom lib types states builds)
include h

theorem row_mem (hb : b ∈ builds) :
    s ∈ b.rows ↔ s ∈ states ∧ s.objectTypeId = b.objectType.objectTypeId := by
  rw [h.rows b hb, (sortByKey_perm _ _).mem_iff, mem_under]

theorem exists_segment (hs : s ∈ states) : ∃ b ∈ builds, b.objectType.objectTypeId = s.objectTypeId := by
  have hkey : s.objectTypeId ∈ keysOf (·.objectTypeId) states := mem_keysOf.mpr ⟨s, hs, rfl⟩
  rw [← h.typeIds] at hkey
  exact mem_map.mp hkey

theorem segmentIds_nodup : (builds.map (·.segmentId)).Nodup := by
  rw [h.segmentIds]
  exact nodup_range

theorem sorted (hb : b ∈ builds) : b.rows.Pairwise fun a c => stateRowKey a ≤ stateRowKey c := by
  rw [h.rows b hb]
  exact sortByKey_pairwise _ _

theorem validate_iff (hkinds : ∀ s ∈ states, s.recordKind ≠ .reservedLegacyMaterializedDelta)
    (hb : b ∈ builds) : validateSegment b.data = .ok () ↔ CsnFollows b.rows :=
  validate_data_iff (fun s hs => hkinds s ((h.row_mem hb).mp hs).1) (h.sorted hb)

theorem validateSegments_iff
    (hkinds : ∀ s ∈ states, s.recordKind ≠ .reservedLegacyMaterializedDelta) :
    validateSegments (builds.map (·.data)) = .ok () ↔ ∀ b ∈ builds, CsnFollows b.rows := by
  constructor
  · intro hvalid b hb
    obtain ⟨hvalid, -⟩ := of_check hvalid
    exact (h.validate_iff hkinds hb).mp (checkAll_eq_ok_iff.mp hvalid _ (mem_map_of_mem hb))
  · intro hfollows
    refine andThen_eq_ok_iff.mpr ⟨(), ?_, andThen_eq_ok_iff.mpr ⟨(), ?_, ?_⟩⟩
    · refine checkAll_eq_ok_iff.mpr (forall_mem_map.mpr fun b hb => ?_)
      exact (h.validate_iff hkinds hb).mpr (hfollows b hb)
    · rw [rejectIf_eq_ok_iff, not_not, map_map]
      exact h.segmentIds_nodup
    · refine checkAll_eq_ok_iff.mpr (forall_mem_map.mpr fun b _ => ?_)
      refine checkAll_eq_ok_iff.mpr (forall_mem_map.mpr fun s _ => ?_)
      rfl

theorem validateFile_iff (hkinds : ∀ s ∈ states, s.recordKind ≠ .reservedLegacyMaterializedDelta) :
    validateFile lib (compactedFile catalog builds) = .ok () ↔
      (∀ t ∈ catalog.types, ∀ p ∈ t.properties, Cataloguable p) ∧
        (∀ b ∈ builds, CsnFollows b.rows) ∧ ∀ b ∈ builds, ColumnsAccepted lib b := by
  have hindex : checkAll (fun entry : TemporalSegmentIndexEntryV1 × _ =>
      rejectIf (entry.1 ≠ entryForSegment entry.2.data) CoveError.segmentCorrupt)
        ((builds.map (·.indexEntry)).zip builds) = .ok () := by
    have hzip : (builds.map (·.indexEntry)).zip (builds.map id) =
        builds.map fun b => (b.indexEntry, b) := zip_map'
    rw [map_id] at hzip
    rw [checkAll_eq_ok_iff, hzip]
    refine forall_mem_map.mpr fun b _ => rejectIf_ok (not_not.mpr ?_)
    exact indexEntry_eq b
  simp only [validateFile, compactedFile, andThen_eq_ok_iff, catalog_validate_iff, hindex,
    h.validateSegments_iff hkinds, checkAll_eq_ok_iff, ColumnsAccepted, Unique.exists_iff,
    PUnit.default_eq_unit, true_and]

theorem read_iff (hkinds : ∀ s ∈ states, s.recordKind ≠ .reservedLegacyMaterializedDelta)
    (hvalid : validateFile lib (compactedFile catalog builds) = .ok ())
    {surfaces : List SegmentSurface} :
    readCompacted lib (compactedFile catalog builds) = .ok surfaces ↔
      (∀ b ∈ builds, ∀ p ∈ b.objectType.properties, ReadableStates lib b.rows p) ∧
        surfaces = builds.map (compactedSurface lib) := by
  have hfollows := ((h.validateFile_iff hkinds).mp hvalid).2.1
  have hread : builds.mapM (readCompactedSegment lib) = .ok surfaces ↔
      (∀ b ∈ builds, ∀ p ∈ b.objectType.properties, ReadableStates lib b.rows p) ∧
        surfaces = builds.map (compactedSurface lib) := by
    refine mapM_eq_ok_map_iff fun b hb s => ?_
    rw [readCompactedSegment_ok_iff (h.pages b hb)]
    exact and_iff_right ((h.validate_iff hkinds hb).mpr (hfollows b hb))
  rw [← hread, readCompacted, hvalid]
  rfl

theorem pages_zip (hb : b ∈ builds) {column : PropertyEntryV1 × List StoredValue}
    (hcolumn : column ∈ b.objectType.properties.zip b.columns) :
    reconstructedPropertyPage lib b.rows column.1 = .ok column.2 :=
  forall₂_zip (h.pages b hb) hcolumn

end BuiltFrom

def compactedRecord (render : Value → String) (lib : PropertyLibrary)
    (b : ReconstructedTemporalSegmentBuild) (entry : CoveObjectState × Nat) : CoveObjectRecord :=
  recordOf render (compactedSurface lib b)
    ((stateRow entry.1, readBackValues lib b.objectType entry.1), entry.2)

theorem compactedSurface_records : recordsFromSegment render {} (compactedSurface lib b) =
    b.rows.zipIdx.map (compactedRecord render lib b) := by
  have hrows : segmentRows (compactedSurface lib b) = b.rows.zipIdx.map fun entry =>
      ((stateRow entry.1, readBackValues lib b.objectType entry.1), entry.2) := by
    apply ext_getElem?
    intro i
    change (((b.rows.map stateRow).zip (b.rows.map (readBackValues lib b.objectType))).zipIdx)[i]? = _
    rw [List.getElem?_zipIdx, List.zip, List.getElem?_zipWith, List.getElem?_map, List.getElem?_map,
      List.getElem?_map, List.getElem?_zipIdx]
    cases b.rows[i]? with
    | none => rfl
    | some row =>
      rfl
  rw [recordsFromSegment_default, hrows, map_map]
  rfl

def compactedRecords (render : Value → String) (lib : PropertyLibrary)
    (builds : List ReconstructedTemporalSegmentBuild) : List CoveObjectRecord :=
  builds.flatMap fun b => b.rows.zipIdx.map (compactedRecord render lib b)

theorem allRecords_compacted : allRecords render (builds.map (compactedSurface lib)) =
    compactedRecords render lib builds := by
  rw [allRecords_eq, flatMap_map, compactedRecords]
  apply flatMap_congr
  intro b _
  exact compactedSurface_records

variable {r : CoveObjectRecord}

theorem mem_compactedRecords : r ∈ compactedRecords render lib builds ↔
    ∃ b ∈ builds, ∃ s i, b.rows[i]? = some s ∧ r = compactedRecord render lib b (s, i) := by
  simp only [compactedRecords, mem_flatMap, mem_map, mem_zipIdx_iff_getElem?,
    Prod.exists, eq_comm]

namespace BuiltFrom

theorem rows_perm (h : BuiltFrom lib types states builds) :
    (builds.flatMap (·.rows)).Perm states := by
  have hrows : builds.flatMap (·.rows) = builds.flatMap fun b =>
      sortByKey stateRowKey (under (·.objectTypeId) b.objectType.objectTypeId states) :=
    flatMap_congr fun b hb => h.rows b hb
  have hunder : (builds.flatMap fun b =>
      sortByKey stateRowKey (under (·.objectTypeId) b.objectType.objectTypeId states)).Perm
        (builds.flatMap fun b => under (·.objectTypeId) b.objectType.objectTypeId states) :=
    List.Perm.flatMap_left _ fun b _ => sortByKey_perm _ _
  have hkeys : (builds.flatMap fun b => under (·.objectTypeId) b.objectType.objectTypeId states) =
      sortByKey (·.objectTypeId) states := by
    rw [← flatMap_under (·.objectTypeId) (keysOf_strict (·.objectTypeId) states) fun s hs =>
      mem_keysOf.mpr ⟨s, hs, rfl⟩, ← h.typeIds, flatMap_map]
  rw [hrows]
  refine hunder.trans ?_
  rw [hkeys]
  exact sortByKey_perm _ _

theorem length_eq (h : BuiltFrom lib types states builds) :
    builds.length = (keysOf (·.objectTypeId) states).length := by
  rw [← h.typeIds, length_map]

theorem rows_sum (h : BuiltFrom lib types states builds) :
    (builds.map (·.rows.length)).sum = states.length := by
  rw [← h.rows_perm.length_eq, length_flatMap]

theorem writeSections_iff (h : BuiltFrom lib catalog.types states builds) :
    writeSections lib (compactedFile catalog builds) = .ok () ↔
      (∀ b ∈ builds, trustSegment lib b = .ok ()) ∧ FileFits catalog.types states := by
  simp only [writeSections, compactedFile, andThen_eq_ok_iff, checkAll_eq_ok_iff,
    rejectIf_eq_ok_iff, Unique.exists_iff, PUnit.default_eq_unit, catalog_serialize_iff, not_le,
    length_map, h.rows_sum, h.length_eq]
  constructor
  · rintro ⟨htrust, hcatalog, -, hstates, hsegments⟩
    exact ⟨htrust, hcatalog, hstates, hsegments⟩
  · rintro ⟨htrust, hfits⟩
    exact ⟨htrust, hfits.catalog, (Nat.le_add_right _ _).trans_lt hfits.segments, hfits.stateCount,
      hfits.segments⟩

theorem objectKeys_perm (h : BuiltFrom lib types states builds) :
    ((compactedRecords render lib builds).map objectKey).Perm (states.map stateObject) := by
  have hkeys : (compactedRecords render lib builds).map objectKey =
      (builds.flatMap (·.rows)).map stateObject := by
    rw [compactedRecords, map_flatMap, map_flatMap]
    apply flatMap_congr
    intro b hb
    rw [map_map]
    conv_rhs => rw [← zipIdx_map_fst 0 b.rows, map_map]
    apply map_congr_left
    intro entry hentry
    have htype := ((h.row_mem hb).mp (fst_mem_of_mem_zipIdx hentry)).2
    rw [Function.comp, Function.comp, stateObject, htype]
    rfl
  rw [hkeys]
  exact h.rows_perm.map _

end BuiltFrom

/-- What passes file validation passes the checks of the trust manifest. -/
theorem trustSegment_ok
    (hpages : Forall₂ (fun p page => reconstructedPropertyPage lib b.rows p = .ok page)
      b.objectType.properties b.columns)
    (hcataloguable : ∀ p ∈ b.objectType.properties, Cataloguable p)
    (hvalid : validateSegment b.data = .ok ()) (haccepted : ColumnsAccepted lib b) :
    trustSegment lib b = .ok () := by
  have hcolumn : ∀ column ∈ b.objectType.properties.zip b.columns, Written column.1 ∧
      column.1.physicalKind ≠ .fileCode ∧
      ∀ stored ∈ column.2, validateStoredValue lib column.1 stored = .ok () := by
    intro column hmem
    obtain ⟨hdeclared, hcheck⟩ := of_reject (haccepted column hmem)
    obtain ⟨hfile, hcheck⟩ := of_reject hcheck
    obtain ⟨-, hcheck⟩ := of_reject hcheck
    have hpair := (hcataloguable column.1 (of_mem_zip hmem).1).2
    rw [Bool.eq_false_iff.mpr hdeclared] at hpair
    exact ⟨hpair, hfile, checkAll_eq_ok_iff.mp hcheck⟩
  have hparse : parseSegment lib b = .ok () := by
    refine andThen_ok (x := ()) (checkAll_eq_ok_iff.mpr fun column hmem => ?_) hvalid
    obtain ⟨hwritten, -, hvalues⟩ := hcolumn column hmem
    refine rejectIf_andThen ?_ (checkAll_eq_ok_iff.mpr hvalues)
    rw [hwritten]
    exact Bool.noConfusion
  refine andThen_ok hparse (checkAll_eq_ok_iff.mpr fun column hmem =>
    checkAll_eq_ok_iff.mpr fun stored hstored => ?_)
  obtain ⟨hwritten, hfile, hvalues⟩ := hcolumn column hmem
  obtain ⟨s, -, happend⟩ := forall₂_mem_left (page_forall₂ (forall₂_zip hpages hmem)).flip hstored
  exact trustValue_ok hwritten hfile happend (hvalues stored hstored)

theorem foldRecords_single (hprev : r.prevRef = none)
    (hkind : r.recordKind ≠ .reservedLegacyMaterializedDelta) :
    foldRecords render none [r] = .ok (some (stateFromFullRecord r)) := by
  have hstep : validateRecordChainStep r none = .ok () := by
    simp only [validateRecordChainStep, hprev]
  have hfold : foldRecord render none r = .ok (stateFromFullRecord r) := by
    refine andThen_ok hstep ?_
    cases hk : r.recordKind with
    | reservedLegacyMaterializedDelta => exact absurd hk hkind
    | tombstone => simp [stateFromFullRecord, hk]
    | _ => rfl
  rw [foldRecords, hfold]
  rfl

def withTombstones : CoveObjectReconstructionOptions := { includeTombstones := true }

theorem selected_all (records : List CoveObjectRecord) :
    records.filter (isSelected withTombstones) = records :=
  filter_eq_self.mpr fun _ _ => rfl

theorem forall₂_filterMap {α β : Type} {R : α → β → Prop} {f : α → Option β} {xs : List α}
    (h : ∀ x ∈ xs, ∃ y, f x = some y ∧ R x y) : Forall₂ R xs (xs.filterMap f) := by
  induction xs with
  | nil => exact .nil
  | cons x xs ih =>
    obtain ⟨hx, hxs⟩ := forall_mem_cons.mp h
    obtain ⟨y, hy, hr⟩ := hx
    rw [filterMap_cons_some hy]
    exact .cons hr (ih hxs)

/-- The state of a record of the segments. -/
def Restored (render : Value → String) (lib : PropertyLibrary)
    (builds : List ReconstructedTemporalSegmentBuild) (s r : CoveObjectState) : Prop :=
  ∃ b ∈ builds, ∃ i, b.rows[i]? = some s ∧ r = stateFromFullRecord (compactedRecord render lib b (s, i))

namespace BuiltFrom

section

variable (h : BuiltFrom lib types states builds)
include h

theorem objects_eq (hstrict : states.Pairwise fun a c => stateObject a < stateObject c) :
    objects withTombstones (compactedRecords render lib builds) = states.map stateObject := by
  have hsorted : (states.map stateObject).Pairwise (· < ·) := pairwise_map.mpr hstrict
  have hperm := @objectKeys_perm lib render types states builds h
  have hnodup : ((compactedRecords render lib builds).map objectKey).Nodup :=
    hperm.nodup_iff.mpr (hsorted.imp ne_of_lt)
  rw [objects, selected_all, keysOf, hnodup.dedup]
  exact sortByKey_eq hperm.symm hsorted

theorem objectRecords_eq (hstrict : states.Pairwise fun a c => stateObject a < stateObject c)
    {r : CoveObjectRecord} (hr : r ∈ compactedRecords render lib builds) :
    objectRecords withTombstones (compactedRecords render lib builds) (objectKey r) = [r] := by
  have hsorted : (states.map stateObject).Pairwise (· < ·) := pairwise_map.mpr hstrict
  have hperm := @objectKeys_perm lib render types states builds h
  rw [objectRecords, selected_all, under]
  exact filter_ident (hperm.nodup_iff.mpr (hsorted.imp ne_of_lt)) hr

end

theorem reconstruct_compacted (h : BuiltFrom lib types states builds)
    (hkinds : ∀ s ∈ states, s.recordKind ≠ .reservedLegacyMaterializedDelta)
    (hstrict : states.Pairwise fun a c => stateObject a < stateObject c) :
    ∃ restored, reconstructObjectStates render (compactedRecords render lib builds) withTombstones =
      .ok restored ∧ Forall₂ (Restored render lib builds) states restored := by
  have hsingle : ∀ r ∈ compactedRecords render lib builds,
      foldRecords render none (history (objectRecords withTombstones
        (compactedRecords render lib builds) (objectKey r))) = .ok (some (stateFromFullRecord r)) := by
    intro r hr
    rw [h.objectRecords_eq hstrict hr]
    obtain ⟨b, hb, s, i, hs, rfl⟩ := mem_compactedRecords.mp hr
    exact foldRecords_single rfl (hkinds s ((h.row_mem hb).mp (mem_of_getElem? hs)).1)
  have hrecord : ∀ s ∈ states, ∃ r ∈ compactedRecords render lib builds, objectKey r = stateObject s ∧
      Restored render lib builds s (stateFromFullRecord r) := by
    intro s hs
    obtain ⟨b, hb, htype⟩ := h.exists_segment hs
    obtain ⟨i, hi, hrow⟩ := getElem_of_mem ((h.row_mem hb).mpr ⟨hs, htype.symm⟩)
    have hget : b.rows[i]? = some s := by rw [List.getElem?_eq_getElem hi, hrow]
    refine ⟨_, mem_compactedRecords.mpr ⟨b, hb, s, i, hget, rfl⟩, ?_, b, hb, i, hget, rfl⟩
    rw [stateObject, ← htype]
    rfl
  refine ⟨_, reconstruct_ok_iff.mpr ⟨?_, ?_, rfl⟩, ?_⟩
  · refine checkAll_eq_ok_iff.mpr fun r hr => ?_
    obtain ⟨b, -, s, i, -, rfl⟩ := mem_compactedRecords.mp hr
    rfl
  · intro k hk
    obtain ⟨r, hr, rfl⟩ := mem_keysOf.mp hk
    exact ⟨_, hsingle r (mem_of_mem_filter hr)⟩
  · rw [h.objects_eq hstrict, filterMap_map]
    apply forall₂_filterMap
    intro s hs
    obtain ⟨r, hr, hkey, hrestored⟩ := hrecord s hs
    refine ⟨_, ?_, hrestored⟩
    rw [Function.comp, ← hkey, outcome_of_ok (hsingle r hr)]
    rfl

end BuiltFrom

end CoveFormat.CompactedStates
