import CoveFormat.AsOfPruning
import CoveFormat.IdentityComponents
import CoveFormat.MaterializedRows

namespace CoveFormat.SegmentBuild

open ExceptRules SortedKeys Grouping JsonValue Temporal ObjectSurface Reconstruction
  TemporalPushdown AsOfPruning IdentityPlanning PropertyValues MaterializedRows List Option Except

/-- A segment before it is written: its rows, and the stored values of each property. -/
structure TemporalSegmentBuild where
  segmentId : Nat
  objectType : CatalogType
  rows : List ObjectRow
  columns : List (List StoredValue)

def segmentRowKey (row : ObjectRow) : Nat ×ₗ Nat ×ₗ Nat :=
  toLex (row.sourceRowIndex, toLex (row.goid, row.recordId))

def hasPreviousRecord (kind : RecordKind) : Bool := kind ∈ [.delta, .snapshot, .tombstone]

/-- The loop of `temporal_prev_refs` over the rows, which remembers the latest row of each GOID. -/
def prevRefsFrom (segmentId : Nat) :
    (Id16 → Option Nat) → Nat → List ObjectRow → List (Option CoveRecordRefV1)
  | _, _, [] => []
  | latestByGoid, index, row :: rows =>
    (if hasPreviousRecord row.recordKind then
        (latestByGoid row.goid).map fun rowIndex => ⟨segmentId, rowIndex, 0⟩
      else none) ::
      prevRefsFrom segmentId (Function.update latestByGoid row.goid (some index)) (index + 1) rows

def temporalPrevRefs (segmentId : Nat) (rows : List ObjectRow) : List (Option CoveRecordRefV1) :=
  prevRefsFrom segmentId (fun _ => none) 0 rows

def temporalRow (row : ObjectRow) (index : Nat) (prevRef : Option CoveRecordRefV1) :
    TemporalRowEntryV1 where
  timestampUs := 0
  csn := index
  branchKey := 0
  goid := row.goid
  recordId := row.recordId
  recordKind := row.recordKind
  prevRef := prevRef

/-- The header and the row directory of `temporal_segment_payload`. -/
def TemporalSegmentBuild.data (b : TemporalSegmentBuild) : TemporalSegmentData where
  header := {
    segmentId := b.segmentId
    objectTypeId := b.objectType.objectTypeId
    timeRangeStartUs := 0
    timeRangeEndUs := 0
    csnMin := 0
    csnMax := b.rows.length - 1 }
  rows := (b.rows.zipIdx.zip (temporalPrevRefs b.segmentId b.rows)).map fun entry =>
    temporalRow entry.1.1 entry.1.2 entry.2

section

variable (lib : PropertyLibrary)

/-- `build_property_page_payload`. -/
def buildPropertyPage (rows : List ObjectRow) (p : PropertyEntryV1) :
    Except String (List StoredValue) :=
  rows.mapM fun row => appendPropertyValue lib p (row.value p.propertyId)

def buildSegment (types : List CatalogType) (entry : (Nat × List ObjectRow) × Nat) :
    Except String TemporalSegmentBuild := do
  let rows := sortByKey segmentRowKey entry.1.2
  let t ← okOr (types.find? (·.objectTypeId == entry.1.1)) s!"missing object_type_id {entry.1.1}"
  let columns ← t.properties.mapM (buildPropertyPage lib rows)
  .ok ⟨entry.2, t, rows, columns⟩

def buildTemporalSegments (m : MaterializedModel) : Except String (List TemporalSegmentBuild) :=
  (grouped (·.objectTypeId) m.rows).zipIdx.mapM (buildSegment lib m.objectTypes)

/-- `decode_property_column`, for all columns of a segment. -/
def decodeColumns (b : TemporalSegmentBuild) :
    Except CoveError (List (List CoveObjectPropertyValue)) :=
  (b.objectType.properties.zip b.columns).mapM fun column =>
    column.2.mapM fun stored => (decodePropertyValue lib column.1 stored).map column.1.withValue

theorem prevRefsFrom_length (segmentId : Nat) (latest : Id16 → Option Nat) (index : Nat)
    (rows : List ObjectRow) : (prevRefsFrom segmentId latest index rows).length = rows.length := by
  induction rows generalizing latest index with
  | nil => rfl
  | cons row rows ih => exact congrArg (· + 1) (ih _ _)

@[simp] theorem data_rows_length (b : TemporalSegmentBuild) : b.data.rows.length = b.rows.length := by
  simp [TemporalSegmentBuild.data, temporalPrevRefs, prevRefsFrom_length]

def rowsOfColumns (count : Nat) (columns : List (List CoveObjectPropertyValue)) :
    List (List CoveObjectPropertyValue) :=
  (range count).map fun i => columns.filterMap (·[i]?)

def readSegment (b : TemporalSegmentBuild) : Except CoveError SegmentSurface := do
  validateSegment b.data
  let columns ← decodeColumns lib b
  .ok {
    segment := b.data
    objectType := b.objectType.toObjectTypeEntryV1
    valuesByRow := rowsOfColumns b.rows.length columns
    typed := rfl
    aligned := by simp [rowsOfColumns] }

def latestStates (render : Value → String) (builds : List TemporalSegmentBuild) :
    Except CoveError (List CoveObjectState) := do
  let surfaces ← builds.mapM (readSegment lib)
  reconstructObjectStates render (allRecords render surfaces) {}

end

end CoveFormat.SegmentBuild

namespace CoveFormat.SegmentRecords

open ExceptRules SortedKeys Grouping JsonValue Temporal ObjectSurface Reconstruction
  ReconstructionRuns TemporalPushdown AsOfPruning IdentityPlanning PropertyValues MaterializedRows
  SegmentBuild List

variable {α : Type}

variable {lib : PropertyLibrary} {render : Value → String} {b : TemporalSegmentBuild}

theorem segments_of_groups {β ε : Type} {key : α → Nat} {xs : List α}
    {f : (Nat × List α) × Nat → Except ε β} {number group : β → Nat}
    (hf : ∀ entry b, f entry = .ok b → number b = entry.2 ∧ group b = entry.1.1) {bs : List β}
    (h : (grouped key xs).zipIdx.mapM f = .ok bs) :
    bs.map group = keysOf key xs ∧ bs.map number = List.range bs.length ∧
      ∀ b ∈ bs, ∃ i, f ((group b, under key (group b) xs), i) = .ok b := by
  have hmem : ∀ b ∈ bs, ∃ entry ∈ (grouped key xs).zipIdx, f entry = .ok b := fun b hb =>
    exists_of_mem_mapM h hb
  have h := mapM_eq_ok_iff.mp h
  refine ⟨?_, ?_, ?_⟩
  · rw [← map_eq_of_forall₂ h fun _ _ hb => (hf _ _ hb).2.symm]
    change List.map (Prod.fst ∘ Prod.fst) _ = _
    rw [← map_map, zipIdx_map_fst, grouped, map_map]
    exact map_id _
  · rw [← map_eq_of_forall₂ h fun _ _ hb => (hf _ _ hb).1.symm, zipIdx_map_snd,
      range_eq_range', ← h.length_eq, length_zipIdx]
  · intro b hb
    obtain ⟨⟨entry, i⟩, hentry, hb⟩ := hmem b hb
    obtain ⟨k, -, rfl⟩ := mem_map.mp (fst_mem_of_mem_zipIdx hentry)
    exact ⟨i, by rw [(hf _ _ hb).2]; exact hb⟩

def rowsOfGoid (goid : Id16) (rows : List ObjectRow) : List (ObjectRow × Nat) :=
  rows.zipIdx.filter fun entry => entry.1.goid = goid

def latestOf (rows : List ObjectRow) (goid : Id16) : Option Nat :=
  ((rowsOfGoid goid rows).getLast?).map (·.2)

def prevRefOf (segmentId : Nat) (before : List ObjectRow) (row : ObjectRow) :
    Option CoveRecordRefV1 :=
  if hasPreviousRecord row.recordKind then
    (latestOf before row.goid).map fun rowIndex => ⟨segmentId, rowIndex, 0⟩
  else none

theorem rowsOfGoid_concat (goid : Id16) (rows : List ObjectRow) (row : ObjectRow) :
    rowsOfGoid goid (rows ++ [row]) =
      rowsOfGoid goid rows ++ if row.goid = goid then [(row, rows.length)] else [] := by
  rw [rowsOfGoid, zipIdx_append, filter_append]
  simp only [rowsOfGoid, zipIdx_cons, zipIdx_nil, Nat.zero_add, filter_cons,
    filter_nil, decide_eq_true_eq]

theorem latestOf_concat (rows : List ObjectRow) (row : ObjectRow) :
    latestOf (rows ++ [row]) = Function.update (latestOf rows) row.goid (some rows.length) := by
  funext goid
  rw [latestOf, rowsOfGoid_concat]
  by_cases h : goid = row.goid
  · subst h
    simp
  · rw [Function.update_of_ne h, if_neg (Ne.symm h), append_nil, latestOf]

theorem prevRefsFrom_getElem? (segmentId : Nat) (before rows : List ObjectRow) (i : Nat) :
    (prevRefsFrom segmentId (latestOf before) before.length rows)[i]? =
      rows[i]?.map (prevRefOf segmentId (before ++ rows.take i)) := by
  induction rows generalizing before i with
  | nil => rfl
  | cons row rows ih =>
    cases i with
    | zero =>
      rw [take_zero, append_nil]
      rfl
    | succ i =>
      have h := ih (before ++ [row]) i
      rw [latestOf_concat, length_append, append_assoc] at h
      rw [take_succ_cons]
      exact h

theorem temporalPrevRefs_getElem? (segmentId : Nat) (rows : List ObjectRow) (i : Nat) :
    (temporalPrevRefs segmentId rows)[i]? = rows[i]?.map (prevRefOf segmentId (rows.take i)) :=
  prevRefsFrom_getElem? segmentId [] rows i

def entryOf (b : TemporalSegmentBuild) (entry : ObjectRow × Nat) : TemporalRowEntryV1 :=
  temporalRow entry.1 entry.2 (prevRefOf b.segmentId (b.rows.take entry.2) entry.1)

theorem data_rows (b : TemporalSegmentBuild) : b.data.rows = b.rows.zipIdx.map (entryOf b) := by
  apply ext_getElem?
  intro i
  rw [TemporalSegmentBuild.data, List.getElem?_map, List.getElem?_map, List.zip,
    List.getElem?_zipWith, List.getElem?_zipIdx, temporalPrevRefs_getElem?]
  cases h : b.rows[i]? with
  | none => rfl
  | some row =>
    rw [Nat.zero_add]
    rfl

def writtenValue (lib : PropertyLibrary) (p : PropertyEntryV1) (value : Value) : Option Value :=
  (appendPropertyValue lib p value).toOption.bind fun stored =>
    (decodePropertyValue lib p stored).toOption

def readValue (lib : PropertyLibrary) (row : ObjectRow) (p : PropertyEntryV1) : Value :=
  (writtenValue lib p (row.value p.propertyId)).getD .null

def readValues (lib : PropertyLibrary) (t : CatalogType) (row : ObjectRow) :
    List CoveObjectPropertyValue :=
  t.properties.map fun p => p.withValue (readValue lib row p)

variable {p : PropertyEntryV1}

theorem propertyValue_withValue {t : CatalogType} {value : PropertyEntryV1 → Value}
    (hp : p ∈ t.properties) :
    propertyValue (t.properties.map fun q => q.withValue (value q)) p.propertyId = value p := by
  have hfind : t.properties.find? (·.propertyId == p.propertyId) = some p := by
    obtain ⟨q, hq⟩ : ∃ q, t.properties.find? (·.propertyId == p.propertyId) = some q :=
      Option.isSome_iff_exists.mp (List.find?_isSome.mpr ⟨p, hp, beq_self_eq_true _⟩)
    have hid := List.find?_some hq
    rw [beq_iff_eq] at hid
    rw [hq, inj_on_of_nodup_map t.properties_nodup (mem_of_find?_eq_some hq) hp hid]
  rw [propertyValue, List.find?_map]
  have hcomp : ((fun q : CoveObjectPropertyValue => q.propertyId == p.propertyId) ∘
      fun q : PropertyEntryV1 => q.withValue (value q)) = fun q => q.propertyId == p.propertyId := rfl
  rw [hcomp, hfind]
  rfl

theorem propertyValue_of_missing {properties : List CoveObjectPropertyValue} {propertyId : Nat}
    (h : ∀ q ∈ properties, q.propertyId ≠ propertyId) : propertyValue properties propertyId = .null := by
  rw [propertyValue, List.find?_eq_none.mpr fun q hq heq => h q hq (eq_of_beq heq)]
  rfl

/-- The pages of a segment are those of its rows. -/
def Stored (lib : PropertyLibrary) (b : TemporalSegmentBuild) : Prop :=
  Forall₂ (fun p column => buildPropertyPage lib b.rows p = .ok column)
    b.objectType.properties b.columns

/-- Whatever the rows store for the property can be read back. -/
def Readable (lib : PropertyLibrary) (rows : List ObjectRow) (p : PropertyEntryV1) : Prop :=
  ∀ row ∈ rows, (writtenValue lib p (row.value p.propertyId)).isSome

instance (rows : List ObjectRow) (p : PropertyEntryV1) : Decidable (Readable lib rows p) :=
  inferInstanceAs (Decidable (∀ row ∈ rows, _))

variable {v : CoveObjectPropertyValue}

theorem written_value_iff {value : Value} :
    (∃ stored, appendPropertyValue lib p value = .ok stored ∧
      (decodePropertyValue lib p stored).map p.withValue = .ok v) ↔
    (writtenValue lib p value).isSome ∧
      v = p.withValue ((writtenValue lib p value).getD .null) := by
  rw [writtenValue]
  cases appendPropertyValue lib p value with
  | error e => simp [Except.toOption]
  | ok stored =>
    cases hd : decodePropertyValue lib p stored with
    | error e => simp [hd, Except.toOption, Except.map]
    | ok w => simp [hd, Except.toOption, Except.map, eq_comm]

theorem written_iff {row : ObjectRow} :
    (∃ stored, appendPropertyValue lib p (row.value p.propertyId) = .ok stored ∧
      (decodePropertyValue lib p stored).map p.withValue = .ok v) ↔
    (writtenValue lib p (row.value p.propertyId)).isSome ∧ v = p.withValue (readValue lib row p) :=
  written_value_iff

variable {rows : List ObjectRow}

theorem decodePage_ok_iff {page : List StoredValue} (h : buildPropertyPage lib rows p = .ok page)
    {values : List CoveObjectPropertyValue} :
    page.mapM (fun stored => (decodePropertyValue lib p stored).map p.withValue) = .ok values ↔
      Readable lib rows p ∧ values = rows.map fun row => p.withValue (readValue lib row p) := by
  rw [mapM_mapM_eq_ok_iff h]
  simp only [written_iff]
  exact forall₂_eq_map_iff

theorem decodePages_ok_iff {accepts : PropertyEntryV1 → Prop}
    {values : PropertyEntryV1 → List CoveObjectPropertyValue} {ps : List PropertyEntryV1}
    {pages : List (List StoredValue)}
    (h : Forall₂ (fun p page => ∀ vs : List CoveObjectPropertyValue,
      page.mapM (fun stored => (decodePropertyValue lib p stored).map p.withValue) = .ok vs ↔
        accepts p ∧ vs = values p) ps pages) {columns : List (List CoveObjectPropertyValue)} :
    ((ps.zip pages).mapM fun column =>
      column.2.mapM fun stored => (decodePropertyValue lib column.1 stored).map
        column.1.withValue) = .ok columns ↔
      (∀ p ∈ ps, accepts p) ∧ columns = ps.map values := by
  rw [← forall₂_eq_map_iff, mapM_eq_ok_iff]
  induction h generalizing columns with
  | nil => simp
  | @cons p page ps pages hpage _ ih =>
    cases columns with
    | nil => simp
    | cons values columns =>
      rw [zip_cons_cons, forall₂_cons, forall₂_cons, ih, hpage]

theorem decodeColumns_ok_iff (h : Stored lib b) {columns : List (List CoveObjectPropertyValue)} :
    decodeColumns lib b = .ok columns ↔ (∀ p ∈ b.objectType.properties, Readable lib b.rows p) ∧
      columns = b.objectType.properties.map fun p =>
        b.rows.map fun row => p.withValue (readValue lib row p) :=
  decodePages_ok_iff (h.imp fun _ _ hpage _ => decodePage_ok_iff hpage)

section

variable {β : Type} (f : α → β → CoveObjectPropertyValue)

theorem columns_getElem (as : List α) {rows : List β} {i : Nat} (hi : i < rows.length) :
    (as.map fun a => rows.map (f a)).filterMap (·[i]?) = as.map fun a => f a rows[i] := by
  induction as with
  | nil => rfl
  | cons a as ih =>
    have ha : (rows.map (f a))[i]? = some (f a rows[i]) := by
      rw [List.getElem?_map, List.getElem?_eq_getElem hi, Option.map_some]
    simp only [map_cons, filterMap_cons, ha, ih]

theorem rowsOfColumns_map (as : List α) (rows : List β) :
    rowsOfColumns rows.length (as.map fun a => rows.map (f a)) =
      rows.map fun row => as.map fun a => f a row := by
  apply ext_getElem
  · simp [rowsOfColumns]
  · intro i _ hi
    rw [length_map] at hi
    simp only [rowsOfColumns, getElem_map, getElem_range]
    exact columns_getElem f as hi

end

def surfaceOf (lib : PropertyLibrary) (b : TemporalSegmentBuild) : SegmentSurface where
  segment := b.data
  objectType := b.objectType.toObjectTypeEntryV1
  valuesByRow := b.rows.map (readValues lib b.objectType)
  typed := rfl
  aligned := by simp

theorem readSegment_ok_iff (h : Stored lib b) {s : SegmentSurface} :
    readSegment lib b = .ok s ↔ validateSegment b.data = .ok () ∧
      (∀ p ∈ b.objectType.properties, Readable lib b.rows p) ∧ s = surfaceOf lib b := by
  simp only [readSegment, andThen_eq_ok_iff, decodeColumns_ok_iff h, Except.ok.injEq]
  constructor
  · rintro ⟨⟨⟩, hvalid, _, ⟨hreadable, rfl⟩, rfl⟩
    refine ⟨hvalid, hreadable, ?_⟩
    rw [surfaceOf]
    congr 1
    exact rowsOfColumns_map _ _ _
  · rintro ⟨hvalid, hreadable, rfl⟩
    refine ⟨(), hvalid, _, ⟨hreadable, rfl⟩, ?_⟩
    rw [surfaceOf]
    congr 1
    exact rowsOfColumns_map _ _ _

def recordAt (render : Value → String) (lib : PropertyLibrary) (b : TemporalSegmentBuild)
    (entry : ObjectRow × Nat) : CoveObjectRecord :=
  recordOf render (surfaceOf lib b) ((entryOf b entry, readValues lib b.objectType entry.1), entry.2)

theorem surface_records : recordsFromSegment render {} (surfaceOf lib b) =
    b.rows.zipIdx.map (recordAt render lib b) := by
  rw [recordsFromSegment_default]
  have hrows : segmentRows (surfaceOf lib b) = b.rows.zipIdx.map fun entry =>
      ((entryOf b entry, readValues lib b.objectType entry.1), entry.2) := by
    apply ext_getElem?
    intro i
    rw [segmentRows, List.getElem?_zipIdx, List.zip, List.getElem?_zipWith, List.getElem?_map,
      List.getElem?_zipIdx, surfaceOf, data_rows, List.getElem?_map, List.getElem?_map,
      List.getElem?_zipIdx]
    cases b.rows[i]? with
    | none => rfl
    | some row =>
      rw [Nat.zero_add]
      rfl
  rw [hrows, map_map]
  rfl

theorem zipIdx_pairwise (as : List α) : as.zipIdx.Pairwise fun a b => a.2 < b.2 := by
  refine pairwise_map.mp ?_
  rw [zipIdx_map_snd]
  exact pairwise_lt_range'

theorem latestOf_mem {goid : Id16} {j : Nat} (h : latestOf rows goid = some j) :
    ∃ row, rows[j]? = some row ∧ row.goid = goid := by
  obtain ⟨entry, hentry, rfl⟩ := Option.map_eq_some_iff.mp h
  obtain ⟨hmem, hgoid⟩ := mem_filter.mp (mem_of_getLast? hentry)
  exact ⟨entry.1, mem_zipIdx_iff_getElem?.mp hmem, of_decide_eq_true hgoid⟩

theorem prevRef_mem {entry : ObjectRow × Nat} {ref : CoveRecordRefV1}
    (h : ref ∈ (entryOf b entry).prevRef) :
    ref.segmentId = b.segmentId ∧ ref.targetKind = 0 ∧ ref.rowIndex < entry.2 ∧
      ∃ row, b.rows[ref.rowIndex]? = some row ∧ row.goid = entry.1.goid := by
  change prevRefOf b.segmentId (b.rows.take entry.2) entry.1 = some ref at h
  rw [prevRefOf] at h
  split at h
  · obtain ⟨j, hj, rfl⟩ := Option.map_eq_some_iff.mp h
    obtain ⟨row, hrow, hgoid⟩ := latestOf_mem hj
    rw [List.getElem?_take] at hrow
    split at hrow
    · exact ⟨rfl, rfl, ‹_›, row, hrow, hgoid⟩
    · cases hrow
  · cases h

theorem entryOf_lt {x y : ObjectRow × Nat} (h : x.2 < y.2) :
    rowKey (entryOf b x) < rowKey (entryOf b y) := by
  refine Prod.Lex.toLex_lt_toLex.mpr (.inr ⟨rfl, ?_⟩)
  exact Prod.Lex.toLex_lt_toLex.mpr (.inl h)

theorem data_rows_mem {x : TemporalRowEntryV1 × Nat} (h : x ∈ b.data.rows.zipIdx) :
    ∃ row, b.rows[x.2]? = some row ∧ x.1 = entryOf b (row, x.2) := by
  have hget := mem_zipIdx_iff_getElem?.mp h
  rw [data_rows, List.getElem?_map, List.getElem?_zipIdx, Option.map_map,
    Option.map_eq_some_iff] at hget
  obtain ⟨row, hrow, hx⟩ := hget
  rw [Function.comp, Nat.zero_add] at hx
  exact ⟨row, hrow, hx.symm⟩

theorem data_rows_entry {x : TemporalRowEntryV1} (h : x ∈ b.data.rows) :
    ∃ entry ∈ b.rows.zipIdx, entryOf b entry = x := by
  rw [data_rows] at h
  exact mem_map.mp h

theorem validate_built (hkinds : ∀ row ∈ b.rows, row.recordKind ≠ .reservedLegacyMaterializedDelta) :
    validateSegment b.data = .ok () := by
  have hpairs := zipIdx_pairwise b.rows
  refine andThen_eq_ok_iff.mpr ⟨(), ?_, andThen_eq_ok_iff.mpr ⟨(), ?_, andThen_eq_ok_iff.mpr ⟨(), ?_,
    andThen_eq_ok_iff.mpr ⟨(), ?_, andThen_eq_ok_iff.mpr ⟨(), ?_, ?_⟩⟩⟩⟩⟩
  · rw [checkAll_eq_ok_iff, data_rows, forall_mem_map]
    intro entry hentry
    rw [validatePublished, rejectIf_eq_ok_iff]
    exact hkinds entry.1 (fst_mem_of_mem_zipIdx hentry)
  · rw [validateTemporalOrder, checkPairs_eq_ok_iff, data_rows]
    refine (pairwise_map.mpr (hpairs.imp fun hlt => ?_)).isChain
    exact rejectIf_ok (entryOf_lt hlt).not_gt
  · rw [validateCsnOrder, checkPairs_eq_ok_iff, data_rows]
    refine (pairwise_map.mpr (hpairs.imp fun hlt => ?_)).isChain
    exact rejectIf_ok (Nat.not_lt.mpr hlt.le)
  · rw [checkAll_eq_ok_iff]
    intro x hx
    obtain ⟨row, -, hrow⟩ := data_rows_mem hx
    rw [validatePrevRefOrder]
    cases href : x.1.prevRef with
    | none => rfl
    | some ref =>
      rw [hrow] at href
      obtain ⟨hsegment, -, hlt, -⟩ := prevRef_mem (Option.mem_def.mpr href)
      refine andThen_eq_ok_iff.mpr ⟨(), rejectIf_ok ?_, rejectIf_ok ?_⟩
      · exact fun h => absurd h.2 (Nat.not_le.mpr hlt)
      · exact fun h => absurd hsegment h.ne'
  · rw [rejectIf_eq_ok_iff]
    intro h
    obtain ⟨first, hfirst, h⟩ := (Option.any_eq_true _ _).mp h
    obtain ⟨entry, -, rfl⟩ := data_rows_entry (mem_of_mem_head? hfirst)
    rcases Bool.or_eq_true_iff.mp h with h | h
    · exact lt_irrefl (0 : Int) (of_decide_eq_true h)
    · exact Nat.not_lt_zero _ (of_decide_eq_true h)
  · rw [rejectIf_eq_ok_iff]
    intro h
    obtain ⟨last, hlast, h⟩ := (Option.any_eq_true _ _).mp h
    obtain ⟨entry, hentry, rfl⟩ := data_rows_entry (mem_of_mem_getLast? hlast)
    rcases Bool.or_eq_true_iff.mp h with h | h
    · exact lt_irrefl (0 : Int) (of_decide_eq_true h)
    · have hcsn : b.rows.length - 1 < entry.2 := of_decide_eq_true h
      have hlt := (mem_zipIdx' hentry).1
      omega

section

variable {done ps qs : List CoveObjectPropertyValue} {q : CoveObjectPropertyValue}

theorem upsertProperty_append {old : CoveObjectPropertyValue} (hid : old.propertyId = q.propertyId)
    (hdone : ∀ d ∈ done, d.propertyId ≠ q.propertyId) :
    upsertProperty q (done ++ old :: ps) = done ++ q :: ps := by
  induction done with
  | nil => rw [nil_append, upsertProperty, if_pos hid, nil_append]
  | cons d done ih =>
    obtain ⟨hd, hdone⟩ := forall_mem_cons.mp hdone
    rw [cons_append, upsertProperty, if_neg hd, ih hdone, cons_append]

theorem upsertProperties_append (hids : ps.map (·.propertyId) = qs.map (·.propertyId))
    (hnodup : ((done ++ qs).map (·.propertyId)).Nodup) :
    upsertProperties (done ++ ps) qs = done ++ qs := by
  induction qs generalizing done ps with
  | nil =>
    rw [map_nil, map_eq_nil_iff] at hids
    rw [hids]
    rfl
  | cons q qs ih =>
    cases ps with
    | nil => cases hids
    | cons p ps =>
      obtain ⟨hp, hids⟩ := List.cons.inj hids
      have hdone : ∀ d ∈ done, d.propertyId ≠ q.propertyId := by
        intro d hd heq
        rw [map_append, nodup_append] at hnodup
        exact hnodup.2.2 _ (mem_map_of_mem hd) _ (by simp) heq
      have hstep : upsertProperties (done ++ p :: ps) (q :: qs) =
          upsertProperties ((done ++ [q]) ++ ps) qs := by
        rw [upsertProperties, foldl_cons, upsertProperty_append hp hdone,
          append_assoc, singleton_append, upsertProperties]
      rw [hstep, ih hids (by rwa [append_assoc, singleton_append]),
        append_assoc, singleton_append]

theorem upsertProperties_eq (hids : ps.map (·.propertyId) = qs.map (·.propertyId))
    (hnodup : (qs.map (·.propertyId)).Nodup) : upsertProperties ps qs = qs :=
  @upsertProperties_append [] ps qs hids hnodup

end

theorem foldRecords_last {ids : List Nat} (hnodup : ids.Nodup) {rs : List CoveObjectRecord}
    (hrs : ∀ r ∈ rs, (r.recordKind = .baseline ∨ r.recordKind = .delta) ∧
      r.properties.map (·.propertyId) = ids) {c : Option CoveObjectState}
    (h : foldRecords render none rs = .ok c) :
    c.map (·.properties) = rs.getLast?.map (·.properties) ∧ ∀ s ∈ c, s.tombstoneStatus = .live := by
  induction rs using List.reverseRecOn generalizing c with
  | nil =>
    rw [← Except.ok.inj h]
    exact ⟨rfl, fun s hs => by cases hs⟩
  | append_singleton rs r ih =>
    obtain ⟨b, s, hb, hs, rfl⟩ := foldRecords_snoc_ok.mp h
    obtain ⟨hprevious, -⟩ := ih (fun x hx => hrs x (mem_append_left _ hx)) hb
    obtain ⟨hkind, hids⟩ := hrs r (by simp)
    rw [List.getLast?_concat, Option.map_some, Option.map_some, Option.some.injEq]
    replace hs := rest_ok hs
    rcases hkind with hk | hk <;> rw [hk] at hs
    · rw [← Except.ok.inj hs]
      refine ⟨rfl, fun s hs => ?_⟩
      rw [← Option.some.inj hs, stateFromFullRecord, hk]
      rfl
    · cases b with
      | none =>
        rw [← Except.ok.inj hs]
        refine ⟨rfl, fun s hs => ?_⟩
        rw [← Option.some.inj hs, stateFromFullRecord, hk]
        rfl
      | some s' =>
        rw [← Except.ok.inj hs]
        refine ⟨?_, fun s hs => by rw [← Option.some.inj hs]; rfl⟩
        change upsertProperties s'.properties r.properties = r.properties
        refine upsertProperties_eq ?_ (by rwa [hids])
        obtain ⟨p, hp, hlast⟩ := Option.map_eq_some_iff.mp hprevious.symm
        change p.properties = s'.properties at hlast
        rw [← hlast, hids]
        exact (hrs p (mem_append_left _ (mem_of_getLast? hp))).2

def firstRecords (render : Value → String) (lib : PropertyLibrary) (b : TemporalSegmentBuild)
    (goid : Id16) (n : Nat) : List CoveObjectRecord :=
  (rowsOfGoid goid (b.rows.take n)).map (recordAt render lib b)

variable {n : Nat}

theorem firstRecords_succ (goid : Id16) (hn : n < b.rows.length) :
    firstRecords render lib b goid (n + 1) = firstRecords render lib b goid n ++
      if b.rows[n].goid = goid then [recordAt render lib b (b.rows[n], n)] else [] := by
  rw [firstRecords, take_succ_eq_append_getElem hn, rowsOfGoid_concat, map_append,
    length_take, Nat.min_eq_left hn.le]
  split <;> rfl

theorem foldRecords_exists
    (hkinds : ∀ row ∈ b.rows, row.recordKind ≠ .reservedLegacyMaterializedDelta) (goid : Id16)
    (hn : n ≤ b.rows.length) :
    ∃ c, foldRecords render none (firstRecords render lib b goid n) = .ok c := by
  induction n with
  | zero => exact ⟨none, rfl⟩
  | succ n ih =>
    obtain ⟨c, hc⟩ := ih (Nat.le_of_succ_le hn)
    rw [firstRecords_succ goid hn]
    split
    · rename_i hgoid
      have hstep : validateRecordChainStep (recordAt render lib b (b.rows[n], n)) c = .ok () := by
        refine chainStep_ok_iff.mpr fun ref href => ?_
        rw [foldRecords_latest hc, firstRecords, List.getLast?_map, Option.map_map]
        change prevRefOf b.segmentId (b.rows.take n) b.rows[n] = some ref at href
        rw [prevRefOf, hgoid] at href
        split at href
        · rw [latestOf, Option.map_map] at href
          cases hlast : (rowsOfGoid goid (b.rows.take n)).getLast? with
          | none => rw [hlast] at href; cases href
          | some entry =>
            rw [hlast] at href
            rw [← Option.some.inj href]
            rfl
        · cases href
      have hkind := hkinds b.rows[n] (getElem_mem _)
      obtain ⟨s, hs⟩ := foldRecord_of_step hkind hstep
      exact ⟨some s, foldRecords_snoc_ok.mpr ⟨c, s, hc, hs, rfl⟩⟩
    · rw [append_nil]
      exact ⟨c, hc⟩

end CoveFormat.SegmentRecords
