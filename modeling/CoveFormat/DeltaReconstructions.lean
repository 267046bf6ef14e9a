import CoveFormat.AsOfPruning
import CoveFormat.DeltaSkips
import CoveFormat.SparseReconstruction

namespace CoveFormat.DeltaReconstructions

open ExceptRules SortedKeys Grouping JsonValue Temporal SparsePatch SparseReconstruction
  DeltaRecords DeltaFile DeltaValidation ObjectDelta DeltaSkips ObjectSurface Reconstruction
  ReconstructionRuns KeptRecords TemporalPushdown AsOfPruning List Except

/-- A delta as its parsers leave it, with the decoded property columns of its rows. The parsers
of segments and of sparse records validate what they parse. -/
structure DeltaReading where
  file : CoveDeltaFile
  surfaces : List SegmentSurface
  read : surfaces.map (·.segment) = file.sections.flatMap CoveDeltaSection.temporalSegments
  validSegments : ∀ s ∈ surfaces, validateSegment s.segment = .ok ()
  validRecords : ∀ r ∈ fileSparseRecords file, r.validate = .ok ()

variable (render : Value → String) {reading : DeltaReading} {header : CoveDeltaHeaderV1}
  {v : CoveDeltaObjectValidation} {r : CoveObjectRecord} {rs : List CoveObjectRecord}

def rowOfRecord (r : CoveObjectRecord) : Nat × TemporalRowEntryV1 :=
  (r.objectTypeId, ⟨r.timestampUs, r.csn, r.branchKey, r.goid, r.recordId, r.recordKind, r.prevRef⟩)

def rowObject (row : Nat × TemporalRowEntryV1) : Nat ×ₗ Nat ×ₗ Nat :=
  toLex (row.1, toLex (row.2.branchKey, row.2.goid))

def sparseObject (header : CoveDeltaHeaderV1) (k : Nat ×ₗ Nat ×ₗ Nat) : DeltaSparseObjectKeyV1 :=
  ⟨header.scopeKind, header.scopeId, (ofLex (ofLex k).2).1, (ofLex k).1, (ofLex (ofLex k).2).2⟩

/-- Both reconstructions know the same objects, with the same latest record and CSN. -/
structure SameLatest (header : CoveDeltaHeaderV1) (table : StateTable)
    (states : List CoveObjectState) : Prop where
  objects : ∀ key ∈ table, ∃ s ∈ states, sparseObject header (stateObject s) = key
  latest : ∀ s ∈ states, ∃ sparse, table.lookup (sparseObject header (stateObject s)) = some sparse ∧
    sparse.latestRecordId = s.latestRecordId ∧ sparse.latestCsn = s.csn

/-- Both reconstructions succeed, and they agree. -/
def ReconstructionsAgree (render : Value → String) (reading : DeltaReading) : Prop :=
  ∃ table states, reconstructSparsePatchStateTable (fileSparseRecords reading.file) = .ok table ∧
    reconstructObjectStates render (allRecords render reading.surfaces) {} = .ok states ∧
    SameLatest reading.file.header table states

/-- Rows of one object have different CSNs, and none is later than the one with the highest. -/
structure CsnFollowsTime (rows : List (Nat × TemporalRowEntryV1)) : Prop where
  distinct : rows.Pairwise fun p q => rowObject p = rowObject q → p.2.csn ≠ q.2.csn
  latest : ∀ p ∈ rows, (∀ q ∈ rows, rowObject q = rowObject p → q.2.csn ≤ p.2.csn) →
    ∀ q ∈ rows, rowObject q = rowObject p → q.2.timestampUs ≤ p.2.timestampUs

def IsPlainDelta (row : Nat × TemporalRowEntryV1) : Prop :=
  row.2.recordKind = .delta ∧ row.2.prevRef = none

instance (row : Nat × TemporalRowEntryV1) : Decidable (IsPlainDelta row) :=
  inferInstanceAs (Decidable (_ ∧ _))

theorem segmentRows_rows (s : SegmentSurface) :
    (segmentRows s).map (fun entry => entry.1.1) = s.segment.rows := by
  have hfirst : (s.segment.rows.zip s.valuesByRow).map Prod.fst = s.segment.rows :=
    map_fst_zip (le_of_eq s.aligned.symm)
  calc (segmentRows s).map (fun entry => entry.1.1)
      = ((segmentRows s).map Prod.fst).map Prod.fst := by rw [map_map]; rfl
    _ = (s.segment.rows.zip s.valuesByRow).map Prod.fst := by
        rw [segmentRows, zipIdx_map_fst]
    _ = s.segment.rows := hfirst

theorem rowOfRecord_recordOf (s : SegmentSurface)
    (entry : (TemporalRowEntryV1 × List CoveObjectPropertyValue) × Nat) :
    rowOfRecord (recordOf render s entry) = (s.segment.header.objectTypeId, entry.1.1) := by
  rw [← s.typed]
  rfl

theorem rows_of_surfaces (surfaces : List SegmentSurface) :
    (allRecords render surfaces).map rowOfRecord = typedRows (surfaces.map (·.segment)) := by
  rw [allRecords_eq, typedRows, map_flatMap, flatMap_map]
  apply flatMap_congr
  intro s _
  rw [recordsFromSegment_default, map_map, ← segmentRows_rows, map_map]
  apply map_congr_left
  intro entry _
  exact rowOfRecord_recordOf render s entry

theorem rows_of_reading :
    (allRecords render reading.surfaces).map rowOfRecord = fileRows reading.file := by
  rw [rows_of_surfaces, reading.read, fileRows]

theorem foldRecords_deltas (h : ∀ r ∈ rs, IsPlainDelta (rowOfRecord r)) :
    ∃ c, foldRecords render none rs = .ok c ∧
      c.map (fun s => (s.latestRecordId, s.csn, s.tombstoneStatus)) =
        rs.getLast?.map fun r => (r.recordId, r.csn, .live) := by
  induction rs using reverseRecOn with
  | nil => exact ⟨none, rfl, rfl⟩
  | append_singleton rs r ih =>
    obtain ⟨c, hc, -⟩ := ih fun q hq => h q (mem_append_left _ hq)
    have hr : IsPlainDelta (rowOfRecord r) := h r (by simp)
    have hkind : r.recordKind = .delta := hr.1
    have hstep : validateRecordChainStep r c = .ok () := by
      have hprev : r.prevRef = none := hr.2
      rw [chainStep_ok_iff, hprev]
      nofun
    rw [List.getLast?_concat]
    cases c with
    | none =>
      have hfold : foldRecord render none r = .ok (stateFromFullRecord r) :=
        andThen_ok hstep (by rw [hkind])
      refine ⟨_, foldRecords_snoc_ok.mpr ⟨_, _, hc, hfold, rfl⟩, ?_⟩
      simp [stateFromFullRecord, hkind]
    | some s =>
      have hfold : foldRecord render (some s) r = .ok (applyDeltaRecord render s r) :=
        andThen_ok hstep (by rw [hkind])
      exact ⟨_, foldRecords_snoc_ok.mpr ⟨_, _, hc, hfold, rfl⟩, rfl⟩

/-- The record that is folded last among those of its object. -/
def IsLast (records : List CoveObjectRecord) (r : CoveObjectRecord) : Prop :=
  r ∈ records ∧ ∀ q ∈ records, objectKey q = objectKey r → recordSortKey q ≤ recordSortKey r

theorem getLast?_history {r : CoveObjectRecord} (h : (history rs).getLast? = some r) :
    r ∈ rs ∧ ∀ q ∈ rs, recordSortKey q ≤ recordSortKey r := by
  obtain ⟨before, hsplit⟩ := List.getLast?_eq_some_iff.mp h
  refine ⟨mem_history.mp (by rw [hsplit]; simp), fun q hq => ?_⟩
  have hpair := sortByKey_pairwise recordSortKey rs
  change (history rs).Pairwise _ at hpair
  rw [hsplit] at hpair
  have hmem := mem_history.mpr hq
  rw [hsplit, mem_append, mem_singleton] at hmem
  rcases hmem with hmem | rfl
  · exact (pairwise_append.mp hpair).2.2 q hmem r (by simp)
  · exact le_refl _

variable {records : List CoveObjectRecord}

/-- Delta rows without previous records can be reconstructed, and the state of an object shows
its last record. -/
theorem reconstruct_deltas (h : ∀ r ∈ records, IsPlainDelta (rowOfRecord r)) :
    ∃ states, reconstructObjectStates render records {} = .ok states ∧
      (∀ r ∈ records, ∃ s ∈ states, stateObject s = objectKey r) ∧
      ∀ s ∈ states, ∃ r, IsLast records r ∧ objectKey r = stateObject s ∧
        s.latestRecordId = r.recordId ∧ s.csn = r.csn := by
  have hfold : ∀ k, ∃ c, foldRecords render none (history (objectRecords {} records k)) = .ok c ∧
      c.map (fun s => (s.latestRecordId, s.csn, s.tombstoneStatus)) =
        (history (objectRecords {} records k)).getLast?.map fun r => (r.recordId, r.csn, .live) := by
    intro k
    refine foldRecords_deltas render fun r hr => h r ?_
    exact (mem_objectRecords.mp (mem_history.mp hr)).1
  have hprev : validatePrevRefs records = .ok () := by
    refine checkAll_eq_ok_iff.mpr fun r hr => ?_
    have hnone : r.prevRef = none := (h r hr).2
    rw [validatePrevRef, hnone]
  refine ⟨_, reconstruct_ok_iff.mpr ⟨hprev, fun k _ => (hfold k).imp fun _ hc => hc.1, rfl⟩, ?_, ?_⟩
  · intro r hr
    obtain ⟨c, hc, hlast⟩ := hfold (objectKey r)
    have hmem : r ∈ history (objectRecords {} records (objectKey r)) :=
      mem_history.mpr (mem_objectRecords.mpr ⟨hr, rfl, rfl⟩)
    obtain ⟨q, hq⟩ := Option.ne_none_iff_exists'.mp
      (mt List.getLast?_eq_none_iff.mp (ne_nil_of_mem hmem))
    rw [hq] at hlast
    obtain ⟨s, rfl, hs⟩ := Option.map_eq_some_iff.mp hlast
    have hlive : s.tombstoneStatus = .live := congrArg (·.2.2) hs
    have hout : outcome render {} (objectRecords {} records (objectKey r)) = some s := by
      rw [outcome_of_ok hc, Option.filter_some, if_pos (by simp [isReported, hlive])]
    refine ⟨s, mem_filterMap.mpr ⟨objectKey r, ?_, hout⟩,
      outcome_object (fun q hq => (mem_objectRecords.mp hq).2.2) s hout⟩
    exact mem_keysOf.mpr ⟨r, mem_filter.mpr ⟨hr, rfl⟩, rfl⟩
  · intro s hs
    obtain ⟨k, -, hout⟩ := mem_filterMap.mp hs
    obtain ⟨c, hc, hlast⟩ := hfold k
    have hobject := outcome_object (fun q hq => (mem_objectRecords.mp hq).2.2) s hout
    rw [outcome_of_ok hc] at hout
    obtain ⟨rfl, -⟩ := Option.filter_eq_some_iff.mp hout
    obtain ⟨r, hr, hrs⟩ := Option.map_eq_some_iff.mp hlast.symm
    obtain ⟨hmem, hmax⟩ := getLast?_history hr
    obtain ⟨hrec, -, hkey⟩ := mem_objectRecords.mp hmem
    refine ⟨r, ⟨hrec, fun q hq hqr => ?_⟩, hkey.trans hobject.symm, ?_, ?_⟩
    · exact hmax q (mem_objectRecords.mpr ⟨hq, rfl, hqr.trans hkey⟩)
    · exact (congrArg (·.1) hrs).symm
    · exact (congrArg (·.2.1) hrs).symm

def rowKeyOf (header : CoveDeltaHeaderV1) (row : Nat × TemporalRowEntryV1) :
    SparsePatchTemporalKey :=
  ⟨header.scopeKind, header.scopeId, row.1, row.2.branchKey, row.2.goid, row.2.recordId,
    row.2.timestampUs, row.2.csn⟩

def keyObject (key : SparsePatchTemporalKey) : DeltaSparseObjectKeyV1 :=
  ⟨key.scopeKind, key.scopeId, key.branchIdentityRef, key.objectTypeId, key.goid⟩

theorem sparseObject_inj {k k' : Nat ×ₗ Nat ×ₗ Nat} :
    sparseObject header k = sparseObject header k' ↔ k = k' := by
  constructor
  · intro h
    simp only [sparseObject, DeltaSparseObjectKeyV1.mk.injEq, true_and] at h
    obtain ⟨hb, ht, hg⟩ := h
    exact ofLex_inj.mp (Prod.ext ht (ofLex_inj.mp (Prod.ext hb hg)))
  · intro h
    rw [h]

theorem keyObject_rowKeyOf (row : Nat × TemporalRowEntryV1) :
    keyObject (rowKeyOf header row) = sparseObject header (rowObject row) := rfl

variable {rows : List (Nat × TemporalRowEntryV1)}

theorem temporalDeltaKeys_deltas {keys : List SparsePatchTemporalKey}
    (hd : ∀ row ∈ rows, IsPlainDelta row) (h : temporalDeltaKeys header rows = .ok keys) :
    keys = rows.map (rowKeyOf header) := by
  induction rows generalizing keys with
  | nil => exact (ok.inj h).symm
  | cons row rows ih =>
    obtain ⟨hrow, hrows⟩ := forall_mem_cons.mp hd
    rw [temporalDeltaKeys, if_neg (not_not.mpr hrow.1)] at h
    replace h := rest_ok h
    obtain ⟨rest, hrest, h⟩ := of_andThen h
    rw [← ok.inj h, ih hrows hrest, map_cons, rowKeyOf]

theorem checkSparseKeys_nodup {keys seen out : List SparsePatchTemporalKey}
    {rs : List DeltaSparsePatchRecordV1} (hseen : seen.Nodup)
    (h : checkSparseKeys keys seen rs = .ok out) :
    out = (rs.map sparsePatchRecordKey).reverse ++ seen ∧ out.Nodup := by
  induction rs generalizing seen with
  | nil =>
    cases h
    exact ⟨rfl, hseen⟩
  | cons r rs ih =>
    obtain ⟨hnew, h⟩ := of_reject h
    replace h := rest_ok h
    obtain ⟨hout, hnodup⟩ := ih (nodup_cons.mpr ⟨hnew, hseen⟩) h
    refine ⟨?_, hnodup⟩
    rw [hout, map_cons, reverse_cons, append_assoc, singleton_append]

variable {segments : List TemporalSegmentData}

theorem rowKeys_nodup (h : validateUniqueTemporalRecordIds segments = .ok ()) :
    ((typedRows segments).map (rowKeyOf header)).Nodup := by
  have hids := not_not.mp (of_rejectIf h)
  refine List.Nodup.of_map
    (fun key => (key.objectTypeId, key.branchIdentityRef, key.goid, key.recordId)) ?_
  rw [map_map]
  exact hids

theorem sparse_keys_perm {records : List DeltaSparsePatchRecordV1}
    (hd : ∀ row ∈ typedRows segments, IsPlainDelta row)
    (hunique : validateUniqueTemporalRecordIds segments = .ok ())
    (h : validateSparsePatchRecordsCoverTemporalRows header segments records = .ok ()) :
    (records.map sparsePatchRecordKey).Perm ((typedRows segments).map (rowKeyOf header)) := by
  obtain ⟨keys, hkeys, h⟩ := of_andThen h
  obtain ⟨out, hout, h⟩ := of_andThen h
  obtain rfl := temporalDeltaKeys_deltas hd hkeys
  obtain ⟨rfl, hnodup⟩ := checkSparseKeys_nodup nodup_nil hout
  rw [append_nil, nodup_reverse] at hnodup
  refine (perm_ext_iff_of_nodup hnodup (rowKeys_nodup hunique)).mpr fun key => ?_
  constructor
  · intro hkey
    obtain ⟨r, hr, rfl⟩ := mem_map.mp hkey
    exact checkSparseKeys_ok hout r hr
  · intro hkey
    have hin := not_not.mp (of_rejectIf (checkAll_eq_ok_iff.mp h key hkey))
    rwa [append_nil, mem_reverse] at hin

/-- Keys of one object with different record ids and CSNs. -/
def KeysDistinct (a b : SparsePatchTemporalKey) : Prop :=
  keyObject a = keyObject b → a.recordId ≠ b.recordId ∧ a.csn ≠ b.csn

theorem KeysDistinct.symm {a b : SparsePatchTemporalKey} (h : KeysDistinct a b) :
    KeysDistinct b a := by
  intro hk
  exact (h hk.symm).imp Ne.symm Ne.symm

theorem rows_distinct_iff (hunique : validateUniqueTemporalRecordIds segments = .ok ()) :
    ((typedRows segments).map (rowKeyOf header)).Pairwise KeysDistinct ↔
      (typedRows segments).Pairwise fun p q => rowObject p = rowObject q → p.2.csn ≠ q.2.csn := by
  have hids := not_not.mp (of_rejectIf hunique)
  rw [List.Nodup, pairwise_map] at hids
  rw [pairwise_map]
  constructor
  · intro h
    refine h.imp ?_
    intro p q hpq hobject
    exact (hpq (by rw [keyObject_rowKeyOf, keyObject_rowKeyOf, hobject])).2
  · intro h
    refine (h.and hids).imp ?_
    rintro p q ⟨hcsn, hid⟩ hkey
    have hobject : rowObject p = rowObject q := sparseObject_inj.mp hkey
    refine ⟨fun hrecord => hid ?_, hcsn hobject⟩
    simp only [rowObject, toLex_inj, Prod.mk.injEq] at hobject
    obtain ⟨ht, hb, hg⟩ := hobject
    exact Prod.ext ht (Prod.ext hb (Prod.ext hg hrecord))

variable {table : StateTable}

section

variable (h : validateObjectDelta reading.file = .ok v)
include h

theorem accepted_rows (hsparse : fileSparseRecords reading.file ≠ [])
    (hd : ∀ row ∈ fileRows reading.file, IsPlainDelta row) :
    ((fileSparseRecords reading.file).map sparsePatchRecordKey).Perm
        ((fileRows reading.file).map (rowKeyOf reading.file.header)) ∧
      (((fileRows reading.file).map (rowKeyOf reading.file.header)).Pairwise KeysDistinct ↔
        (fileRows reading.file).Pairwise fun p q => rowObject p = rowObject q → p.2.csn ≠ q.2.csn) := by
  obtain ⟨-, -, hrows, hrecords, -, hcover⟩ := validateObjectDelta_ok h
  replace hcover := rest_ok hcover
  obtain ⟨hunique, hcover⟩ := of_check hcover
  obtain ⟨hkeys, -⟩ := of_check hcover
  rw [← hrecords] at hsparse
  rw [← hrows] at hd
  rw [← hrows, ← hrecords]
  exact ⟨sparse_keys_perm hd hunique (whenever_eq_ok_iff.mp hkeys (decide_eq_true hsparse)),
    rows_distinct_iff hunique⟩

theorem sparse_total_iff (hsparse : fileSparseRecords reading.file ≠ [])
    (hd : ∀ row ∈ fileRows reading.file, IsPlainDelta row) :
    (∃ table, reconstructSparsePatchStateTable (fileSparseRecords reading.file) = .ok table) ↔
      (fileRows reading.file).Pairwise fun p q => rowObject p = rowObject q → p.2.csn ≠ q.2.csn := by
  obtain ⟨hperm, hdistinct⟩ := accepted_rows h hsparse hd
  rw [← hdistinct, ← hperm.pairwise_iff KeysDistinct.symm, pairwise_map]
  constructor
  · rintro ⟨table, ht⟩
    exact (reconstruct_ok_iff.mp ht).1.distinct
  · intro hp
    exact reconstruct_total ⟨reading.validRecords, hp⟩

theorem table_objects (hsparse : fileSparseRecords reading.file ≠ [])
    (hd : ∀ row ∈ fileRows reading.file, IsPlainDelta row)
    (ht : reconstructSparsePatchStateTable (fileSparseRecords reading.file) = .ok table)
    {key : DeltaSparseObjectKeyV1} :
    key ∈ table ↔
      ∃ p ∈ fileRows reading.file, sparseObject reading.file.header (rowObject p) = key := by
  have hkeys : ∀ x, x ∈ (fileSparseRecords reading.file).map sparsePatchRecordKey ↔ _ :=
    fun x => (accepted_rows h hsparse hd).1.mem_iff
  rw [mem_table ht]
  constructor
  · rintro ⟨r, hr, rfl⟩
    obtain ⟨p, hp, hkey⟩ := mem_map.mp ((hkeys _).mp (mem_map_of_mem hr))
    exact ⟨p, hp, congrArg keyObject hkey⟩
  · rintro ⟨p, hp, rfl⟩
    obtain ⟨r, hr, hkey⟩ := mem_map.mp ((hkeys _).mpr (mem_map_of_mem hp))
    exact ⟨r, hr, congrArg keyObject hkey⟩

end

/-- The row with the highest CSN among those of its object. -/
def HasHighestCsn (rows : List (Nat × TemporalRowEntryV1)) (p : Nat × TemporalRowEntryV1) : Prop :=
  p ∈ rows ∧ ∀ q ∈ rows, rowObject q = rowObject p → q.2.csn ≤ p.2.csn

theorem table_latest (h : validateObjectDelta reading.file = .ok v)
    (hsparse : fileSparseRecords reading.file ≠ [])
    (hd : ∀ row ∈ fileRows reading.file, IsPlainDelta row)
    (ht : reconstructSparsePatchStateTable (fileSparseRecords reading.file) = .ok table)
    {k : Nat ×ₗ Nat ×ₗ Nat} {sparse : DeltaSparseObjectStateV1}
    (hs : table.lookup (sparseObject reading.file.header k) = some sparse) :
    ∃ p, HasHighestCsn (fileRows reading.file) p ∧ rowObject p = k ∧
      sparse.latestRecordId = p.2.recordId ∧ sparse.latestCsn = p.2.csn := by
  have hkeys : ∀ x, x ∈ (fileSparseRecords reading.file).map sparsePatchRecordKey ↔ _ :=
    fun x => (accepted_rows h hsparse hd).1.mem_iff
  obtain ⟨r, hr, hkey, hmax, hid, -, -, hcsn, -⟩ := (isStateOf_of_table ht hs).latest
  obtain ⟨p, hp, hpr⟩ := mem_map.mp ((hkeys _).mp (mem_map_of_mem hr))
  have hobject : rowObject p = k :=
    sparseObject_inj.mp ((congrArg keyObject hpr).trans hkey)
  refine ⟨p, ⟨hp, ?_⟩, hobject, ?_, ?_⟩
  · intro q hq hqp
    obtain ⟨t, htm, hqt⟩ := mem_map.mp ((hkeys _).mpr (mem_map_of_mem hq))
    have htk : t.objectKey = sparseObject reading.file.header k := by
      rw [← hobject, ← hqp]
      exact congrArg keyObject hqt
    have hle := hmax t htm htk
    have htq : t.csn = q.2.csn := congrArg (·.csn) hqt
    have hrp : p.2.csn = r.csn := congrArg (·.csn) hpr
    rwa [htq, ← hrp] at hle
  · rw [hid]
    exact (congrArg (·.recordId) hpr).symm
  · rw [hcsn]
    exact (congrArg (·.csn) hpr).symm

theorem eq_of_csn (h : rows.Pairwise fun p q => rowObject p = rowObject q → p.2.csn ≠ q.2.csn)
    {p q : Nat × TemporalRowEntryV1} (hp : p ∈ rows) (hq : q ∈ rows)
    (hobject : rowObject p = rowObject q) (hcsn : p.2.csn = q.2.csn) : p = q := by
  by_contra hne
  have hsymm : Std.Symm fun p q : Nat × TemporalRowEntryV1 =>
      rowObject p = rowObject q → p.2.csn ≠ q.2.csn :=
    ⟨fun a b hab hba => (hab hba.symm).symm⟩
  exact h.forall hp hq hne hobject hcsn

theorem sortKey_le {q r : CoveObjectRecord} (h : recordSortKey q ≤ recordSortKey r) :
    q.timestampUs < r.timestampUs ∨ q.timestampUs = r.timestampUs ∧ q.csn ≤ r.csn := by
  rcases Prod.Lex.toLex_le_toLex.mp h with hlt | ⟨heq, hle⟩
  · exact .inl hlt
  · rcases Prod.Lex.toLex_le_toLex.mp hle with hlt | ⟨heq', -⟩
    · exact .inr ⟨heq, hlt.le⟩
    · exact .inr ⟨heq, heq'.le⟩

theorem last_eq_highest (h : CsnFollowsTime (records.map rowOfRecord)) {r : CoveObjectRecord}
    (hr : IsLast records r) {p : Nat × TemporalRowEntryV1}
    (hp : HasHighestCsn (records.map rowOfRecord) p) (hobject : rowObject p = objectKey r) :
    rowOfRecord r = p := by
  have hmem : rowOfRecord r ∈ records.map rowOfRecord := mem_map_of_mem hr.1
  have hle : r.csn ≤ p.2.csn := hp.2 _ hmem hobject.symm
  have htime : r.timestampUs ≤ p.2.timestampUs := h.latest p hp.1 hp.2 _ hmem hobject.symm
  obtain ⟨q, hq, rfl⟩ := mem_map.mp hp.1
  have hlast : q.timestampUs < r.timestampUs ∨ q.timestampUs = r.timestampUs ∧ q.csn ≤ r.csn :=
    sortKey_le (hr.2 q hq hobject)
  have hcsn : r.csn = q.csn := by
    rcases hlast with hlt | ⟨-, hqr⟩
    · exact absurd htime (not_le.mpr hlt)
    · exact le_antisymm hle hqr
  exact eq_of_csn h.distinct hmem hp.1 hobject.symm hcsn

theorem plain_records (hd : ∀ row ∈ fileRows reading.file, IsPlainDelta row) :
    ∀ r ∈ allRecords render reading.surfaces, IsPlainDelta (rowOfRecord r) := by
  intro r hr
  exact hd _ (rows_of_reading render ▸ mem_map_of_mem hr)

section

variable (h : validateObjectDelta reading.file = .ok v)
include h

theorem csnFollowsTime_of_agree (hsparse : fileSparseRecords reading.file ≠ [])
    (hd : ∀ row ∈ fileRows reading.file, IsPlainDelta row)
    (hagree : ReconstructionsAgree render reading) : CsnFollowsTime (fileRows reading.file) := by
  have hrows : _ = fileRows reading.file := rows_of_reading render
  obtain ⟨states, hstates, hobjects, hlatest⟩ := reconstruct_deltas render (plain_records render hd)
  obtain ⟨table, states', ht, hstates', hsame⟩ := hagree
  obtain rfl := ok.inj (hstates.symm.trans hstates')
  have hdistinct := (sparse_total_iff h hsparse hd).mp ⟨table, ht⟩
  refine ⟨hdistinct, fun p hp hmax q hq hqp => ?_⟩
  obtain ⟨r, hr, rfl⟩ := mem_map.mp (hrows ▸ hp)
  obtain ⟨r', hr', rfl⟩ := mem_map.mp (hrows ▸ hq)
  obtain ⟨s, hs, hsr⟩ := hobjects r hr
  obtain ⟨l, hl, hls, -, hlcsn⟩ := hlatest s hs
  obtain ⟨sparse, hlook, -, hcsn⟩ := hsame.latest s hs
  obtain ⟨p', hp', hp's, -, hp'csn⟩ := table_latest h hsparse hd ht hlook
  have hlrow : rowOfRecord l ∈ fileRows reading.file := hrows ▸ mem_map_of_mem hl.1
  have hlr : objectKey l = objectKey r := hls.trans hsr
  -- the last record has the CSN of the table, which is the highest one
  have hge : r.csn ≤ l.csn := by
    rw [← hlcsn, ← hcsn, hp'csn]
    exact hp'.2 _ hp (hsr.symm.trans hp's.symm)
  have hlast : rowOfRecord l = rowOfRecord r :=
    eq_of_csn hdistinct hlrow hp hlr (le_antisymm (hmax _ hlrow hlr) hge)
  have htime : l.timestampUs = r.timestampUs := congrArg (·.2.timestampUs) hlast
  rcases sortKey_le (hl.2 r' hr' (hqp.trans hlr.symm)) with hlt | ⟨heq, -⟩
  · exact hlt.le.trans_eq htime
  · exact (heq.trans htime).le

theorem agree_of_csnFollowsTime (hsparse : fileSparseRecords reading.file ≠ [])
    (hd : ∀ row ∈ fileRows reading.file, IsPlainDelta row)
    (hfollows : CsnFollowsTime (fileRows reading.file)) : ReconstructionsAgree render reading := by
  have hrows : _ = fileRows reading.file := rows_of_reading render
  obtain ⟨states, hstates, hobjects, hlatest⟩ := reconstruct_deltas render (plain_records render hd)
  obtain ⟨table, ht⟩ := (sparse_total_iff h hsparse hd).mpr hfollows.distinct
  refine ⟨table, states, ht, hstates, ?_, ?_⟩
  · intro key hkey
    obtain ⟨p, hp, rfl⟩ := (table_objects h hsparse hd ht).mp hkey
    obtain ⟨r, hr, rfl⟩ := mem_map.mp (hrows ▸ hp)
    obtain ⟨s, hs, hsr⟩ := hobjects r hr
    exact ⟨s, hs, congrArg _ hsr⟩
  · intro s hs
    obtain ⟨l, hl, hls, hid, hcsn⟩ := hlatest s hs
    have hkey : sparseObject reading.file.header (stateObject s) ∈ table :=
      (table_objects h hsparse hd ht).mpr
        ⟨rowOfRecord l, hrows ▸ mem_map_of_mem hl.1, congrArg _ hls⟩
    obtain ⟨sparse, hlook⟩ := Finmap.mem_iff.mp hkey
    obtain ⟨p, hp, hps, hpid, hpcsn⟩ := table_latest h hsparse hd ht hlook
    rw [← hrows] at hfollows hp
    have hlp := last_eq_highest hfollows hl hp (hps.trans hls.symm)
    refine ⟨sparse, hlook, ?_, ?_⟩
    · rw [hpid, hid, ← hlp]
      rfl
    · rw [hpcsn, hcsn, ← hlp]
      rfl

end

/-- The sparse records and the rows of a delta lead to the same latest records exactly when the
rows of each object have different CSNs and none is later than the one with the highest. -/
theorem reconstructions_agree_iff (h : validateObjectDelta reading.file = .ok v)
    (hsparse : fileSparseRecords reading.file ≠ [])
    (hd : ∀ row ∈ fileRows reading.file, IsPlainDelta row) :
    ReconstructionsAgree render reading ↔ CsnFollowsTime (fileRows reading.file) := by
  constructor
  · exact csnFollowsTime_of_agree render h hsparse hd
  · exact agree_of_csnFollowsTime render h hsparse hd

def nameSegment (segmentId recordId : Nat) (timestampUs : Int) (csn : Nat) :
    TemporalSegmentData where
  header := ⟨segmentId, 7, timestampUs, timestampUs, csn, csn⟩
  rows := [⟨timestampUs, csn, 0, 42, recordId, .delta, none⟩]

def twoSegmentDelta (first second : Nat) : CoveDeltaFile where
  header := ⟨0, 0, 0, 9, 1, 2, 3, 1, 1, 10, 11, 5, 6, 0, 1, 0, 0, 0, 0, 0, 0⟩
  parentRefs := [⟨0, deltaParentRefLineageParent, 8, 3, 400, 0, 1, 32, 0, 0, 0, 0, 0, 0⟩]
  sections := [
    { entry := ⟨4, 1, 0, 0⟩, payload := { temporalSegment := .ok (nameSegment 0 100 5 first) } },
    { entry := ⟨4, 1, 0, 0⟩, payload := { temporalSegment := .ok (nameSegment 1 101 6 second) } },
    { entry := ⟨8, 2, 0, 0⟩
      payload := { sparsePatchRecords := .ok [clearName 100 5 first, clearName 101 6 second] } }]
  footer := ⟨0⟩
  postscript := ⟨0, 0⟩

def nameSurface (segmentId recordId : Nat) (timestampUs : Int) (csn : Nat) : SegmentSurface where
  segment := nameSegment segmentId recordId timestampUs csn
  objectType := ⟨7, "person", 0⟩
  valuesByRow := [[]]
  typed := rfl
  aligned := Eq.refl 1

theorem nameSegment_valid (segmentId recordId : Nat) (timestampUs : Int) (csn : Nat) :
    validateSegment (nameSegment segmentId recordId timestampUs csn) = .ok () := by
  have hfirst : rejectIf ((nameSegment segmentId recordId timestampUs csn).rows.head?.any
      fun first => first.timestampUs < timestampUs || first.csn < csn) (CoveError.badSchema
        "temporal segment row falls before declared min range") = .ok () :=
    rejectIf_ok (by simp [nameSegment])
  have hlast : rejectIf ((nameSegment segmentId recordId timestampUs csn).rows.getLast?.any
      fun last => timestampUs < last.timestampUs || csn < last.csn) (CoveError.badSchema
        "temporal segment row falls after declared max range") = .ok () :=
    rejectIf_ok (by simp [nameSegment])
  exact andThen_ok rfl (andThen_ok rfl (andThen_ok rfl (andThen_ok rfl (andThen_ok hfirst hlast))))

def twoSegmentReading (first second : Nat) : DeltaReading where
  file := twoSegmentDelta first second
  surfaces := [nameSurface 0 100 5 first, nameSurface 1 101 6 second]
  read := rfl
  validSegments := by
    simp only [List.forall_mem_cons]
    exact ⟨nameSegment_valid 0 100 5 first, nameSegment_valid 1 101 6 second, by simp⟩
  validRecords := by
    intro r hr
    have hmem : r ∈ [clearName 100 5 first, clearName 101 6 second] := hr
    rcases List.mem_cons.mp hmem with rfl | hmem
    · rfl
    · obtain rfl := List.mem_singleton.mp hmem
      rfl

/-- The later row has the lower CSN, so that the two folds end on different records. -/
theorem later_row_lower_csn : ¬ ∀ (reading : DeltaReading) (v : CoveDeltaObjectValidation),
      validateObjectDelta reading.file = .ok v → fileSparseRecords reading.file ≠ [] →
      (∀ row ∈ fileRows reading.file, IsPlainDelta row) →
      ReconstructionsAgree (fun _ => "") reading := by
  intro hall
  have hv : ∃ v, validateObjectDelta (twoSegmentReading 11 10).file = .ok v := ⟨_, rfl⟩
  obtain ⟨v, hv⟩ := hv
  have hfollows : CsnFollowsTime (fileRows (twoSegmentReading 11 10).file) :=
    csnFollowsTime_of_agree (fun _ => "") hv (by decide) (by decide)
      (hall (twoSegmentReading 11 10) v hv (by decide) (by decide))
  have hlate : (6 : Int) ≤ 5 := hfollows.latest (7, ⟨5, 11, 0, 42, 100, .delta, none⟩) (by decide)
    (by decide) (7, ⟨6, 10, 0, 42, 101, .delta, none⟩) (by decide) rfl
  exact absurd hlate (by decide)

theorem reconstructions_agree_ascending :
    ReconstructionsAgree (fun _ => "") (twoSegmentReading 10 11) := by
  have hv : ∃ v, validateObjectDelta (twoSegmentReading 10 11).file = .ok v := ⟨_, rfl⟩
  obtain ⟨v, hv⟩ := hv
  have hiff : _ ↔ CsnFollowsTime (fileRows (twoSegmentReading 10 11).file) :=
    reconstructions_agree_iff (fun _ => "") hv (by decide) (by decide)
  refine hiff.mpr ⟨?_, ?_⟩
  · decide
  · decide

end CoveFormat.DeltaReconstructions
