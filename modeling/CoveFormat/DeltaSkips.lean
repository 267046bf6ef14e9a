import CoveFormat.ObjectDelta

namespace CoveFormat.DeltaSkips

open ExceptRules Temporal SparsePatch DeltaRecords DeltaFile DeltaValidation ObjectDelta List

variable {f : CoveDeltaFile} {v : CoveDeltaObjectValidation} {c d : DeltaContents}
  {s : CoveDeltaSection} {header : CoveDeltaHeaderV1} {parentRefIds : List Nat}

def hasKind (s : CoveDeltaSection) (kind : CoveDeltaSectionKind) : Bool :=
  CoveDeltaSectionKind.fromU16 s.entry.sectionKind = some kind

/-- What reading a section of a kind adds to the contents that the skip tests look at. -/
structure Adds (kind : CoveDeltaSectionKind) (s : CoveDeltaSection) (c d : DeltaContents) :
    Prop where
  segments : d.temporalSegments = c.temporalSegments ++
    if kind = .temporalSegmentData then s.payload.temporalSegment.toOption.toList else []
  records : d.sparsePatchRecords = c.sparsePatchRecords ++
    if kind = .propertyOps then s.payload.sparsePatchRecords.toOption.getD [] else []
  tombstoneSet : d.hasTombstoneSetSection = (c.hasTombstoneSetSection || kind = .tombstoneSet)

theorem readUncompressed_map_ok {T : Type} {r : Except CoveError T} {g : T → DeltaContents}
    (h : readUncompressed s (r.map g) = .ok d) : ∃ x, g x = d := by
  obtain ⟨⟨⟩, -, hr⟩ := of_andThen h
  obtain ⟨x, -, hx⟩ := map_eq_ok_iff.mp hr
  exact ⟨x, hx⟩

theorem readCatalogPatch_ok (h : readCatalogPatch c s = .ok d) : Adds .catalogPatch s c d := by
  replace h := rest_ok h
  obtain ⟨patch, -, h⟩ := of_andThen h
  replace h := rest_ok h
  cases h
  exact ⟨by simp, by simp, by simp⟩

theorem readDictionaryOverlay_ok (h : readDictionaryOverlay header parentRefIds c s = .ok d) :
    Adds .dictionaryOverlay s c d := by
  iterate 2 replace h := rest_ok h
  obtain ⟨entries, -, h⟩ := of_andThen h
  obtain ⟨codes, -, h⟩ := of_andThen h
  cases h
  exact ⟨by simp, by simp, by simp⟩

theorem readStringTable_ok (h : readStringTable c s = .ok d) : Adds .stringTable s c d := by
  iterate 2 replace h := rest_ok h
  obtain ⟨records, -, h⟩ := of_andThen h
  replace h := rest_ok h
  obtain ⟨refs, -, h⟩ := of_andThen h
  cases h
  exact ⟨by simp, by simp, by simp⟩

theorem readEvidencePatch_ok (h : readEvidencePatch header c s = .ok d) :
    Adds .evidencePatch s c d := by
  iterate 2 replace h := rest_ok h
  obtain ⟨patch, -, h⟩ := of_andThen h
  iterate 2 replace h := rest_ok h
  cases h
  exact ⟨by simp, by simp, by simp⟩

theorem readProjectionPatch_ok (h : readProjectionPatch header c s = .ok d) :
    Adds .projectionPatch s c d := by
  rw [readProjectionPatch] at h
  split at h
  · cases h
    exact ⟨by simp, by simp, by simp⟩
  · obtain ⟨⟨⟩, -, h⟩ := of_andThen h
    iterate 3 replace h := rest_ok h
    obtain ⟨patch, -, h⟩ := of_andThen h
    iterate 2 replace h := rest_ok h
    cases h
    exact ⟨by simp, by simp, by simp⟩

theorem readTemporalSegmentData_ok (h : readTemporalSegmentData header c s = .ok d) :
    Adds .temporalSegmentData s c d := by
  iterate 2 replace h := rest_ok h
  obtain ⟨segment, hs, h⟩ := of_andThen h
  replace h := rest_ok h
  cases h
  refine ⟨?_, by simp, by simp⟩
  rw [if_pos rfl, hs]
  rfl

theorem readPropertyOps_ok (h : readUncompressed s (readPropertyOps c s) = .ok d) :
    Adds .propertyOps s c d := by
  iterate 2 replace h := rest_ok h
  obtain ⟨records, hs, h⟩ := of_andThen h
  replace h := rest_ok h
  cases h
  refine ⟨by simp, ?_, by simp⟩
  rw [if_pos rfl, hs]
  rfl

theorem readKind_ok {kind : CoveDeltaSectionKind}
    (h : readKind header parentRefIds c s kind = .ok d) : Adds kind s c d := by
  cases kind with
  | catalogPatch => exact readCatalogPatch_ok h
  | dictionaryOverlay => exact readDictionaryOverlay_ok h
  | stringTable => exact readStringTable_ok h
  | evidencePatch => exact readEvidencePatch_ok h
  | projectionPatch => exact readProjectionPatch_ok h
  | temporalSegmentData => exact readTemporalSegmentData_ok h
  | propertyOps => exact readPropertyOps_ok h
  | branchIdentityTable | continuationAnchors | touchedObjectSet | tombstoneSet | stateHashTable
  | scopeTable | temporalRoleSummaryTable | touchedSummaryTable | tombstoneSummaryTable =>
    obtain ⟨records, rfl⟩ := readUncompressed_map_ok h
    exact ⟨by simp, by simp, by simp⟩
  | parentRefs | temporalSegmentIndex | coveragePatch | indexHints | layoutHints
  | trustContinuation | extension =>
    cases h
    exact ⟨by simp, by simp, by simp⟩

theorem readSection_ok (h : readSection header parentRefIds c s = .ok d) :
    d.temporalSegments = c.temporalSegments ++ s.temporalSegments ∧
      d.sparsePatchRecords = c.sparsePatchRecords ++ s.sparsePatchRecords ∧
      d.hasTombstoneSetSection = (c.hasTombstoneSetSection || hasKind s .tombstoneSet) := by
  rw [readSection] at h
  split at h
  · cases h
  · rename_i kind hk
    replace h := rest_ok h
    have ha := readKind_ok h
    rw [CoveDeltaSection.temporalSegments, CoveDeltaSection.sparsePatchRecords, hasKind, hk]
    simp only [Option.some.injEq]
    exact ⟨ha.segments, ha.records, ha.tombstoneSet⟩

theorem readSections_ok {ss : List CoveDeltaSection}
    (h : readSections header parentRefIds c ss = .ok d) :
    d.temporalSegments = c.temporalSegments ++ ss.flatMap CoveDeltaSection.temporalSegments ∧
      d.sparsePatchRecords = c.sparsePatchRecords ++ ss.flatMap CoveDeltaSection.sparsePatchRecords ∧
      d.hasTombstoneSetSection =
        (c.hasTombstoneSetSection || ss.any (hasKind · .tombstoneSet)) := by
  induction ss generalizing c with
  | nil =>
    cases h
    simp
  | cons s ss ih =>
    obtain ⟨e, he, h⟩ := of_andThen h
    obtain ⟨hseg, hrec, htomb⟩ := readSection_ok he
    obtain ⟨hsegs, hrecs, htombs⟩ := ih h
    rw [flatMap_cons, flatMap_cons, any_cons, hsegs, hrecs, htombs, hseg, hrec, htomb,
      append_assoc, append_assoc, Bool.or_assoc]
    exact ⟨rfl, rfl, rfl⟩

def fileRows (f : CoveDeltaFile) : List (Nat × TemporalRowEntryV1) :=
  typedRows (f.sections.flatMap CoveDeltaSection.temporalSegments)

def fileSparseRecords (f : CoveDeltaFile) : List DeltaSparsePatchRecordV1 :=
  f.sections.flatMap CoveDeltaSection.sparsePatchRecords

def hasTombstoneSet (f : CoveDeltaFile) : Bool :=
  f.sections.any (hasKind · .tombstoneSet)

section

variable (h : validateObjectDelta f = .ok v)
include h

theorem validateObjectDelta_contents :
    v.scopeKind = f.header.scopeKind ∧ v.scopeId = f.header.scopeId ∧
      validateCoverage f v.contents = .ok () ∧
      ∃ parentRefIds, readSections f.header parentRefIds {} f.sections = .ok v.contents := by
  replace h := rest_ok h
  obtain ⟨parentRefIds, -, h⟩ := of_andThen h
  replace h := rest_ok h
  obtain ⟨c, hc, h⟩ := of_andThen h
  replace h := rest_ok h
  obtain ⟨indexHints, -, h⟩ := of_andThen h
  obtain ⟨coveragePatches, -, h⟩ := of_andThen h
  replace h := rest_ok h
  obtain ⟨hcover, h⟩ := of_check h
  cases h
  exact ⟨rfl, rfl, hcover, parentRefIds, hc⟩

theorem validateObjectDelta_segments :
    v.contents.temporalSegments = f.sections.flatMap CoveDeltaSection.temporalSegments := by
  obtain ⟨-, -, -, parentRefIds, hc⟩ := validateObjectDelta_contents h
  simpa using (readSections_ok hc).1

theorem validateObjectDelta_ok :
    v.scopeKind = f.header.scopeKind ∧ v.scopeId = f.header.scopeId ∧
      typedRows v.contents.temporalSegments = fileRows f ∧
      v.contents.sparsePatchRecords = fileSparseRecords f ∧
      v.contents.hasTombstoneSetSection = hasTombstoneSet f ∧
      validateCoverage f v.contents = .ok () := by
  obtain ⟨hkind, hid, hcover, parentRefIds, hc⟩ := validateObjectDelta_contents h
  obtain ⟨-, hrec, htomb⟩ := readSections_ok hc
  refine ⟨hkind, hid, congrArg typedRows (validateObjectDelta_segments h), ?_, ?_, hcover⟩
  · simpa [fileSparseRecords] using hrec
  · simpa [hasTombstoneSet] using htomb

end

/-- A temporal row, given with the object type of its segment, belongs to the point. -/
def RowOf (f : CoveDeltaFile) (point : DeltaObjectPointLookupV1) (row : Nat × TemporalRowEntryV1) :
    Prop :=
  f.header.scopeKind = point.scopeKind ∧ f.header.scopeId = point.scopeId ∧
    row.1 = point.objectTypeId ∧ row.2.branchKey = point.branchIdentityRef ∧
    row.2.goid = point.goid

variable {r : DeltaSparsePatchRecordV1} {point : DeltaObjectPointLookupV1}

theorem matches_iff :
    sparsePatchRecordMatchesPoint r point = true ↔ r.scopeKind = point.scopeKind ∧
      r.scopeId = point.scopeId ∧ r.branchIdentityRef = point.branchIdentityRef ∧
      r.objectTypeId = point.objectTypeId ∧ r.goid = point.goid := by
  simp [sparsePatchRecordMatchesPoint, and_assoc]

variable {keys : List SparsePatchTemporalKey}

theorem mem_temporalDeltaKeys {rows : List (Nat × TemporalRowEntryV1)}
    (h : temporalDeltaKeys header rows = .ok keys) {key : SparsePatchTemporalKey} (hk : key ∈ keys) :
    ∃ row ∈ rows, row.2.recordKind = .delta ∧ key = ⟨header.scopeKind, header.scopeId, row.1,
      row.2.branchKey, row.2.goid, row.2.recordId, row.2.timestampUs, row.2.csn⟩ := by
  induction rows generalizing keys with
  | nil =>
    cases h
    cases hk
  | cons row rows ih =>
    obtain ⟨typeId, row⟩ := row
    rw [temporalDeltaKeys] at h
    split at h
    · obtain ⟨r, hr, hrk⟩ := ih h hk
      exact ⟨r, mem_cons_of_mem _ hr, hrk⟩
    · rename_i hkind
      replace h := rest_ok h
      obtain ⟨rest, hrest, h⟩ := of_andThen h
      cases h
      rcases mem_cons.mp hk with rfl | hk
      · exact ⟨(typeId, row), mem_cons_self, not_not.mp hkind, rfl⟩
      · obtain ⟨r, hr, hrk⟩ := ih hrest hk
        exact ⟨r, mem_cons_of_mem _ hr, hrk⟩

variable {rs : List DeltaSparsePatchRecordV1}

theorem checkSparseKeys_ok {seen out : List SparsePatchTemporalKey}
    (h : checkSparseKeys keys seen rs = .ok out) : ∀ r ∈ rs, sparsePatchRecordKey r ∈ keys := by
  induction rs generalizing seen with
  | nil => simp
  | cons r rs ih =>
    replace h := rest_ok h
    obtain ⟨hin, h⟩ := of_reject h
    exact forall_mem_cons.mpr ⟨not_not.mp hin, ih h⟩

theorem sparse_covered {segments : List TemporalSegmentData}
    {records : List DeltaSparsePatchRecordV1}
    (h : validateSparsePatchRecordsCoverTemporalRows f.header segments records = .ok ())
    (hr : r ∈ records) (hp : sparsePatchRecordMatchesPoint r point = true) :
    ∃ row ∈ typedRows segments, RowOf f point row := by
  obtain ⟨keys, hkeys, h⟩ := of_andThen h
  obtain ⟨out, hout, -⟩ := of_andThen h
  obtain ⟨row, hrow, -, hkey⟩ := mem_temporalDeltaKeys hkeys (checkSparseKeys_ok hout r hr)
  obtain ⟨hk, hs, hb, ht, hg⟩ := matches_iff.mp hp
  simp only [sparsePatchRecordKey, SparsePatchTemporalKey.mk.injEq] at hkey
  obtain ⟨hk', hs', ht', hb', hg', -⟩ := hkey
  exact ⟨row, hrow, hk'.symm.trans hk, hs'.symm.trans hs, ht'.symm.trans ht, hb'.symm.trans hb,
    hg'.symm.trans hg⟩

theorem row_covered {row : Nat × TemporalRowEntryV1} (hr : RowOf f point row)
    (ranges : List DeltaTouchedObjectRangeV1) :
    rowIsCoveredByRanges f.header row.1 row.2 ranges =
      ranges.any fun r => r.coversObjectPoint point := by
  obtain ⟨hk, hs, ht, hb, hg⟩ := hr
  simp only [rowIsCoveredByRanges, DeltaTouchedObjectRangeV1.coversObjectPoint, hk, hs, ht, hb, hg]

theorem point_skip_sound (h : validateObjectDelta f = .ok v)
    (hs : v.canSkipDeltaForPointLookup point = true) :
    (∀ row ∈ fileRows f, ¬ RowOf f point row) ∧
      ∀ r ∈ fileSparseRecords f, sparsePatchRecordMatchesPoint r point = false := by
  obtain ⟨-, -, hrows, hrecords, -, hcover⟩ := validateObjectDelta_ok h
  iterate 2 replace hcover := rest_ok hcover
  obtain ⟨hsparse, hcover⟩ := of_check hcover
  iterate 3 replace hcover := rest_ok hcover
  obtain ⟨htouched, -⟩ := of_check hcover
  have habsent : v.exactTouchedMembership point = .absent := of_decide_eq_true hs
  rw [CoveDeltaObjectValidation.exactTouchedMembership, exactRangeMembership] at habsent
  split at habsent
  · cases habsent
  · rename_i hsection
    split at habsent
    · cases habsent
    · rename_i hnone
      have hcovers := checkAll_eq_ok_iff.mp (whenever_eq_ok_iff.mp htouched (not_not.mp hsection))
      have hno : ∀ row ∈ fileRows f, ¬ RowOf f point row := by
        intro row hrow hof
        rw [← hrows] at hrow
        have hcov := not_not.mp (of_rejectIf (hcovers row hrow))
        rw [row_covered hof] at hcov
        exact hnone hcov
      refine ⟨hno, ?_⟩
      intro r hr
      rw [← hrecords] at hr
      by_contra hmatch
      have hne : decide (v.contents.sparsePatchRecords ≠ []) = true :=
        decide_eq_true (ne_nil_of_mem hr)
      obtain ⟨row, hrow, hof⟩ := sparse_covered (whenever_eq_ok_iff.mp hsparse hne) hr
        (Bool.eq_true_of_not_eq_false hmatch)
      exact hno row (hrows ▸ hrow) hof

/-- The sparse record leaves the requested properties and the projection row alone. -/
def Bypasses (ids : List Nat) (r : DeltaSparsePatchRecordV1) : Prop :=
  r.recordKind = .delta ∧
    ∀ p ∈ r.changedProperties, p.propertyId ∉ ids ∧ propertyOpForcesProjectionRead p = false

variable {ids : List Nat}

theorem skipsSparseRecords_iff {found : Bool} :
    CoveDeltaObjectValidation.skipsSparseRecords point ids found rs = true ↔
      (found = true ∨ ∃ r ∈ rs, sparsePatchRecordMatchesPoint r point = true) ∧
        ∀ r ∈ rs, sparsePatchRecordMatchesPoint r point = true → Bypasses ids r := by
  induction rs generalizing found with
  | nil => simp [CoveDeltaObjectValidation.skipsSparseRecords]
  | cons r rs ih =>
    rw [CoveDeltaObjectValidation.skipsSparseRecords]
    by_cases hm : sparsePatchRecordMatchesPoint r point = true
    · rw [if_neg (not_not.mpr hm)]
      by_cases hk : r.recordKind = .delta
      · rw [if_neg (not_not.mpr hk)]
        split
        · rename_i hany
          obtain ⟨p, hp, hbad⟩ := any_eq_true.mp hany
          simp only [Bool.false_eq_true, false_iff, not_and, forall_mem_cons]
          intro _ hall _
          obtain ⟨hid, hforce⟩ := (hall hm).2 p hp
          simp [hid, hforce] at hbad
        · rename_i hany
          have hb : Bypasses ids r := by
            refine ⟨hk, fun p hp => ?_⟩
            have hnot := any_eq_false.mp (Bool.eq_false_iff.mpr hany) p hp
            simpa using hnot
          rw [ih]
          simp [hm, hb]
      · rw [if_pos hk]
        simp only [Bool.false_eq_true, false_iff, not_and, forall_mem_cons]
        intro _ hall _
        exact hk (hall hm).1
    · rw [if_pos hm, ih]
      simp [hm]

theorem tombstone_of_sparse (h : Bypasses ids r) : sparseRecordTombstoneStatus r = .live := by
  refine if_neg (not_or.mpr ⟨by rw [h.1]; decide, ?_⟩)
  rw [Bool.not_eq_true]
  refine any_eq_false.mpr fun p hp => ?_
  have hforce := (h.2 p hp).2
  simp only [propertyOpForcesProjectionRead, Bool.and_eq_false_iff, Bool.or_eq_false_iff,
    decide_eq_false_iff_not] at hforce
  rcases hforce with hop | ⟨hkind, -⟩
  · simp [hop]
  · simp [hkind]

/-- The point has a tombstone row that the exact tombstone set announces. -/
def AnnouncedTombstone (f : CoveDeltaFile) (point : DeltaObjectPointLookupV1) : Prop :=
  hasTombstoneSet f = true ∧
    ∃ row ∈ fileRows f, RowOf f point row ∧ row.2.recordKind = .tombstone

theorem suppress_of_announced (h : validateObjectDelta f = .ok v) (ha : AnnouncedTombstone f point) :
    v.shouldSuppressParentLatestStateForTombstone point = true := by
  obtain ⟨hkind, hid, hrows, -, hset, -⟩ := validateObjectDelta_ok h
  obtain ⟨hf, row, hrow, ⟨hk, hs, ht, hb, hg⟩, htomb⟩ := ha
  rw [← hrows] at hrow
  obtain ⟨segment, hsegment, hin⟩ := mem_flatMap.mp hrow
  obtain ⟨r, hr, rfl⟩ := mem_map.mp hin
  refine decide_eq_true ?_
  rw [CoveDeltaObjectValidation.exactTombstoneMembership, if_neg (not_not.mpr (hset.trans hf)),
    if_neg (by rw [hkind, hid]; exact not_or.mpr ⟨not_not.mpr hk.symm, not_not.mpr hs.symm⟩)]
  refine if_pos (.inl (any_eq_true.mpr ⟨segment, hsegment, ?_⟩))
  simp only [Bool.and_eq_true, decide_eq_true_eq, any_eq_true]
  exact ⟨ht, r, hr, ⟨htomb, hb.symm⟩, hg⟩

theorem announced_of_suppress (h : validateObjectDelta f = .ok v)
    (hb : ∀ r ∈ fileSparseRecords f, sparsePatchRecordMatchesPoint r point = true → Bypasses ids r)
    (hs : v.shouldSuppressParentLatestStateForTombstone point = true) :
    AnnouncedTombstone f point := by
  obtain ⟨hkind, hid, hrows, hrecords, hset, -⟩ := validateObjectDelta_ok h
  have hpresent : v.exactTombstoneMembership point = .present := of_decide_eq_true hs
  rw [CoveDeltaObjectValidation.exactTombstoneMembership] at hpresent
  split at hpresent
  · cases hpresent
  · rename_i hsection
    split at hpresent
    · cases hpresent
    · rename_i hscope
      rw [hkind, hid, not_or, not_not, not_not] at hscope
      dsimp only at hpresent
      split at hpresent
      · rename_i hany
        refine ⟨hset ▸ not_not.mp hsection, ?_⟩
        rcases hany with hany | hany
        · obtain ⟨segment, hsegment, hrow⟩ := any_eq_true.mp hany
          simp only [Bool.and_eq_true, decide_eq_true_eq, any_eq_true] at hrow
          obtain ⟨ht, row, hr, ⟨htomb, hbranch⟩, hg⟩ := hrow
          refine ⟨(segment.header.objectTypeId, row), ?_, ⟨hscope.1.symm, hscope.2.symm, ht,
            hbranch.symm, hg⟩, htomb⟩
          rw [← hrows]
          exact mem_flatMap.mpr ⟨segment, hsegment, mem_map.mpr ⟨row, hr, rfl⟩⟩
        · obtain ⟨r, hr, hrec⟩ := any_eq_true.mp hany
          simp only [Bool.and_eq_true, decide_eq_true_eq] at hrec
          have hlive := tombstone_of_sparse (hb r (hrecords ▸ hr) hrec.1)
          rw [hlive] at hrec
          cases hrec.2
      · cases hpresent

/-- What the skip tests promise about a point and a list of requested properties. -/
def SkipHidesNothing (f : CoveDeltaFile) (v : CoveDeltaObjectValidation)
    (point : DeltaObjectPointLookupV1) (ids : List Nat) : Prop :=
  (v.canSkipDeltaForPointLookup point = true →
    (∀ row ∈ fileRows f, ¬ RowOf f point row) ∧
      ∀ r ∈ fileSparseRecords f, sparsePatchRecordMatchesPoint r point = false) ∧
  (v.canSkipDeltaForProjectionProperties point ids = true →
    (∀ row ∈ fileRows f, RowOf f point row →
      row.2.recordKind ∉ [RecordKind.tombstone, .snapshot, .baseline]) ∧
    ∀ r ∈ fileSparseRecords f, sparsePatchRecordMatchesPoint r point = true →
      (∀ p ∈ r.changedProperties, p.propertyId ∉ ids) ∧ r.recordKind ≠ .tombstone ∧
        ∀ p ∈ r.changedProperties, propertyOpForcesProjectionRead p = false)

/-- A full-state or tombstone row of the point that no exact tombstone set announces,
next to sparse records of the point that all bypass the requested properties. -/
def HiddenBehindSparse (f : CoveDeltaFile) (point : DeltaObjectPointLookupV1) (ids : List Nat) :
    Prop :=
  (∃ row ∈ fileRows f, RowOf f point row ∧
    row.2.recordKind ∈ [RecordKind.tombstone, .snapshot, .baseline]) ∧
  (∃ r ∈ fileSparseRecords f, sparsePatchRecordMatchesPoint r point = true) ∧
  (∀ r ∈ fileSparseRecords f, sparsePatchRecordMatchesPoint r point = true → Bypasses ids r) ∧
  ¬ AnnouncedTombstone f point

theorem projection_skip_iff (h : validateObjectDelta f = .ok v) (hids : ids ≠ [])
    (hpoint : v.canSkipDeltaForPointLookup point = false) :
    v.canSkipDeltaForProjectionProperties point ids = true ↔
      (∃ r ∈ fileSparseRecords f, sparsePatchRecordMatchesPoint r point = true) ∧
      (∀ r ∈ fileSparseRecords f, sparsePatchRecordMatchesPoint r point = true → Bypasses ids r) ∧
      ¬ AnnouncedTombstone f point := by
  have hrecords := (validateObjectDelta_ok h).2.2.2.1
  rw [CoveDeltaObjectValidation.canSkipDeltaForProjectionProperties, if_neg (by simp [hpoint])]
  split
  · rename_i hsup
    rw [or_iff_right hids] at hsup
    simp only [Bool.false_eq_true, false_iff, not_and, not_not]
    intro _ hb
    exact announced_of_suppress h hb hsup
  · rename_i hsup
    rw [skipsSparseRecords_iff, hrecords]
    constructor
    · rintro ⟨hfound, hb⟩
      refine ⟨hfound.resolve_left (by simp), hb, fun ha => hsup (.inr ?_)⟩
      exact suppress_of_announced h ha
    · rintro ⟨hfound, hb, -⟩
      exact ⟨.inr hfound, hb⟩

/-- The point test never hides a change. The projection test hides one exactly when a
full-state or tombstone row stands next to sparse records that bypass the request. -/
theorem skipHidesNothing_iff (h : validateObjectDelta f = .ok v) (point : DeltaObjectPointLookupV1)
    {ids : List Nat} (hids : ids ≠ []) :
    SkipHidesNothing f v point ids ↔ ¬ HiddenBehindSparse f point ids := by
  constructor
  · rintro ⟨hpoint, hproj⟩ ⟨⟨row, hrow, hof, hkind⟩, hfound, hb, ha⟩
    have hns : v.canSkipDeltaForPointLookup point = false :=
      Bool.eq_false_iff.mpr fun hs => (hpoint hs).1 row hrow hof
    exact (hproj ((projection_skip_iff h hids hns).mpr ⟨hfound, hb, ha⟩)).1 row hrow hof hkind
  · intro hhidden
    refine ⟨point_skip_sound h, ?_⟩
    intro hskip
    cases hs : v.canSkipDeltaForPointLookup point with
    | true =>
      obtain ⟨hrows, hrecords⟩ := point_skip_sound h hs
      refine ⟨fun row hrow hof => absurd hof (hrows row hrow), ?_⟩
      intro r hr hm
      rw [hrecords r hr] at hm
      cases hm
    | false =>
      obtain ⟨hfound, hb, ha⟩ := (projection_skip_iff h hids hs).mp hskip
      constructor
      · intro row hrow hof hkind
        exact hhidden ⟨⟨row, hrow, hof, hkind⟩, hfound, hb, ha⟩
      · intro r hr hm
        obtain ⟨hkind, hprops⟩ := hb r hr hm
        exact ⟨fun p hp => (hprops p hp).1, by rw [hkind]; decide, fun p hp => (hprops p hp).2⟩

/-- A delta of one segment; its last row is a Snapshot or a Delta row, and sparse records
are given for the Delta rows. -/
def nameDelta (lastKind : RecordKind) (records : List DeltaSparsePatchRecordV1) : CoveDeltaFile where
  header := ⟨0, 0, 0, 9, 1, 2, 3, 1, 1, 10, 11, 5, 6, 0, 1, 0, 0, 0, 0, 0, 0⟩
  parentRefs := [⟨0, deltaParentRefLineageParent, 8, 3, 400, 0, 1, 32, 0, 0, 0, 0, 0, 0⟩]
  sections := [
    { entry := ⟨4, 1, 0, 0⟩
      payload := { temporalSegment := .ok {
        header := ⟨0, 7, 5, 6, 10, 11⟩
        rows := [⟨5, 10, 0, 42, 100, .delta, none⟩, ⟨6, 11, 0, 42, 101, lastKind, none⟩] } } },
    { entry := ⟨8, records.length, 0, 0⟩
      payload := { sparsePatchRecords := .ok records } }]
  footer := ⟨0⟩
  postscript := ⟨0, 0⟩

def clearName (recordId : Nat) (timestampUs : Int) (csn : Nat) : DeltaSparsePatchRecordV1 :=
  ⟨0, 1, 0, 7, 42, recordId, timestampUs, csn, .delta, 0,
    [⟨1, deltaPropertyOpClear, deltaTombstoneKindNone, deltaRefNone, deltaRefNone, 0⟩]⟩

def namePoint : DeltaObjectPointLookupV1 := ⟨0, 1, 7, 0, 42⟩

/-- The Snapshot row replaces every property, but a request for property 2 skips the delta. -/
theorem snapshot_skipped :
    ¬ ∀ (f : CoveDeltaFile) (v : CoveDeltaObjectValidation) (point : DeltaObjectPointLookupV1)
      (ids : List Nat), validateObjectDelta f = .ok v → ids ≠ [] →
        SkipHidesNothing f v point ids := by
  intro hall
  have hskip : ∃ v, validateObjectDelta (nameDelta .snapshot [clearName 100 5 10]) = .ok v ∧
      v.canSkipDeltaForProjectionProperties namePoint [2] = true := ⟨_, rfl, rfl⟩
  obtain ⟨v, hv, hs⟩ := hskip
  have hrows := ((hall _ v namePoint [2] hv (by simp)).2 hs).1
  exact hrows (7, ⟨6, 11, 0, 42, 101, .snapshot, none⟩) (by decide)
    ⟨rfl, rfl, rfl, rfl, rfl⟩ (by decide)

theorem skipHidesNothing_iff_deltas :
    ∃ v, validateObjectDelta (nameDelta .delta [clearName 100 5 10, clearName 101 6 11]) = .ok v ∧
      SkipHidesNothing (nameDelta .delta [clearName 100 5 10, clearName 101 6 11]) v namePoint [2] := by
  have hv : ∃ v, validateObjectDelta (nameDelta .delta [clearName 100 5 10, clearName 101 6 11]) =
      .ok v := ⟨_, rfl⟩
  obtain ⟨v, hv⟩ := hv
  refine ⟨v, hv, (skipHidesNothing_iff hv namePoint (by simp)).mpr ?_⟩
  rintro ⟨⟨row, hrow, -, hkind⟩, -⟩
  have hdelta : ∀ row ∈ fileRows (nameDelta .delta [clearName 100 5 10, clearName 101 6 11]),
      row.2.recordKind = .delta := by decide
  rw [hdelta row hrow] at hkind
  exact absurd hkind (by decide)

end CoveFormat.DeltaSkips
