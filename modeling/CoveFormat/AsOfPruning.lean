import CoveFormat.KeptRecords
import CoveFormat.TemporalPushdown

namespace CoveFormat.AsOfPruning

open ExceptRules JsonValue Temporal ObjectSurface Reconstruction KeptRecords TemporalPushdown List

variable {render : Value → String} {bloom : Option TemporalBloomIndex}
  {segments : List SegmentSurface} {s : SegmentSurface} {r p : CoveObjectRecord}
  {cut : Option CoveObjectTemporalCut} {branch : Option Nat} {goids : List Id16}

def asOfPushdown (cut : Option CoveObjectTemporalCut) (branch : Option Nat)
    (goids : List Id16) : CoveObjectReadPushdownOptions :=
  { enabled := true, temporalCut := cut, branchKey := branch, candidateGoids := goids }

def asOfOptions (cut : Option CoveObjectTemporalCut) (branch : Option Nat)
    (includeTombstones : Bool) : CoveObjectReconstructionOptions :=
  ⟨cut.getD .latestCommitted, branch, includeTombstones⟩

def allRecords (render : Value → String) (segments : List SegmentSurface) : List CoveObjectRecord :=
  readRecords render none {} segments

def keptRecords (render : Value → String) (bloom : Option TemporalBloomIndex)
    (cut : Option CoveObjectTemporalCut) (branch : Option Nat) (goids : List Id16)
    (segments : List SegmentSurface) : List CoveObjectRecord :=
  readRecords render bloom (asOfPushdown cut branch goids) segments

def isWanted (goids : List Id16) (goid : Id16) : Bool := goids.isEmpty || goids.contains goid

def isVisible (cut : Option CoveObjectTemporalCut) (branch : Option Nat) (goids : List Id16)
    (r : CoveObjectRecord) : Bool :=
  branch.all (r.branchKey == ·) && recordVisibleAtCut r (cut.getD .latestCommitted) &&
    isWanted goids r.goid

def validSegments (segments : List SegmentSurface) : Prop :=
  validateSegments (segments.map SegmentSurface.segment) = .ok ()

/-- The bloom test drops a segment that holds a visible record. -/
def BloomDrops (render : Value → String) (bloom : Option TemporalBloomIndex)
    (cut : Option CoveObjectTemporalCut) (branch : Option Nat) (goids : List Id16)
    (segments : List SegmentSurface) : Prop :=
  ∃ s ∈ segments,
    segmentExcludedByTemporalBloom s.segment.header bloom (asOfPushdown cut branch goids) = true ∧
    ∃ r ∈ recordsFromSegment render {} s, isVisible cut branch goids r = true

/-- A pruned read answers like a full read. -/
structure PruningKeeps (render : Value → String) (bloom : Option TemporalBloomIndex)
    (cut : Option CoveObjectTemporalCut) (branch : Option Nat) (goids : List Id16)
    (segments : List SegmentSurface) : Prop where
  records : ∀ r ∈ allRecords render segments, isVisible cut branch goids r = true →
    r ∈ keptRecords render bloom cut branch goids segments
  answer : ∀ tombstones, reconstructObjectStates render
      (keptRecords render bloom cut branch goids segments) (asOfOptions cut branch tombstones) =
    reconstructObjectStates render
      ((allRecords render segments).filter fun r => isWanted goids r.goid)
      (asOfOptions cut branch tombstones)
  states : ∀ tombstones S, reconstructObjectStates render (allRecords render segments)
      (asOfOptions cut branch tombstones) = .ok S →
    reconstructObjectStates render (keptRecords render bloom cut branch goids segments)
      (asOfOptions cut branch tombstones) = .ok (S.filter fun s => isWanted goids s.goid)

theorem isKeptRow_default (entry : (TemporalRowEntryV1 × List CoveObjectPropertyValue) × Nat) :
    isKeptRow render s {} entry = true := by
  have hnone : endpointCandidateRecordGoids render s {} = none := by
    simp [endpointCandidateRecordGoids]
  simp [isKeptRow, rowMatchesPushdown, hnone, propertyCandidatesMatch]

theorem recordsFromSegment_default (s : SegmentSurface) :
    recordsFromSegment render {} s = (segmentRows s).map (recordOf render s) := by
  rw [recordsFromSegment, filter_eq_self.mpr fun entry _ => isKeptRow_default entry]

theorem isKeptRow_asOf (entry : (TemporalRowEntryV1 × List CoveObjectPropertyValue) × Nat) :
    isKeptRow render s (asOfPushdown cut branch goids) entry =
      isVisible cut branch goids (recordOf render s entry) := by
  have hnone : endpointCandidateRecordGoids render s (asOfPushdown cut branch goids) = none := by
    simp [endpointCandidateRecordGoids, asOfPushdown]
  have hproperty : propertyCandidatesMatch s.objectType.objectTypeId entry.1.2
      (asOfPushdown cut branch goids) = true := rfl
  rw [isKeptRow, hnone, hproperty, Option.all_none, Bool.and_true, Bool.and_true,
    rowMatchesPushdown, isVisible]
  simp only [asOfPushdown, Bool.not_true, Bool.false_or, any_nil, Bool.and_false]
  cases cut with
  | none => rfl
  | some cut => cases cut <;> rfl

theorem recordsFromSegment_asOf (s : SegmentSurface) :
    recordsFromSegment render (asOfPushdown cut branch goids) s =
      (recordsFromSegment render {} s).filter (isVisible cut branch goids) := by
  rw [recordsFromSegment_default, filter_map, recordsFromSegment]
  apply congrArg
  apply filter_congr
  intro entry _
  exact isKeptRow_asOf entry

theorem allRecords_eq : allRecords render segments = segments.flatMap (recordsFromSegment render {}) := by
  rfl

theorem mem_allRecords : r ∈ allRecords render segments ↔
    ∃ s ∈ segments, r ∈ recordsFromSegment render {} s := by
  rw [allRecords_eq, mem_flatMap]

theorem mem_segmentRecords : r ∈ recordsFromSegment render {} s ↔
    ∃ row values, s.segment.rows[r.rowIndex]? = some row ∧
      s.valuesByRow[r.rowIndex]? = some values ∧
      r = recordOf render s ((row, values), r.rowIndex) := by
  rw [recordsFromSegment_default, mem_map]
  constructor
  · rintro ⟨⟨⟨row, values⟩, i⟩, hmem, rfl⟩
    have hget := mem_zipIdx_iff_getElem?.mp hmem
    obtain ⟨hrow, hvalues⟩ := List.getElem?_zip_eq_some.mp hget
    exact ⟨row, values, hrow, hvalues, rfl⟩
  · rintro ⟨row, values, hrow, hvalues, hr⟩
    refine ⟨_, mem_zipIdx_iff_getElem?.mpr ?_, hr.symm⟩
    exact List.getElem?_zip_eq_some.mpr ⟨hrow, hvalues⟩

variable {row : TemporalRowEntryV1}

theorem exists_record (render : Value → String) {i : Nat} (h : s.segment.rows[i]? = some row) :
    ∃ values, recordOf render s ((row, values), i) ∈ recordsFromSegment render {} s := by
  obtain ⟨hi, -⟩ := List.getElem?_eq_some_iff.mp h
  have hj : i < s.valuesByRow.length := by rw [s.aligned]; exact hi
  exact ⟨s.valuesByRow[i], mem_segmentRecords.mpr ⟨row, _, h, List.getElem?_eq_getElem hj, rfl⟩⟩

theorem segmentId_of_mem (h : r ∈ recordsFromSegment render {} s) :
    r.segmentId = s.segment.header.segmentId := by
  obtain ⟨row, values, -, -, hr⟩ := mem_segmentRecords.mp h
  rw [hr]
  rfl

structure Checked (segments : List SegmentSurface) : Prop where
  segment : ∀ s ∈ segments, validateSegment s.segment = .ok ()
  unique : (segments.map fun s => s.segment.header.segmentId).Nodup
  prevRef : ∀ s ∈ segments, ∀ row ∈ s.segment.rows, validatePrevRefTargetKind
    (segments.map SegmentSurface.segment) s.segment.header.objectTypeId row = .ok ()

theorem checked_of_valid (h : validSegments segments) : Checked segments := by
  obtain ⟨hsegment, h⟩ := of_check h
  obtain ⟨hunique, hprev⟩ := of_check h
  have hunique := not_not.mp (of_rejectIf hunique)
  rw [map_map] at hunique
  refine ⟨fun s hs => ?_, hunique, fun s hs row hrow => ?_⟩
  · exact checkAll_eq_ok_iff.mp hsegment s.segment (mem_map_of_mem hs)
  · have hrows := checkAll_eq_ok_iff.mp hprev s.segment (mem_map_of_mem hs)
    exact checkAll_eq_ok_iff.mp hrows row hrow

theorem address_unique (hunique : (segments.map fun s => s.segment.header.segmentId).Nodup)
    (hr : r ∈ allRecords render segments) (hp : p ∈ allRecords render segments)
      (h : address r = address p) : r = p := by
  obtain ⟨s, hs, hrs⟩ := mem_allRecords.mp hr
  obtain ⟨s', hs', hps⟩ := mem_allRecords.mp hp
  obtain ⟨hseg, hrow⟩ := Prod.mk.inj h
  obtain rfl := inj_on_of_nodup_map hunique hs hs'
    ((segmentId_of_mem hrs).symm.trans (hseg.trans (segmentId_of_mem hps)))
  obtain ⟨row, values, hrow₁, hvalues₁, hreq⟩ := mem_segmentRecords.mp hrs
  obtain ⟨row', values', hrow₂, hvalues₂, hpeq⟩ := mem_segmentRecords.mp hps
  rw [← hrow, hrow₁] at hrow₂
  rw [← hrow, hvalues₁] at hvalues₂
  rw [hreq, hpeq, ← hrow, Option.some.inj hrow₂, Option.some.inj hvalues₂]

variable {d : TemporalSegmentData}

theorem validateSegment_ok (h : validateSegment d = .ok ()) :
    (∀ row ∈ d.rows, row.recordKind ≠ .reservedLegacyMaterializedDelta) ∧
    (d.rows.IsChain fun a b => rowKey a ≤ rowKey b) ∧
    (d.rows.IsChain fun a b => a.csn ≤ b.csn) ∧
    (∀ entry ∈ d.rows.zipIdx, validatePrevRefOrder d.header.segmentId entry = .ok ()) ∧
    ∀ first ∈ d.rows.head?,
      d.header.timeRangeStartUs ≤ first.timestampUs ∧ d.header.csnMin ≤ first.csn := by
  obtain ⟨hkind, h⟩ := of_check h
  obtain ⟨horder, h⟩ := of_check h
  obtain ⟨hcsn, h⟩ := of_check h
  obtain ⟨hprev, h⟩ := of_check h
  obtain ⟨hfirst, -⟩ := of_reject h
  refine ⟨?_, ?_, ?_, checkAll_eq_ok_iff.mp hprev, ?_⟩
  · intro row hrow
    exact of_rejectIf (checkAll_eq_ok_iff.mp hkind row hrow)
  · exact (checkPairs_eq_ok_iff.mp horder).imp fun _ _ hab => not_lt.mp (of_rejectIf hab)
  · exact (checkPairs_eq_ok_iff.mp hcsn).imp fun _ _ hab => not_lt.mp (of_rejectIf hab)
  · intro first hf
    have hn := hfirst
    rw [Option.mem_def.mp hf, Option.any_some, Bool.or_eq_true, decide_eq_true_eq,
      decide_eq_true_eq, not_or, not_lt, not_lt] at hn
    exact hn

variable {a b : TemporalRowEntryV1}

theorem timestamp_le_of_rowKey_le (h : rowKey a ≤ rowKey b) : a.timestampUs ≤ b.timestampUs := by
  rcases Prod.Lex.toLex_le_toLex.mp h with h | h
  · exact h.le
  · exact h.1.le

theorem row_bounds (h : validateSegment d = .ok ()) (hrow : row ∈ d.rows) :
    d.header.timeRangeStartUs ≤ row.timestampUs ∧ d.header.csnMin ≤ row.csn := by
  obtain ⟨-, horder, hcsn, -, hfirst⟩ := validateSegment_ok h
  revert horder hcsn hfirst hrow
  cases d.rows with
  | nil => nofun
  | cons first rows =>
    intro hrow horder hcsn hfirst
    obtain ⟨hts, hmin⟩ := hfirst first rfl
    rcases mem_cons.mp hrow with rfl | hrow
    · exact ⟨hts, hmin⟩
    · have hkey := (pairwise_cons.mp (isChain_iff_pairwise.mp horder)).1 row hrow
      have hle := (pairwise_cons.mp (isChain_iff_pairwise.mp hcsn)).1 row hrow
      exact ⟨hts.trans (timestamp_le_of_rowKey_le hkey), hmin.trans hle⟩

theorem excluded_not_visible (hv : Checked segments) (hs : s ∈ segments)
    (hx : segmentExcludedByPushdown s.segment.header (asOfPushdown cut branch goids) = true)
    (hr : r ∈ recordsFromSegment render {} s) : isVisible cut branch goids r = false := by
  obtain ⟨row, values, hrow, -, hreq⟩ := mem_segmentRecords.mp hr
  obtain ⟨hts, hcsn⟩ := row_bounds (hv.segment s hs) (mem_of_getElem? hrow)
  have hinvisible : recordVisibleAtCut r (cut.getD .latestCommitted) = false := by
    rw [hreq]
    cases cut with
    | none => cases hx
    | some cut =>
      cases cut with
      | latestCommitted => cases hx
      | timestampUs value => exact decide_eq_false (not_le.mpr
          (lt_of_lt_of_le (of_decide_eq_true hx) hts))
      | csn value => exact decide_eq_false (not_le.mpr (lt_of_lt_of_le (of_decide_eq_true hx) hcsn))
  rw [isVisible, hinvisible, Bool.and_false, Bool.false_and]

theorem excludedByBloom_congr {header header' : TemporalSegmentHeaderV1}
    {pushdown : CoveObjectReadPushdownOptions} (h : header.segmentId = header'.segmentId) :
    segmentExcludedByTemporalBloom header bloom pushdown =
      segmentExcludedByTemporalBloom header' bloom pushdown := by
  unfold segmentExcludedByTemporalBloom
  rw [h]

theorem keptRecords_eq (hv : Checked segments)
    (hb : ¬ BloomDrops render bloom cut branch goids segments) :
    keptRecords render bloom cut branch goids segments =
      (allRecords render segments).filter (isVisible cut branch goids) := by
  rw [keptRecords, readRecords, allRecords_eq, List.filter_flatMap]
  apply flatMap_congr
  intro s hs
  rw [recordsFromSegment_asOf]
  split
  · rename_i hx
    symm
    refine filter_eq_nil_iff.mpr fun r hr hvis => ?_
    rw [Bool.and_eq_true, Bool.or_eq_true] at hx
    rcases hx.2 with hx | hx
    · rw [excluded_not_visible hv hs hx hr] at hvis
      cases hvis
    · exact hb ⟨s, hs, hx, r, hr, hvis⟩
  · rfl

/-- What the checks on the segments say about the previous record of a record. -/
structure PreviousOf (p r : CoveObjectRecord) (ref : CoveRecordRefV1) : Prop where
  address : address p = target ref
  object : objectKey p = objectKey r
  earlier : recordSortKey p < recordSortKey r
  kind : ref.targetKind ≤ 1

theorem sortKey_lt {p r : CoveObjectRecord} (hp : p.timestampUs = a.timestampUs ∧ p.csn = a.csn)
    (hr : r.timestampUs = b.timestampUs ∧ r.csn = b.csn) (hkey : rowKey a < rowKey b)
    (hrow : p.segmentId < r.segmentId ∨ p.segmentId = r.segmentId ∧ p.rowIndex < r.rowIndex) :
    recordSortKey p < recordSortKey r := by
  simp only [recordSortKey, rowKey, Prod.Lex.toLex_lt_toLex, hp, hr] at hkey ⊢
  rcases hkey with h | ⟨hts, h | ⟨hcsn, -⟩⟩
  · exact .inl h
  · exact .inr ⟨hts, .inl h⟩
  · refine .inr ⟨hts, .inr ⟨hcsn, ?_⟩⟩
    rcases hrow with h | ⟨hseg, h⟩
    · exact .inl h
    · exact .inr ⟨hseg, .inl h⟩

theorem rowAt_eq_some {t : Nat} {a : Nat × Nat}
    (h : rowAt (segments.map SegmentSurface.segment) a = some (t, row)) :
    ∃ s ∈ segments, s.segment.header.segmentId = a.1 ∧ s.segment.rows[a.2]? = some row ∧
      t = s.segment.header.objectTypeId := by
  obtain ⟨d, hd, h⟩ := Option.bind_eq_some_iff.mp h
  obtain ⟨row', hrow, h⟩ := Option.map_eq_some_iff.mp h
  obtain ⟨rfl, rfl⟩ := Prod.mk.inj h
  obtain ⟨s, hs, rfl⟩ := mem_map.mp (mem_of_find?_eq_some hd)
  have hid := List.find?_some hd
  exact ⟨s, hs, eq_of_beq hid, hrow, rfl⟩

theorem targetKind_le (kind : RecordKind) : targetKindForRecordKind kind ≤ 1 := by
  cases kind <;> decide

variable {ref : CoveRecordRefV1}

theorem exists_previous (hv : Checked segments) (hr : r ∈ allRecords render segments)
    (href : ref ∈ r.prevRef) : ∃ p ∈ allRecords render segments, PreviousOf p r ref := by
  obtain ⟨s, hs, hrs⟩ := mem_allRecords.mp hr
  obtain ⟨row, values, hrow, -, hreq⟩ := mem_segmentRecords.mp hrs
  have hrowmem := mem_of_getElem? hrow
  have hprev : row.prevRef = some ref := by
    have hcopy := congrArg CoveObjectRecord.prevRef hreq
    rw [Option.mem_def.mp href] at hcopy
    exact hcopy.symm
  have hkind := hv.prevRef s hs row hrowmem
  unfold validatePrevRefTargetKind at hkind
  simp only [hprev] at hkind
  split at hkind
  · cases hkind
  · rename_i targetType targetRow htarget
    obtain ⟨hk, hsame⟩ := of_check hkind
    have hk := not_not.mp (of_rejectIf hk)
    have hsame := of_rejectIf hsame
    simp only [not_or, not_not, not_le] at hsame
    obtain ⟨htype, hbranch, hgoid, hlt⟩ := hsame
    obtain ⟨s', hs', hid, hrow', htype'⟩ := rowAt_eq_some htarget
    obtain ⟨values', hp⟩ := exists_record render hrow'
    refine ⟨_, mem_allRecords.mpr ⟨s', hs', hp⟩, ?_, ?_, ?_, ?_⟩
    · exact Prod.ext hid rfl
    · rw [hreq]
      have ht : s'.objectType.objectTypeId = s.objectType.objectTypeId := by
        rw [s'.typed, s.typed, ← htype', htype]
      exact congrArg₂ (fun t o => toLex (t, o)) ht
        (congrArg₂ (fun b g => toLex (b, g)) hbranch hgoid)
    · obtain ⟨-, -, -, horder, -⟩ := validateSegment_ok (hv.segment s hs)
      have hbound := horder (row, r.rowIndex) (mem_zipIdx_iff_getElem?.mpr hrow)
      unfold validatePrevRefOrder at hbound
      simp only [hprev] at hbound
      obtain ⟨hlater, hbound⟩ := of_check hbound
      have hlater := of_rejectIf hlater
      have hbound := of_rejectIf hbound
      refine sortKey_lt ⟨rfl, rfl⟩ (by rw [hreq]; exact ⟨rfl, rfl⟩) hlt ?_
      change s'.segment.header.segmentId < r.segmentId ∨
        s'.segment.header.segmentId = r.segmentId ∧ ref.rowIndex < r.rowIndex
      rw [hid, segmentId_of_mem hrs]
      change ref.segmentId < _ ∨ ref.segmentId = _ ∧ _
      omega
    · rw [hk]
      exact targetKind_le _

theorem validatePrevRef_of_previous {records : List CoveObjectRecord}
    (hunique : ∀ q ∈ records, address q = address p → q = p) (hp : p ∈ records)
    (href : r.prevRef = some ref) (hprev : PreviousOf p r ref) :
    validatePrevRef records r = .ok () := by
  simp only [validatePrevRef, href]
  refine rejectIf_andThen (not_lt.mpr hprev.kind) ?_
  have hlookup : byRef records (target ref) = some p := by
    cases hb : byRef records (target ref) with
    | none =>
      have hnil := List.getLast?_eq_none_iff.mp hb
      exact absurd (decide_eq_true hprev.address) (filter_eq_nil_iff.mp hnil p hp)
    | some q =>
      obtain ⟨hq, ha⟩ := mem_filter.mp (mem_of_getLast? hb)
      rw [hunique q hq ((of_decide_eq_true ha).trans hprev.address.symm)]
  rw [hlookup]
  obtain ⟨htype, hrest⟩ := Prod.mk.inj (toLex.injective hprev.object)
  obtain ⟨hbranch, hgoid⟩ := Prod.mk.inj (toLex.injective hrest)
  refine rejectIf_ok ?_
  simp only [htype, hbranch, hgoid, ne_eq, not_true_eq_false, false_or, not_le]
  exact hprev.earlier

theorem validatePrevRefs_all (hv : Checked segments) :
    validatePrevRefs (allRecords render segments) = .ok () := by
  refine checkAll_eq_ok_iff.mpr fun r hr => ?_
  cases href : r.prevRef with
  | none => rw [validatePrevRef, href]
  | some ref =>
    obtain ⟨p, hp, hprev⟩ := exists_previous hv hr (Option.mem_def.mpr href)
    exact validatePrevRef_of_previous (fun q hq => address_unique hv.unique hq hp) hp href hprev

theorem goid_eq_of_objectKey_eq (h : objectKey p = objectKey r) : p.goid = r.goid :=
  congrArg (fun k => (ofLex (ofLex k).2).2) h

theorem wanted_closed (hv : Checked segments) :
    PrevClosed (fun r => isWanted goids r.goid) (allRecords render segments) := by
  intro r hr hw ref href p hp ha
  obtain ⟨q, hq, hprev⟩ := exists_previous hv hr href
  obtain rfl := address_unique hv.unique hp hq (ha.trans hprev.address.symm)
  have hgoid := goid_eq_of_objectKey_eq hprev.object
  change isWanted goids p.goid = true
  rwa [hgoid]

theorem published (hv : Checked segments) (hr : r ∈ allRecords render segments) :
    r.recordKind ≠ .reservedLegacyMaterializedDelta := by
  obtain ⟨s, hs, hrs⟩ := mem_allRecords.mp hr
  obtain ⟨row, values, hrow, -, hreq⟩ := mem_segmentRecords.mp hrs
  rw [hreq]
  exact (validateSegment_ok (hv.segment s hs)).1 row (mem_of_getElem? hrow)

variable {tombstones : Bool} {S : List CoveObjectState}

section

variable (hv : Checked segments)
include hv

theorem visible_closed
    (h : reconstructObjectStates render (allRecords render segments)
      (asOfOptions cut branch tombstones) = .ok S) :
    PrevClosed (isVisible cut branch goids) (allRecords render segments) := by
  intro r hr hvis ref href p hp ha
  obtain ⟨hsel, hw⟩ := Bool.and_eq_true_iff.mp hvis
  have hsel' := selected_closed h (fun p hp q hq => address_unique hv.unique hp hq) r hr hsel ref href p hp ha
  exact Bool.and_eq_true_iff.mpr ⟨hsel', wanted_closed hv r hr hw ref href p hp ha⟩

theorem kept_states
    (h : reconstructObjectStates render (allRecords render segments)
      (asOfOptions cut branch tombstones) = .ok S) :
    reconstructObjectStates render
      ((allRecords render segments).filter (isVisible cut branch goids))
      (asOfOptions cut branch tombstones) = .ok (S.filter fun s => isWanted goids s.goid) := by
  rw [reconstruct_filter h (visible_closed hv h), (reconstruct_ok_iff.mp h).2.2]
  refine congrArg Except.ok
    (kept_outcomes (fun k => isWanted goids (ofLex (ofLex k).2).2) fun k r hr => ?_)
  obtain ⟨-, hsel, hk⟩ := mem_objectRecords.mp hr
  rw [← hk]
  change (isSelected (asOfOptions cut branch tombstones) r && isWanted goids r.goid) = _
  rw [hsel, Bool.true_and]
  rfl

theorem kept_answer : reconstructObjectStates render
      ((allRecords render segments).filter (isVisible cut branch goids))
      (asOfOptions cut branch tombstones) =
    reconstructObjectStates render
      ((allRecords render segments).filter fun r => isWanted goids r.goid)
      (asOfOptions cut branch tombstones) := by
  have hsplit : (allRecords render segments).filter (isVisible cut branch goids) =
      ((allRecords render segments).filter fun r => isWanted goids r.goid).filter
        (isSelected (asOfOptions cut branch tombstones)) := by
    rw [filter_filter]
    rfl
  have hunique : ∀ p ∈ (allRecords render segments).filter fun r => isWanted goids r.goid,
      ∀ q ∈ (allRecords render segments).filter fun r => isWanted goids r.goid,
      address p = address q → p = q := fun p hp q hq =>
    address_unique hv.unique (mem_of_mem_filter hp) (mem_of_mem_filter hq)
  rw [hsplit]
  cases hfull : reconstructObjectStates render
      ((allRecords render segments).filter fun r => isWanted goids r.goid)
      (asOfOptions cut branch tombstones) with
  | ok S => exact reconstruct_selected hfull hunique
  | error e =>
    have hkind : ∀ r ∈ (allRecords render segments).filter fun r => isWanted goids r.goid,
        r.recordKind ≠ .reservedLegacyMaterializedDelta := fun r hr =>
      published hv (mem_of_mem_filter hr)
    rw [reconstruct_error hfull hkind]
    cases hkept : reconstructObjectStates render
        (((allRecords render segments).filter fun r => isWanted goids r.goid).filter
          (isSelected (asOfOptions cut branch tombstones)))
        (asOfOptions cut branch tombstones) with
    | ok T =>
      have hok := reconstruct_of_selected
        (validatePrevRefs_filter (validatePrevRefs_all hv) (wanted_closed hv)) hkept
      rw [hfull] at hok
      cases hok
    | error e' =>
      rw [reconstruct_error hkept fun r hr => hkind r (mem_of_mem_filter hr)]

theorem pruning_keeps_of_checked (hb : ¬ BloomDrops render bloom cut branch goids segments) :
    PruningKeeps render bloom cut branch goids segments := by
  have heq := keptRecords_eq hv hb
  refine ⟨fun r hr hvis => ?_, fun tombstones => ?_, fun tombstones S hS => ?_⟩
  · rw [heq]
    exact mem_filter.mpr ⟨hr, hvis⟩
  · rw [heq]
    exact kept_answer hv
  · rw [heq]
    exact kept_states hv hS

end

/-- Pruning keeps every visible record and the answers unless the bloom test drops a segment
with a visible record. -/
theorem pruning_keeps_iff (h : validSegments segments) :
    PruningKeeps render bloom cut branch goids segments ↔
      ¬ BloomDrops render bloom cut branch goids segments := by
  have hv := checked_of_valid h
  constructor
  · rintro hk ⟨s, hs, hx, r, hr, hvis⟩
    have hkept := hk.records r (mem_allRecords.mpr ⟨s, hs, hr⟩) hvis
    obtain ⟨s', hs', hmem⟩ := mem_flatMap.mp hkept
    split at hmem
    · cases hmem
    · rename_i hn
      rw [recordsFromSegment_asOf] at hmem
      have hid := (segmentId_of_mem (mem_of_mem_filter hmem)).symm.trans (segmentId_of_mem hr)
      refine hn (Bool.and_eq_true_iff.mpr ⟨rfl, Bool.or_eq_true_iff.mpr (.inr ?_)⟩)
      rw [excludedByBloom_congr hid]
      exact hx
  · exact pruning_keeps_of_checked hv

/-- The buckets of a segment, when it has any, cover the timestamps of its rows. -/
def BloomCovers (index : TemporalBloomIndex) (segments : List SegmentSurface) : Prop :=
  ∀ s ∈ segments, (∃ e ∈ index.entries, e.segmentId = s.segment.header.segmentId) →
    ∀ row ∈ s.segment.rows, ∃ e ∈ index.entries, e.segmentId = s.segment.header.segmentId ∧
      e.timeBucketStartUs ≤ row.timestampUs ∧ row.timestampUs ≤ e.timeBucketEndUs

def oneBaselineSegment : SegmentSurface where
  segment := ⟨⟨1, 7, 100, 100, 1, 1⟩, [⟨100, 1, 0, 42, 5, .baseline, none⟩]⟩
  objectType := ⟨7, "Person", 1⟩
  valuesByRow := [[]]
  typed := rfl
  aligned := rfl

def oneBucket : TemporalBloomIndex := ⟨[⟨1, 100, 199⟩]⟩

theorem oneBaseline_valid : validSegments [oneBaselineSegment] := rfl

theorem oneBucket_covers : BloomCovers oneBucket [oneBaselineSegment] := by
  intro s hs _ row hrow
  obtain rfl := mem_singleton.mp hs
  obtain rfl := mem_singleton.mp hrow
  exact ⟨_, mem_singleton.mpr rfl, rfl, by decide, by decide⟩

/-- Asked at time 500, the bucket of the only segment ends before; its object is lost. -/
theorem earlier_segment_dropped :
    ¬ ∀ (render : Value → String) (index : TemporalBloomIndex) (cut : CoveObjectTemporalCut)
      (branch : Option Nat) (goids : List Id16) (segments : List SegmentSurface)
      (tombstones : Bool) (S : List CoveObjectState),
      validSegments segments → BloomCovers index segments →
        reconstructObjectStates render (allRecords render segments)
          (asOfOptions (some cut) branch tombstones) = .ok S →
        reconstructObjectStates render
          (keptRecords render (some index) (some cut) branch goids segments)
          (asOfOptions (some cut) branch tombstones) =
            .ok (S.filter fun s => isWanted goids s.goid) := by
  intro h
  have hlost := h (fun _ => "") oneBucket (.timestampUs 500) none [] [oneBaselineSegment] false _
    oneBaseline_valid oneBucket_covers rfl
  cases hlost

def baselineAt (segmentId : Nat) (timestampUs : Int) : SegmentSurface where
  segment := ⟨⟨segmentId, 7, timestampUs, timestampUs, segmentId, segmentId⟩,
    [⟨timestampUs, segmentId, 0, segmentId, segmentId, .baseline, none⟩]⟩
  objectType := ⟨7, "Person", 1⟩
  valuesByRow := [[]]
  typed := rfl
  aligned := rfl

def datedSegments : List SegmentSurface :=
  [baselineAt 1 100, baselineAt 2 250, baselineAt 3 140, baselineAt 4 500]

theorem datedSegments_valid : validSegments datedSegments := rfl

/-- At time 150 the buckets drop the second segment, the header drops the last one. -/
theorem pruning_keeps_iff_dated :
    (keptRecords (fun _ => "") (some ⟨[⟨1, 100, 199⟩, ⟨2, 200, 299⟩, ⟨3, 100, 199⟩]⟩)
        (some (.timestampUs 150)) none [] datedSegments).map (·.segmentId) = [1, 3] ∧
      PruningKeeps (fun _ => "") (some ⟨[⟨1, 100, 199⟩, ⟨2, 200, 299⟩, ⟨3, 100, 199⟩]⟩)
        (some (.timestampUs 150)) none [] datedSegments := by
  refine ⟨rfl, (pruning_keeps_iff datedSegments_valid).mpr ?_⟩
  rintro ⟨s, hs, hx, r, hr, hvisible⟩
  simp only [datedSegments, mem_cons, not_mem_nil, or_false] at hs
  rcases hs with rfl | rfl | rfl | rfl
  · cases hx
  · obtain rfl := mem_singleton.mp hr
    exact absurd hvisible (by decide)
  · cases hx
  · cases hx

end CoveFormat.AsOfPruning
