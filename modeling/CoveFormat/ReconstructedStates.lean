import CoveFormat.KeptRecords

namespace CoveFormat.ReconstructedStates

open ExceptRules SortedKeys Grouping LastWriter JsonValue Temporal ObjectSurface Reconstruction
  ReconstructionRuns KeptRecords List

variable {id : Nat} {v : CoveObjectPropertyValue}

variable {render : Value → String} {options : CoveObjectReconstructionOptions}
  {records other rs xs ys : List CoveObjectRecord} {c : Option CoveObjectState}
  {s s' : CoveObjectState} {r b : CoveObjectRecord}

theorem sortKeys_nodup (h : (rs.map address).Nodup) : (rs.map recordSortKey).Nodup := by
  have hkeys : rs.map address = (rs.map recordSortKey).map fun k =>
      ((ofLex (ofLex (ofLex k).2).2).1, (ofLex (ofLex (ofLex (ofLex k).2).2).2).1) := by
    rw [map_map]
    rfl
  rw [hkeys] at h
  exact h.of_map _

section

variable (hperm : records.Perm other)
include hperm

theorem byRef_perm (hn : (records.map address).Nodup) (a : Nat × Nat) : byRef records a = byRef other a := by
  have hn' : (other.map address).Nodup := (hperm.map address).nodup_iff.mp hn
  by_cases h : ∃ r ∈ records, address r = a
  · obtain ⟨r, hr, rfl⟩ := h
    rw [byRef, byRef, filter_ident hn hr, filter_ident hn' (hperm.mem_iff.mp hr)]
  · have hnone : ∀ r ∈ records, ¬ address r = a := fun r hr ha => h ⟨r, hr, ha⟩
    have hleft : records.filter (fun r => address r = a) = [] :=
      filter_eq_nil_iff.mpr fun r hr => by simpa using hnone r hr
    have hright : other.filter (fun r => address r = a) = [] :=
      filter_eq_nil_iff.mpr fun r hr => by simpa using hnone r (hperm.mem_iff.mpr hr)
    rw [byRef, byRef, hleft, hright]

theorem validatePrevRef_perm (hn : (records.map address).Nodup) (r : CoveObjectRecord) :
    validatePrevRef records r = validatePrevRef other r := by
  unfold validatePrevRef
  simp only [byRef_perm hperm hn]

theorem validatePrevRefs_perm (hn : (records.map address).Nodup) :
    validatePrevRefs records = validatePrevRefs other := by
  have hok : validatePrevRefs records = .ok () ↔ validatePrevRefs other = .ok () := by
    rw [validatePrevRefs, validatePrevRefs, checkAll_eq_ok_iff, checkAll_eq_ok_iff]
    exact forall_congr' fun r => by rw [hperm.mem_iff, validatePrevRef_perm hperm hn]
  cases hleft : validatePrevRefs records with
  | ok u => exact (hok.mp hleft).symm
  | error e =>
    cases hright : validatePrevRefs other with
    | ok u => cases hleft.symm.trans (hok.mpr hright)
    | error e' => rw [validatePrevRefs_error hleft, validatePrevRefs_error hright]

end

theorem reconstructGroups_congr {gs hs : List ((Nat ×ₗ Nat ×ₗ Nat) × List CoveObjectRecord)}
    (h : List.Forall₂ (fun g g' => history g.2 = history g'.2) gs hs) :
    reconstructGroups render options gs = reconstructGroups render options hs := by
  induction h with
  | nil => rfl
  | @cons g g' gs hs hg _ ih =>
    obtain ⟨k, rs⟩ := g
    obtain ⟨k', rs'⟩ := g'
    change sortByKey recordSortKey rs = sortByKey recordSortKey rs' at hg
    rw [reconstructGroups, reconstructGroups, hg, ih]

theorem keysOf_perm {α κ : Type} [LinearOrder κ] {key : α → κ} {xs ys : List α}
    (h : xs.Perm ys) : keysOf key xs = keysOf key ys :=
  sortByKey_congr (h.map key).dedup (by rw [map_id]; exact nodup_dedup _)

theorem reconstruct_perm (hperm : records.Perm other) (hn : (records.map address).Nodup) :
    reconstructObjectStates render records options =
      reconstructObjectStates render other options := by
  have hselected := hperm.filter (isSelected options)
  have hgroups : List.Forall₂ (fun g g' : (Nat ×ₗ Nat ×ₗ Nat) × List CoveObjectRecord =>
      history g.2 = history g'.2)
      (grouped objectKey (records.filter (isSelected options)))
      (grouped objectKey (other.filter (isSelected options))) := by
    rw [grouped, grouped, keysOf_perm hselected]
    refine forall₂_map_left_iff.mpr (forall₂_map_right_iff.mpr ?_)
    refine forall₂_same.mpr fun k _ => sortByKey_congr (hselected.filter _) ?_
    refine sortKeys_nodup (List.Nodup.sublist ?_ ((hperm.map address).nodup_iff.mp hn))
    exact (filter_sublist.trans filter_sublist).map address
  rw [reconstructObjectStates, reconstructObjectStates, validatePrevRefs_perm hperm hn,
    reconstructGroups_congr hgroups]

section

def lookup (id : Nat) (ps : List CoveObjectPropertyValue) : Option CoveObjectPropertyValue :=
  ps.find? fun p => p.propertyId = id

variable {p : CoveObjectPropertyValue} {ps qs : List CoveObjectPropertyValue}

theorem lookup_upsertProperty :
    lookup id (upsertProperty p ps) = if p.propertyId = id then some p else lookup id ps := by
  induction ps with
  | nil => by_cases hp : p.propertyId = id <;> simp [lookup, upsertProperty, hp]
  | cons q ps ih =>
    rw [upsertProperty]
    by_cases hq : q.propertyId = p.propertyId
    · rw [if_pos hq]
      by_cases hp : p.propertyId = id <;> simp [lookup, hp, hq]
    · rw [if_neg hq]
      by_cases hid : q.propertyId = id
      · have hp : p.propertyId ≠ id := fun h => hq (hid.trans h.symm)
        simp [lookup, hid, hp]
      · rw [lookup] at ih ⊢
        rw [List.find?_cons_of_neg (by simpa using hid), ih, lookup, lookup,
          List.find?_cons_of_neg (by simpa using hid)]

theorem lookup_upsertProperties :
    lookup id (upsertProperties ps qs) = (lookup id qs.reverse).or (lookup id ps) := by
  induction qs using List.reverseRecOn generalizing ps with
  | nil => rfl
  | append_singleton qs q ih =>
    have hsnoc : upsertProperties ps (qs ++ [q]) = upsertProperty q (upsertProperties ps qs) :=
      List.foldl_append
    rw [hsnoc, lookup_upsertProperty, ih, reverse_append]
    by_cases hq : q.propertyId = id <;> simp [lookup, hq]

theorem upsertProperty_map_id : (upsertProperty p ps).map (·.propertyId) =
    if p.propertyId ∈ ps.map (·.propertyId) then ps.map (·.propertyId)
    else ps.map (·.propertyId) ++ [p.propertyId] := by
  induction ps with
  | nil => rfl
  | cons q ps ih =>
    rw [upsertProperty]
    by_cases hq : q.propertyId = p.propertyId
    · simp [hq]
    · rw [if_neg hq, map_cons, map_cons, ih]
      have hne : p.propertyId ≠ q.propertyId := fun h => hq h.symm
      by_cases hmem : p.propertyId ∈ ps.map (·.propertyId)
      · rw [if_pos hmem, if_pos (mem_cons_of_mem _ hmem)]
      · rw [if_neg hmem, if_neg (by simpa [hne] using hmem), cons_append]

/-- Properties with ids of their own. -/
def DistinctIds (ps : List CoveObjectPropertyValue) : Prop := (ps.map (·.propertyId)).Nodup

theorem distinctIds_upsertable : Upsertable DistinctIds := by
  intro ps qs hps hqs
  clear hqs
  induction qs using List.reverseRecOn with
  | nil => exact hps
  | append_singleton qs q ih =>
    have hsnoc : upsertProperties ps (qs ++ [q]) = upsertProperty q (upsertProperties ps qs) :=
      List.foldl_append
    rw [hsnoc, DistinctIds, upsertProperty_map_id]
    by_cases hmem : q.propertyId ∈ (upsertProperties ps qs).map (·.propertyId)
    · rwa [if_pos hmem]
    · rw [if_neg hmem]
      refine nodup_append.mpr ⟨ih, nodup_singleton _, fun i hi j hj heq => hmem ?_⟩
      rwa [← mem_singleton.mp hj, ← heq]

theorem lookup_of_mem (h : DistinctIds ps) (hv : v ∈ ps) : lookup v.propertyId ps = some v := by
  induction ps with
  | nil => cases hv
  | cons q ps ih =>
    rw [DistinctIds, map_cons, nodup_cons] at h
    rcases mem_cons.mp hv with rfl | hv
    · simp [lookup]
    · have hne : q.propertyId ≠ v.propertyId := fun heq =>
        h.1 (heq ▸ mem_map_of_mem hv)
      rw [lookup, List.find?_cons_of_neg (by simpa using hne)]
      exact ih h.2 hv

def written (id : Nat) (r : CoveObjectRecord) : Option CoveObjectPropertyValue :=
  lookup id r.properties.reverse

def isWrite (r : CoveObjectRecord) : Bool := r.recordKind ≠ .tombstone

def writtenOver (ps : List CoveObjectPropertyValue) (ws : List CoveObjectRecord) :
    List CoveObjectPropertyValue :=
  ws.foldl (fun acc r => upsertProperties acc r.properties) ps

theorem lookup_writtenOver (ws : List CoveObjectRecord) :
    lookup id (writtenOver ps ws) = (latest (written id) ws).or (lookup id ps) := by
  induction ws using List.reverseRecOn with
  | nil => rfl
  | append_singleton ws w ih =>
    have hsnoc : writtenOver ps (ws ++ [w]) = upsertProperties (writtenOver ps ws) w.properties :=
      List.foldl_append
    rw [hsnoc, lookup_upsertProperties, ih, latest_snoc, Option.or_assoc]
    rfl

end

/-- The latest fields of the state are those of the record. -/
structure ShowsLatest (s : CoveObjectState) (r : CoveObjectRecord) : Prop where
  recordId : s.latestRecordId = r.recordId
  segmentId : s.latestSegmentId = r.segmentId
  rowIndex : s.latestRowIndex = r.rowIndex
  timestampUs : s.timestampUs = r.timestampUs
  csn : s.csn = r.csn
  recordKind : s.recordKind = r.recordKind
  tombstoned : s.tombstoneStatus = .tombstoned ↔ r.recordKind = .tombstone

theorem foldRecord_some (h : foldRecord render (some s) r = .ok s') (hr : ¬ IsFull r) :
    s'.properties =
      if isWrite r then upsertProperties s.properties r.properties else s.properties := by
  replace h := rest_ok h
  cases hk : r.recordKind with
  | baseline => exact absurd (.inl hk) hr
  | snapshot => exact absurd (.inr hk) hr
  | delta =>
    rw [hk] at h
    rw [← Except.ok.inj h]
    simp [isWrite, hk, applyDeltaRecord, advance]
  | tombstone =>
    rw [hk] at h
    rw [← Except.ok.inj h]
    simp [isWrite, hk, advance]
  | reservedLegacyMaterializedDelta =>
    rw [hk] at h
    cases h

theorem foldRecord_none (h : foldRecord render none r = .ok s) : s.properties = r.properties := by
  replace h := rest_ok h
  cases hk : r.recordKind <;> rw [hk] at h
  case reservedLegacyMaterializedDelta => cases h
  all_goals
    rw [← Except.ok.inj h]
    rfl

theorem foldRecord_latest (h : foldRecord render c r = .ok s) : ShowsLatest s r := by
  replace h := rest_ok h
  cases hk : r.recordKind <;> rw [hk] at h
  case reservedLegacyMaterializedDelta => cases h
  case baseline | snapshot =>
    rw [← Except.ok.inj h]
    exact ⟨rfl, rfl, rfl, rfl, rfl, rfl, by simp [stateFromFullRecord, hk]⟩
  case delta | tombstone =>
    cases c <;> rw [← Except.ok.inj h]
    all_goals exact ⟨rfl, rfl, rfl, rfl, rfl, rfl, by
      simp [stateFromFullRecord, applyDeltaRecord, hk]⟩

theorem foldRecords_latestRecord (h : foldRecords render none (xs ++ [r]) = .ok (some s)) :
    ShowsLatest s r := by
  obtain ⟨b, s', -, hs, heq⟩ := foldRecords_snoc_ok.mp h
  cases heq
  exact foldRecord_latest hs

theorem foldRecords_some (h : foldRecords render (some s) ys = .ok (some s'))
    (hys : ∀ y ∈ ys, ¬ IsFull y) :
    s'.properties = writtenOver s.properties (ys.filter isWrite) := by
  induction ys generalizing s with
  | nil =>
    cases h
    rfl
  | cons y ys ih =>
    obtain ⟨hy, hys⟩ := forall_mem_cons.mp hys
    obtain ⟨t, ht, h⟩ := bind_eq_ok_iff.mp h
    rw [ih h hys, foldRecord_some ht hy, filter_cons]
    cases isWrite y <;> rfl

/-- The last full record starts the state; without one the first record does. -/
structure StartsWith (xs : List CoveObjectRecord) (b : CoveObjectRecord)
    (ys : List CoveObjectRecord) : Prop where
  start : IsFull b ∨ xs = []
  rest : ∀ y ∈ ys, ¬ IsFull y

theorem foldRecords_start (h : foldRecords render none rs = .ok (some s)) :
    ∃ xs b ys, rs = xs ++ b :: ys ∧ StartsWith xs b ys ∧
      s.properties = writtenOver b.properties (ys.filter isWrite) := by
  rcases exists_last IsFull rs with hnone | ⟨xs, f, ys, rfl, hf, hys⟩
  · cases rs with
    | nil => cases h
    | cons b ys =>
      obtain ⟨hb, hys⟩ := forall_mem_cons.mp hnone
      obtain ⟨t, ht, h⟩ := bind_eq_ok_iff.mp h
      refine ⟨[], b, ys, rfl, ⟨.inr rfl, hys⟩, ?_⟩
      rw [foldRecords_some h hys, foldRecord_none ht]
  · refine ⟨xs, f, ys, rfl, ⟨.inl hf, hys⟩, ?_⟩
    rw [foldRecords_some (foldRecords_full hf h) hys]
    rfl

/-- The record that starts the state of its object: the last full one, or the first one. -/
def IsStart (rs : List CoveObjectRecord) (b : CoveObjectRecord) : Prop :=
  b ∈ rs ∧ ((IsFull b ∧ ∀ f ∈ rs, IsFull f → recordSortKey f ≤ recordSortKey b) ∨
    ((∀ f ∈ rs, ¬ IsFull f) ∧ ∀ r ∈ rs, recordSortKey b ≤ recordSortKey r))

/-- The value that a record gives a property of the state that `b` starts. -/
inductive Gives (b : CoveObjectRecord) (id : Nat) :
    CoveObjectRecord → CoveObjectPropertyValue → Prop
  | start {v : CoveObjectPropertyValue} : lookup id b.properties = some v → Gives b id b v
  | write {r : CoveObjectRecord} {v : CoveObjectPropertyValue} :
      recordSortKey b < recordSortKey r → isWrite r = true → written id r = some v → Gives b id r v

def GivesLast (rs : List CoveObjectRecord) (b : CoveObjectRecord) (id : Nat)
    (r : CoveObjectRecord) (v : CoveObjectPropertyValue) : Prop :=
  r ∈ rs ∧ Gives b id r v ∧
    ∀ r' ∈ rs, ∀ v', Gives b id r' v' → recordSortKey r' ≤ recordSortKey r

section

variable (hsorted : (xs ++ b :: ys).Pairwise fun a b => recordSortKey a < recordSortKey b)
include hsorted

theorem mem_rest_iff : r ∈ ys ↔ r ∈ xs ++ b :: ys ∧ recordSortKey b < recordSortKey r := by
  obtain ⟨-, hbys, hcross⟩ := pairwise_append.mp hsorted
  constructor
  · exact fun hr => ⟨by simp [hr], (pairwise_cons.mp hbys).1 r hr⟩
  · rintro ⟨hr, hlt⟩
    rcases mem_append.mp hr with hr | hr
    · exact absurd hlt (hcross r hr b mem_cons_self).asymm
    · rcases mem_cons.mp hr with rfl | hr
      · exact absurd hlt (lt_irrefl _)
      · exact hr

theorem isStart_of_startsWith (h : StartsWith xs b ys) : IsStart (xs ++ b :: ys) b := by
  obtain ⟨-, hbys, hcross⟩ := pairwise_append.mp hsorted
  refine ⟨by simp, ?_⟩
  by_cases hb : IsFull b
  · refine .inl ⟨hb, fun f hf hfull => ?_⟩
    rcases mem_append.mp hf with hf | hf
    · exact (hcross f hf b mem_cons_self).le
    · rcases mem_cons.mp hf with rfl | hf
      · exact le_rfl
      · exact absurd hfull (h.rest f hf)
  · obtain rfl := h.start.resolve_left hb
    refine .inr ⟨forall_mem_cons.mpr ⟨hb, h.rest⟩, forall_mem_cons.mpr ⟨le_rfl, ?_⟩⟩
    exact fun r hr => ((pairwise_cons.mp hbys).1 r hr).le

theorem lookup_iff_givesLast :
    lookup id (writtenOver b.properties (ys.filter isWrite)) = some v ↔
      ∃ r, GivesLast (xs ++ b :: ys) b id r v := by
  have hstrict : (ys.filter isWrite).Pairwise fun a b => recordSortKey a < recordSortKey b :=
    (pairwise_cons.mp (pairwise_append.mp hsorted).2.1).2.filter _
  have hmem : ∀ {r}, r ∈ ys.filter isWrite ↔
      r ∈ xs ++ b :: ys ∧ recordSortKey b < recordSortKey r ∧ isWrite r = true := by
    intro r
    rw [mem_filter, mem_rest_iff hsorted, and_assoc]
  rw [lookup_writtenOver, Option.or_eq_some_iff, latest_eq_some_iff hstrict, latest_eq_none_iff]
  constructor
  · rintro (⟨w, hw, hv, hmax⟩ | ⟨hnone, hv⟩)
    · obtain ⟨hmemw, hlt, hwrite⟩ := hmem.mp hw
      refine ⟨w, hmemw, .write hlt hwrite hv, fun r hr v' hgives => ?_⟩
      cases hgives with
      | start => exact hlt.le
      | write hbr hwr hv' => exact hmax r (hmem.mpr ⟨hr, hbr, hwr⟩) (by rw [hv']; rfl)
    · refine ⟨b, by simp, .start hv, fun r hr v' hgives => ?_⟩
      cases hgives with
      | start => exact le_rfl
      | write hbr hwr hv' =>
        rw [hnone r (hmem.mpr ⟨hr, hbr, hwr⟩)] at hv'
        cases hv'
  · rintro ⟨r, hr, hgives, hmax⟩
    cases hgives with
    | start hv =>
      refine .inr ⟨fun w hw => ?_, hv⟩
      obtain ⟨hmemw, hlt, hwrite⟩ := hmem.mp hw
      cases hwritten : written id w with
      | none => rfl
      | some v' => exact absurd (hmax w hmemw v' (.write hlt hwrite hwritten)) hlt.not_ge
    | write hlt hwrite hv =>
      refine .inl ⟨r, hmem.mpr ⟨hr, hlt, hwrite⟩, hv, fun w hw hsome => ?_⟩
      obtain ⟨hmemw, hbw, hww⟩ := hmem.mp hw
      obtain ⟨v', hv'⟩ := Option.isSome_iff_exists.mp hsome
      exact hmax w hmemw v' (.write hbw hww hv')

end

section

variable {S : List CoveObjectState} {k : Nat ×ₗ Nat ×ₗ Nat}

/-- The state is the last-writer-wins state of the records of its object. -/
structure Describes (rs : List CoveObjectRecord) (s : CoveObjectState) : Prop where
  latest : ∃ r ∈ rs, (∀ x ∈ rs, recordSortKey x ≤ recordSortKey r) ∧ ShowsLatest s r
  values : ∃ b, IsStart rs b ∧
    ∀ id v, lookup id s.properties = some v ↔ ∃ r, GivesLast rs b id r v
  entries : (∀ r ∈ rs, DistinctIds r.properties) →
    ∀ v ∈ s.properties, lookup v.propertyId s.properties = some v

theorem Describes.of_mem_iff (h : Describes rs s) (hmem : ∀ r, r ∈ rs ↔ r ∈ xs) :
    Describes xs s := by
  obtain ⟨hlatest, hvalues, hentries⟩ := h
  simp only [IsStart, GivesLast, hmem] at hlatest hvalues hentries
  exact ⟨hlatest, hvalues, hentries⟩

theorem foldRecords_describes (hsorted : rs.Pairwise fun a b => recordSortKey a < recordSortKey b)
    (h : foldRecords render none rs = .ok (some s)) : Describes rs s := by
  refine ⟨?_, ?_, fun hdistinct v hv => ?_⟩
  · cases rs using List.reverseRecOn with
    | nil => cases h
    | append_singleton rs r =>
      refine ⟨r, by simp, fun x hx => ?_, foldRecords_latestRecord h⟩
      rcases mem_append.mp hx with hx | hx
      · exact ((pairwise_append.mp hsorted).2.2 x hx r (by simp)).le
      · rw [mem_singleton.mp hx]
  · obtain ⟨xs, b, ys, rfl, hstarts, hprops⟩ := foldRecords_start h
    refine ⟨b, isStart_of_startsWith hsorted hstarts, fun id v => ?_⟩
    rw [hprops]
    exact lookup_iff_givesLast hsorted
  · refine lookup_of_mem ?_ hv
    exact foldRecords_properties distinctIds_upsertable h
      (fun _ hnone => absurd hnone (Option.not_mem_none _)) hdistinct s rfl

theorem history_strict (hn : (records.map address).Nodup) :
    (history (objectRecords options records k)).Pairwise
      fun a b => recordSortKey a < recordSortKey b := by
  refine sortByKey_strict (sortKeys_nodup (List.Nodup.sublist ?_ hn))
  exact (filter_sublist.trans filter_sublist).map address

theorem outcome_fold (hshow : options.includeTombstones = true) {c : Option CoveObjectState}
    (h : foldRecords render none (history rs) = .ok c) : outcome render options rs = c := by
  rw [outcome_of_ok h]
  cases c with
  | none => rfl
  | some s => simp [isReported, hshow]

theorem outcome_stateObject (h : outcome render options (objectRecords options records k) = some s) :
    stateObject s = k :=
  outcome_object (fun _ hr => (mem_objectRecords.mp hr).2.2) s h

theorem outcomes_strict : ((objects options records).filterMap fun k =>
    outcome render options (objectRecords options records k)).Pairwise
      fun s s' => stateObject s < stateObject s' := by
  refine pairwise_filterMap.mpr ((keysOf_strict objectKey _).imp ?_)
  intro k k' hlt s hs s' hs'
  rwa [outcome_stateObject hs, outcome_stateObject hs']

theorem foldRecords_isSome (h : foldRecords render none rs = .ok c) (hr : r ∈ rs) :
    ∃ s, c = some s := by
  have hlatest := foldRecords_latest h
  cases c with
  | none =>
    cases hlast : rs.getLast? with
    | none =>
      rw [List.getLast?_eq_none_iff.mp hlast] at hr
      cases hr
    | some x =>
      rw [hlast] at hlatest
      cases hlatest
  | some s => exact ⟨s, rfl⟩

/-- Reconstruction does not depend on the order of the records, and gives one state for each
object with a selected record, the last-writer-wins state of its records. A Tombstone writes no
properties unless it is the first record of an object without a full one. -/
theorem reconstruct_lastWriterWins (hn : (records.map address).Nodup) :
    (∀ other, records.Perm other → reconstructObjectStates render records options =
        reconstructObjectStates render other options) ∧
    ∀ S, options.includeTombstones = true → reconstructObjectStates render records options = .ok S →
        (S.map stateObject).Nodup ∧
        (∀ k, (∃ s ∈ S, stateObject s = k) ↔
          ∃ r ∈ records, isSelected options r = true ∧ objectKey r = k) ∧
        ∀ s ∈ S, Describes (objectRecords options records (stateObject s)) s := by
  refine ⟨fun other hperm => reconstruct_perm hperm hn, fun S hshow h => ?_⟩
  obtain ⟨-, hfolds, rfl⟩ := reconstruct_ok_iff.mp h
  refine ⟨?_, fun k => ?_, fun s hs => ?_⟩
  · exact pairwise_map.mpr (outcomes_strict.imp fun hlt => hlt.ne)
  · constructor
    · rintro ⟨s, hs, rfl⟩
      obtain ⟨k, hk, hout⟩ := mem_filterMap.mp hs
      obtain ⟨r, hr, hkey⟩ := mem_keysOf.mp hk
      obtain ⟨hr, hsel⟩ := mem_filter.mp hr
      exact ⟨r, hr, hsel, hkey.trans (outcome_stateObject hout).symm⟩
    · rintro ⟨r, hr, hsel, rfl⟩
      have hmem : r ∈ objectRecords options records (objectKey r) :=
        mem_objectRecords.mpr ⟨hr, hsel, rfl⟩
      have hkey : objectKey r ∈ objects options records :=
        mem_keysOf.mpr ⟨r, mem_filter.mpr ⟨hr, hsel⟩, rfl⟩
      obtain ⟨c, hc⟩ := hfolds _ hkey
      obtain ⟨s, rfl⟩ := foldRecords_isSome hc (mem_history.mpr hmem)
      exact ⟨s, mem_outcomes.mpr (outcome_fold hshow hc)⟩
  · obtain ⟨k, hk, hout⟩ := mem_filterMap.mp hs
    obtain ⟨c, hc⟩ := hfolds k hk
    rw [outcome_fold hshow hc] at hout
    subst hout
    have hobject := outcome_stateObject (outcome_fold hshow hc)
    rw [hobject]
    exact (foldRecords_describes (history_strict hn) hc).of_mem_iff fun r => mem_history

end

def sampleProperty (p : Nat × Nat) : CoveObjectPropertyValue :=
  ⟨p.1, "", .int64, .numCode, 0, .number (.posInt p.2), false⟩

def sampleRow (kind : RecordKind) (csn : Nat) (values : List (Nat × Nat)) : CoveObjectRecord :=
  ⟨7, "Person", 1, 1, csn, csn, csn, 0, 42, 100 + csn, kind, none, values.map sampleProperty, none⟩

def sampleRows : List CoveObjectRecord :=
  [sampleRow .delta 2 [(1, 11), (3, 30)], sampleRow .tombstone 3 [(2, 99)],
    sampleRow .baseline 1 [(1, 10), (2, 20)]]

/-- The state of the sample rows is that of the Tombstone, with the values written before it. -/
theorem sampleRows_state :
    reconstructObjectStates (fun _ => "") sampleRows ⟨.latestCommitted, none, true⟩ =
      reconstructObjectStates (fun _ => "") sampleRows.reverse ⟨.latestCommitted, none, true⟩ ∧
    ∃ s, reconstructObjectStates (fun _ => "") sampleRows ⟨.latestCommitted, none, true⟩ = .ok [s] ∧
      s.properties = [(1, 11), (2, 20), (3, 30)].map sampleProperty ∧
      Describes (objectRecords ⟨.latestCommitted, none, true⟩ sampleRows (stateObject s)) s := by
  have hn : (sampleRows.map address).Nodup := by decide
  obtain ⟨hperm, hstates⟩ :=
    @reconstruct_lastWriterWins (fun _ => "") ⟨.latestCommitted, none, true⟩ sampleRows hn
  have hstate : ∃ s, reconstructObjectStates (fun _ => "") sampleRows
      ⟨.latestCommitted, none, true⟩ = .ok [s] ∧
      s.properties = [(1, 11), (2, 20), (3, 30)].map sampleProperty := ⟨_, rfl, rfl⟩
  obtain ⟨s, hs, hprops⟩ := hstate
  refine ⟨hperm _ (reverse_perm _).symm, s, hs, hprops, ?_⟩
  exact (hstates _ rfl hs).2.2 s (mem_singleton.mpr rfl)

/-- The value of a Tombstone that is the first record of its object ends up in the state. -/
theorem tombstone_value_kept : ([sampleRow .tombstone 1 [(1, 10)]].map address).Nodup ∧
    ∃ S, reconstructObjectStates (fun _ => "") [sampleRow .tombstone 1 [(1, 10)]]
        ⟨.latestCommitted, none, true⟩ = .ok S ∧
      ∃ s ∈ S, ∃ v ∈ s.properties, ¬ ∃ r ∈ [sampleRow .tombstone 1 [(1, 10)]],
        r.recordKind ≠ .tombstone ∧ v ∈ r.properties := by
  refine ⟨by decide, _, rfl, _, mem_singleton.mpr rfl, sampleProperty (1, 10), ?_, ?_⟩
  · exact mem_singleton.mpr rfl
  · rintro ⟨r, hr, hkind, -⟩
    rw [mem_singleton.mp hr] at hkind
    exact hkind rfl

end CoveFormat.ReconstructedStates
