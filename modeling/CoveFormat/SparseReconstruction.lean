import CoveFormat.Grouping
import CoveFormat.SparsePatch

namespace CoveFormat.SparseReconstruction

open SortedKeys ExceptRules LastWriter SparsePatch List Option

def Changes (r : DeltaSparsePatchRecordV1) (id : Nat) : Prop :=
  ∃ p ∈ r.changedProperties, p.propertyId = id

/-- The record changes the property and writes this state. -/
def Writes (r : DeltaSparsePatchRecordV1) (id : Nat) (v : DeltaSparsePatchPropertyStateV1) : Prop :=
  ∃ p ∈ r.changedProperties, p.propertyId = id ∧ p.propertyState = .ok v

/-- Records of different objects, or with different record ids and CSNs. -/
def Distinct (r s : DeltaSparsePatchRecordV1) : Prop :=
  r.objectKey = s.objectKey → r.recordId ≠ s.recordId ∧ r.csn ≠ s.csn

structure Reconstructible (records : List DeltaSparsePatchRecordV1) : Prop where
  valid : ∀ r ∈ records, r.validate = .ok ()
  distinct : records.Pairwise Distinct

/-- The state that the records of an object leave behind, the highest CSN winning. -/
structure IsStateOf (records : List DeltaSparsePatchRecordV1) (key : DeltaSparseObjectKeyV1)
    (state : DeltaSparseObjectStateV1) : Prop where
  key_eq : state.key = key
  latest : ∃ r ∈ records, r.objectKey = key ∧ (∀ s ∈ records, s.objectKey = key → s.csn ≤ r.csn) ∧
    state.latestRecordId = r.recordId ∧ state.latestRecordKind = r.recordKind ∧
    state.latestTimestampUs = r.timestampUs ∧ state.latestCsn = r.csn ∧
    state.tombstoneStatus = sparseRecordTombstoneStatus r
  property : ∀ id v, state.properties.lookup id = some v ↔
    ∃ r ∈ records, r.objectKey = key ∧ Writes r id v ∧
      ∀ s ∈ records, s.objectKey = key → Changes s id → s.csn ≤ r.csn

theorem propertyState_of_valid {p : DeltaSparsePatchPropertyOpV1} (h : p.validate = .ok ()) :
    ∃ v, p.propertyState = .ok v := by
  rw [DeltaSparsePatchPropertyOpV1.propertyState, h, bind_ok]
  rw [DeltaSparsePatchPropertyOpV1.validate] at h
  by_cases hset : p.propertyOp = deltaPropertyOpSetValue
  · exact ⟨_, if_pos hset⟩
  by_cases hnull : p.propertyOp = deltaPropertyOpSetNull
  · exact ⟨_, by rw [if_neg hset, if_pos hnull]⟩
  by_cases hclear : p.propertyOp = deltaPropertyOpClear
  · exact ⟨_, by rw [if_neg hset, if_neg hnull, if_pos hclear]⟩
  by_cases htomb : p.propertyOp = deltaPropertyOpTombstone
  · exact ⟨_, by rw [if_neg hset, if_neg hnull, if_neg hclear, if_pos htomb]⟩
  by_cases hredact : p.propertyOp = deltaPropertyOpRedact
  · exact ⟨_, by rw [if_neg hset, if_neg hnull, if_neg hclear, if_neg htomb, if_pos hredact]⟩
  rw [if_neg hset, if_neg (not_or.mpr ⟨hnull, hclear⟩), if_neg htomb, if_neg hredact] at h
  split at h <;> cases h

variable {ps : List DeltaSparsePatchPropertyOpV1}

theorem validateProperties_ok {previous : Option Nat} (h : validateProperties previous ps = .ok ()) :
    (∀ p ∈ ps, p.validate = .ok ()) ∧ ps.Pairwise (fun p q => p.propertyId < q.propertyId) ∧
      ∀ b ∈ previous, ∀ p ∈ ps, b < p.propertyId := by
  induction ps generalizing previous with
  | nil => simp
  | cons p ps ih =>
    rw [validateProperties] at h
    split at h
    · cases h
    · rename_i hprev
      obtain ⟨⟨⟩, hp, hrest⟩ := bind_eq_ok_iff.mp h
      obtain ⟨hvalid, hpair, hlt⟩ := ih hrest
      have hps : ∀ q ∈ ps, p.propertyId < q.propertyId := hlt p.propertyId rfl
      refine ⟨forall_mem_cons.mpr ⟨hp, hvalid⟩, pairwise_cons.mpr ⟨hps, hpair⟩, ?_⟩
      rintro b hb q hq
      obtain rfl := Option.mem_def.mp hb
      have hbp : b < p.propertyId := by simpa using hprev
      rcases mem_cons.mp hq with rfl | hq
      · exact hbp
      · exact hbp.trans (hps q hq)

def changeIn (ps : List DeltaSparsePatchPropertyOpV1) (id : Nat) :
    Option DeltaSparsePatchPropertyStateV1 :=
  (ps.find? (fun p => p.propertyId = id)).bind fun p => p.propertyState.toOption

def changeOf (id : Nat) (r : DeltaSparsePatchRecordV1) : Option DeltaSparsePatchPropertyStateV1 :=
  changeIn r.changedProperties id

variable {id : Nat}

theorem changeIn_eq_none (h : ∀ p ∈ ps, id < p.propertyId) : changeIn ps id = none := by
  have hfind : ps.find? (fun p => p.propertyId = id) = none :=
    List.find?_eq_none.mpr fun p hp => by simpa using (h p hp).ne'
  rw [changeIn, hfind, bind_none]

theorem applyProperties_ok (hv : ∀ p ∈ ps, p.validate = .ok ())
    (hs : ps.Pairwise (fun p q => p.propertyId < q.propertyId)) (m : PropertyStates) :
    ∃ m', applyProperties ps m = .ok m' ∧
      ∀ id, m'.lookup id = (changeIn ps id).or (m.lookup id) := by
  induction ps generalizing m with
  | nil => exact ⟨m, rfl, fun id => rfl⟩
  | cons p ps ih =>
    obtain ⟨hp, hps⟩ := forall_mem_cons.mp hv
    obtain ⟨hlt, hpair⟩ := pairwise_cons.mp hs
    obtain ⟨v, hstate⟩ := propertyState_of_valid hp
    obtain ⟨m', hm', hlook⟩ := ih hps hpair (m.insert p.propertyId v)
    refine ⟨m', by rw [applyProperties, hstate, bind_ok, hm'], ?_⟩
    intro id
    rw [hlook, changeIn, changeIn, List.find?_cons]
    by_cases hid : p.propertyId = id
    · subst hid
      have hnone := changeIn_eq_none hlt
      rw [changeIn] at hnone
      rw [hnone, Finmap.lookup_insert, decide_eq_true rfl, bind_some, hstate]
      rfl
    · rw [Finmap.lookup_insert_of_ne _ (Ne.symm hid)]
      simp [hid]

variable {r : DeltaSparsePatchRecordV1}

section

variable (h : r.validate = .ok ())
include h

theorem validate_ok :
    (∀ p ∈ r.changedProperties, p.validate = .ok ()) ∧
      r.changedProperties.Pairwise (fun p q => p.propertyId < q.propertyId) := by
  rw [DeltaSparsePatchRecordV1.validate] at h
  split at h
  · cases h
  · split at h
    · cases h
    · split at h
      · cases h
      · obtain ⟨hv, hs, -⟩ := validateProperties_ok h
        exact ⟨hv, hs⟩

theorem applyToPropertyState_ok (m : PropertyStates) :
    ∃ m', r.applyToPropertyState m = .ok m' ∧
      ∀ id, m'.lookup id = (changeOf id r).or (m.lookup id) := by
  obtain ⟨hv, hs⟩ := validate_ok h
  rw [DeltaSparsePatchRecordV1.applyToPropertyState, h, bind_ok]
  exact applyProperties_ok hv hs m

theorem changeOf_eq_some_iff {v : DeltaSparsePatchPropertyStateV1} :
    changeOf id r = some v ↔ Writes r id v := by
  obtain ⟨-, hs⟩ := validate_ok h
  rw [changeOf, changeIn, bind_eq_some_iff]
  constructor
  · rintro ⟨p, hfind, hstate⟩
    refine ⟨p, mem_of_find?_eq_some hfind, by simpa using List.find?_some hfind, ?_⟩
    cases hp : p.propertyState with
    | error e => rw [hp] at hstate; cases hstate
    | ok w => rw [hp] at hstate; exact congrArg Except.ok (some.inj hstate)
  · rintro ⟨p, hp, rfl, hstate⟩
    cases hfind : r.changedProperties.find? (fun q => q.propertyId = p.propertyId) with
    | none => exact absurd (List.find?_eq_none.mp hfind p hp) (by simp)
    | some q =>
      have hid : q.propertyId = p.propertyId := by simpa using List.find?_some hfind
      have hmem := mem_of_find?_eq_some hfind
      obtain rfl : q = p := inj_on_of_nodup_map (nodup_keys_of_strict hs) hmem hp hid
      exact ⟨q, rfl, by rw [hstate]; rfl⟩

theorem changeOf_isSome_iff : (changeOf id r).isSome ↔ Changes r id := by
  rw [isSome_iff_exists]
  constructor
  · rintro ⟨v, hv⟩
    obtain ⟨p, hp, hid, -⟩ := (changeOf_eq_some_iff h).mp hv
    exact ⟨p, hp, hid⟩
  · rintro ⟨p, hp, hid⟩
    obtain ⟨v, hv⟩ := propertyState_of_valid ((validate_ok h).1 p hp)
    exact ⟨v, (changeOf_eq_some_iff h).mpr ⟨p, hp, hid, hv⟩⟩

end

def objectHistory (key : DeltaSparseObjectKeyV1) (records : List DeltaSparsePatchRecordV1) :
    List DeltaSparsePatchRecordV1 :=
  records.filter (fun r => r.objectKey = key)

def overlay (m : PropertyStates) (r : DeltaSparsePatchRecordV1) : PropertyStates :=
  (r.applyToPropertyState m).toOption.getD m

def historyProperties (history : List DeltaSparsePatchRecordV1) : PropertyStates :=
  history.foldl overlay ∅

def historyState (history : List DeltaSparsePatchRecordV1) : Option DeltaSparseObjectStateV1 :=
  history.getLast?.map fun r => writeState r (historyProperties history)

variable {history : List DeltaSparsePatchRecordV1}

theorem lookup_historyProperties (hv : ∀ r ∈ history, r.validate = .ok ()) (id : Nat) :
    (historyProperties history).lookup id = latest (changeOf id) history := by
  induction history using reverseRecOn with
  | nil => rfl
  | append_singleton history r ih =>
    obtain ⟨m, hm, hlook⟩ := applyToPropertyState_ok (hv r (by simp)) (historyProperties history)
    have hsnoc : historyProperties (history ++ [r]) = m := by
      rw [historyProperties, List.foldl_append]
      change overlay (historyProperties history) r = m
      rw [overlay, hm]
      rfl
    rw [hsnoc, hlook, latest_snoc, ih fun s hs => hv s (mem_append_left _ hs)]

/-- What the loop variables hold after the records of `done`. -/
structure Represents (done : List DeltaSparsePatchRecordV1) (s : Reconstruction) : Prop where
  recordIds : ∀ x, x ∈ s.seenRecordIds ↔ ∃ r ∈ done, (r.objectKey, r.recordId) = x
  objectCsns : ∀ x, x ∈ s.seenObjectCsns ↔ ∃ r ∈ done, (r.objectKey, r.csn) = x
  states : ∀ key, s.states.lookup key = historyState (objectHistory key done)

theorem start_represents : Represents [] Reconstruction.start := by
  constructor
  · simp [Reconstruction.start]
  · simp [Reconstruction.start]
  · intro key
    rfl

theorem historyState_snoc (history : List DeltaSparsePatchRecordV1) (r : DeltaSparsePatchRecordV1) :
    historyState (history ++ [r]) =
      some (writeState r (overlay (historyProperties history) r)) := by
  rw [historyState, List.getLast?_append, historyProperties, List.foldl_append]
  rfl

theorem objectHistory_snoc (key : DeltaSparseObjectKeyV1) (done : List DeltaSparsePatchRecordV1)
    (r : DeltaSparsePatchRecordV1) :
    objectHistory key (done ++ [r]) =
      if r.objectKey = key then objectHistory key done ++ [r] else objectHistory key done := by
  by_cases h : r.objectKey = key
  · simp [h, objectHistory]
  · simp [h, objectHistory]

variable {done : List DeltaSparsePatchRecordV1} {s : Reconstruction}

theorem keptProperties_eq (h : Represents done s) (key : DeltaSparseObjectKeyV1) :
    keptProperties s.states key = historyProperties (objectHistory key done) := by
  rw [keptProperties, h.states, historyState]
  cases hlast : (objectHistory key done).getLast? with
  | none => rw [List.getLast?_eq_none_iff.mp hlast]; rfl
  | some r => rfl

def Fresh (done : List DeltaSparsePatchRecordV1) (r : DeltaSparsePatchRecordV1) : Prop :=
  ∀ s ∈ done, Distinct s r

theorem fresh_iff (h : Represents done s) (r : DeltaSparsePatchRecordV1) :
    Fresh done r ↔
      (r.objectKey, r.recordId) ∉ s.seenRecordIds ∧ (r.objectKey, r.csn) ∉ s.seenObjectCsns := by
  rw [h.recordIds, h.objectCsns]
  simp only [Prod.mk.injEq, not_exists, not_and]
  constructor
  · intro hf
    exact ⟨fun t ht hk => (hf t ht hk).1, fun t ht hk => (hf t ht hk).2⟩
  · rintro ⟨hid, hcsn⟩ t ht hk
    exact ⟨hid t ht hk, hcsn t ht hk⟩

theorem step_represents (h : Represents done s) (hv : r.validate = .ok ()) (hf : Fresh done r) :
    ∃ s', s.step r = .ok s' ∧ Represents (done ++ [r]) s' := by
  obtain ⟨hid, hcsn⟩ := (fresh_iff h r).mp hf
  obtain ⟨m, hm, -⟩ := applyToPropertyState_ok hv (keptProperties s.states r.objectKey)
  refine ⟨_, by rw [Reconstruction.step, hv, bind_ok, if_neg hid, if_neg hcsn, hm, map_ok], ?_⟩
  constructor
  · intro x
    simp only [Finset.mem_insert, h.recordIds, mem_append, mem_singleton]
    grind
  · intro x
    simp only [Finset.mem_insert, h.objectCsns, mem_append, mem_singleton]
    grind
  · intro key
    rw [objectHistory_snoc]
    by_cases hk : r.objectKey = key
    · subst hk
      rw [if_pos rfl, historyState_snoc, Finmap.lookup_insert, ← keptProperties_eq h, overlay, hm]
      rfl
    · rw [if_neg hk, Finmap.lookup_insert_of_ne _ (Ne.symm hk), h.states]

variable {s' : Reconstruction}

theorem step_ok (h : Represents done s) (hs : s.step r = .ok s') :
    r.validate = .ok () ∧ Fresh done r ∧ Represents (done ++ [r]) s' := by
  obtain ⟨⟨⟩, hv, hrest⟩ := bind_eq_ok_iff.mp hs
  split at hrest
  · cases hrest
  · rename_i hid
    split at hrest
    · cases hrest
    · rename_i hcsn
      have hf := (fresh_iff h r).mpr ⟨hid, hcsn⟩
      obtain ⟨s'', hs'', hr⟩ := step_represents h hv hf
      rw [hs, Except.ok.injEq] at hs''
      exact ⟨hv, hf, hs'' ▸ hr⟩

variable {rs : List DeltaSparsePatchRecordV1}

theorem run_ok (h : Represents done s) (hs : s.run rs = .ok s') :
    (∀ r ∈ rs, r.validate = .ok ()) ∧ rs.Pairwise Distinct ∧ (∀ r ∈ rs, Fresh done r) ∧
      Represents (done ++ rs) s' := by
  induction rs generalizing done s with
  | nil =>
    cases hs
    exact ⟨by simp, .nil, by simp, by rwa [append_nil]⟩
  | cons r rs ih =>
    obtain ⟨t, ht, hrun⟩ := bind_eq_ok_iff.mp hs
    obtain ⟨hv, hf, hr⟩ := step_ok h ht
    obtain ⟨hvs, hpair, hfs, hrep⟩ := ih hr hrun
    refine ⟨forall_mem_cons.mpr ⟨hv, hvs⟩, pairwise_cons.mpr ⟨?_, hpair⟩,
      forall_mem_cons.mpr ⟨hf, ?_⟩, by rwa [append_assoc] at hrep⟩
    · intro q hq
      exact hfs q hq r (by simp)
    · intro q hq p hp
      exact hfs q hq p (mem_append_left _ hp)

theorem run_total (h : Represents done s) (hv : ∀ r ∈ rs, r.validate = .ok ())
    (hp : rs.Pairwise Distinct) (hf : ∀ r ∈ rs, Fresh done r) : ∃ s', s.run rs = .ok s' := by
  induction rs generalizing done s with
  | nil => exact ⟨s, rfl⟩
  | cons r rs ih =>
    obtain ⟨hr, hrs⟩ := forall_mem_cons.mp hv
    obtain ⟨hdr, hprs⟩ := pairwise_cons.mp hp
    obtain ⟨hfr, hfrs⟩ := forall_mem_cons.mp hf
    obtain ⟨t, ht, hrep⟩ := step_represents h hr hfr
    obtain ⟨s', hs'⟩ := ih hrep hrs hprs fun q hq p hp => by
      rcases mem_append.mp hp with hp | hp
      · exact hfrs q hq p hp
      · rw [mem_singleton.mp hp]
        exact hdr q hq
    exact ⟨s', by rw [Reconstruction.run, ht, bind_ok, hs']⟩

theorem Distinct.symm {s : DeltaSparsePatchRecordV1} (h : Distinct r s) : Distinct s r := by
  intro hk
  exact (h hk.symm).imp Ne.symm Ne.symm

variable {records permuted : List DeltaSparsePatchRecordV1}

theorem Reconstructible.perm (h : Reconstructible records) (hp : records.Perm permuted) :
    Reconstructible permuted :=
  ⟨fun r hr => h.valid r (hp.mem_iff.mpr hr), hp.pairwise h.distinct Distinct.symm⟩

theorem objectHistory_strict (h : records.Pairwise Distinct) (key : DeltaSparseObjectKeyV1) :
    (objectHistory key (sortByKey recordOrder records)).Pairwise (fun r s => r.csn < s.csn) := by
  have hdistinct : (sortByKey recordOrder records).Pairwise Distinct :=
    (sortByKey_perm recordOrder records).symm.pairwise h Distinct.symm
  have hboth := ((sortByKey_pairwise recordOrder records).and hdistinct).filter
    (fun r => decide (r.objectKey = key))
  refine hboth.imp_of_mem ?_
  intro r s hr hs hrs
  have hkr : r.objectKey = key := by simpa using (mem_filter.mp hr).2
  have hks : s.objectKey = key := by simpa using (mem_filter.mp hs).2
  have hne := (hrs.2 (hkr.trans hks.symm)).2
  have hle : r.csn ≤ s.csn := by
    rcases Prod.Lex.le_iff.mp hrs.1 with hlt | ⟨heq, -⟩
    · exact le_of_lt hlt
    · exact le_of_eq heq
  omega

theorem objectHistory_perm (h : records.Pairwise Distinct) (hp : records.Perm permuted)
    (key : DeltaSparseObjectKeyV1) :
    objectHistory key (sortByKey recordOrder records) =
      objectHistory key (sortByKey recordOrder permuted) := by
  have hperm := (sortByKey_perm recordOrder records).trans
    (hp.trans (sortByKey_perm recordOrder permuted).symm)
  exact eq_of_perm_of_strict (hperm.filter _) (objectHistory_strict h key)
    (objectHistory_strict (hp.pairwise h Distinct.symm) key)

variable {key : DeltaSparseObjectKeyV1}

theorem mem_objectHistory :
    r ∈ objectHistory key (sortByKey recordOrder records) ↔ r ∈ records ∧ r.objectKey = key := by
  rw [objectHistory, mem_filter, (sortByKey_perm recordOrder records).mem_iff,
    decide_eq_true_iff]

theorem run_sorted_total (h : Reconstructible records) :
    ∃ s, Reconstruction.start.run (sortByKey recordOrder records) = .ok s := by
  have hsorted := h.perm (sortByKey_perm recordOrder records).symm
  exact run_total start_represents hsorted.valid hsorted.distinct fun _ _ _ hq => by cases hq

variable {t : StateTable}

theorem reconstruct_ok_iff :
    reconstructSparsePatchStateTable records = .ok t ↔ Reconstructible records ∧
      ∀ key, t.lookup key = historyState (objectHistory key (sortByKey recordOrder records)) := by
  have hp := sortByKey_perm recordOrder records
  constructor
  · intro h
    obtain ⟨s, hs, rfl⟩ := map_eq_ok_iff.mp h
    obtain ⟨hv, hd, -, hrep⟩ := run_ok start_represents hs
    exact ⟨Reconstructible.perm ⟨hv, hd⟩ hp, hrep.states⟩
  · rintro ⟨hr, ht⟩
    obtain ⟨s, hs⟩ := run_sorted_total hr
    obtain ⟨-, -, -, hrep⟩ := run_ok start_represents hs
    have hst : s.states = t := Finmap.ext_lookup fun key => by rw [hrep.states, ht, nil_append]
    exact map_eq_ok_iff.mpr ⟨s, hs, hst⟩

theorem getLast?_eq_latest (history : List DeltaSparsePatchRecordV1) :
    history.getLast? = latest some history := by
  induction history using reverseRecOn with
  | nil => rfl
  | append_singleton history r ih => rw [List.getLast?_append, latest_snoc]; rfl

variable {state : DeltaSparseObjectStateV1}

theorem isStateOf_of_history (h : Reconstructible records)
    (hs : historyState (objectHistory key (sortByKey recordOrder records)) = some state) :
    IsStateOf records key state := by
  have hstrict := objectHistory_strict h.distinct key
  have hvalid : ∀ r ∈ objectHistory key (sortByKey recordOrder records), r.validate = .ok () :=
    fun r hr => h.valid r (mem_objectHistory.mp hr).1
  obtain ⟨r, hlast, rfl⟩ := map_eq_some_iff.mp hs
  rw [getLast?_eq_latest, latest_eq_some_iff hstrict] at hlast
  obtain ⟨r', hr, hrr, hmax⟩ := hlast
  obtain rfl := some.inj hrr
  obtain ⟨hmem, hkey⟩ := mem_objectHistory.mp hr
  refine ⟨hkey, ⟨r', hmem, hkey, ?_, rfl, rfl, rfl, rfl, rfl⟩, ?_⟩
  · intro s hs hks
    exact hmax s (mem_objectHistory.mpr ⟨hs, hks⟩) rfl
  · intro id v
    change (historyProperties _).lookup id = some v ↔ _
    rw [lookup_historyProperties hvalid, latest_eq_some_iff hstrict]
    constructor
    · rintro ⟨w, hw, hwv, hwmax⟩
      obtain ⟨hwm, hwk⟩ := mem_objectHistory.mp hw
      refine ⟨w, hwm, hwk, (changeOf_eq_some_iff (h.valid w hwm)).mp hwv, ?_⟩
      intro s hs hks hc
      exact hwmax s (mem_objectHistory.mpr ⟨hs, hks⟩) ((changeOf_isSome_iff (h.valid s hs)).mpr hc)
    · rintro ⟨w, hwm, hwk, hwv, hwmax⟩
      refine ⟨w, mem_objectHistory.mpr ⟨hwm, hwk⟩,
        (changeOf_eq_some_iff (h.valid w hwm)).mpr hwv, ?_⟩
      intro s hs hc
      obtain ⟨hsm, hsk⟩ := mem_objectHistory.mp hs
      exact hwmax s hsm hsk ((changeOf_isSome_iff (h.valid s hsm)).mp hc)

theorem historyState_eq_none_iff : historyState history = none ↔ history = [] := by
  rw [historyState, map_eq_none_iff, List.getLast?_eq_none_iff]

theorem reconstruct_total (h : Reconstructible records) :
    ∃ t, reconstructSparsePatchStateTable records = .ok t := by
  obtain ⟨s, hs⟩ := run_sorted_total h
  exact ⟨s.states, map_eq_ok_iff.mpr ⟨s, hs, rfl⟩⟩

section

variable (h : reconstructSparsePatchStateTable records = .ok t)
include h

theorem mem_table : key ∈ t ↔ ∃ r ∈ records, r.objectKey = key := by
  rw [← not_iff_not, ← Finmap.lookup_eq_none, (reconstruct_ok_iff.mp h).2,
    historyState_eq_none_iff, eq_nil_iff_forall_not_mem]
  simp only [mem_objectHistory, not_and, not_exists]

theorem isStateOf_of_table (hs : t.lookup key = some state) : IsStateOf records key state := by
  obtain ⟨hr, hlook⟩ := reconstruct_ok_iff.mp h
  rw [hlook] at hs
  exact isStateOf_of_history hr hs

end

/-- Reconstruction does not depend on the order of the records, and the highest
CSN wins. -/
theorem reconstruct_order_independent {records permuted : List DeltaSparsePatchRecordV1}
    (hp : records.Perm permuted) :
    ((∃ t, reconstructSparsePatchStateTable records = .ok t) ↔ Reconstructible records) ∧
    (∀ t, reconstructSparsePatchStateTable records = .ok t ↔
      reconstructSparsePatchStateTable permuted = .ok t) ∧
    ∀ t, reconstructSparsePatchStateTable records = .ok t →
      (∀ key, key ∈ t ↔ ∃ r ∈ records, r.objectKey = key) ∧
      ∀ key state, t.lookup key = some state → IsStateOf records key state := by
  refine ⟨⟨?_, reconstruct_total⟩, ?_, ?_⟩
  · rintro ⟨t, ht⟩
    exact (reconstruct_ok_iff.mp ht).1
  · intro t
    rw [reconstruct_ok_iff, reconstruct_ok_iff]
    constructor
    · rintro ⟨hr, ht⟩
      exact ⟨hr.perm hp, fun key => by rw [ht, objectHistory_perm hr.distinct hp]⟩
    · rintro ⟨hr, ht⟩
      exact ⟨hr.perm hp.symm, fun key => by rw [ht, objectHistory_perm hr.distinct hp.symm]⟩
  · intro t ht
    exact ⟨fun key => mem_table ht, fun key state hs => isStateOf_of_table ht hs⟩

def nameWrite : DeltaSparsePatchRecordV1 :=
  ⟨0, 1, 0, 7, 42, 100, 5, 10, .delta, 0,
    [⟨1, deltaPropertyOpSetValue, deltaTombstoneKindNone, 9, deltaRefNone, 0⟩]⟩

def nameClear : DeltaSparsePatchRecordV1 :=
  ⟨0, 1, 0, 7, 42, 101, 3, 20, .delta, 0,
    [⟨1, deltaPropertyOpClear, deltaTombstoneKindNone, deltaRefNone, deltaRefNone, 0⟩]⟩

theorem reconstruct_order_independent_swap :
    ∃ t, reconstructSparsePatchStateTable [nameWrite, nameClear] = .ok t ∧
      reconstructSparsePatchStateTable [nameClear, nameWrite] = .ok t := by
  have hspec := reconstruct_order_independent (List.Perm.swap nameClear nameWrite [])
  have hvalid : Reconstructible [nameWrite, nameClear] :=
    ⟨by simp only [forall_mem_cons]; exact ⟨rfl, rfl, by simp⟩,
      by simp [Distinct, nameWrite, nameClear]⟩
  obtain ⟨t, ht⟩ := hspec.1.mpr hvalid
  exact ⟨t, ht, (hspec.2.1 t).mp ht⟩

end CoveFormat.SparseReconstruction
