import CoveFormat.ReconstructionRuns

namespace CoveFormat.KeptRecords

open ExceptRules SortedKeys Grouping JsonValue ObjectSurface Reconstruction ReconstructionRuns List
  Except

variable {render : Value → String} {options : CoveObjectReconstructionOptions}
  {records : List CoveObjectRecord} {S : List CoveObjectState}
  {keep : CoveObjectRecord → Bool}

def history (records : List CoveObjectRecord) : List CoveObjectRecord :=
  sortByKey recordSortKey records

def outcome (render : Value → String) (options : CoveObjectReconstructionOptions)
    (records : List CoveObjectRecord) : Option CoveObjectState :=
  match foldRecords render none (history records) with
  | .ok c => c.filter (isReported options)
  | .error _ => none

variable {c : Option CoveObjectState}

theorem outcome_of_ok (h : foldRecords render none (history records) = .ok c) :
    outcome render options records = c.filter (isReported options) := by
  rw [outcome, h]

theorem outcome_nil : outcome render options [] = none := rfl

variable {k : Nat ×ₗ Nat ×ₗ Nat}

theorem outcome_object (hk : ∀ r ∈ records, objectKey r = k) :
    ∀ s ∈ outcome render options records, stateObject s = k := by
  intro s hs
  rw [outcome] at hs
  split at hs
  · rename_i c hc
    refine foldRecords_object hc ?_ s (Option.mem_filter_iff.mp hs).1
    intro r hr
    exact hk r ((sortByKey_perm _ _).mem_iff.mp hr)
  · cases hs

theorem reconstructGroups_ok_iff {groups : List ((Nat ×ₗ Nat ×ₗ Nat) × List CoveObjectRecord)} :
    reconstructGroups render options groups = .ok S ↔
      (∀ g ∈ groups, ∃ c, foldRecords render none (history g.2) = .ok c) ∧
      S = groups.filterMap fun g => outcome render options g.2 := by
  induction groups generalizing S with
  | nil => simp [reconstructGroups, eq_comm]
  | cons g groups ih =>
    rw [reconstructGroups, andThen_eq_ok_iff, forall_mem_cons]
    constructor
    · rintro ⟨c, hc, h⟩
      obtain ⟨states, hstates, h⟩ := of_andThen h
      obtain ⟨hall, rfl⟩ := ih.mp hstates
      refine ⟨⟨⟨c, hc⟩, hall⟩, ?_⟩
      rw [← ok.inj h, filterMap_cons, outcome_of_ok hc]
      cases c.filter (isReported options) <;> rfl
    · rintro ⟨⟨⟨c, hc⟩, hall⟩, rfl⟩
      refine ⟨c, hc, andThen_ok (ih.mpr ⟨hall, rfl⟩) ?_⟩
      rw [filterMap_cons, outcome_of_ok hc]
      cases c.filter (isReported options) <;> rfl

def objectRecords (options : CoveObjectReconstructionOptions) (records : List CoveObjectRecord)
    (k : Nat ×ₗ Nat ×ₗ Nat) : List CoveObjectRecord :=
  under objectKey k (records.filter (isSelected options))

def objects (options : CoveObjectReconstructionOptions) (records : List CoveObjectRecord) :
    List (Nat ×ₗ Nat ×ₗ Nat) :=
  keysOf objectKey (records.filter (isSelected options))

theorem filterMap_outcome_sorted : ((objects options records).filterMap fun k =>
      outcome render options (objectRecords options records k)).Pairwise
        fun a b => stateSortKey a ≤ stateSortKey b := by
  refine pairwise_filterMap.mpr ((keysOf_strict objectKey _).imp ?_)
  intro k k' hlt s hs s' hs'
  have hobject := outcome_object (fun r hr => (mem_under.mp hr).2) s hs
  have hobject' := outcome_object (fun r hr => (mem_under.mp hr).2) s' hs'
  refine (Prod.Lex.toLex_lt_toLex.mpr (.inl ?_)).le
  rwa [hobject, hobject']

theorem reconstruct_ok_iff : reconstructObjectStates render records options = .ok S ↔
    validatePrevRefs records = .ok () ∧
    (∀ k ∈ objects options records,
      ∃ c, foldRecords render none (history (objectRecords options records k)) = .ok c) ∧
    S = (objects options records).filterMap fun k =>
      outcome render options (objectRecords options records k) := by
  rw [reconstructObjectStates, andThen_eq_ok_iff]
  constructor
  · rintro ⟨⟨⟩, hprev, h⟩
    obtain ⟨states, hstates, h⟩ := of_andThen h
    obtain ⟨hall, rfl⟩ := reconstructGroups_ok_iff.mp hstates
    rw [grouped, filterMap_map] at h
    rw [grouped, forall_mem_map] at hall
    refine ⟨hprev, hall, ?_⟩
    rw [← ok.inj h]
    exact sortByKey_of_sorted filterMap_outcome_sorted
  · rintro ⟨hprev, hall, rfl⟩
    refine ⟨(), hprev, andThen_ok (reconstructGroups_ok_iff.mpr ⟨?_, rfl⟩) ?_⟩
    · rw [grouped, forall_mem_map]
      exact hall
    · rw [grouped, filterMap_map]
      exact congrArg ok (sortByKey_of_sorted filterMap_outcome_sorted)

theorem mem_outcomes {s : CoveObjectState} :
    (s ∈ (objects options records).filterMap (fun k =>
        outcome render options (objectRecords options records k)) ∧ stateObject s = k) ↔
      outcome render options (objectRecords options records k) = some s := by
  rw [mem_filterMap]
  constructor
  · rintro ⟨⟨k', -, hs⟩, hkey⟩
    have hobject := outcome_object (fun r hr => (mem_under.mp hr).2) s (Option.mem_def.mpr hs)
    rwa [← hkey, hobject]
  · intro hs
    have hobject := outcome_object (fun r hr => (mem_under.mp hr).2) s (Option.mem_def.mpr hs)
    refine ⟨⟨k, ?_, hs⟩, hobject⟩
    cases hrecords : objectRecords options records k with
    | nil =>
      rw [hrecords, outcome_nil] at hs
      cases hs
    | cons r rest =>
      have hr : r ∈ objectRecords options records k := by
        rw [hrecords]
        exact mem_cons_self
      exact mem_keysOf.mpr ⟨r, (mem_under.mp hr).1, (mem_under.mp hr).2⟩

/-- No kept record names a dropped one as its previous record. -/
def PrevClosed (keep : CoveObjectRecord → Bool) (records : List CoveObjectRecord) : Prop :=
  ∀ r ∈ records, keep r = true → ∀ ref ∈ r.prevRef, ∀ p ∈ records, address p = target ref →
    keep p = true

theorem byRef_filter {a : Nat × Nat} (h : ∀ p ∈ records, address p = a → keep p = true) :
    byRef (records.filter keep) a = byRef records a := by
  rw [byRef, byRef, filter_filter]
  apply congrArg
  apply filter_congr
  intro p hp
  cases hk : keep p with
  | true => rw [Bool.and_true]
  | false =>
    rw [Bool.and_false]
    refine (decide_eq_false fun ha => ?_).symm
    rw [h p hp ha] at hk
    cases hk

/-- The last record at the referenced address is an earlier one of the same object. -/
def NamesEarlier (records : List CoveObjectRecord) (r : CoveObjectRecord)
    (ref : Temporal.CoveRecordRefV1) : Prop :=
  ∃ p ∈ byRef records (target ref), objectKey p = objectKey r ∧ recordSortKey p < recordSortKey r

theorem validatePrevRef_ok_iff {r : CoveObjectRecord} : validatePrevRef records r = .ok () ↔
    ∀ ref ∈ r.prevRef, ref.targetKind ≤ 1 ∧ NamesEarlier records r ref := by
  cases hr : r.prevRef with
  | none => simp [validatePrevRef, hr]
  | some ref =>
    simp only [validatePrevRef, hr, Option.mem_some_iff, forall_eq']
    refine rejectIf_andThen_iff.trans (and_congr not_lt ?_)
    cases hp : byRef records (target ref) with
    | none => simp [NamesEarlier, hp]
    | some p =>
      simp only [NamesEarlier, hp, Option.mem_some_iff, exists_eq_left', rejectIf_eq_ok_iff,
        objectKey, EmbeddingLike.apply_eq_iff_eq, Prod.mk.injEq, not_or, not_not, not_le, and_assoc]

theorem validatePrevRefs_filter (h : validatePrevRefs records = .ok ())
    (hclosed : PrevClosed keep records) : validatePrevRefs (records.filter keep) = .ok () := by
  refine checkAll_eq_ok_iff.mpr fun r hr => validatePrevRef_ok_iff.mpr fun ref href => ?_
  obtain ⟨hr, hk⟩ := mem_filter.mp hr
  obtain ⟨hkind, hnames⟩ := validatePrevRef_ok_iff.mp (checkAll_eq_ok_iff.mp h r hr) ref href
  refine ⟨hkind, ?_⟩
  rwa [NamesEarlier, byRef_filter (hclosed r hr hk ref href)]

theorem mem_byRef {a : Nat × Nat} {p : CoveObjectRecord} (h : p ∈ byRef records a) :
    p ∈ records ∧ address p = a :=
  (mem_filter.mp (mem_of_getLast? h)).imp_right of_decide_eq_true

theorem byRef_kept {a : Nat × Nat} {p : CoveObjectRecord} (h : p ∈ byRef records a)
    (hkeep : keep p = true) : p ∈ byRef (records.filter keep) a := by
  obtain ⟨ps, hps⟩ := getLast?_eq_some_iff.mp (Option.mem_def.mp h)
  have hlast : (records.filter keep).filter (fun r => address r = a) = ps.filter keep ++ [p] := by
    rw [filter_filter]
    simp only [Bool.and_comm (decide _)]
    rw [← filter_filter, hps, filter_append, filter_cons_of_pos hkeep, filter_nil]
  rw [byRef, hlast]
  exact getLast?_concat

theorem closed_of_validatePrevRefs
    (hunique : ∀ p ∈ records, ∀ q ∈ records, address p = address q → p = q)
    (h : validatePrevRefs (records.filter keep) = .ok ()) : PrevClosed keep records := by
  intro r hr hk ref href p hp ha
  have hvalid := checkAll_eq_ok_iff.mp h r (mem_filter.mpr ⟨hr, hk⟩)
  obtain ⟨-, q, hq, -, -⟩ := validatePrevRef_ok_iff.mp hvalid ref href
  obtain ⟨hq, hqa⟩ := mem_byRef hq
  obtain ⟨hqr, hqk⟩ := mem_filter.mp hq
  rwa [hunique p hp q hqr (ha.trans hqa.symm)]

theorem objectRecords_filter (k : Nat ×ₗ Nat ×ₗ Nat) :
    objectRecords options (records.filter keep) k = (objectRecords options records k).filter keep := by
  rw [objectRecords, objectRecords, ← under_filter, filter_filter, filter_filter]
  apply congrArg
  apply filter_congr
  intro r _
  rw [Bool.and_comm]

theorem history_filter : history (records.filter keep) = (history records).filter keep :=
  sortByKey_filter keep records

variable {r : CoveObjectRecord}

theorem mem_objectRecords :
    r ∈ objectRecords options records k ↔
      r ∈ records ∧ isSelected options r = true ∧ objectKey r = k := by
  rw [objectRecords, mem_under, mem_filter, and_assoc]

theorem mem_history : r ∈ history records ↔ r ∈ records :=
  (sortByKey_perm _ _).mem_iff

theorem filterMap_objects_filter : ((objects options (records.filter keep)).filterMap fun k =>
      outcome render options (objectRecords options (records.filter keep) k)) =
    (objects options records).filterMap fun k =>
      outcome render options ((objectRecords options records k).filter keep) := by
  have hcomm : (records.filter keep).filter (isSelected options) =
      (records.filter (isSelected options)).filter keep := by
    rw [filter_filter, filter_filter]
    apply filter_congr
    intro r _
    rw [Bool.and_comm]
  have hread := filterMap_keysOf_filter objectKey keep (records.filter (isSelected options))
    (f := outcome render options) outcome_nil
  rw [objects, hcomm]
  simp only [objectRecords, hcomm, under_filter] at hread ⊢
  exact hread

theorem fold_exists (h : reconstructObjectStates render records options = .ok S)
    (k : Nat ×ₗ Nat ×ₗ Nat) :
    ∃ c, foldRecords render none (history (objectRecords options records k)) = .ok c := by
  by_cases hk : k ∈ objects options records
  · exact (reconstruct_ok_iff.mp h).2.1 k hk
  · refine ⟨none, ?_⟩
    have hnil : history (objectRecords options records k) = [] := by
      refine eq_nil_iff_forall_not_mem.mpr fun r hr => hk ?_
      obtain ⟨hr, hsel, hrk⟩ := mem_objectRecords.mp (mem_history.mp hr)
      exact mem_keysOf.mpr ⟨r, mem_filter.mpr ⟨hr, hsel⟩, hrk⟩
    rw [hnil]
    rfl

/-- The kept records follow each other without the dropped ones. -/
structure ChainsKept (options : CoveObjectReconstructionOptions)
    (keep : CoveObjectRecord → Bool) (records : List CoveObjectRecord) : Prop where
  named : ∀ r ∈ records.filter keep, ∀ ref ∈ r.prevRef, NamesEarlier (records.filter keep) r ref
  stepped : ∀ k, StepsKept keep (history (objectRecords options records k))

theorem chainsKept_iff (h : reconstructObjectStates render records options = .ok S) :
    ChainsKept options keep records ↔
      ∃ T, reconstructObjectStates render (records.filter keep) options = .ok T := by
  constructor
  · intro hchains
    have hnamed : validatePrevRefs (records.filter keep) = .ok () := by
      refine checkAll_eq_ok_iff.mpr fun r hr => validatePrevRef_ok_iff.mpr fun ref href => ?_
      have hvalid := checkAll_eq_ok_iff.mp (reconstruct_ok_iff.mp h).1 r (mem_of_mem_filter hr)
      exact ⟨(validatePrevRef_ok_iff.mp hvalid ref href).1, hchains.named r hr ref href⟩
    refine ⟨_, reconstruct_ok_iff.mpr ⟨hnamed, fun k _ => ?_, rfl⟩⟩
    obtain ⟨c, hc⟩ := fold_exists h k
    have hkept := (foldRecords_filter_iff hc).mpr (hchains.stepped k)
    rwa [← history_filter, ← objectRecords_filter] at hkept
  · rintro ⟨T, hT⟩
    have hnamed := (reconstruct_ok_iff.mp hT).1
    refine ⟨fun r hr ref href => ?_, fun k => ?_⟩
    · exact (validatePrevRef_ok_iff.mp (checkAll_eq_ok_iff.mp hnamed r hr) ref href).2
    · obtain ⟨c, hc⟩ := fold_exists h k
      refine (foldRecords_filter_iff hc).mp ?_
      rw [← history_filter, ← objectRecords_filter]
      exact fold_exists hT k

theorem fold_kept (hc : foldRecords render none (history (objectRecords options records k)) = .ok c)
    (hclosed : PrevClosed keep records) :
    ∃ c', foldRecords render none (history ((objectRecords options records k).filter keep)) =
      .ok c' := by
  rw [history_filter]
  refine foldRecords_filter hc fun r hr hkr ref href p hp ha => ?_
  exact hclosed r (mem_objectRecords.mp (mem_history.mp hr)).1 hkr ref href p
    (mem_objectRecords.mp (mem_history.mp hp)).1 ha

section

variable (h : reconstructObjectStates render records options = .ok S)
include h

theorem reconstruct_filter (hclosed : PrevClosed keep records) :
    reconstructObjectStates render (records.filter keep) options =
      .ok ((objects options records).filterMap fun k =>
        outcome render options ((objectRecords options records k).filter keep)) := by
  obtain ⟨hprev, hall, -⟩ := reconstruct_ok_iff.mp h
  refine reconstruct_ok_iff.mpr ⟨validatePrevRefs_filter hprev hclosed, ?_,
    filterMap_objects_filter.symm⟩
  intro k hk
  obtain ⟨r, hr, hrk⟩ := mem_keysOf.mp hk
  obtain ⟨hr, hsel⟩ := mem_filter.mp hr
  obtain ⟨c, hc⟩ := hall k (mem_keysOf.mpr
    ⟨r, mem_filter.mpr ⟨mem_of_mem_filter hr, hsel⟩, hrk⟩)
  rw [objectRecords_filter]
  exact fold_kept hc hclosed

end

variable {e : CoveError}

theorem validatePrevRefs_error (h : validatePrevRefs records = .error e) : e = .refInvalid := by
  obtain ⟨r, -, h⟩ := checkAll_eq_error h
  rw [validatePrevRef] at h
  split at h
  · cases h
  · rcases andThen_eq_error h with h | ⟨⟨⟩, -, h⟩
    · exact rejectIf_eq_error h
    · split at h
      · exact (Except.error.inj h).symm
      · exact rejectIf_eq_error h

theorem reconstruct_error (h : reconstructObjectStates render records options = .error e)
    (hkind : ∀ r ∈ records, r.recordKind ≠ .reservedLegacyMaterializedDelta) : e = .refInvalid := by
  rcases andThen_eq_error h with h | ⟨⟨⟩, -, h⟩
  · exact validatePrevRefs_error h
  · rcases andThen_eq_error h with h | ⟨states, -, h⟩
    · have hgroups : ∀ g ∈ grouped objectKey (records.filter (isSelected options)), ∀ r ∈ g.2,
          r.recordKind ≠ .reservedLegacyMaterializedDelta := by
        intro g hg r hr
        obtain ⟨k, -, rfl⟩ := mem_map.mp hg
        exact hkind r (mem_of_mem_filter (mem_under.mp hr).1)
      revert h hgroups
      generalize grouped objectKey (records.filter (isSelected options)) = groups
      intro h hgroups
      induction groups with
      | nil => cases h
      | cons g groups ih =>
        obtain ⟨hg, hgroups⟩ := forall_mem_cons.mp hgroups
        rcases andThen_eq_error h with h | ⟨c, -, h⟩
        · exact foldRecords_error h fun r hr => hg r (mem_history.mp hr)
        · rcases andThen_eq_error h with h | ⟨states, -, h⟩
          · exact ih h hgroups
          · cases h
    · cases h

/-- When addresses are unique, a reconstruction that succeeds has its previous records among
the selected ones. -/
theorem selected_closed (h : reconstructObjectStates render records options = .ok S)
    (hunique : ∀ p ∈ records, ∀ q ∈ records, address p = address q → p = q) :
    PrevClosed (isSelected options) records := by
  intro r hr hsel ref href p hp ha
  obtain ⟨-, hall, -⟩ := reconstruct_ok_iff.mp h
  have hmem : r ∈ objectRecords options records (objectKey r) :=
    mem_objectRecords.mpr ⟨hr, hsel, rfl⟩
  obtain ⟨c, hc⟩ := hall (objectKey r) (mem_keysOf.mpr ⟨r, mem_filter.mpr ⟨hr, hsel⟩, rfl⟩)
  obtain ⟨xs, ys, hsplit⟩ := append_of_mem (mem_history.mpr hmem)
  rw [hsplit] at hc
  obtain ⟨q, hq, hqa⟩ := Option.map_eq_some_iff.mp (foldRecords_previous hc ref href)
  have hqh : q ∈ history (objectRecords options records (objectKey r)) := by
    rw [hsplit]
    exact mem_append_left _ (mem_of_getLast? hq)
  obtain ⟨hqr, hqs, -⟩ := mem_objectRecords.mp (mem_history.mp hqh)
  rwa [hunique p hp q hqr (ha.trans hqa.symm)]

theorem reconstruct_of_selected (hprev : validatePrevRefs records = .ok ())
    (h : reconstructObjectStates render (records.filter (isSelected options)) options = .ok S) :
    reconstructObjectStates render records options = .ok S := by
  have hidem : (records.filter (isSelected options)).filter (isSelected options) =
      records.filter (isSelected options) := by
    rw [filter_filter]
    apply filter_congr
    intro r _
    rw [Bool.and_self]
  obtain ⟨-, hall, hS⟩ := reconstruct_ok_iff.mp h
  simp only [objects, objectRecords, hidem] at hall hS
  exact reconstruct_ok_iff.mpr ⟨hprev, hall, hS⟩

theorem reconstruct_selected (h : reconstructObjectStates render records options = .ok S)
    (hunique : ∀ p ∈ records, ∀ q ∈ records, address p = address q → p = q) :
    reconstructObjectStates render (records.filter (isSelected options)) options = .ok S := by
  rw [reconstruct_filter h (selected_closed h hunique), (reconstruct_ok_iff.mp h).2.2]
  apply congrArg
  apply filterMap_congr
  intro k _
  rw [filter_eq_self.mpr fun r hr => (mem_objectRecords.mp hr).2.1]

theorem kept_outcomes (wanted : Nat ×ₗ Nat ×ₗ Nat → Bool)
    (hrecord : ∀ k, ∀ r ∈ objectRecords options records k, keep r = wanted k) :
    ((objects options records).filterMap fun k =>
        outcome render options ((objectRecords options records k).filter keep)) =
      ((objects options records).filterMap fun k =>
        outcome render options (objectRecords options records k)).filter fun s =>
          wanted (stateObject s) := by
  rw [filter_filterMap]
  apply filterMap_congr
  intro k _
  have hstate : ∀ s ∈ outcome render options (objectRecords options records k), stateObject s = k :=
    outcome_object fun r hr => (mem_objectRecords.mp hr).2.2
  cases hw : wanted k with
  | true =>
    rw [filter_eq_self.mpr fun r hr => (hrecord k r hr).trans hw]
    cases ho : outcome render options (objectRecords options records k) with
    | none => rfl
    | some s =>
      refine (Option.filter_some_pos ?_).symm
      rw [hstate s ho]
      exact hw
  | false =>
    rw [filter_eq_nil_iff.mpr fun r hr hkeep => by
      rw [hrecord k r hr, hw] at hkeep
      cases hkeep]
    symm
    refine Option.filter_eq_none_iff.mpr fun s hs => ?_
    rw [hstate s hs, hw]
    exact Bool.false_ne_true

end CoveFormat.KeptRecords
