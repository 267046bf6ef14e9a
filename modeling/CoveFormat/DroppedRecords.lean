import CoveFormat.ReconstructedStates

namespace CoveFormat.DroppedRecords

open SortedKeys Grouping JsonValue ObjectSurface Reconstruction ReconstructionRuns KeptRecords
  ReconstructedStates List

variable {render : Value → String} {options : CoveObjectReconstructionOptions}
  {records rs xs ys : List CoveObjectRecord} {S : List CoveObjectState}
  {keep : CoveObjectRecord → Bool} {k : Nat ×ₗ Nat ×ₗ Nat} {c c' : Option CoveObjectState}
  {s : CoveObjectState} {b r : CoveObjectRecord}

/-- Every dropped record of the object is followed by a full record. -/
def Superseded (options : CoveObjectReconstructionOptions) (keep : CoveObjectRecord → Bool)
    (records : List CoveObjectRecord) (k : Nat ×ₗ Nat ×ₗ Nat) : Prop :=
  ∀ r ∈ objectRecords options records k, keep r = false →
    ∃ f ∈ objectRecords options records k, IsFull f ∧ recordSortKey r < recordSortKey f

/-- The last record of the object is a kept Tombstone, and Tombstones are not asked for. -/
def Deleted (options : CoveObjectReconstructionOptions) (keep : CoveObjectRecord → Bool)
    (records : List CoveObjectRecord) (k : Nat ×ₗ Nat ×ₗ Nat) : Prop :=
  options.includeTombstones = false ∧
    ∃ r ∈ (history (objectRecords options records k)).getLast?,
      keep r = true ∧ r.recordKind = .tombstone

theorem getLast?_filter (hr : r ∈ rs.getLast?) (hk : keep r = true) :
    r ∈ (rs.filter keep).getLast? := by
  obtain ⟨ps, rfl⟩ := getLast?_eq_some_iff.mp (Option.mem_def.mp hr)
  rw [filter_append, filter_cons_of_pos hk, filter_nil]
  exact getLast?_concat

/-- The state of an object shows its last record. -/
theorem latest_of_fold (h : foldRecords render none rs = .ok (some s)) :
    ∃ r ∈ rs.getLast?, ShowsLatest s r := by
  cases rs using reverseRecOn with
  | nil => cases h
  | append_singleton rs r => exact ⟨r, getLast?_concat, foldRecords_latestRecord h⟩

theorem isReported_iff (h : ShowsLatest s r) : isReported options s = true ↔
    options.includeTombstones = true ∨ r.recordKind ≠ .tombstone := by
  have hlive : s.tombstoneStatus = .live ↔ ¬ s.tombstoneStatus = .tombstoned := by
    cases s.tombstoneStatus <;> simp
  rw [isReported, Bool.or_eq_true, beq_iff_eq, hlive, h.tombstoned]

section

variable (h : reconstructObjectStates render records options = .ok S)
  (hclosed : PrevClosed keep records)
include h hclosed

theorem outcome_superseded (hdrop : Superseded options keep records k) :
    outcome render options ((objectRecords options records k).filter keep) =
      outcome render options (objectRecords options records k) := by
  obtain ⟨c, hc⟩ := fold_exists h k
  obtain ⟨c', hc'⟩ := fold_kept hc hclosed
  have hsame : c' = c := by
    have hc'' := hc'
    rw [history_filter] at hc''
    refine foldRecords_superseded (sortByKey_pairwise _ _) hc hc'' fun r hr hkr => ?_
    obtain ⟨f, hf, hfull, hlt⟩ := hdrop r (mem_history.mp hr) hkr
    exact ⟨f, mem_history.mpr hf, hfull, hlt⟩
  rw [outcome_of_ok hc, outcome_of_ok hc', hsame]

omit h hclosed in
theorem outcome_tombstone (hoff : options.includeTombstones = false)
    (hr : r ∈ (history rs).getLast?) (hkind : r.recordKind = .tombstone) :
    outcome render options rs = none := by
  rw [outcome]
  split
  · rename_i c hc
    refine Option.filter_eq_none_iff.mpr fun s hs hreported => ?_
    obtain rfl := Option.mem_def.mp hs
    obtain ⟨r', hr', hshows⟩ := latest_of_fold hc
    obtain rfl := Option.mem_unique hr hr'
    rw [isReported_iff hshows, hoff] at hreported
    exact hreported.elim Bool.false_ne_true (absurd hkind)
  · rfl

/-- Reconstructing the kept records and then testing the states gives the same states as
testing the states of all records, when for each object the dropped records do not count, or the
object is deleted, or nothing is kept and the state of all its records fails the test. -/
theorem answers_agree {accept : CoveObjectState → Bool}
    (hobject : ∀ k ∈ objects options records, Superseded options keep records k ∨
      Deleted options keep records k ∨ (∀ r ∈ objectRecords options records k, keep r = false) ∧
        ∀ s ∈ outcome render options (objectRecords options records k), accept s = false) :
    ∃ T, reconstructObjectStates render (records.filter keep) options = .ok T ∧
      T.filter accept = S.filter accept := by
  refine ⟨_, reconstruct_filter h hclosed, ?_⟩
  rw [(reconstruct_ok_iff.mp h).2.2, filter_filterMap, filter_filterMap]
  apply filterMap_congr
  intro k hk
  rcases hobject k hk with hsup | ⟨hoff, r, hr, hkr, hkind⟩ | ⟨hnone, hreject⟩
  · rw [outcome_superseded h hclosed hsup]
  · have hr' : r ∈ (history ((objectRecords options records k).filter keep)).getLast? := by
      rw [history_filter]
      exact getLast?_filter hr hkr
    rw [outcome_tombstone hoff hr hkind, outcome_tombstone hoff hr' hkind]
  · rw [filter_eq_nil_iff.mpr fun r hr => by simp [hnone r hr], outcome_nil]
    symm
    refine Option.filter_eq_none_iff.mpr fun s hs => ?_
    simp [hreject s hs]

/-- The answers agree exactly when they do object by object. -/
theorem answers_agree_iff {accept : CoveObjectState → Bool} :
    (∃ T, reconstructObjectStates render (records.filter keep) options = .ok T ∧
      T.filter accept = S.filter accept) ↔
    ∀ k ∈ objects options records,
      (outcome render options ((objectRecords options records k).filter keep)).filter accept =
        (outcome render options (objectRecords options records k)).filter accept := by
  have hkept := reconstruct_filter h hclosed
  have hall : ∀ rs' : Nat ×ₗ Nat ×ₗ Nat → List CoveObjectRecord,
      (∀ k, ∀ r ∈ rs' k, objectKey r = k) → ∀ k,
        ∀ s ∈ (outcome render options (rs' k)).filter accept, stateObject s = k :=
    fun rs' hrs k s hs => outcome_object (hrs k) s (Option.mem_filter_iff.mp hs).1
  have hobject : ∀ k, ∀ r ∈ objectRecords options records k, objectKey r = k :=
    fun k r hr => (mem_objectRecords.mp hr).2.2
  rw [(reconstruct_ok_iff.mp h).2.2,
    ← filterMap_eq_iff (hall _ fun k r hr => hobject k r (mem_of_mem_filter hr)) (hall _ hobject),
    ← filter_filterMap, ← filter_filterMap]
  constructor
  · rintro ⟨T, hT, hsame⟩
    rwa [Except.ok.inj (hkept.symm.trans hT)]
  · exact fun hsame => ⟨_, hkept, hsame⟩

end

/-- The records from the last full one on. -/
def sinceFull : List CoveObjectRecord → List CoveObjectRecord
  | [] => []
  | r :: rs => if rs.any fun f => IsFull f then sinceFull rs else r :: rs

/-- The properties that the records write: those of the record they start from, and over them
those of the later ones that are no Tombstones. -/
def lastWrites (rs : List CoveObjectRecord) : List CoveObjectPropertyValue :=
  match sinceFull rs with
  | [] => []
  | b :: ys => writtenOver b.properties (ys.filter isWrite)

theorem sinceFull_startsWith (h : StartsWith xs b ys) : sinceFull (xs ++ b :: ys) = b :: ys := by
  induction xs with
  | nil =>
    have hnone : ¬ (ys.any fun f => IsFull f) = true := by simpa using h.rest
    rw [nil_append, sinceFull, if_neg hnone]
  | cons x xs ih =>
    have hb : IsFull b := h.start.resolve_right (cons_ne_nil x xs)
    have hany : ((xs ++ b :: ys).any fun f => IsFull f) = true :=
      any_eq_true.mpr ⟨b, by simp, decide_eq_true hb⟩
    rw [cons_append, sinceFull, if_pos hany]
    exact ih ⟨.inl hb, h.rest⟩

theorem properties_eq_lastWrites (h : foldRecords render none rs = .ok (some s)) :
    s.properties = lastWrites rs := by
  obtain ⟨xs, b, ys, rfl, hstarts, hprops⟩ := foldRecords_start h
  rw [lastWrites, sinceFull_startsWith hstarts, hprops]

end CoveFormat.DroppedRecords
