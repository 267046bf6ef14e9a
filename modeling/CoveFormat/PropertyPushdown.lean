import CoveFormat.DroppedRecords

namespace CoveFormat.PropertyPushdown

open SortedKeys JsonValue Temporal ObjectSurface Reconstruction ReconstructionRuns KeptRecords
  DroppedRecords List

variable {k : Nat ×ₗ Nat ×ₗ Nat} {render : Value → String} {options : CoveObjectReconstructionOptions}
  {pushdown : CoveObjectReadPushdownOptions} {records : List CoveObjectRecord}
  {S : List CoveObjectState} {candidate : CoveObjectPropertyPredicateCandidate}

def rowMatches (pushdown : CoveObjectReadPushdownOptions) (r : CoveObjectRecord) : Bool :=
  propertyCandidatesMatch r.objectTypeId r.properties pushdown

def stateMatches (pushdown : CoveObjectReadPushdownOptions) (s : CoveObjectState) : Bool :=
  propertyCandidatesMatch s.objectTypeId s.properties pushdown

def propertyPushdown (candidates : List CoveObjectPropertyPredicateCandidate) :
    CoveObjectReadPushdownOptions :=
  { enabled := true, propertyCandidates := candidates }

/-- The candidate fails on every value that the properties carry for it, or on null when they
carry none. -/
def Rejects (c : CoveObjectPropertyPredicateCandidate) (properties : List CoveObjectPropertyValue) :
    Prop :=
  (∀ v ∈ properties, v.propertyId = c.propertyId → propertyCandidateValueMatches v.value c = false) ∧
    ((∀ v ∈ properties, v.propertyId ≠ c.propertyId) →
      propertyCandidateValueMatches .null c = false)

/-- No row of the object is kept, and one proven candidate of its type fails on all of its rows
that no later full row supersedes. -/
def Rejected (options : CoveObjectReconstructionOptions) (pushdown : CoveObjectReadPushdownOptions)
    (records : List CoveObjectRecord) (k : Nat ×ₗ Nat ×ₗ Nat) : Prop :=
  (∀ r ∈ objectRecords options records k, rowMatches pushdown r = false) ∧
    ∃ c ∈ pushdown.propertyCandidates, c.proofState = "proven_exact" ∧
      (ofLex k).1 = c.objectTypeId ∧
      ∀ r ∈ objectRecords options records k, Unsuperseded (objectRecords options records k) r →
        Rejects c r.properties

variable {properties : List CoveObjectPropertyValue}

theorem propertyValue_rejected (h : Rejects candidate properties) :
    propertyCandidateValueMatches (propertyValue properties candidate.propertyId) candidate =
      false := by
  rw [propertyValue]
  cases hf : properties.find? (·.propertyId == candidate.propertyId) with
  | none =>
    refine h.2 fun v hv => ?_
    have hn := List.find?_eq_none.mp hf v hv
    simpa using hn
  | some v =>
    have hid := List.find?_some hf
    exact h.1 v (mem_of_find?_eq_some hf) (eq_of_beq hid)

theorem not_matches_of_rejects {t : Nat} (hc : candidate ∈ pushdown.propertyCandidates)
    (hproven : candidate.proofState = "proven_exact") (htype : t = candidate.objectTypeId)
    (h : Rejects candidate properties) : propertyCandidatesMatch t properties pushdown = false := by
  refine all_eq_false.mpr ⟨candidate, mem_filter.mpr ⟨hc, ?_⟩, ?_⟩
  · rw [htype]
    exact beq_self_eq_true _
  · simp [hproven, propertyValue_rejected h]

theorem rejects_upsertProperties {ps qs : List CoveObjectPropertyValue}
    (h : Rejects candidate ps) (hq : Rejects candidate qs) :
    Rejects candidate (upsertProperties ps qs) := by
  have hvalues := hq.1
  clear hq
  induction qs generalizing ps with
  | nil => exact h
  | cons q qs ih =>
    obtain ⟨hq, hqs⟩ := forall_mem_cons.mp hvalues
    refine ih ⟨fun v hv hid => ?_, fun hn => ?_⟩ hqs
    · rcases mem_upsertProperty hv with rfl | hv
      · exact hq hid
      · exact h.1 v hv hid
    · refine h.2 fun v hv hid => ?_
      obtain ⟨w, hw, hwid⟩ := upsertProperty_ids (p := q) hv
      exact hn w hw (hwid.trans hid)

theorem outcome_rejected (h : Rejected options pushdown records k) :
    ∀ s ∈ outcome render options (objectRecords options records k),
      stateMatches pushdown s = false := by
  obtain ⟨-, c, hc, hproven, htype, hrows⟩ := h
  intro s hs
  have hobject := outcome_object (fun r hr => (mem_objectRecords.mp hr).2.2) s hs
  refine not_matches_of_rejects hc hproven ?_ ?_
  · rw [← htype, ← hobject]
    rfl
  · rw [outcome] at hs
    split at hs
    · rename_i c' hc'
      have hupsert : Upsertable (Rejects c) := fun _ _ => rejects_upsertProperties
      refine history_properties hupsert (sortByKey_pairwise _ _) hc' (fun r hr hlate => ?_) s
        (Option.mem_filter_iff.mp hs).1
      exact hrows r (mem_history.mp hr) fun f hf => hlate f (mem_history.mpr hf)
    · cases hs

/-- Reconstructing the rows that match and testing the states again gives the answers of all
rows. -/
def PushdownExact (render : Value → String) (options : CoveObjectReconstructionOptions)
    (pushdown : CoveObjectReadPushdownOptions) (records : List CoveObjectRecord) : Prop :=
  ∀ S, reconstructObjectStates render records options = .ok S →
    ∃ T, reconstructObjectStates render (records.filter (rowMatches pushdown)) options = .ok T ∧
      T.filter (stateMatches pushdown) = S.filter (stateMatches pushdown)

/-- Dropping rows by properties is exact as long as no dropped row counts. -/
theorem pushdown_exact (hclosed : PrevClosed (rowMatches pushdown) records)
    (hobject : ∀ k ∈ objects options records,
      Superseded options (rowMatches pushdown) records k ∨
        Deleted options (rowMatches pushdown) records k ∨ Rejected options pushdown records k) :
    PushdownExact render options pushdown records := by
  intro S hS
  refine answers_agree hS hclosed fun k hk =>
    (hobject k hk).imp_right (Or.imp_right fun hrej => ?_)
  exact ⟨hrej.1, outcome_rejected hrej⟩

def statusRow (kind : RecordKind) (csn status : Nat) : CoveObjectRecord :=
  ⟨7, "Person", 1, 1, csn, csn, csn, 0, 42, 100 + csn, kind, none,
    [⟨1, "status", .int64, .numCode, 0, .number (.posInt status), false⟩], none⟩

def statusIsOne : CoveObjectReadPushdownOptions :=
  propertyPushdown [⟨7, 1, .eq, some (.i64 1), "proven_exact"⟩]

def statusState (kind : RecordKind) (csn status : Nat) : CoveObjectState :=
  ⟨7, "Person", 1, 0, 42, 100 + csn, 1, csn, csn, csn, kind, .live,
    [⟨1, "status", .int64, .numCode, 0, .number (.posInt status), false⟩], none⟩

/-- The Delta row that ends status 1 is dropped, and the Baseline row answers alone. -/
theorem overwritten_status_resurrected :
    ¬ ∀ (render : Value → String) (options : CoveObjectReconstructionOptions)
      (candidates : List CoveObjectPropertyPredicateCandidate) (records : List CoveObjectRecord),
      (∀ c ∈ candidates, c.proofState = "proven_exact") →
        PushdownExact render options (propertyPushdown candidates) records := by
  intro h
  have hproven : ∀ c ∈ statusIsOne.propertyCandidates, c.proofState = "proven_exact" := by
    intro c hc
    rw [mem_singleton.mp hc]
  have hfull : reconstructObjectStates (fun _ => "") [statusRow .baseline 1 1, statusRow .delta 2 2] {} =
      .ok [statusState .delta 2 2] := rfl
  have hkept : reconstructObjectStates (fun _ => "") ([statusRow .baseline 1 1, statusRow .delta 2 2].filter
      (rowMatches statusIsOne)) {} = .ok [statusState .baseline 1 1] := rfl
  obtain ⟨T, hT, hfilter⟩ := h _ _ _ _ hproven _ hfull
  obtain rfl := Except.ok.inj (hkept.symm.trans hT)
  exact absurd (congrArg List.length hfilter) (by decide)

theorem pushdown_exact_snapshots : PushdownExact (fun _ => "") {} statusIsOne
    [statusRow .baseline 1 2, statusRow .snapshot 2 1] := by
  refine pushdown_exact (fun r hr _ ref href => ?_) fun k hk => .inl fun r hr hdrop => ?_
  · simp only [mem_cons, not_mem_nil, or_false] at hr
    obtain rfl | rfl := hr <;> cases href
  · obtain ⟨hr, -, hrk⟩ := mem_objectRecords.mp hr
    simp only [mem_cons, not_mem_nil, or_false] at hr
    obtain rfl | rfl := hr
    · refine ⟨statusRow .snapshot 2 1, mem_objectRecords.mpr ⟨by simp, rfl, hrk⟩, .inr rfl, ?_⟩
      decide
    · cases hdrop

end CoveFormat.PropertyPushdown
