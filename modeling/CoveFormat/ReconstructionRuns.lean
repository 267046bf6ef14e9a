import CoveFormat.Reconstruction

namespace CoveFormat.ReconstructionRuns

open ExceptRules JsonValue ObjectSurface Reconstruction List Option Except

variable {render : Value → String} {c c' : Option CoveObjectState} {s : CoveObjectState}
  {r f : CoveObjectRecord} {rs xs ys : List CoveObjectRecord} {keep : CoveObjectRecord → Bool}

/-- A Baseline or Snapshot row replaces the whole state. -/
def IsFull (r : CoveObjectRecord) : Prop := r.recordKind = .baseline ∨ r.recordKind = .snapshot

instance (r : CoveObjectRecord) : Decidable (IsFull r) := inferInstanceAs (Decidable (_ ∨ _))

def latestAddress (s : CoveObjectState) : Nat × Nat := (s.latestSegmentId, s.latestRowIndex)

/-- What one record does to the state of its object. -/
structure Folded (c : Option CoveObjectState) (r : CoveObjectRecord) (s : CoveObjectState) :
    Prop where
  previous : ∀ ref ∈ r.prevRef, c.map latestAddress = some (target ref)
  latest : latestAddress s = address r
  full : IsFull r → s = stateFromFullRecord r
  object : (∀ s' ∈ c, stateObject s' = objectKey r) → stateObject s = objectKey r

theorem chainStep_ok_iff : validateRecordChainStep r c = .ok () ↔
    ∀ ref ∈ r.prevRef, c.map latestAddress = some (target ref) := by
  cases hr : r.prevRef with
  | none => simp [validateRecordChainStep, hr]
  | some ref =>
    cases c with
    | none => simp [validateRecordChainStep, hr]
    | some s =>
      simp only [validateRecordChainStep, hr, rejectIf_eq_ok_iff, mem_some,
        forall_eq', map_some, some.injEq, latestAddress, target, Prod.mk.injEq]
      tauto

theorem foldRecord_ok (h : foldRecord render c r = .ok s) : Folded c r s := by
  obtain ⟨hstep, h⟩ := of_check h
  have hprev := chainStep_ok_iff.mp hstep
  cases hk : r.recordKind with
  | baseline | snapshot =>
    rw [hk] at h
    cases h
    exact ⟨hprev, rfl, fun _ => rfl, fun _ => rfl⟩
  | delta | tombstone =>
    have hfull : ¬ IsFull r := by simp [IsFull, hk]
    rw [hk] at h
    cases c with
    | none =>
      cases h
      exact ⟨hprev, rfl, fun hf => absurd hf hfull, fun _ => rfl⟩
    | some s' =>
      cases h
      exact ⟨hprev, rfl, fun hf => absurd hf hfull, fun hs => hs s' rfl⟩
  | reservedLegacyMaterializedDelta =>
    rw [hk] at h
    cases h

theorem foldRecord_of_step (hr : r.recordKind ≠ .reservedLegacyMaterializedDelta)
    (hstep : validateRecordChainStep r c = .ok ()) : ∃ s, foldRecord render c r = .ok s := by
  cases hk : r.recordKind with
  | baseline | snapshot => exact ⟨_, andThen_ok hstep (by rw [hk])⟩
  | delta | tombstone =>
    cases c with
    | none | some s => exact ⟨_, andThen_ok hstep (by rw [hk])⟩
  | reservedLegacyMaterializedDelta => exact absurd hk hr

theorem foldRecord_exists (h : foldRecord render c r = .ok s)
    (hstep : validateRecordChainStep r c' = .ok ()) : ∃ s', foldRecord render c' r = .ok s' := by
  refine foldRecord_of_step (fun hk => ?_) hstep
  replace h := rest_ok h
  rw [hk] at h
  cases h

theorem foldRecords_append : foldRecords render c (xs ++ ys) =
    (foldRecords render c xs).bind fun c' => foldRecords render c' ys := by
  induction xs generalizing c with
  | nil => rfl
  | cons r xs ih =>
    rw [cons_append, foldRecords, foldRecords]
    cases foldRecord render c r with
    | error e => rfl
    | ok s => exact ih

theorem foldRecords_snoc_ok : foldRecords render c (xs ++ [r]) = .ok c' ↔
    ∃ b s, foldRecords render c xs = .ok b ∧ foldRecord render b r = .ok s ∧ c' = some s := by
  rw [foldRecords_append, bind_eq_ok_iff]
  constructor
  · rintro ⟨b, hb, h⟩
    obtain ⟨s, hs, h⟩ := bind_eq_ok_iff.mp h
    exact ⟨b, s, hb, hs, (ok.inj h).symm⟩
  · rintro ⟨b, s, hb, hs, rfl⟩
    exact ⟨b, hb, bind_eq_ok_iff.mpr ⟨s, hs, rfl⟩⟩

section

variable (h : foldRecords render none rs = .ok c)
include h

theorem foldRecords_latest : c.map latestAddress = rs.getLast?.map address := by
  cases rs using reverseRecOn with
  | nil => rw [← ok.inj h]; rfl
  | append_singleton rs r =>
    obtain ⟨b, s, -, hs, rfl⟩ := foldRecords_snoc_ok.mp h
    rw [List.getLast?_concat]
    exact congrArg some (foldRecord_ok hs).latest

theorem foldRecords_object {k : Nat ×ₗ Nat ×ₗ Nat} (hk : ∀ r ∈ rs, objectKey r = k) :
    ∀ s ∈ c, stateObject s = k := by
  induction rs using reverseRecOn generalizing c with
  | nil =>
    rw [← ok.inj h]
    intro s hs
    cases hs
  | append_singleton rs r ih =>
    obtain ⟨b, s, hb, hs, rfl⟩ := foldRecords_snoc_ok.mp h
    intro s' hs'
    obtain rfl := some.inj hs'
    have hr := hk r (by simp)
    rw [← hr]
    refine (foldRecord_ok hs).object fun s' hs' => ?_
    rw [hr]
    exact ih hb (fun x hx => hk x (mem_append_left _ hx)) s' hs'

end

theorem foldRecords_previous (h : foldRecords render none (xs ++ r :: ys) = .ok c) :
    ∀ ref ∈ r.prevRef, xs.getLast?.map address = some (target ref) := by
  intro ref hr
  rw [foldRecords_append] at h
  obtain ⟨b, hb, h⟩ := bind_eq_ok_iff.mp h
  obtain ⟨s, hs, -⟩ := bind_eq_ok_iff.mp h
  rw [← foldRecords_latest hb]
  exact (foldRecord_ok hs).previous ref hr

/-- Every kept record has its previous record last among the kept ones before it. -/
def StepsKept (keep : CoveObjectRecord → Bool) (rs : List CoveObjectRecord) : Prop :=
  ∀ xs r ys, rs = xs ++ r :: ys → keep r = true → ∀ ref ∈ r.prevRef,
    (xs.filter keep).getLast?.map address = some (target ref)

theorem foldRecords_filter_iff (h : foldRecords render none rs = .ok c) :
    (∃ c', foldRecords render none (rs.filter keep) = .ok c') ↔ StepsKept keep rs := by
  constructor
  · rintro ⟨c', hc'⟩ xs r ys rfl hr
    rw [filter_append, filter_cons_of_pos hr] at hc'
    exact foldRecords_previous hc'
  · intro hsteps
    induction rs using reverseRecOn generalizing c with
    | nil => exact ⟨none, rfl⟩
    | append_singleton rs r ih =>
      obtain ⟨b, s, hb, hs, rfl⟩ := foldRecords_snoc_ok.mp h
      obtain ⟨b', hb'⟩ := ih hb fun xs r' ys hrs => hsteps xs r' (ys ++ [r]) (by simp [hrs])
      rw [filter_append]
      cases hr : keep r with
      | false =>
        rw [filter_cons_of_neg (by simp [hr]), filter_nil, append_nil]
        exact ⟨b', hb'⟩
      | true =>
        rw [filter_cons_of_pos hr, filter_nil]
        have hstep : validateRecordChainStep r b' = .ok () := by
          refine chainStep_ok_iff.mpr fun ref href => ?_
          rw [foldRecords_latest hb']
          exact hsteps rs r [] rfl hr ref href
        obtain ⟨s', hs'⟩ := foldRecord_exists hs hstep
        exact ⟨some s', foldRecords_snoc_ok.mpr ⟨b', s', hb', hs', rfl⟩⟩

theorem foldRecords_filter (h : foldRecords render none rs = .ok c)
    (hkeep : ∀ r ∈ rs, keep r = true → ∀ ref ∈ r.prevRef, ∀ p ∈ rs, address p = target ref →
      keep p = true) : ∃ c', foldRecords render none (rs.filter keep) = .ok c' := by
  refine (foldRecords_filter_iff h).mpr fun xs r ys hrs hr ref href => ?_
  rw [hrs] at h hkeep
  have hprev := foldRecords_previous h ref href
  cases xs using reverseRecOn with
  | nil => cases hprev
  | append_singleton ps p =>
    rw [List.getLast?_concat] at hprev
    have hp := some.inj hprev
    have hkp := hkeep r (by simp) hr ref href p (by simp) hp
    rw [filter_append, filter_cons_of_pos hkp, filter_nil, List.getLast?_concat]
    exact congrArg some hp

theorem foldRecords_full (hf : IsFull f) (h : foldRecords render none (xs ++ f :: ys) = .ok c) :
    foldRecords render (some (stateFromFullRecord f)) ys = .ok c := by
  rw [foldRecords_append] at h
  obtain ⟨b, -, h⟩ := bind_eq_ok_iff.mp h
  obtain ⟨s, hs, h⟩ := bind_eq_ok_iff.mp h
  rwa [← (foldRecord_ok hs).full hf]

theorem exists_last {α : Type} (P : α → Prop) (as : List α) :
    (∀ a ∈ as, ¬ P a) ∨ ∃ xs a ys, as = xs ++ a :: ys ∧ P a ∧ ∀ y ∈ ys, ¬ P y := by
  induction as using reverseRecOn with
  | nil => exact .inl nofun
  | append_singleton as a ih =>
    by_cases ha : P a
    · exact .inr ⟨as, a, [], rfl, ha, nofun⟩
    · have hnone : ∀ ys : List α, (∀ y ∈ ys, ¬ P y) → ∀ y ∈ ys ++ [a], ¬ P y := by
        intro ys hys y hy
        rcases mem_append.mp hy with hy | hy
        · exact hys y hy
        · rwa [mem_singleton.mp hy]
      rcases ih with h | ⟨xs, f, ys, rfl, hf, hys⟩
      · exact .inl (hnone as h)
      · exact .inr ⟨xs, f, ys ++ [a], by simp, hf, hnone ys hys⟩

theorem foldRecords_superseded (hsorted : rs.Pairwise fun a b => recordSortKey a ≤ recordSortKey b)
    (h : foldRecords render none rs = .ok c) (h' : foldRecords render none (rs.filter keep) = .ok c')
    (hdrop : ∀ r ∈ rs, keep r = false → ∃ f ∈ rs, IsFull f ∧ recordSortKey r < recordSortKey f) :
    c' = c := by
  rcases exists_last IsFull rs with hnone | ⟨xs, f, ys, rfl, hf, hys⟩
  · have hall : rs.filter keep = rs := by
      refine filter_eq_self.mpr fun r hr => ?_
      by_contra hk
      obtain ⟨f, hf, hfull, -⟩ := hdrop r hr (eq_false_of_ne_true hk)
      exact hnone f hf hfull
    rw [hall, h] at h'
    exact (ok.inj h').symm
  · obtain ⟨-, hfys, hcross⟩ := pairwise_append.mp hsorted
    have hbefore : ∀ g ∈ xs ++ f :: ys, IsFull g → ∀ r ∈ f :: ys, ¬ recordSortKey r < recordSortKey g := by
      intro g hg hgfull r hr hlt
      rcases mem_append.mp hg with hg | hg
      · exact absurd (hcross g hg r hr) hlt.not_ge
      · rcases mem_cons.mp hg with rfl | hg
        · rcases mem_cons.mp hr with rfl | hr
          · exact lt_irrefl _ hlt
          · exact absurd ((pairwise_cons.mp hfys).1 r hr) hlt.not_ge
        · exact hys g hg hgfull
    have hkept : ∀ r ∈ f :: ys, keep r = true := by
      intro r hr
      by_contra hk
      obtain ⟨g, hg, hgfull, hlt⟩ := hdrop r (mem_append_right _ hr) (eq_false_of_ne_true hk)
      exact hbefore g hg hgfull r hr hlt
    rw [filter_append, filter_eq_self.mpr hkept] at h'
    have hsame := foldRecords_full hf h'
    rw [foldRecords_full hf h] at hsame
    exact (ok.inj hsame).symm

variable {p v : CoveObjectPropertyValue} {ps : List CoveObjectPropertyValue}

theorem mem_upsertProperty (h : v ∈ upsertProperty p ps) : v = p ∨ v ∈ ps := by
  induction ps with
  | nil => exact .inl (mem_singleton.mp h)
  | cons q ps ih =>
    rw [upsertProperty] at h
    split at h
    · rcases mem_cons.mp h with rfl | h
      · exact .inl rfl
      · exact .inr (mem_cons_of_mem _ h)
    · rcases mem_cons.mp h with rfl | h
      · exact .inr mem_cons_self
      · exact (ih h).imp_right (mem_cons_of_mem _)

theorem upsertProperty_ids (h : v ∈ ps) : ∃ w ∈ upsertProperty p ps, w.propertyId = v.propertyId := by
  induction ps with
  | nil => cases h
  | cons q ps ih =>
    rw [upsertProperty]
    split
    · rename_i hq
      rcases mem_cons.mp h with rfl | h
      · exact ⟨p, mem_cons_self, hq.symm⟩
      · exact ⟨v, mem_cons_of_mem _ h, rfl⟩
    · rcases mem_cons.mp h with rfl | h
      · exact ⟨v, mem_cons_self, rfl⟩
      · obtain ⟨w, hw, hid⟩ := ih h
        exact ⟨w, mem_cons_of_mem _ hw, hid⟩

theorem mem_upsertProperties {qs : List CoveObjectPropertyValue} (h : v ∈ upsertProperties ps qs) :
    v ∈ ps ∨ v ∈ qs := by
  induction qs generalizing ps with
  | nil => exact .inl h
  | cons q qs ih =>
    rcases ih h with h | h
    · rcases mem_upsertProperty h with rfl | h
      · exact .inr mem_cons_self
      · exact .inl h
    · exact .inr (mem_cons_of_mem _ h)

/-- A property of the stored properties that upserts keep. -/
def Upsertable (P : List CoveObjectPropertyValue → Prop) : Prop :=
  ∀ ps qs, P ps → P qs → P (upsertProperties ps qs)

variable {P : List CoveObjectPropertyValue → Prop}

theorem foldRecord_properties (hP : Upsertable P) (h : foldRecord render c r = .ok s)
    (hc : ∀ s' ∈ c, P s'.properties) (hr : P r.properties) : P s.properties := by
  replace h := rest_ok h
  cases hk : r.recordKind with
  | baseline | snapshot =>
    rw [hk] at h
    rw [← ok.inj h]
    exact hr
  | delta =>
    rw [hk] at h
    cases c with
    | none =>
      rw [← ok.inj h]
      exact hr
    | some s' =>
      rw [← ok.inj h]
      exact hP _ _ (hc s' rfl) hr
  | tombstone =>
    rw [hk] at h
    cases c with
    | none =>
      rw [← ok.inj h]
      exact hr
    | some s' =>
      rw [← ok.inj h]
      exact hc s' rfl
  | reservedLegacyMaterializedDelta =>
    rw [hk] at h
    cases h

theorem foldRecords_properties (hP : Upsertable P) (h : foldRecords render c rs = .ok c')
    (hc : ∀ s ∈ c, P s.properties) (hrs : ∀ r ∈ rs, P r.properties) : ∀ s ∈ c', P s.properties := by
  induction rs generalizing c with
  | nil =>
    rw [← ok.inj h]
    exact hc
  | cons r rs ih =>
    obtain ⟨hr, hrs⟩ := forall_mem_cons.mp hrs
    obtain ⟨s, hs, h⟩ := bind_eq_ok_iff.mp h
    refine ih h (fun s' hs' => ?_) hrs
    obtain rfl := some.inj hs'
    exact foldRecord_properties hP hs hc hr

/-- No full record of the object comes after this one. -/
def Unsuperseded (rs : List CoveObjectRecord) (r : CoveObjectRecord) : Prop :=
  ∀ f ∈ rs, IsFull f → recordSortKey f ≤ recordSortKey r

theorem history_properties (hP : Upsertable P)
    (hsorted : rs.Pairwise fun a b => recordSortKey a ≤ recordSortKey b)
    (h : foldRecords render none rs = .ok c) (hrs : ∀ r ∈ rs, Unsuperseded rs r → P r.properties) :
      ∀ s ∈ c, P s.properties := by
  rcases exists_last IsFull rs with hnone | ⟨xs, f, ys, rfl, hf, hys⟩
  · exact foldRecords_properties hP h (fun s hs => by cases hs) fun r hr => hrs r hr fun f hf hfull =>
      absurd hfull (hnone f hf)
  · obtain ⟨-, hfys, hcross⟩ := pairwise_append.mp hsorted
    have hlate : ∀ r ∈ f :: ys, P r.properties := by
      intro r hr
      refine hrs r (mem_append_right _ hr) fun g hg hgfull => ?_
      rcases mem_append.mp hg with hg | hg
      · exact hcross g hg r hr
      · rcases mem_cons.mp hg with rfl | hg
        · rcases mem_cons.mp hr with rfl | hr
          · exact le_rfl
          · exact (pairwise_cons.mp hfys).1 r hr
        · exact absurd hgfull (hys g hg)
    obtain ⟨hfr, hysr⟩ := forall_mem_cons.mp hlate
    refine foldRecords_properties hP (foldRecords_full hf h) (fun s hs => ?_) hysr
    rw [← some.inj hs]
    exact hfr

theorem foldRecords_association (h : foldRecords render c rs = .ok c')
    (hc : ∀ s ∈ c, s.association = associationMetadataFromState render s)
    (hrs : ∀ r ∈ rs, r.association =
      associationMetadata render ⟨r.objectTypeId, r.objectTypeName, r.objectTypeFlags⟩
        r.properties) :
    ∀ s ∈ c', s.association = associationMetadataFromState render s := by
  induction rs generalizing c with
  | nil =>
    rw [← ok.inj h]
    exact hc
  | cons r rs ih =>
    obtain ⟨hr, hrs⟩ := forall_mem_cons.mp hrs
    obtain ⟨s, hs, h⟩ := bind_eq_ok_iff.mp h
    refine ih h (fun s' hs' => ?_) hrs
    obtain rfl := some.inj hs'
    replace hs := rest_ok hs
    cases hk : r.recordKind <;> rw [hk] at hs
    case reservedLegacyMaterializedDelta => cases hs
    case baseline | snapshot =>
      rw [← ok.inj hs]
      exact hr
    case delta =>
      cases c with
      | none =>
        rw [← ok.inj hs]
        exact hr
      | some s' =>
        rw [← ok.inj hs]
        rfl
    case tombstone =>
      cases c with
      | none =>
        rw [← ok.inj hs]
        exact hr
      | some s' =>
        rw [← ok.inj hs]
        exact hc s' rfl

variable {e : CoveError}

theorem foldRecord_error (h : foldRecord render c r = .error e)
    (hr : r.recordKind ≠ .reservedLegacyMaterializedDelta) : e = .refInvalid := by
  rcases andThen_eq_error h with h | ⟨⟨⟩, -, h⟩
  · unfold validateRecordChainStep at h
    split at h
    · cases h
    · exact (Except.error.inj h).symm
    · exact rejectIf_eq_error h
  · cases hk : r.recordKind <;> rw [hk] at h
    case reservedLegacyMaterializedDelta => exact absurd hk hr
    all_goals cases c <;> cases h

theorem foldRecords_error (h : foldRecords render c rs = .error e)
    (hrs : ∀ r ∈ rs, r.recordKind ≠ .reservedLegacyMaterializedDelta) : e = .refInvalid := by
  induction rs generalizing c with
  | nil => cases h
  | cons r rs ih =>
    obtain ⟨hr, hrs⟩ := forall_mem_cons.mp hrs
    rcases andThen_eq_error h with h | ⟨s, -, h⟩
    · exact foldRecord_error h hr
    · exact ih h hrs

end CoveFormat.ReconstructionRuns
