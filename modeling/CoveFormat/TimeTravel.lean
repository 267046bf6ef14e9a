import CoveFormat.KeptRecords

namespace CoveFormat.TimeTravel

open ExceptRules SortedKeys Grouping JsonValue Temporal ObjectSurface Reconstruction
  ReconstructionRuns KeptRecords List

variable {render : Value → String} {branch : Option Nat} {tombstones : Bool}
  {cut : CoveObjectTemporalCut} {S T : List CoveObjectState} {records : List CoveObjectRecord}

def optionsAt (cut : CoveObjectTemporalCut) (branch : Option Nat) (tombstones : Bool) :
    CoveObjectReconstructionOptions :=
  ⟨cut, branch, tombstones⟩

def visibleRecords (records : List CoveObjectRecord) (cut : CoveObjectTemporalCut) :
    List CoveObjectRecord :=
  records.filter (recordVisibleAtCut · cut)

/-- A read at the cut succeeds, with the latest states of the records visible there. -/
def TravelsTo (render : Value → String) (records : List CoveObjectRecord) (branch : Option Nat)
    (tombstones : Bool) (cut : CoveObjectTemporalCut) : Prop :=
  ∃ T, reconstructObjectStates render records (optionsAt cut branch tombstones) = .ok T ∧
    reconstructObjectStates render (visibleRecords records cut)
      (optionsAt .latestCommitted branch tombstones) = .ok T

/-- The records visible at the cut follow each other without the rest. -/
def VisibleChains (branch : Option Nat) (tombstones : Bool) (records : List CoveObjectRecord)
    (cut : CoveObjectTemporalCut) : Prop :=
  ChainsKept (optionsAt .latestCommitted branch tombstones) (recordVisibleAtCut · cut) records

/-- A record up to the CSN follows one with a later CSN. -/
def CsnFallsBack (records : List CoveObjectRecord) (csn : Nat) : Prop :=
  ∃ r ∈ records, r.csn ≤ csn ∧ ∃ ref ∈ r.prevRef, ∃ p ∈ records,
    address p = target ref ∧ csn < p.csn

theorem isSelected_at (r : CoveObjectRecord) : isSelected (optionsAt cut branch tombstones) r =
    (isSelected (optionsAt .latestCommitted branch tombstones) r && recordVisibleAtCut r cut) := by
  change (branch.all (r.branchKey == ·) && recordVisibleAtCut r cut) =
    (branch.all (r.branchKey == ·) && true && recordVisibleAtCut r cut)
  rw [Bool.and_true]

theorem filter_selected_at : records.filter (isSelected (optionsAt cut branch tombstones)) =
    (visibleRecords records cut).filter
      (isSelected (optionsAt .latestCommitted branch tombstones)) := by
  rw [visibleRecords, filter_filter]
  apply filter_congr
  intro r _
  exact isSelected_at r

theorem outcome_at (rs : List CoveObjectRecord) :
    outcome render (optionsAt cut branch tombstones) rs =
      outcome render (optionsAt .latestCommitted branch tombstones) rs := rfl

theorem reconstruct_at (hprev : validatePrevRefs records = .ok ())
    (h : reconstructObjectStates render (visibleRecords records cut)
      (optionsAt .latestCommitted branch tombstones) = .ok T) :
    reconstructObjectStates render records (optionsAt cut branch tombstones) = .ok T := by
  have hselected : records.filter (isSelected (optionsAt cut branch tombstones)) =
      (visibleRecords records cut).filter
        (isSelected (optionsAt .latestCommitted branch tombstones)) := filter_selected_at
  obtain ⟨-, hall, hT⟩ := reconstruct_ok_iff.mp h
  refine reconstruct_ok_iff.mpr ⟨hprev, ?_, ?_⟩
  · intro k hk
    rw [objects, hselected] at hk
    rw [objectRecords, hselected]
    exact hall k hk
  · rw [hT, objects, objects, hselected]
    apply filterMap_congr
    intro k _
    rw [objectRecords, objectRecords, hselected]
    exact (outcome_at _).symm

section

variable (h : reconstructObjectStates render records
  (optionsAt .latestCommitted branch tombstones) = .ok S)
include h

theorem travelsTo_iff : TravelsTo render records branch tombstones cut ↔
    VisibleChains branch tombstones records cut := by
  rw [VisibleChains, chainsKept_iff h]
  constructor
  · rintro ⟨T, -, hT⟩
    exact ⟨T, hT⟩
  · rintro ⟨T, hT⟩
    exact ⟨T, reconstruct_at (reconstruct_ok_iff.mp h).1 hT, hT⟩

/-- Visible records precede the others in a history, as the time comes first in the order. -/
theorem chains_at_timestamp (t : Int) : VisibleChains branch tombstones records (.timestampUs t) := by
  obtain ⟨hprev, -, -⟩ := reconstruct_ok_iff.mp h
  have hearlier : ∀ {p r : CoveObjectRecord}, recordSortKey p ≤ recordSortKey r →
      recordVisibleAtCut r (.timestampUs t) = true → recordVisibleAtCut p (.timestampUs t) = true := by
    intro p r hle hr
    have hts : p.timestampUs ≤ r.timestampUs := by
      rcases Prod.Lex.toLex_le_toLex.mp hle with hlt | heq
      · exact hlt.le
      · exact heq.1.le
    exact decide_eq_true (hts.trans (of_decide_eq_true hr))
  refine ⟨fun r hr ref href => ?_, fun k xs r ys hsplit hr ref href => ?_⟩
  · obtain ⟨hr, hvis⟩ := mem_filter.mp hr
    obtain ⟨-, p, hp, hobject, hlt⟩ :=
      validatePrevRef_ok_iff.mp (checkAll_eq_ok_iff.mp hprev r hr) ref href
    exact ⟨p, byRef_kept hp (hearlier hlt.le hvis), hobject, hlt⟩
  · obtain ⟨c, hc⟩ := fold_exists h k
    rw [hsplit] at hc
    have hsorted : (xs ++ r :: ys).Pairwise fun a b => recordSortKey a ≤ recordSortKey b := by
      rw [← hsplit]
      exact sortByKey_pairwise _ _
    have hall : xs.filter (recordVisibleAtCut · (.timestampUs t)) = xs :=
      filter_eq_self.mpr fun p hp =>
        hearlier ((pairwise_append.mp hsorted).2.2 p hp r mem_cons_self) hr
    rw [hall]
    exact foldRecords_previous hc ref href

theorem chains_at_csn_iff {csn : Nat}
    (hunique : ∀ p ∈ records, ∀ q ∈ records, address p = address q → p = q) :
    VisibleChains branch tombstones records (.csn csn) ↔ ¬ CsnFallsBack records csn := by
  constructor
  · rintro hchains ⟨r, hr, hle, ref, href, p, hp, ha, hlt⟩
    obtain ⟨q, hq, -, -⟩ := hchains.named r (mem_filter.mpr ⟨hr, decide_eq_true hle⟩) ref href
    obtain ⟨hq, hqa⟩ := mem_byRef hq
    obtain ⟨hqr, hvis⟩ := mem_filter.mp hq
    obtain rfl := hunique p hp q hqr (ha.trans hqa.symm)
    exact absurd (of_decide_eq_true hvis) (not_le.mpr hlt)
  · intro hn
    have hclosed : PrevClosed (recordVisibleAtCut · (.csn csn)) records := by
      intro r hr hvis ref href p hp ha
      by_contra hp'
      have hlt := not_le.mp fun hle => hp' (decide_eq_true hle)
      exact hn ⟨r, hr, of_decide_eq_true hvis, ref, href, p, hp, ha, hlt⟩
    have hvisible := reconstruct_filter h hclosed
    exact (travelsTo_iff h).mp
      ⟨_, reconstruct_at (reconstruct_ok_iff.mp h).1 hvisible, hvisible⟩

/-- Every time can be travelled to, and every CSN up to which the records follow each other;
with distinct addresses these are the CSNs that no record falls back from. -/
theorem time_travel_iff :
    (∀ t, TravelsTo render records branch tombstones (.timestampUs t)) ∧
      ∀ csn, (TravelsTo render records branch tombstones (.csn csn) ↔
          VisibleChains branch tombstones records (.csn csn)) ∧
        ((∀ p ∈ records, ∀ q ∈ records, address p = address q → p = q) →
          (TravelsTo render records branch tombstones (.csn csn) ↔ ¬ CsnFallsBack records csn)) := by
  refine ⟨fun t => ?_, fun csn => ⟨travelsTo_iff h, fun hunique => ?_⟩⟩
  · exact (travelsTo_iff h).mpr (chains_at_timestamp h t)
  · rw [travelsTo_iff h, chains_at_csn_iff h hunique]

end

def twoRecords (csn csn' : Nat) : List CoveObjectRecord :=
  [⟨7, "Person", 1, 1, 0, 1, csn, 0, 42, 101, .baseline, none, [], none⟩,
    ⟨7, "Person", 1, 2, 0, 2, csn', 0, 42, 102, .delta, some ⟨1, 0, 1⟩, [], none⟩]

/-- The Delta row at CSN 1 is read without the Baseline row at CSN 5. -/
theorem falling_csn_not_read :
    ¬ ∀ (render : Value → String) (records : List CoveObjectRecord) (branch : Option Nat)
      (tombstones : Bool) (S : List CoveObjectState) (csn : Nat),
      reconstructObjectStates render records
        (optionsAt .latestCommitted branch tombstones) = .ok S →
      TravelsTo render records branch tombstones (.csn csn) := by
  intro h
  obtain ⟨T, hT, -⟩ := h (fun _ => "") (twoRecords 5 1) none false _ 3 rfl
  cases hT

theorem time_travel_iff_two :
    (∀ t, TravelsTo (fun _ => "") (twoRecords 1 2) none false (.timestampUs t)) ∧
      (∀ csn, TravelsTo (fun _ => "") (twoRecords 1 2) none false (.csn csn)) ∧
      VisibleChains none false (twoRecords 1 2) (.csn 1) := by
  have hunique : ∀ p ∈ twoRecords 1 2, ∀ q ∈ twoRecords 1 2, address p = address q → p = q := by
    intro p hp q hq ha
    simp only [twoRecords, mem_cons, not_mem_nil, or_false] at hp hq
    obtain rfl | rfl := hp <;> obtain rfl | rfl := hq
    · rfl
    · cases ha
    · cases ha
    · rfl
  have hlatest : reconstructObjectStates (fun _ => "") (twoRecords 1 2)
      (optionsAt .latestCommitted none false) = .ok _ := rfl
  obtain ⟨htime, hcsn⟩ := time_travel_iff hlatest
  have hread : ∀ csn, TravelsTo (fun _ => "") (twoRecords 1 2) none false (.csn csn) := by
    intro csn
    refine ((hcsn csn).2 hunique).mpr ?_
    rintro ⟨r, hr, hle, ref, href, p, hp, ha, hlt⟩
    simp only [twoRecords, mem_cons, not_mem_nil, or_false] at hr hp
    obtain rfl | rfl := hr
    · cases href
    · obtain rfl := Option.some.inj href
      obtain rfl | rfl := hp
      · simp at hle hlt
        omega
      · cases ha
  exact ⟨htime, hread, (hcsn 1).1.mp (hread 1)⟩

end CoveFormat.TimeTravel
