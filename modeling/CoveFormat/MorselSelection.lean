import CoveFormat.MorselLookup

namespace CoveFormat.MorselSelection

open CheckedArith CoveTypes ExceptRules List MorselLookup MorselScan NumCodes Selections
open EncodedArrays (CoveArrayValue)
open JsonValue (f64Compare f64IsNan)

variable {plan : ScanPlan} {predicate : CovePredicate} {skip : Bool} {filters : List FilterPlan}
  {alive : Nat → Prop} {selection : Selection}

section

variable (state : DatasetState) (morsel : Morsel)

/-- Every filter predicate is TRUE on the row. -/
def AllTrue (filters : List FilterPlan) (row : Nat) : Prop :=
  ∀ filter ∈ filters, ∀ predicate, filter.predicate = some predicate → IsTrue state predicate row

/-- Every exact filter predicate is TRUE on the row. -/
def ExactTrue (filters : List FilterPlan) (row : Nat) : Prop :=
  ∀ filter ∈ filters, filter.useKind = .fullRowPredicateExact →
    ∀ predicate, filter.predicate = some predicate → IsTrue state predicate row

def Honours (plan : ScanPlan) (selection : Selection) : Prop :=
  ∀ row < morsel.rowCount,
    (AllTrue state plan.filters row → selection.contains row = true) ∧
    (selection.contains row = true → ExactTrue state plan.filters row)

/-- The candidate ranges cover the row. -/
def InCandidates (plan : ScanPlan) (row : Nat) : Prop :=
  ∀ candidates, plan.coviCandidates = some candidates →
    ∃ candidate ∈ candidates, candidate.segmentId = morsel.segmentId ∧
      candidate.morselId = morsel.morselId ∧
      candidate.rowStart ≤ morsel.segmentRowStart + morsel.firstRowInSegment + row ∧
      morsel.segmentRowStart + morsel.firstRowInSegment + row <
        candidate.rowStart + candidate.rowCount

/-- The indexes answer filters of the plan. -/
def LookupUsed (plan : ScanPlan) : Prop := (lookupSelectionForMorsel state morsel plan).1 = true

/-- The filter loop passes over the predicate. -/
def Skipped (skip : Bool) (predicate : CovePredicate) : Prop :=
  skip = true ∧ predicateIsIndexCovered state predicate = true

/-- The rows that the filter loop starts from. -/
def Start (plan : ScanPlan) (row : Nat) : Prop :=
  row < morsel.rowCount ∧
  (LookupUsed state morsel plan → ∀ filter ∈ plan.filters, ∀ predicate,
    filter.predicate = some predicate → predicateIsIndexCovered state predicate = true →
      KeyMatch state predicate row) ∧
  InCandidates morsel plan row

/-- A row that is still selected cannot be decoded, or the predicate cannot be evaluated on it. -/
def Unevaluated (predicate : CovePredicate) (alive : Nat → Prop) : Prop :=
  ∃ row, alive row ∧
    (state.pageLoad (predicateColumnIndex predicate) = .unsupportedEncoding ∨
      state.pageLoad (predicateColumnIndex predicate) = .unsupportedRows ∨
      state.pageLoad (predicateColumnIndex predicate) = .decoded ∧
        keepsRow state predicate row = none)

/-- Some filter that is not exact cannot be evaluated on the rows that the filters before it
keep. -/
def Reopens (skip : Bool) : List FilterPlan → (Nat → Prop) → Prop
  | [], _ => False
  | filter :: filters, alive =>
    match filter.predicate with
    | none => Reopens skip filters alive
    | some predicate =>
      (Skipped state skip predicate ∧ Reopens skip filters alive) ∨
      (¬ Skipped state skip predicate ∧
        ((filter.useKind ≠ .fullRowPredicateExact ∧ isEmptyMembership predicate = false ∧
            Unevaluated state predicate alive) ∨
          Reopens skip filters fun row => alive row ∧ Keeps state predicate row))

/-- The scan of the morsel opens the selection again. -/
def ScanReopens (plan : ScanPlan) : Prop :=
  Reopens state (lookupSelectionForMorsel state morsel plan).1 plan.filters (Start state morsel plan)

variable {morsel : Morsel}

/-- The range covers the row of the morsel that starts at `start`. -/
def Covers (morsel : Morsel) (start : Nat) (candidate : ScanCandidateRowRange) (row : Nat) : Prop :=
  candidate.segmentId = morsel.segmentId ∧ candidate.morselId = morsel.morselId ∧
    candidate.rowStart ≤ start + row ∧ start + row < candidate.rowStart + candidate.rowCount

variable {start : Nat}

theorem mem_candidateRows {candidate : ScanCandidateRowRange} {rows : List Nat}
    (h : candidateRows morsel start candidate = .ok rows) {row : Nat} :
    row ∈ rows ↔ row < morsel.rowCount ∧ Covers morsel start candidate row := by
  rw [candidateRows] at h
  split at h
  · rename_i hother
    cases h
    simp only [not_mem_nil, false_iff]
    rintro ⟨-, hsegment, hmorsel, -⟩
    exact hother.elim (absurd hsegment) (absurd hmorsel)
  · rename_i hsame
    rw [not_or, not_not, not_not] at hsame
    obtain ⟨-, h⟩ := of_checkedAdd h
    cases h
    rw [mem_map]
    constructor
    · rintro ⟨absolute, habsolute, rfl⟩
      rw [mem_range'_1] at habsolute
      exact ⟨by omega, hsame.1, hsame.2, by omega, by omega⟩
    · rintro ⟨hrow, -, -, hlow, hhigh⟩
      exact ⟨start + row, by rw [mem_range'_1]; omega, by omega⟩

theorem applyCoviCandidates_contains {selection out : Selection}
    (hrows : ∀ row, selection.contains row = true → row < morsel.rowCount)
    (h : applyCoviCandidatesToSelection morsel plan start selection = .ok out) (row : Nat) :
    out.contains row = true ↔ selection.contains row = true ∧
      ∀ candidates, plan.coviCandidates = some candidates →
        ∃ candidate ∈ candidates, Covers morsel start candidate row := by
  rw [applyCoviCandidatesToSelection] at h
  cases hcandidates : plan.coviCandidates with
  | none =>
    rw [hcandidates] at h
    cases h
    exact (and_iff_left fun _ hc => by cases hc).symm
  | some candidates =>
    rw [hcandidates] at h
    simp only [Option.some.injEq, forall_eq']
    dsimp only at h
    split at h
    · rename_i hempty
      cases h
      simp [Selection.isEmpty_iff.mp hempty row]
    · obtain ⟨_, -, h⟩ := of_andThen h
      obtain ⟨found, hfound, h⟩ := of_andThen h
      have hmem : selection.contains row = true → (row ∈ found.flatten ↔
          ∃ candidate ∈ candidates, Covers morsel start candidate row) := by
        intro hcontains
        rw [mem_flatten]
        constructor
        · rintro ⟨rows, hin, hrow⟩
          obtain ⟨candidate, hcandidate, hok⟩ := exists_of_mem_mapM hfound hin
          exact ⟨candidate, hcandidate, ((mem_candidateRows hok).mp hrow).2⟩
        · rintro ⟨candidate, hcandidate, hcovers⟩
          obtain ⟨rows, hin, hok⟩ := exists_of_mapM hfound hcandidate
          exact ⟨rows, hin, (mem_candidateRows hok).mpr ⟨hrows row hcontains, hcovers⟩⟩
      split at h
      · rename_i hnone
        cases h
        rw [List.isEmpty_iff] at hnone
        simp only [hnone, not_mem_nil, false_iff] at hmem
        simp only [Selection.contains, Bool.false_eq_true, false_iff, not_and]
        exact hmem
      · cases h
        rw [Selection.contains_fromRows, mem_filter, Selection.mem_rows, decide_eq_true_eq]
        · exact and_congr_right hmem
        · intro r hr
          exact hrows r (Selection.mem_rows.mp (mem_filter.mp hr).1)

variable {state : DatasetState}

theorem clearRows {predicate : CovePredicate} {rows : List Nat} {mask out : SelectionMask}
    (hrows : ∀ row ∈ rows, row < mask.length)
    (h : rows.foldlM (fun (mask : SelectionMask) row =>
      match keepsRow state predicate row with
      | none => none
      | some true => some mask
      | some false => some (mask.clearBit row)) mask = some out) :
    out.length = mask.length ∧ (∀ row, out.contains row = true ↔
      mask.contains row = true ∧ (row ∈ rows → Keeps state predicate row)) ∧
      ∀ row ∈ rows, keepsRow state predicate row ≠ none := by
  induction rows generalizing mask with
  | nil =>
    cases h
    simp
  | cons r rows ih =>
    rw [forall_mem_cons] at hrows
    rw [foldlM_cons] at h
    cases hkeeps : keepsRow state predicate r with
    | none =>
      rw [hkeeps] at h
      cases h
    | some kept =>
      rw [hkeeps] at h
      cases kept with
      | true =>
        obtain ⟨hlength, hcontains, hall⟩ := ih hrows.2 h
        refine ⟨hlength, fun row => (hcontains row).trans (and_congr_right fun _ => ?_), ?_⟩
        · rw [mem_cons, or_imp]
          exact (and_iff_right fun heq => heq ▸ hkeeps).symm
        · rw [forall_mem_cons, hkeeps]
          exact ⟨by simp, hall⟩
      | false =>
        have hlength' : (mask.clearBit r).length = mask.length := length_set
        obtain ⟨hlength, hcontains, hall⟩ := ih (hlength' ▸ hrows.2) h
        refine ⟨hlength.trans hlength', fun row => (hcontains row).trans ?_, ?_⟩
        · rw [SelectionMask.clearBit, SelectionMask.contains_set hrows.1, mem_cons]
          by_cases heq : row = r
          · subst heq
            simp [Keeps, hkeeps]
          · simp [heq]
        · rw [forall_mem_cons, hkeeps]
          exact ⟨by simp, hall⟩

theorem clearRows_none {predicate : CovePredicate} {rows : List Nat} {mask : SelectionMask}
    (h : rows.foldlM (fun (mask : SelectionMask) row =>
      match keepsRow state predicate row with
      | none => none
      | some true => some mask
      | some false => some (mask.clearBit row)) mask = none) :
    ∃ row ∈ rows, keepsRow state predicate row = none := by
  induction rows generalizing mask with
  | nil => cases h
  | cons r rows ih =>
    rw [foldlM_cons] at h
    rw [exists_mem_cons_iff]
    cases hkeeps : keepsRow state predicate r with
    | none => exact .inl rfl
    | some kept =>
      rw [hkeeps] at h
      cases kept <;> exact .inr (ih h)

variable {mask out : SelectionMask}

theorem applyPredicate_some (h : applyPredicateToSelection state predicate mask = some out) :
    out.length = mask.length ∧
      (∀ row, out.contains row = true ↔ mask.contains row = true ∧ Keeps state predicate row) ∧
      ∀ row, mask.contains row = true → keepsRow state predicate row ≠ none := by
  obtain ⟨hlength, hcontains, hall⟩ := clearRows
    (fun row hrow => SelectionMask.contains_lt (SelectionMask.mem_rows.mp hrow)) h
  refine ⟨hlength, fun row => (hcontains row).trans (and_congr_right fun hrow => ?_), fun row hrow =>
    hall row (SelectionMask.mem_rows.mpr hrow)⟩
  exact ⟨fun himp => himp (SelectionMask.mem_rows.mpr hrow), fun hkeeps _ => hkeeps⟩

theorem applyPredicate_none (h : applyPredicateToSelection state predicate mask = none) :
    ∃ row, mask.contains row = true ∧ keepsRow state predicate row = none := by
  obtain ⟨row, hrow, hnone⟩ := clearRows_none h
  exact ⟨row, SelectionMask.mem_rows.mp hrow, hnone⟩

theorem reopens_alive (h : Reopens state skip filters alive) : ∃ row, alive row := by
  induction filters generalizing alive with
  | nil => cases h
  | cons filter filters ih =>
    rw [Reopens] at h
    cases hpredicate : filter.predicate with
    | none =>
      rw [hpredicate] at h
      exact ih h
    | some predicate =>
      rw [hpredicate] at h
      rcases h with ⟨-, h⟩ | ⟨-, ⟨-, -, row, hrow, -⟩ | h⟩
      · exact ih h
      · exact ⟨row, hrow⟩
      · obtain ⟨row, hrow, -⟩ := ih h
        exact ⟨row, hrow⟩

theorem not_reopens (h : ∀ filter ∈ filters, ∀ predicate, filter.predicate = some predicate →
    ∀ row, alive row → state.pageLoad (predicateColumnIndex predicate) = .decoded ∧
      keepsRow state predicate row ≠ none) : ¬ Reopens state skip filters alive := by
  induction filters generalizing alive with
  | nil => exact id
  | cons filter filters ih =>
    rw [forall_mem_cons] at h
    rw [Reopens]
    cases hpredicate : filter.predicate with
    | none => exact ih h.2
    | some predicate =>
      rintro (⟨-, hreopens⟩ | ⟨-, ⟨-, -, row, hrow, hun⟩ | hreopens⟩)
      · exact ih h.2 hreopens
      · obtain ⟨hload, hkeeps⟩ := h.1 predicate hpredicate row hrow
        rw [hload] at hun
        rcases hun with hun | hun | ⟨-, hun⟩
        · cases hun
        · cases hun
        · exact hkeeps hun
      · refine ih (fun filter hfilter predicate hp row hrow => ?_) hreopens
        exact h.2 filter hfilter predicate hp row hrow.1

theorem isEmptyMembership_false (h : isEmptyMembership predicate = true) (row : Nat) :
    ¬ Keeps state predicate row := by
  intro hkeeps
  cases predicate with
  | fileCodeIn i codes =>
    obtain ⟨code, -, hmem⟩ := compareFileCode_true.mp hkeeps
    rw [List.isEmpty_iff.mp h] at hmem
    simp at hmem
  | numericIn i literals =>
    rw [Keeps, keepsRow, keepsValue, List.isEmpty_iff.mp h] at hkeeps
    cases hkeeps
  | null | numeric | numericNotIn | fileCodeNotIn | fixedBytesEq | fixedBytesIn | varBytesEq
  | varBytesIn | varBytesPrefix => cases h

/-- What the filter loop leaves: the whole morsel where it reopens, else the rows of the mask that
every predicate it evaluates keeps. -/
def Leaves (state : DatasetState) (morsel : Morsel) (skip : Bool) (filters : List FilterPlan)
    (alive : Nat → Prop) (selection : Selection) : Prop :=
  (Reopens state skip filters alive → selection = .allRows morsel.rowCount) ∧
  (¬ Reopens state skip filters alive → ∀ row, selection.contains row = true ↔ alive row ∧
    ∀ filter ∈ filters, ∀ predicate, filter.predicate = some predicate →
      ¬ Skipped state skip predicate → Keeps state predicate row)

theorem fallBack_ok {filter : FilterPlan} {reason : String}
    (h : fallBack morsel filter reason = .ok selection) :
    filter.useKind ≠ .fullRowPredicateExact ∧ selection = .allRows morsel.rowCount := by
  rw [fallBack] at h
  split at h
  · cases h
  · rename_i hkind
    cases h
    exact ⟨hkind, rfl⟩

section

variable {filter : FilterPlan}

theorem Leaves.without (hpredicate : filter.predicate = none)
    (h : Leaves state morsel skip filters alive selection) :
    Leaves state morsel skip (filter :: filters) alive selection := by
  have hreopens : Reopens state skip (filter :: filters) alive ↔ Reopens state skip filters alive := by
    rw [Reopens, hpredicate]
  rw [Leaves, hreopens]
  refine ⟨h.1, fun hnot row => (h.2 hnot row).trans (and_congr_right fun _ => ?_)⟩
  rw [forall_mem_cons]
  refine (and_iff_right fun p hp => ?_).symm
  rw [hpredicate] at hp
  cases hp

section

variable (hpredicate : filter.predicate = some predicate)
include hpredicate

theorem Leaves.skipped (hskipped : Skipped state skip predicate)
    (h : Leaves state morsel skip filters alive selection) :
    Leaves state morsel skip (filter :: filters) alive selection := by
  have hreopens : Reopens state skip (filter :: filters) alive ↔ Reopens state skip filters alive := by
    simp only [Reopens, hpredicate, hskipped, true_and, not_true_eq_false, false_and, or_false]
  rw [Leaves, hreopens]
  refine ⟨h.1, fun hnot row => (h.2 hnot row).trans (and_congr_right fun _ => ?_)⟩
  rw [forall_mem_cons]
  refine (and_iff_right fun p hp hnot => ?_).symm
  exact absurd (Option.some.inj (hpredicate.symm.trans hp) ▸ hskipped) hnot

theorem Leaves.reopened (hskipped : ¬ Skipped state skip predicate)
    (hkind : filter.useKind ≠ .fullRowPredicateExact)
    (hmembership : isEmptyMembership predicate = false) (h : Unevaluated state predicate alive) :
    Leaves state morsel skip (filter :: filters) alive (.allRows morsel.rowCount) := by
  have hreopens : Reopens state skip (filter :: filters) alive := by
    simp only [Reopens, hpredicate]
    exact .inr ⟨hskipped, .inl ⟨hkind, hmembership, h⟩⟩
  exact ⟨fun _ => rfl, fun hnot => absurd hreopens hnot⟩

theorem Leaves.evaluated (hskipped : ¬ Skipped state skip predicate)
    (hevaluated : isEmptyMembership predicate = true ∨ ¬ Unevaluated state predicate alive)
    (h : Leaves state morsel skip filters (fun row => alive row ∧ Keeps state predicate row) selection) :
    Leaves state morsel skip (filter :: filters) alive selection := by
  have hreopens : Reopens state skip (filter :: filters) alive ↔
      Reopens state skip filters fun row => alive row ∧ Keeps state predicate row := by
    have hhead : ¬ (filter.useKind ≠ .fullRowPredicateExact ∧ isEmptyMembership predicate = false ∧
        Unevaluated state predicate alive) := by
      rintro ⟨-, hmembership, hun⟩
      rcases hevaluated with h | h
      · rw [hmembership] at h
        cases h
      · exact h hun
    simp only [Reopens, hpredicate, hskipped, hhead, false_and, false_or, not_false_eq_true, true_and]
  rw [Leaves, hreopens]
  refine ⟨h.1, fun hnot row => (h.2 hnot row).trans ?_⟩
  rw [forall_mem_cons, and_assoc]
  refine and_congr_right fun _ => and_congr_left fun _ => ?_
  refine ⟨fun hkeeps p hp _ => Option.some.inj (hpredicate.symm.trans hp) ▸ hkeeps, fun hall =>
    hall predicate hpredicate hskipped⟩

end

theorem Leaves.none (h : ∀ row, ¬ alive row) : Leaves state morsel skip filters alive .none := by
  refine ⟨fun hreopens => ?_, fun _ row => ?_⟩
  · obtain ⟨row, hrow⟩ := reopens_alive hreopens
    exact absurd hrow (h row)
  · simp [Selection.contains, h row]

theorem applyFilters_leaves {mask : SelectionMask} (hsome : ∃ row, mask.contains row = true)
    (h : applyFilters state morsel skip filters mask = .ok selection) :
    Leaves state morsel skip filters (fun row => mask.contains row = true) selection := by
  induction filters generalizing mask with
  | nil =>
    cases h
    exact ⟨fun hreopens => hreopens.elim, fun _ row => by simp [Selection.contains_fromMask]⟩
  | cons filter filters ih =>
    rw [applyFilters] at h
    cases hpredicate : filter.predicate with
    | none =>
      rw [hpredicate] at h
      exact .without hpredicate (ih hsome h)
    | some predicate =>
      simp only [hpredicate] at h
      split at h
      · rename_i hskip
        rw [Bool.and_eq_true] at hskip
        exact .skipped hpredicate hskip (ih hsome h)
      rename_i hskip
      rw [Bool.and_eq_true] at hskip
      split at h
      · rename_i hmembership
        cases h
        refine .evaluated hpredicate hskip (.inl hmembership) (.none fun row hrow => ?_)
        exact isEmptyMembership_false hmembership row hrow.2
      rename_i hmembership
      rw [Bool.not_eq_true] at hmembership
      obtain ⟨alive, halive⟩ := hsome
      split at h
      · cases h
      · rename_i hload
        obtain ⟨hkind, rfl⟩ := fallBack_ok h
        exact .reopened hpredicate hskip hkind hmembership ⟨alive, halive, .inl hload⟩
      · rename_i hload
        obtain ⟨hkind, rfl⟩ := fallBack_ok h
        exact .reopened hpredicate hskip hkind hmembership ⟨alive, halive, .inr (.inl hload)⟩
      · rename_i hload
        split at h
        · rename_i hnone
          obtain ⟨hkind, rfl⟩ := fallBack_ok h
          obtain ⟨row, hrow, hkeeps⟩ := applyPredicate_none hnone
          exact .reopened hpredicate hskip hkind hmembership ⟨row, hrow, .inr (.inr ⟨hload, hkeeps⟩)⟩
        · rename_i narrowed hnarrowed
          obtain ⟨-, hcontains, hkeeps⟩ := applyPredicate_some hnarrowed
          have hevaluated : ¬ Unevaluated state predicate fun row => mask.contains row = true := by
            rintro ⟨row, hrow, hun | hun | ⟨-, hun⟩⟩
            · rw [hload] at hun
              cases hun
            · rw [hload] at hun
              cases hun
            · exact hkeeps row hrow hun
          refine .evaluated hpredicate hskip (.inr hevaluated) ?_
          simp only [← hcontains]
          split at h
          · rename_i hzero
            cases h
            refine .none fun row => ?_
            rw [SelectionMask.allZero_iff.mp hzero row]
            exact Bool.false_ne_true
          · rename_i hzero
            refine ih ?_ h
            by_contra hnone
            exact hzero (SelectionMask.allZero_iff.mpr fun row => by
              simpa using fun hrow => hnone ⟨row, hrow⟩)

end

theorem lookupMask_contains (htruthful : Truthful state morsel) (plan : ScanPlan) (row : Nat) :
    SelectionMask.contains (if (lookupSelectionForMorsel state morsel plan).1 then
      (lookupSelectionForMorsel state morsel plan).2 else SelectionMask.fillAll morsel.rowCount) row =
        true ↔
      row < morsel.rowCount ∧ (LookupUsed state morsel plan → ∀ filter ∈ plan.filters, ∀ predicate,
        filter.predicate = some predicate → predicateIsIndexCovered state predicate = true →
          KeyMatch state predicate row) := by
  rw [LookupUsed]
  cases hused : (lookupSelectionForMorsel state morsel plan).1 with
  | false => simp
  | true =>
    have hlength : (SelectionMask.fillAll morsel.rowCount).length = morsel.rowCount :=
      length_replicate
    have hnarrows : Narrows state morsel plan.filters (SelectionMask.fillAll morsel.rowCount)
        (lookupSelectionForMorsel state morsel plan).2 :=
      lookupSelection_narrows htruthful hlength (Prod.ext hused rfl)
    rw [if_pos rfl, hnarrows.2 row, SelectionMask.contains_fillAll, decide_eq_true_eq]
    exact and_congr_right fun _ => ⟨fun hall _ => hall, fun hall => hall rfl⟩

theorem candidateMask_contains (hmask : ∀ row, mask.contains row = true → row < morsel.rowCount)
    (h : candidateMask morsel plan mask = .ok out) (row : Nat) :
    out.contains row = true ↔ mask.contains row = true ∧ InCandidates morsel plan row := by
  rw [candidateMask] at h
  split at h
  · obtain ⟨-, h⟩ := of_checkedAdd h
    obtain ⟨selection, hselection, h⟩ := of_andThen h
    cases h
    have hrows : ∀ r, (Selection.fromMask mask).contains r = true → r < morsel.rowCount := by
      intro r hr
      rw [Selection.contains_fromMask] at hr
      exact hmask r hr
    have hcontains := applyCoviCandidates_contains hrows hselection
    rw [SelectionMask.contains_setRows, SelectionMask.contains_fillNone, Selection.mem_rows,
      hcontains, Selection.contains_fromMask]
    · simp [InCandidates, Covers]
    · intro r hr
      rw [SelectionMask.fillNone, length_replicate]
      exact hrows r ((hcontains r).mp (Selection.mem_rows.mp hr)).1
  · rename_i hnone
    cases h
    rw [Option.not_isSome_iff_eq_none] at hnone
    refine (and_iff_left fun candidates hcandidates => ?_).symm
    rw [hnone] at hcandidates
    cases hcandidates

theorem leaves_of_no_predicate (hnone : ∀ filter ∈ filters, filter.predicate = none)
    (h : ∀ row, selection.contains row = true ↔ alive row) :
    Leaves state morsel skip filters alive selection := by
  induction filters with
  | nil => exact ⟨fun hreopens => hreopens.elim, fun _ row => by simp [h row]⟩
  | cons filter filters ih =>
    rw [forall_mem_cons] at hnone
    exact .without hnone.1 (ih hnone.2)

/-- The scan leaves what the filter loop leaves of the rows that the indexes and the candidate
ranges keep. -/
theorem selectedRows_leaves (htruthful : Truthful state morsel)
    (h : selectedRowsForMorsel state morsel plan = .ok selection) :
    Leaves state morsel (lookupSelectionForMorsel state morsel plan).1 plan.filters
      (Start state morsel plan) selection := by
  have hlookup := lookupMask_contains htruthful plan
  rw [selectedRowsForMorsel] at h
  split at h
  · dsimp only at h
    generalize (if (lookupSelectionForMorsel state morsel plan).1 then
      (lookupSelectionForMorsel state morsel plan).2 else SelectionMask.fillAll morsel.rowCount) =
        mask at h hlookup
    split at h
    · rename_i hzero
      cases h
      refine .none fun row hstart => ?_
      have hcontains := (hlookup row).mpr ⟨hstart.1, hstart.2.1⟩
      rw [SelectionMask.allZero_iff.mp hzero row] at hcontains
      cases hcontains
    · obtain ⟨narrowed, hnarrowed, h⟩ := of_andThen h
      have hcontains : ∀ row, narrowed.contains row = true ↔ Start state morsel plan row := by
        intro row
        rw [candidateMask_contains (fun r hr => ((hlookup r).mp hr).1) hnarrowed, hlookup, Start,
          and_assoc]
      split at h
      · rename_i hzero
        cases h
        refine .none fun row hstart => ?_
        rw [← hcontains, SelectionMask.allZero_iff.mp hzero row] at hstart
        cases hstart
      · rename_i hzero
        have hstart : Start state morsel plan = fun row => narrowed.contains row = true :=
          funext fun row => propext (hcontains row).symm
        rw [hstart]
        refine applyFilters_leaves ?_ h
        by_contra hnone
        exact hzero (SelectionMask.allZero_iff.mpr fun row => by
          simpa using fun hrow => hnone ⟨row, hrow⟩)
  · rename_i hpredicate
    have hnone : ∀ filter ∈ plan.filters, filter.predicate = none := by
      intro filter hfilter
      by_contra hsome
      exact hpredicate (any_eq_true.mpr ⟨filter, hfilter, Option.isSome_iff_ne_none.mpr hsome⟩)
    obtain ⟨-, h⟩ := of_checkedAdd h
    refine leaves_of_no_predicate hnone fun row => ?_
    have hrows : ∀ r, (Selection.allRows morsel.rowCount).contains r = true → r < morsel.rowCount :=
      fun r hr => of_decide_eq_true hr
    rw [applyCoviCandidates_contains hrows h, Start]
    refine and_congr decide_eq_true_iff ((and_iff_right ?_).symm)
    intro _ filter hfilter predicate hsome
    rw [hnone filter hfilter] at hsome
    cases hsome

end

section

variable {state : DatasetState} {morsel : Morsel}

/-- A row on which all predicates are TRUE is lost only where an index answers a membership list
for an infinite number. -/
def LosesNoInfinite (state : DatasetState) (morsel : Morsel) (plan : ScanPlan) : Prop :=
  LookupUsed state morsel plan → ∀ row < morsel.rowCount, AllTrue state plan.filters row →
    ∀ filter ∈ plan.filters, ∀ i literals, filter.predicate = some (.numericIn i literals) →
      predicateIsIndexCovered state (.numericIn i literals) = true → ¬ InfiniteAt state i row

theorem skipped_isTrue {row : Nat} (hstart : Start state morsel plan row) {filter : FilterPlan}
    (hfilter : filter ∈ plan.filters) {predicate : CovePredicate}
    (hpredicate : filter.predicate = some predicate)
    (hskipped : Skipped state (lookupSelectionForMorsel state morsel plan).1 predicate) :
    IsTrue state predicate row :=
  keyMatch_true (hstart.2.1 hskipped.1 filter hfilter predicate hpredicate hskipped.2)

theorem start_iff (hcandidates : ∀ row < morsel.rowCount, AllTrue state plan.filters row →
      InCandidates morsel plan row) :
    (∀ row < morsel.rowCount, AllTrue state plan.filters row → Start state morsel plan row) ↔
      LosesNoInfinite state morsel plan := by
  constructor
  · intro h hused row hrow hall filter hfilter i literals hpredicate hcovered hinfinite
    exact infinite_not_keyMatch hinfinite
      ((h row hrow hall).2.1 hused filter hfilter _ hpredicate hcovered)
  · intro h row hrow hall
    refine ⟨hrow, fun hused filter hfilter predicate hpredicate hcovered => ?_,
      hcandidates row hrow hall⟩
    rcases keyMatch_of_true hcovered (hall filter hfilter predicate hpredicate) with
      hmatch | ⟨i, literals, rfl, hinfinite⟩
    · exact hmatch
    · exact absurd hinfinite (h hused row hrow hall filter hfilter i literals hpredicate hcovered)

section

/-- The number that `compare_numeric_value` compares with a literal: if it is no NumCode, it is read
by the type of the literal. -/
def numberRead (logical : CoveLogicalType) (value : CoveArrayValue) (literal : PredicateLiteral) :
    Option NativeTypedNumericValue :=
  match value, literal with
  | .numCode code, _ => typedNativeNumcodeValue logical code.toNat
  | _, .int64 _ => (valueAsI64 value).map .signed
  | _, .uint64 _ => (valueAsU64 value).map .unsigned
  | _, .float64 _ => (valueAsF64 value).map .float

/-- The number of the value by the type of the column. -/
def typedValue (logical : CoveLogicalType) (value : CoveArrayValue) :
    Option NativeTypedNumericValue :=
  (numCodeOf logical value).bind fun code => typedNativeNumcodeValue logical code.toNat

/-- Whether a literal equals the number beside it; `none` at the first that has no number. -/
def equalsOne (number : PredicateLiteral → Option NativeTypedNumericValue) :
    List PredicateLiteral → Option Bool
  | [] => some false
  | literal :: literals =>
    match (number literal).map (compareNativeTypedNumericValue · .eq literal) with
    | some false => equalsOne number literals
    | verdict => verdict

/-- A predicate on numbers comes out TRUE with these numbers beside its literals. -/
def Passes (number : PredicateLiteral → Option NativeTypedNumericValue) : CovePredicate → Prop
  | .numeric _ op literal =>
    (number literal).map (compareNativeTypedNumericValue · op literal) = some true
  | .numericIn _ literals => equalsOne number literals = some true
  | .numericNotIn _ literals => equalsOne number literals = some false
  | _ => True

/-- The predicate comes out differently with the numbers read than with the number of the column. -/
def Misread (state : DatasetState) (predicate : CovePredicate) (row : Nat) : Prop :=
  ¬ (Passes (numberRead (state.columns (predicateColumnIndex predicate)).logical
      (state.value (predicateColumnIndex predicate) row)) predicate ↔
    Passes (fun _ => typedValue (state.columns (predicateColumnIndex predicate)).logical
      (state.value (predicateColumnIndex predicate) row)) predicate)

variable {logical : CoveLogicalType} {value : CoveArrayValue} {literals : List PredicateLiteral}

theorem numberMatches_typed {op : NumericPredicateOp} {literal : PredicateLiteral} {expected : Bool} :
    numberMatches logical op literal expected value = true ↔
      (typedValue logical value).map (compareNativeTypedNumericValue · op literal) =
        some expected := by
  rw [numberMatches_iff, typedValue]
  cases numCodeOf logical value <;> simp [compareNativeNumcodeValue]

theorem compareNativeFloats_literal (left : Nat) (op : NumericPredicateOp) (bits : UInt64) :
    compareNativeFloats left op bits.toNat =
      compareNativeTypedNumericValue (.float left) op (.float64 bits) := by
  rw [compareNativeTypedNumericValue, predicateLiteralAsF64]
  cases hnan : f64IsNan bits.toNat with
  | true => simp [compareNativeFloats, f64Compare, hnan]
  | false => rfl

variable (hnull : value ≠ .null)
include hnull

theorem compareNumericValue_read (op : NumericPredicateOp) (literal : PredicateLiteral) :
    compareNumericValue logical op literal value =
      (numberRead logical value literal).map (compareNativeTypedNumericValue · op literal) := by
  have hfloat (bits : UInt64) := funext fun left => compareNativeFloats_literal left op bits
  cases value with
  | null => exact absurd rfl hnull
  | numCode code => rfl
  | bytes | ownedBytes | varint | int64 | boolean | validityBit | fileCode | dictValue =>
    cases literal <;> simp only [compareNumericValue, numberRead, Option.map_map, hfloat] <;> rfl

theorem compareNumericInValue_read :
    compareNumericInValue logical value literals = equalsOne (numberRead logical value) literals := by
  induction literals with
  | nil => rfl
  | cons literal literals ih =>
    rw [compareNumericInValue, compareNumericValue_read hnull, ih, equalsOne]
    rcases (numberRead logical value literal).map _ with _ | _ | _ <;> rfl

end

theorem equalsOne_typed (expected : Bool) :
    equalsOne (fun _ => typedValue logical value) literals = some expected ↔
      if expected then ∃ literal ∈ literals, numberMatches logical .eq literal true value = true
      else ∀ literal ∈ literals, numberMatches logical .eq literal false value = true := by
  simp only [numberMatches_typed]
  induction literals with
  | nil => cases expected <;> simp [equalsOne]
  | cons literal literals ih =>
    rw [equalsOne]
    cases htyped : typedValue logical value with
    | none =>
      cases expected with
      | true => simp
      | false => simpa using ⟨literal, fun hne => absurd rfl hne⟩
    | some typed =>
      rw [htyped] at ih
      simp only [Option.map_some, exists_mem_cons_iff, forall_mem_cons] at ih ⊢
      cases compareNativeTypedNumericValue typed .eq literal with
      | true => cases expected <;> simp
      | false => simpa using ih

theorem not_misread_iff {row : Nat} : ¬ Misread state predicate row ↔
    (Keeps state predicate row ↔ IsTrue state predicate row) := by
  rw [Misread, not_not, Keeps, IsTrue, keepsRow]
  generalize state.value (predicateColumnIndex predicate) row = value
  generalize (state.columns (predicateColumnIndex predicate)).logical = logical
  by_cases hnull : value = .null
  · subst hnull
    have hsame : numberRead logical .null = fun _ => typedValue logical .null := by
      funext literal
      cases literal <;> rfl
    have hin : ∀ literals, compareNumericInValue logical .null literals = some false := by
      intro literals
      induction literals with
      | nil => rfl
      | cons literal literals ih => exact ih
    rw [hsame, iff_self, true_iff]
    cases predicate with
    | numeric i op literal =>
      simp [keepsValue, isTrueValue, compareNumericValue, numberMatches, numCodeOf]
    | numericIn i literals => simp [keepsValue, isTrueValue, hin, numberMatches, numCodeOf]
    | numericNotIn i literals => simp [keepsValue, isTrueValue]
    | null | fileCodeIn | fileCodeNotIn | fixedBytesEq | fixedBytesIn | varBytesEq | varBytesIn
    | varBytesPrefix => exact beq_iff_eq.symm
  · cases predicate with
    | numeric i op literal =>
      rw [keepsValue, isTrueValue, compareNumericValue_read hnull, numberMatches_typed]
      rfl
    | numericIn i literals =>
      have htrue := @equalsOne_typed logical value literals true
      rw [keepsValue, isTrueValue, compareNumericInValue_read hnull, any_eq_true]
      rw [if_pos rfl] at htrue
      rw [← htrue]
      rfl
    | numericNotIn i literals =>
      have hfalse : equalsOne (fun _ => typedValue logical value) literals = some false ↔
          ∀ literal ∈ literals, numberMatches logical .eq literal false value = true :=
        equalsOne_typed false
      have hkeeps : (compareNumericInValue logical value literals).map not = some true ↔
          compareNumericInValue logical value literals = some false := by
        simp [Option.map_eq_some_iff]
      rw [keepsValue, if_neg hnull, hkeeps, isTrueValue, Bool.and_eq_true, decide_eq_true_eq,
        all_eq_true, ← hfalse, and_iff_right hnull, compareNumericInValue_read hnull]
      rfl
    | null | fileCodeIn | fileCodeNotIn | fixedBytesEq | fixedBytesIn | varBytesEq | varBytesIn
    | varBytesPrefix => exact iff_of_true Iff.rfl beq_iff_eq.symm

-- the varint with the bits of 1.0 passes x > 5.0 as an integer
example : compareNumericValue .float64 .gt (.float64 0x4014000000000000)
    (.varint 0x3ff0000000000000) = some true := by decide +kernel

/-- The filter loop evaluates the predicate of the filter. -/
def Evaluated (state : DatasetState) (morsel : Morsel) (plan : ScanPlan) (filter : FilterPlan)
    (predicate : CovePredicate) : Prop :=
  filter ∈ plan.filters ∧ filter.predicate = some predicate ∧
    ¬ Skipped state (lookupSelectionForMorsel state morsel plan).1 predicate

/-- No row on which all predicates are TRUE is misread. -/
def LosesNoMisread (state : DatasetState) (morsel : Morsel) (plan : ScanPlan) : Prop :=
  ∀ row < morsel.rowCount, AllTrue state plan.filters row → ∀ filter predicate,
    Evaluated state morsel plan filter predicate → ¬ Misread state predicate row

/-- No exact filter misreads a row that the whole loop keeps. -/
def AdmitsNoMisread (state : DatasetState) (morsel : Morsel) (plan : ScanPlan) : Prop :=
  ∀ row, Start state morsel plan row →
    (∀ filter predicate, Evaluated state morsel plan filter predicate →
      Keeps state predicate row) →
    ∀ filter predicate, Evaluated state morsel plan filter predicate →
      filter.useKind = .fullRowPredicateExact → ¬ Misread state predicate row

/-- With truthful indexes and complete candidates, a scan that succeeds honours the filters if and
only if it does not reopen the morsel over a row that an exact filter excludes, and no index
answers a membership list for an infinite number on which all predicates are TRUE, and neither such
a row nor, by an exact filter, a row of the selection is misread. -/
theorem selectedRowsForMorsel_honours (htruthful : Truthful state morsel)
    (hcandidates : ∀ row < morsel.rowCount, AllTrue state plan.filters row →
      InCandidates morsel plan row)
    (h : selectedRowsForMorsel state morsel plan = .ok selection) :
    Honours state morsel plan selection ↔
      (ScanReopens state morsel plan → ∀ row < morsel.rowCount, ExactTrue state plan.filters row) ∧
      (¬ ScanReopens state morsel plan → LosesNoInfinite state morsel plan ∧
        LosesNoMisread state morsel plan ∧ AdmitsNoMisread state morsel plan) := by
  have hleaves := selectedRows_leaves htruthful h
  by_cases hreopens : ScanReopens state morsel plan
  · have hall := hleaves.1 hreopens
    subst hall
    simp only [hreopens, forall_const, not_true_eq_false, false_imp_iff, and_true]
    constructor
    · intro hhonours row hrow
      exact (hhonours row hrow).2 (decide_eq_true hrow)
    · intro hexact row hrow
      exact ⟨fun _ => decide_eq_true hrow, fun _ => hexact row hrow⟩
  · have hcontains : ∀ row, selection.contains row = true ↔ Start state morsel plan row ∧
        ∀ filter predicate, Evaluated state morsel plan filter predicate →
          Keeps state predicate row := by
      intro row
      rw [hleaves.2 hreopens row]
      refine and_congr_right fun _ => ⟨fun hall filter predicate heval => ?_, fun hall => ?_⟩
      · exact hall filter heval.1 predicate heval.2.1 heval.2.2
      · exact fun filter hfilter predicate hp hskip => hall filter predicate ⟨hfilter, hp, hskip⟩
    simp only [hreopens, false_imp_iff, not_false_eq_true, forall_const, true_and]
    rw [← start_iff hcandidates]
    constructor
    · intro hhonours
      have hkept : ∀ row < morsel.rowCount, AllTrue state plan.filters row → _ := fun row hrow hall =>
        (hcontains row).mp ((hhonours row hrow).1 hall)
      refine ⟨fun row hrow hall => (hkept row hrow hall).1,
        fun row hrow hall filter predicate heval => not_misread_iff.mpr ?_,
        fun row hstart hkeeps filter predicate heval hexact => not_misread_iff.mpr ?_⟩
      · exact iff_of_true ((hkept row hrow hall).2 filter predicate heval)
          (hall filter heval.1 predicate heval.2.1)
      · have htrue := (hhonours row hstart.1).2 ((hcontains row).mpr ⟨hstart, hkeeps⟩)
        exact iff_of_true (hkeeps filter predicate heval)
          (htrue filter heval.1 hexact predicate heval.2.1)
    · rintro ⟨hstart, hloses, hadmits⟩ row hrow
      constructor
      · intro hall
        refine (hcontains row).mpr ⟨hstart row hrow hall, fun filter predicate heval => ?_⟩
        exact (not_misread_iff.mp (hloses row hrow hall filter predicate heval)).mpr
          (hall filter heval.1 predicate heval.2.1)
      · intro hselected filter hfilter hexact predicate hpredicate
        obtain ⟨hrowstart, hkeeps⟩ := (hcontains row).mp hselected
        by_cases hskipped : Skipped state (lookupSelectionForMorsel state morsel plan).1 predicate
        · exact skipped_isTrue hrowstart hfilter hpredicate hskipped
        · have heval : Evaluated state morsel plan filter predicate :=
            ⟨hfilter, hpredicate, hskipped⟩
          have hread := hadmits row hrowstart hkeeps filter predicate heval hexact
          exact (not_misread_iff.mp hread).mp (hkeeps filter predicate heval)

end

/-- Two rows with the file codes 1 and 2, and a second column whose page has an encoding that is
not supported. -/
def reopenedState : DatasetState where
  tableId := 1
  columns i := ⟨i, if i = 0 then .utf8 else .int64⟩
  lookupFor _ := none
  pageLoad i := if i = 0 then .decoded else .unsupportedEncoding
  value i row := if i = 0 then .fileCode (if row = 0 then 1 else 2) else .null

def reopenedMorsel : Morsel where
  segmentId := 0
  morselId := 0
  segmentRowStart := 0
  firstRowInSegment := 0
  rowCount := 2

def reopenedPlan : ScanPlan where
  filters :=
    [⟨.fullRowPredicateExact, "city = 'Oslo'", some (.fileCodeIn 0 [1])⟩,
      ⟨.pruningOnly, "age IS NULL", some (.null 1 .isNull)⟩]
  coviCandidates := none

theorem reopenedPlan_selection :
    selectedRowsForMorsel reopenedState reopenedMorsel reopenedPlan = .ok (.allRows 2) := by
  rfl

theorem reopenedState_truthful : Truthful reopenedState reopenedMorsel := by
  intro i index hindex
  cases hindex

theorem reopenedPlan_candidates (row : Nat) : InCandidates reopenedMorsel reopenedPlan row := by
  intro candidates hcandidates
  cases hcandidates

/-- The second row passes the scan, and the exact filter excludes it. -/
theorem reopened_scan_not_honours : ¬ ∀ state morsel plan selection, Truthful state morsel →
      (∀ row < morsel.rowCount, AllTrue state plan.filters row → InCandidates morsel plan row) →
      selectedRowsForMorsel state morsel plan = .ok selection →
        Honours state morsel plan selection := by
  intro h
  have hhonours := h _ _ _ _ reopenedState_truthful (fun row _ _ => reopenedPlan_candidates row)
    reopenedPlan_selection
  have htrue := (hhonours 1 (by decide)).2 rfl _ mem_cons_self rfl _ rfl
  exact absurd htrue (by decide)

/-- The rows (Oslo, 7), (Bergen, 9) and (Oslo, 1); an index posts the cities, and the ages are on a
page of varints. -/
def postedIndex : LookupIndex where
  keyKind := .fileCode
  entries := [⟨1, [⟨1, 0, 0, 0⟩, ⟨1, 0, 0, 2⟩]⟩, ⟨2, [⟨1, 0, 0, 1⟩]⟩]
  sorted := by decide

def postedState : DatasetState where
  tableId := 1
  columns i := ⟨i, if i = 0 then .utf8 else .int64⟩
  lookupFor i := if i = 0 then some postedIndex else none
  pageLoad _ := .decoded
  value i row :=
    if i = 0 then .fileCode (if row = 1 then 2 else 1)
    else .varint (if row = 0 then 7 else if row = 1 then 9 else 1)

def postedMorsel : Morsel where
  segmentId := 0
  morselId := 0
  segmentRowStart := 0
  firstRowInSegment := 0
  rowCount := 3

def postedPlan : ScanPlan where
  filters :=
    [⟨.fullRowPredicateExact, "city = 'Oslo'", some (.fileCodeIn 0 [1])⟩,
      ⟨.fullRowPredicateExact, "age > 5", some (.numeric 1 .gt (.int64 5))⟩,
      ⟨.pruningOnly, "age IN (7, 8)", some (.numericIn 1 [.int64 7, .int64 8])⟩]
  coviCandidates := some [⟨0, 0, 0, 2⟩]

theorem postedPlan_selection :
    selectedRowsForMorsel postedState postedMorsel postedPlan = .ok (.fromRows [0] 3) := by
  rfl

theorem postedState_truthful : Truthful postedState postedMorsel := by
  intro i index hindex row hrow key
  simp only [postedState] at hindex
  split at hindex
  · rename_i hi
    obtain rfl := Option.some.inj hindex
    have hposted : Posted postedState postedMorsel postedIndex key row ↔
        (key = 1 ∧ (row = 0 ∨ row = 2)) ∨ (key = 2 ∧ row = 1) := by
      by_cases h1 : key = 1
      · subst h1
        simp [Posted, LookupIndex.rowsFor, postedIndex, postedState, postedMorsel]
      · by_cases h2 : key = 2
        · subst h2
          simp [Posted, LookupIndex.rowsFor, postedIndex, postedState, postedMorsel]
        · simp [Posted, LookupIndex.rowsFor, postedIndex, h1, h2, eq_comm]
    have hkey : canonicalKey (postedState.columns i).logical postedIndex.keyKind
        (postedState.value i row) = some (if row = 1 then 2 else 1) := by
      simp only [postedState, hi, if_true, postedIndex, canonicalKey]
      split <;> rfl
    change row < 3 at hrow
    rw [hposted, hkey, Option.some_inj]
    split <;> omega
  · cases hindex

theorem postedPlan_evaluated : ∀ filter ∈ postedPlan.filters, ∀ predicate ∈ filter.predicate,
    ∀ row < 3, keepsRow postedState predicate row ≠ none ∧
      (Keeps postedState predicate row ↔ IsTrue postedState predicate row) := by
  decide

theorem postedPlan_candidates {row : Nat} (hrow : row < 3)
    (hall : AllTrue postedState postedPlan.filters row) :
    InCandidates postedMorsel postedPlan row := by
  have hage : IsTrue postedState (.numeric 1 .gt (.int64 5)) row :=
    hall _ (mem_cons_of_mem _ mem_cons_self) _ rfl
  have hages : ∀ row < 3, IsTrue postedState (.numeric 1 .gt (.int64 5)) row → row < 2 := by
    decide
  have hle := hages row hrow hage
  intro candidates hcandidates
  obtain rfl := Option.some.inj hcandidates
  exact ⟨_, mem_singleton_self _, rfl, rfl, Nat.zero_le _, by simpa [postedMorsel] using hle⟩

theorem postedPlan_not_reopens : ¬ ScanReopens postedState postedMorsel postedPlan := by
  refine not_reopens fun filter hfilter predicate hpredicate row hstart => ⟨rfl, ?_⟩
  exact (postedPlan_evaluated filter hfilter predicate hpredicate row hstart.1).1

theorem postedPlan_losesNoInfinite : LosesNoInfinite postedState postedMorsel postedPlan := by
  intro _ row _ _ filter hfilter i literals hpredicate hcovered
  simp only [postedPlan, mem_cons, not_mem_nil, or_false] at hfilter
  rcases hfilter with rfl | rfl | rfl <;> cases hpredicate
  cases hcovered

/-- The scan keeps the first row only, and honours the filters. -/
theorem selectedRowsForMorsel_honours_posted :
    selectedRowsForMorsel postedState postedMorsel postedPlan = .ok (.fromRows [0] 3) ∧
      Honours postedState postedMorsel postedPlan (.fromRows [0] 3) := by
  refine ⟨postedPlan_selection, (selectedRowsForMorsel_honours postedState_truthful
    (fun row hrow hall => postedPlan_candidates hrow hall) postedPlan_selection).mpr
    ⟨fun hreopens => absurd hreopens postedPlan_not_reopens, fun _ => ⟨postedPlan_losesNoInfinite,
      fun row hrow _ filter predicate heval => not_misread_iff.mpr ?_,
      fun row hstart _ filter predicate heval _ => not_misread_iff.mpr ?_⟩⟩⟩
  · exact (postedPlan_evaluated filter heval.1 predicate heval.2.1 row hrow).2
  · exact (postedPlan_evaluated filter heval.1 predicate heval.2.1 row hstart.1).2

end CoveFormat.MorselSelection
