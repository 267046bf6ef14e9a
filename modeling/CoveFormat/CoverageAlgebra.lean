import CoveFormat.CoveError
import CoveFormat.SortedKeys
import Mathlib.Data.Prod.Lex

namespace CoveFormat.Coverage

open CheckedArith Except ExceptRules List SortedKeys

inductive CoverageGranularityV2
  | dataset
  | object
  | file
  | segment
  | rowGroup
  | page
  | morsel
  | rowRange
  | rowOrdinalSet
  | mapNode
  | dimensionalBucket
  | objectPath
  | association
  | projectionFragment
  | externalFragment
  deriving DecidableEq

def CoverageGranularityV2.code : CoverageGranularityV2 → Nat
  | .dataset => 0
  | .object => 1
  | .file => 2
  | .segment => 3
  | .rowGroup => 4
  | .page => 5
  | .morsel => 6
  | .rowRange => 7
  | .rowOrdinalSet => 8
  | .mapNode => 9
  | .dimensionalBucket => 10
  | .objectPath => 11
  | .association => 12
  | .projectionFragment => 13
  | .externalFragment => 255

structure CoverageSetEntryV2 where
  targetKind : CoverageGranularityV2
  (flags fileRef tableId segmentId morselId pageRef objectTypeId pathRef dimensionalBucketRef : Nat)
  (rowStart rowCount rowOrdinalBitmapRef byteRangeRef checksum : Nat)
  deriving DecidableEq

abbrev ScopeKey := Nat ×ₗ Nat ×ₗ Nat ×ₗ Nat ×ₗ Nat ×ₗ Nat

abbrev RangeKey := Nat ×ₗ Nat ×ₗ Nat ×ₗ Nat ×ₗ Nat ×ₗ Nat ×ₗ Nat ×ₗ Nat ×ₗ Nat

def entryKey (e : CoverageSetEntryV2) : ScopeKey ×ₗ RangeKey :=
  toLex (toLex (e.targetKind.code, toLex (e.flags, toLex (e.fileRef, toLex (e.tableId,
      toLex (e.segmentId, e.morselId))))),
    toLex (e.pageRef, toLex (e.objectTypeId, toLex (e.pathRef, toLex (e.dimensionalBucketRef,
      toLex (e.rowStart, toLex (e.rowCount, toLex (e.rowOrdinalBitmapRef,
        toLex (e.byteRangeRef, e.checksum)))))))))

abbrev Scope := Nat × Nat × Nat × Nat

def scope (e : CoverageSetEntryV2) : Scope := (e.fileRef, e.tableId, e.segmentId, e.morselId)

/-- One round of the validation loop: the entry against the previous one and against the last
row range of its scope. -/
def checkEntry (previous : Option CoverageSetEntryV2) (byRangeScope : Scope → Option (Nat × Nat))
    (e : CoverageSetEntryV2) : Except CoveError (Scope → Option (Nat × Nat)) := do
  rejectIf (previous.any fun p => entryKey e ≤ entryKey p) .badCoverage
  if e.targetKind ≠ .rowRange then .ok byRangeScope
  else
    match byRangeScope (scope e) with
    | none => .ok (Function.update byRangeScope (scope e) (some (e.rowStart, e.rowCount)))
    | some (start, count) => do
        let previousEnd ← checkedAdd start count
        rejectIf (e.rowStart < previousEnd) .badCoverage
        .ok (Function.update byRangeScope (scope e) (some (e.rowStart, e.rowCount)))

def validateEntries : Option CoverageSetEntryV2 → (Scope → Option (Nat × Nat)) →
    List CoverageSetEntryV2 → Except CoveError Unit
  | _, _, [] => .ok ()
  | previous, byRangeScope, e :: es => do
      let byRangeScope ← checkEntry previous byRangeScope e
      validateEntries (some e) byRangeScope es

def validateCoverageEntries (entries : List CoverageSetEntryV2) : Except CoveError Unit :=
  validateEntries none (fun _ => none) entries

def SameRangeScope (last e : CoverageSetEntryV2) : Prop :=
  last.targetKind = .rowRange ∧ e.targetKind = .rowRange ∧ scope last = scope e

instance (last e : CoverageSetEntryV2) : Decidable (SameRangeScope last e) :=
  inferInstanceAs (Decidable (_ ∧ _ ∧ _))

/-- One round of the coalescing loop; the entry pushed last stands first in `out`. -/
def coalesceEntry (out : List CoverageSetEntryV2) (e : CoverageSetEntryV2) :
    Except CoveError (List CoverageSetEntryV2) :=
  match out with
  | [] => .ok [e]
  | last :: rest =>
    if SameRangeScope last e then do
      let lastEnd ← checkedAdd last.rowStart last.rowCount
      if e.rowStart ≤ lastEnd then do
        let entryEnd ← checkedAdd e.rowStart e.rowCount
        .ok ({ last with rowCount := max (entryEnd - last.rowStart) last.rowCount } :: rest)
      else .ok (e :: last :: rest)
    else .ok (e :: last :: rest)

def coalesceEntries : List CoverageSetEntryV2 → List CoverageSetEntryV2 →
    Except CoveError (List CoverageSetEntryV2)
  | out, [] => .ok out
  | out, e :: es => do
      let out ← coalesceEntry out e
      coalesceEntries out es

def coalesceRowRanges (entries : List CoverageSetEntryV2) :
    Except CoveError (List CoverageSetEntryV2) := do
  let out ← coalesceEntries [] (sortByKey entryKey entries)
  validateCoverageEntries out.reverse
  .ok out.reverse

section

variable (left right : List CoverageSetEntryV2)

def coverageUnion : Except CoveError (List CoverageSetEntryV2) :=
  coalesceRowRanges (dedupAdjacent (sortByKey entryKey (left ++ right)))

def coverageIntersection :
    Except CoveError (List CoverageSetEntryV2) := do
  let out := left.filter (· ∈ right)
  validateCoverageEntries out
  .ok out

end

def coverageCoarsen (entries : List CoverageSetEntryV2) :
    Except CoveError (List CoverageSetEntryV2) :=
  coalesceRowRanges entries

def coverageRefine (entries refinement : List CoverageSetEntryV2) :
    Except CoveError (List CoverageSetEntryV2) :=
  coverageIntersection entries refinement

end CoveFormat.Coverage

namespace CoveFormat.CoverageAlgebra

open CheckedArith ExceptRules SortedKeys Coverage List

/-- A list of row ranges that passes validation. -/
structure RowRanges where
  entries : List CoverageSetEntryV2
  rowRange : ∀ e ∈ entries, e.targetKind = .rowRange
  valid : validateCoverageEntries entries = .ok ()

variable {l r : RowRanges} {d e : CoverageSetEntryV2} {es out out' done : List CoverageSetEntryV2}
  {s : Scope} {x : Nat}

def Covers (e : CoverageSetEntryV2) (s : Scope) (x : Nat) : Prop :=
  scope e = s ∧ e.rowStart ≤ x ∧ x < e.rowStart + e.rowCount

def rows (es : List CoverageSetEntryV2) : Set (Scope × Nat) :=
  {p | ∃ e ∈ es, Covers e p.1 p.2}

/-- A row range reaches below the start of an earlier one of its scope only on rows that an
entry before that one covers. -/
def InOrder (es : List CoverageSetEntryV2) : Prop :=
  ∀ d ∈ es, ∀ e ∈ es, entryKey d < entryKey e → ∀ x, Covers e (scope d) x → x < d.rowStart →
    ∃ c ∈ es, entryKey c < entryKey d ∧ Covers c (scope d) x

/-- Entries of the two lists that share a row are equal. -/
def OverlapsEqual (left right : List CoverageSetEntryV2) : Prop :=
  ∀ a ∈ left, ∀ b ∈ right, ∀ s x, Covers a s x → Covers b s x → a = b

/-- Of two row ranges of one scope, the first ends where the second starts, or before. -/
def Apart (a b : CoverageSetEntryV2) : Prop :=
  a.targetKind = .rowRange → b.targetKind = .rowRange → scope a = scope b →
    a.rowStart + a.rowCount ≤ b.rowStart

theorem mem_rows : (s, x) ∈ rows es ↔ ∃ e ∈ es, Covers e s x := Iff.rfl

theorem rows_cons : rows (e :: es) = {p | Covers e p.1 p.2} ∪ rows es := by
  ext ⟨s, x⟩
  rw [Set.mem_union, mem_rows, exists_mem_cons_iff]
  rfl

theorem rows_append : rows (es ++ out) = rows es ∪ rows out := by
  ext ⟨s, x⟩
  simp only [Set.mem_union, mem_rows, mem_append, or_and_right, exists_or]

theorem rows_congr (h : ∀ e, e ∈ es ↔ e ∈ out) : rows es = rows out := by
  ext ⟨s, x⟩
  simp only [mem_rows, h]

theorem entryKey_injective : Function.Injective entryKey := by
  intro a b h
  obtain ⟨k, _⟩ := a
  obtain ⟨k', _⟩ := b
  simp only [entryKey, toLex_inj, Prod.mk.injEq] at h
  have hkind : k = k' := by
    have hcode := h.1.1
    revert hcode
    cases k <;> cases k' <;> simp [CoverageGranularityV2.code]
  simp only [CoverageSetEntryV2.mk.injEq]
  tauto

variable {previous : Option CoverageSetEntryV2} {byRangeScope : Scope → Option (Nat × Nat)}

theorem checkEntry_ok {next : Scope → Option (Nat × Nat)}
    (h : checkEntry previous byRangeScope e = .ok next) :
    (∀ p ∈ previous, entryKey p < entryKey e) ∧ (e.targetKind ≠ .rowRange → next = byRangeScope) ∧
      (e.targetKind = .rowRange →
        next = Function.update byRangeScope (scope e) (some (e.rowStart, e.rowCount)) ∧
        ∀ last ∈ byRangeScope (scope e), last.1 + last.2 ≤ e.rowStart) := by
  obtain ⟨hprev, h⟩ := of_reject h
  have hprev' := hprev
  refine ⟨fun p hp => ?_, ?_, ?_⟩
  · rw [Option.mem_def.mp hp] at hprev'
    simpa using hprev'
  · intro hkind
    rw [if_pos hkind] at h
    exact (Except.ok.inj h).symm
  · intro hkind
    rw [if_neg (not_not.mpr hkind)] at h
    split at h
    · rename_i hnone
      refine ⟨(Except.ok.inj h).symm, fun last hlast => ?_⟩
      rw [hnone] at hlast
      cases hlast
    · rename_i start count hsome
      obtain ⟨-, h⟩ := of_checkedAdd h
      obtain ⟨hle, h⟩ := of_reject h
      refine ⟨(Except.ok.inj h).symm, fun last hlast => ?_⟩
      rw [hsome] at hlast
      cases hlast
      exact not_lt.mp hle

theorem validateEntries_ok (h : validateEntries previous byRangeScope es = .ok ()) :
    (∀ p ∈ previous, ∀ e ∈ es, entryKey p < entryKey e) ∧
      es.Pairwise (fun a b => entryKey a < entryKey b) ∧
      (∀ e ∈ es, e.targetKind = .rowRange →
        ∀ last ∈ byRangeScope (scope e), last.1 + last.2 ≤ e.rowStart) ∧
      es.Pairwise Apart := by
  induction es generalizing previous byRangeScope with
  | nil => simp
  | cons e es ih =>
    obtain ⟨next, hnext, h⟩ := of_andThen h
    obtain ⟨hprev, hother, hrange⟩ := checkEntry_ok hnext
    obtain ⟨hlt, hstrict, hlast, hapart⟩ := ih h
    have hlt' : ∀ e' ∈ es, entryKey e < entryKey e' := hlt e rfl
    have hafter : ∀ e' ∈ es, Apart e e' := by
      intro e' he' hkind hkind' hscope
      rw [(hrange hkind).1] at hlast
      refine hlast e' he' hkind' (e.rowStart, e.rowCount) ?_
      rw [← hscope, Function.update_self]
      rfl
    refine ⟨fun p hp => ?_, pairwise_cons.mpr ⟨hlt', hstrict⟩, ?_,
      pairwise_cons.mpr ⟨hafter, hapart⟩⟩
    · intro e' he'
      rcases mem_cons.mp he' with rfl | he'
      · exact hprev p hp
      · exact (hprev p hp).trans (hlt' e' he')
    · intro e' he' hkind' last hl
      rcases mem_cons.mp he' with rfl | he'
      · exact (hrange hkind').2 last hl
      · by_cases hkind : e.targetKind = .rowRange
        · by_cases hscope : scope e = scope e'
          · have hle := (hrange hkind).2 last (hscope ▸ hl)
            have hle' := hafter e' he' hkind hkind' hscope
            omega
          · refine hlast e' he' hkind' last ?_
            rwa [(hrange hkind).1, Function.update_of_ne (Ne.symm hscope)]
        · exact hlast e' he' hkind' last (hother hkind ▸ hl)

theorem apart_of_lt (h : validateCoverageEntries es = .ok ()) (hd : d ∈ es) (he : e ∈ es)
    (hlt : entryKey d < entryKey e) : Apart d e := by
  obtain ⟨-, hstrict, -, hapart⟩ := validateEntries_ok h
  have hboth : es.Pairwise fun a b =>
      (entryKey a < entryKey b → Apart a b) ∧ (entryKey b < entryKey a → Apart b a) :=
    (hstrict.and hapart).imp fun hab => ⟨fun _ => hab.2, fun hba => absurd hba (lt_asymm hab.1)⟩
  have hsymm : Std.Symm fun a b : CoverageSetEntryV2 =>
      (entryKey a < entryKey b → Apart a b) ∧ (entryKey b < entryKey a → Apart b a) :=
    ⟨fun _ _ hab => hab.symm⟩
  exact (hboth.forall hd he fun heq => hlt.ne (heq ▸ rfl)).1 hlt

theorem eq_of_covers (hd : d ∈ l.entries) (he : e ∈ l.entries) (hdx : Covers d s x)
    (hex : Covers e s x) : d = e := by
  have hnot : ∀ a ∈ l.entries, ∀ b ∈ l.entries, Covers a s x → Covers b s x →
      ¬ entryKey a < entryKey b := by
    rintro a ha b hb ⟨hsa, -, hax⟩ ⟨hsb, hbx, -⟩ hlt
    have hle := apart_of_lt l.valid ha hb hlt (l.rowRange a ha) (l.rowRange b hb)
      (hsa.trans hsb.symm)
    omega
  exact entryKey_injective (le_antisymm (not_lt.mp (hnot e he d hd hex hdx))
    (not_lt.mp (hnot d hd e he hdx hex)))

theorem coalesceEntry_ok (h : coalesceEntry out e = .ok out') :
    out' = e :: out ∨ ∃ last rest, out = last :: rest ∧ SameRangeScope last e ∧
      e.rowStart ≤ last.rowStart + last.rowCount ∧
      out' = { last with
        rowCount := max (e.rowStart + e.rowCount - last.rowStart) last.rowCount } :: rest := by
  cases out with
  | nil => exact .inl (Except.ok.inj h).symm
  | cons last rest =>
    rw [coalesceEntry] at h
    split at h
    · rename_i hsame
      obtain ⟨-, h⟩ := of_checkedAdd h
      split at h
      · rename_i hle
        obtain ⟨-, h⟩ := of_checkedAdd h
        exact .inr ⟨last, rest, rfl, hsame, hle, (Except.ok.inj h).symm⟩
      · exact .inl (Except.ok.inj h).symm
    · exact .inl (Except.ok.inj h).symm

/-- Coalescing an entry adds no rows, and it loses only rows of the entry that lie below the
start of the range pushed last. -/
theorem rows_coalesceEntry (h : coalesceEntry out e = .ok out') :
    rows out' ⊆ rows (e :: out) ∧ rows out ⊆ rows out' ∧ ∀ s x, Covers e s x → (s, x) ∈ rows out' ∨
        ∃ last rest, out = last :: rest ∧ scope last = s ∧ x < last.rowStart := by
  rcases coalesceEntry_ok h with rfl | ⟨last, rest, rfl, ⟨-, -, hscope⟩, hle, rfl⟩
  · refine ⟨Set.Subset.rfl, ?_, fun s x hx => .inl ⟨e, mem_cons_self, hx⟩⟩
    rw [rows_cons]
    exact Set.subset_union_right
  · refine ⟨?_, ?_, ?_⟩
    · rintro ⟨s, x⟩ ⟨o, ho, hs, hge, hlt⟩
      rcases mem_cons.mp ho with rfl | ho
      · change scope last = s at hs
        change last.rowStart ≤ x at hge
        change x < last.rowStart + max _ _ at hlt
        by_cases hx : x < last.rowStart + last.rowCount
        · exact ⟨last, by simp, hs, hge, hx⟩
        · refine ⟨e, by simp, hscope ▸ hs, ?_, ?_⟩ <;> omega
      · exact ⟨o, by simp [ho], hs, hge, hlt⟩
    · rintro ⟨s, x⟩ ⟨o, ho, hs, hge, hlt⟩
      rcases mem_cons.mp ho with rfl | ho
      · exact ⟨_, mem_cons_self, hs, hge, hlt.trans_le (by simp)⟩
      · exact ⟨o, by simp [ho], hs, hge, hlt⟩
    · rintro s x ⟨hs, hge, hlt⟩
      by_cases hx : x < last.rowStart
      · exact .inr ⟨last, rest, rfl, hscope.trans hs, hx⟩
      · refine .inl ⟨_, mem_cons_self, hscope.trans hs, not_lt.mp hx, ?_⟩
        change x < last.rowStart + max _ _
        omega

theorem rows_coalesceEntries (h : coalesceEntries out es = .ok out') :
    rows out' ⊆ rows (out ++ es) := by
  induction es generalizing out with
  | nil =>
    cases h
    rw [append_nil]
  | cons e es ih =>
    obtain ⟨mid, hmid, h⟩ := of_andThen h
    refine (ih h).trans ?_
    rw [rows_append, rows_append, rows_cons, ← Set.union_assoc]
    refine Set.union_subset_union_left _ ?_
    rw [Set.union_comm, ← rows_cons]
    exact (rows_coalesceEntry hmid).1

/-- Every range so far starts where an entry of its scope starts. -/
def StartsAmong (done out : List CoverageSetEntryV2) : Prop :=
  ∀ o ∈ out, ∃ d ∈ done, scope d = scope o ∧ d.rowStart = o.rowStart

theorem startsAmong_coalesceEntry (h : coalesceEntry out e = .ok out') (hs : StartsAmong done out) :
    StartsAmong (done ++ [e]) out' := by
  have hold : StartsAmong (done ++ [e]) out := by
    intro o ho
    obtain ⟨d, hd, hdo⟩ := hs o ho
    exact ⟨d, mem_append_left _ hd, hdo⟩
  rcases coalesceEntry_ok h with rfl | ⟨last, rest, rfl, -, -, rfl⟩
  · intro o ho
    rcases mem_cons.mp ho with rfl | ho
    · exact ⟨o, by simp, rfl, rfl⟩
    · exact hold o ho
  · intro o ho
    rcases mem_cons.mp ho with rfl | ho
    · exact hold last mem_cons_self
    · exact hold o (mem_cons_of_mem _ ho)

theorem rows_of_inOrder (h : coalesceEntries out es = .ok out')
    (hstrict : (done ++ es).Pairwise fun a b => entryKey a < entryKey b)
    (horder : InOrder (done ++ es)) (hdone : rows done ⊆ rows out) (hs : StartsAmong done out) :
    rows (done ++ es) ⊆ rows out' := by
  induction es generalizing out done with
  | nil =>
    cases h
    rwa [append_nil]
  | cons e es ih =>
    obtain ⟨mid, hmid, h⟩ := of_andThen h
    obtain ⟨-, hkeep, hnew⟩ := rows_coalesceEntry hmid
    rw [append_cons] at hstrict horder ⊢
    refine ih h hstrict horder ?_ (startsAmong_coalesceEntry hmid hs)
    rw [rows_append, Set.union_subset_iff]
    refine ⟨hdone.trans hkeep, ?_⟩
    rintro ⟨s, x⟩ ⟨e', he', hx⟩
    obtain rfl := mem_singleton.mp he'
    rcases hnew s x hx with hin | ⟨last, rest, rfl, hlast, hlt⟩
    · exact hin
    · obtain ⟨d, hd, hds, hdstart⟩ := hs last mem_cons_self
      have hde : entryKey d < entryKey e' := by
        rw [append_assoc, pairwise_append] at hstrict
        exact hstrict.2.2 d hd e' (by simp)
      obtain ⟨c, hc, hcd, hcx⟩ := horder d (by simp [hd]) e' (by simp) hde x
        (hds.trans hlast ▸ hx) (hdstart ▸ hlt)
      have hcdone : c ∈ done := by
        rw [append_assoc, mem_append] at hc
        refine hc.resolve_right fun hc => ?_
        rw [append_assoc, pairwise_append] at hstrict
        have hce : entryKey e' ≤ entryKey c := by
          rcases mem_cons.mp hc with rfl | hc
          · exact le_refl _
          · exact ((pairwise_cons.mp hstrict.2.1).1 c hc).le
        exact absurd (hce.trans_lt hcd) (lt_asymm hde)
      exact hkeep (hdone ⟨c, hcdone, hds.trans hlast ▸ hcx⟩)

theorem coalesceEntries_extends {last : CoverageSetEntryV2} {rest : List CoverageSetEntryV2}
    (h : coalesceEntries (last :: rest) es = .ok out') :
    ∃ added last', out' = added ++ last' :: rest ∧ scope last' = scope last ∧
      last'.rowStart = last.rowStart := by
  induction es generalizing last rest with
  | nil => exact ⟨[], last, (Except.ok.inj h).symm, rfl, rfl⟩
  | cons e es ih =>
    obtain ⟨mid, hmid, h⟩ := of_andThen h
    rcases coalesceEntry_ok hmid with rfl | ⟨last', rest', heq, -, -, rfl⟩
    · obtain ⟨added, e', rfl, -, -⟩ := ih h
      exact ⟨added ++ [e'], last, by simp, rfl, rfl⟩
    · obtain ⟨rfl, rfl⟩ := List.cons.inj heq
      obtain ⟨added, last'', rfl, hscope, hstart⟩ := ih h
      exact ⟨added, last'', rfl, hscope, hstart⟩

theorem coalesceEntries_append {front back : List CoverageSetEntryV2}
    (h : coalesceEntries out (front ++ back) = .ok out') :
    ∃ mid, coalesceEntries out front = .ok mid ∧ coalesceEntries mid back = .ok out' := by
  induction front generalizing out with
  | nil => exact ⟨out, rfl, h⟩
  | cons e front ih =>
    obtain ⟨next, hnext, h⟩ := of_andThen h
    obtain ⟨mid, hfront, hback⟩ := ih h
    exact ⟨mid, andThen_ok hnext hfront, hback⟩

theorem kind_coalesceEntries (h : coalesceEntries out es = .ok out')
    (hout : ∀ o ∈ out, o.targetKind = .rowRange) (hes : ∀ e ∈ es, e.targetKind = .rowRange) :
    ∀ o ∈ out', o.targetKind = .rowRange := by
  induction es generalizing out with
  | nil =>
    cases h
    exact hout
  | cons e es ih =>
    obtain ⟨he, hes⟩ := forall_mem_cons.mp hes
    obtain ⟨mid, hmid, h⟩ := of_andThen h
    refine ih h ?_ hes
    rcases coalesceEntry_ok hmid with rfl | ⟨last, rest, rfl, -, -, rfl⟩
    · exact forall_mem_cons.mpr ⟨he, hout⟩
    · exact forall_mem_cons.mpr (forall_mem_cons.mp hout)

/-- The head of the ranges so far starts after a row that an entry starting later shows: when
the row is not covered, the range pushed last starts after it. -/
theorem head_starts_after (h : coalesceEntry out d = .ok out') (hx : x < d.rowStart)
    (hnot : (scope d, x) ∉ rows out) :
    ∃ last rest, out' = last :: rest ∧ scope last = scope d ∧ x < last.rowStart := by
  rcases coalesceEntry_ok h with rfl | ⟨last, rest, rfl, ⟨-, -, hscope⟩, hle, rfl⟩
  · exact ⟨d, out, rfl, rfl, hx⟩
  · refine ⟨_, rest, rfl, hscope, ?_⟩
    by_contra hge
    exact hnot ⟨last, by simp, hscope, not_lt.mp hge, hx.trans_le hle⟩

theorem inOrder_of_rows (h : coalesceEntries [] es = .ok out)
    (hstrict : es.Pairwise fun a b => entryKey a < entryKey b)
    (hkind : ∀ e ∈ es, e.targetKind = .rowRange)
    (hvalid : validateCoverageEntries out.reverse = .ok ()) (hrows : rows es ⊆ rows out) :
    InOrder es := by
  intro d hd e he hde x hex hx
  by_contra hnone
  obtain ⟨front, back, rfl⟩ := append_of_mem hd
  obtain ⟨mid, hfront, hback⟩ := coalesceEntries_append h
  obtain ⟨next, hnext, hlast⟩ := of_andThen hback
  have hfrontkey : ∀ c ∈ front, entryKey c < entryKey d := fun c hc =>
    (pairwise_append.mp hstrict).2.2 c hc d (by simp)
  have hmid : (scope d, x) ∉ rows mid := by
    intro hin
    obtain ⟨c, hc, hcx⟩ := rows_coalesceEntries hfront hin
    rw [nil_append] at hc
    exact hnone ⟨c, by simp [hc], hfrontkey c hc, hcx⟩
  have hnextrows : (scope d, x) ∉ rows next := by
    intro hin
    have hin' := (rows_coalesceEntry hnext).1 hin
    rw [rows_cons] at hin'
    rcases hin' with ⟨-, hge, -⟩ | hin'
    · exact absurd hx (not_lt.mpr hge)
    · exact hmid hin'
  obtain ⟨last, rest, rfl, hscope, hlt⟩ := head_starts_after hnext hx hmid
  obtain ⟨added, last', rfl, hscope', hstart'⟩ := coalesceEntries_extends hlast
  have hallkind := kind_coalesceEntries h (by simp) hkind
  obtain ⟨o, ho, hos, hoge, holt⟩ := hrows (show (scope d, x) ∈ rows _ from ⟨e, he, hex⟩)
  rcases mem_append.mp ho with ho' | ho'
  · -- a range pushed later starts after the last one
    have hapart := (validateEntries_ok hvalid).2.2.2
    rw [pairwise_reverse, pairwise_append] at hapart
    have hle := hapart.2.2 o ho' last' mem_cons_self (hallkind last' (by simp))
      (hallkind o ho) ((hscope'.trans hscope).trans hos.symm)
    omega
  · rcases mem_cons.mp ho' with rfl | ho'
    · omega
    · exact hnextrows ⟨o, by simp [ho'], hos, hoge, holt⟩

theorem inOrder_congr (h : ∀ e, e ∈ es ↔ e ∈ out) : InOrder es ↔ InOrder out := by
  simp only [InOrder, h]

theorem coalesceRowRanges_rows_iff (hstrict : es.Pairwise fun a b => entryKey a < entryKey b)
    (hkind : ∀ e ∈ es, e.targetKind = .rowRange) (h : coalesceRowRanges es = .ok out) :
    rows out = rows es ↔ InOrder es := by
  obtain ⟨reversed, hloop, h⟩ := of_andThen h
  rw [sortByKey_of_sorted (hstrict.imp le_of_lt)] at hloop
  obtain ⟨hvalid, h⟩ := of_check h
  have hreverse : rows reversed.reverse = rows reversed := rows_congr fun e => mem_reverse
  rw [← Except.ok.inj h, hreverse]
  constructor
  · intro hrows
    exact inOrder_of_rows hloop hstrict hkind hvalid hrows.ge
  · intro horder
    have hgain := rows_coalesceEntries hloop
    have hempty : StartsAmong [] [] := fun o ho => by cases ho
    have hkeep : rows ([] ++ es) ⊆ rows reversed :=
      rows_of_inOrder hloop hstrict horder (fun _ hp => hp) hempty
    exact Set.Subset.antisymm hgain hkeep

theorem union_rows_iff (h : coverageUnion l.entries r.entries = .ok out) :
    rows out = rows l.entries ∪ rows r.entries ↔ InOrder (l.entries ++ r.entries) := by
  have hmem : ∀ e, e ∈ dedupAdjacent (sortByKey entryKey (l.entries ++ r.entries)) ↔
      e ∈ l.entries ++ r.entries := fun e => by
    rw [mem_dedupAdjacent, (sortByKey_perm entryKey _).mem_iff]
  have hkind : ∀ e ∈ dedupAdjacent (sortByKey entryKey (l.entries ++ r.entries)),
      e.targetKind = .rowRange := by
    intro e he
    rcases mem_append.mp ((hmem e).mp he) with he | he
    · exact l.rowRange e he
    · exact r.rowRange e he
  rw [← rows_append, ← rows_congr hmem, ← inOrder_congr hmem]
  exact coalesceRowRanges_rows_iff
    (dedupAdjacent_strict entryKey_injective (sortByKey_pairwise _ _)) hkind h

theorem inOrder_valid : InOrder l.entries := by
  rintro d hd e he hde x ⟨hs, hge, -⟩ hx
  have hle := apart_of_lt l.valid hd he hde (l.rowRange d hd) (l.rowRange e he) hs.symm
  omega

theorem coarsen_rows (h : coverageCoarsen l.entries = .ok out) : rows out = rows l.entries :=
  (coalesceRowRanges_rows_iff (validateEntries_ok l.valid).2.1 l.rowRange h).mpr inOrder_valid

theorem intersection_rows_iff (h : coverageIntersection l.entries r.entries = .ok out) :
    rows l.entries ∩ rows r.entries ⊆ rows out ↔ OverlapsEqual l.entries r.entries := by
  replace h := rest_ok h
  cases h
  constructor
  · intro hrows a ha b hb s x hax hbx
    obtain ⟨c, hc, hcx⟩ := hrows (show (s, x) ∈ _ from ⟨⟨a, ha, hax⟩, ⟨b, hb, hbx⟩⟩)
    obtain ⟨hcl, hcr⟩ := mem_filter.mp hc
    rw [eq_of_covers ha hcl hax hcx, eq_of_covers hb (of_decide_eq_true hcr) hbx hcx]
  · rintro heq ⟨s, x⟩ ⟨⟨a, ha, hax⟩, ⟨b, hb, hbx⟩⟩
    obtain rfl := heq a ha b hb s x hax hbx
    exact ⟨a, mem_filter.mpr ⟨ha, decide_eq_true hb⟩, hax⟩

/-- Coarsening covers the rows of its input. A union covers the rows of both inputs exactly when
no range reaches below the start of an earlier one of its scope on a row that nothing before it
covers; an intersection covers the common rows exactly when overlapping entries are equal. -/
theorem coverage_algebra_iff (l r : RowRanges) :
    (∀ out, coverageUnion l.entries r.entries = .ok out →
      (rows out = rows l.entries ∪ rows r.entries ↔ InOrder (l.entries ++ r.entries))) ∧
    (∀ out, coverageCoarsen l.entries = .ok out → rows l.entries ⊆ rows out) ∧
    (∀ out, coverageIntersection l.entries r.entries = .ok out →
      (rows l.entries ∩ rows r.entries ⊆ rows out ↔ OverlapsEqual l.entries r.entries)) ∧
    ∀ out, coverageRefine l.entries r.entries = .ok out →
      (rows l.entries ∩ rows r.entries ⊆ rows out ↔ OverlapsEqual l.entries r.entries) := by
  refine ⟨fun out h => union_rows_iff h, fun out h => ?_, fun out h => intersection_rows_iff h,
    fun out h => intersection_rows_iff h⟩
  rw [coarsen_rows h]

section

variable (pageRef rowStart rowCount : Nat)

def pageRange : CoverageSetEntryV2 where
  targetKind := .rowRange
  flags := 0
  fileRef := 0
  tableId := 0
  segmentId := 0
  morselId := 0
  pageRef := pageRef
  objectTypeId := 0
  pathRef := 0
  dimensionalBucketRef := 0
  rowStart := rowStart
  rowCount := rowCount
  rowOrdinalBitmapRef := 0
  byteRangeRef := 0
  checksum := 0

def onePage : RowRanges where
  entries := [pageRange pageRef rowStart rowCount]
  rowRange := fun e he => by obtain rfl := List.mem_singleton.mp he; rfl
  valid := rfl

end

/-- What the algebra is for. -/
def KeepsRows (l r : RowRanges) : Prop :=
  (∀ out, coverageUnion l.entries r.entries = .ok out →
    rows out = rows l.entries ∪ rows r.entries) ∧
  (∀ out, coverageCoarsen l.entries = .ok out → rows l.entries ⊆ rows out) ∧
  (∀ out, coverageIntersection l.entries r.entries = .ok out →
    rows l.entries ∩ rows r.entries ⊆ rows out) ∧
  ∀ out, coverageRefine l.entries r.entries = .ok out →
    rows l.entries ∩ rows r.entries ⊆ rows out

/-- Rows 0 to 4 of the second page are merged into the range that starts at row 10. -/
theorem union_drops_page : ¬ ∀ l r : RowRanges, KeepsRows l r := by
  intro hall
  have hunion : coverageUnion (onePage 1 10 10).entries (onePage 2 0 5).entries =
      .ok [pageRange 1 10 10] := by decide
  have hrows := (hall (onePage 1 10 10) (onePage 2 0 5)).1 _ hunion
  have hin : ((0, 0, 0, 0), 0) ∈ rows [pageRange 1 10 10] := by
    rw [hrows]
    exact .inr ⟨pageRange 2 0 5, by simp [onePage], rfl, by decide, by decide⟩
  obtain ⟨e, he, -, hge, -⟩ := hin
  obtain rfl := mem_singleton.mp he
  exact absurd hge (by decide)

/-- A later page that continues a range is merged without a loss. -/
theorem coverage_algebra_iff_continued :
    rows [pageRange 1 0 15] = rows (onePage 1 0 10).entries ∪ rows (onePage 2 5 10).entries := by
  have hunion : coverageUnion (onePage 1 0 10).entries (onePage 2 5 10).entries =
      .ok [pageRange 1 0 15] := by decide
  refine ((coverage_algebra_iff (onePage 1 0 10) (onePage 2 5 10)).1 _ hunion).mpr ?_
  intro d hd e he hlt x _ hx
  rcases mem_cons.mp hd with rfl | hd
  · exact absurd hx (Nat.not_lt_zero x)
  · obtain rfl := mem_singleton.mp hd
    rcases mem_cons.mp he with rfl | he
    · exact absurd hlt (by decide)
    · obtain rfl := mem_singleton.mp he
      exact absurd hlt (lt_irrefl _)

end CoveFormat.CoverageAlgebra
