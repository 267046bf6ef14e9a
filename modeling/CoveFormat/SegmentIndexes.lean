import CoveFormat.ScanSplits
import CoveFormat.StackedRanges

namespace CoveFormat.SegmentIndexes

open CheckedArith ExceptRules Grouping List ScanSplits SortedKeys StackedRanges

/-- The row counts are 32 bits wide. -/
structure TableSegmentIndex where
  flags : Nat
  entries : List TableSegmentIndexEntryV1
  rowCount_lt : ∀ e ∈ entries, e.rowCount < 2 ^ 32

def TableSegmentIndex.validate (index : TableSegmentIndex) : Except CoveError Unit :=
  validateSegmentIndex index.entries

section

variable {es : List TableSegmentIndexEntryV1} {e : TableSegmentIndexEntryV1} {next : Nat}

/-- In some order the rows of the segments follow one another from row 0 on. -/
def TilesRows (es : List TableSegmentIndexEntryV1) : Prop :=
  ∃ order : List TableSegmentIndexEntryV1, order.Perm es ∧ Stacks (·.rowStart) (·.rowCount) 0 order

/-- The pairs of ids are distinct and the segments of each table tile its rows. -/
structure ExactIndex (es : List TableSegmentIndexEntryV1) : Prop where
  distinct : (es.map fun e => (e.tableId, e.segmentId)).Nodup
  tiles : ∀ table, TilesRows (under (·.tableId) table es)

/-- No empty segment comes after a segment of its table with the same start that has rows. -/
def EmptySegmentsFirst (es : List TableSegmentIndexEntryV1) : Prop :=
  es.Pairwise fun a b => a.tableId = b.tableId → a.rowStart = b.rowStart → 0 < a.rowCount →
    0 < b.rowCount

/-- No empty segment has the start of a segment of its table that has rows. -/
def EmptySegmentsApart (es : List TableSegmentIndexEntryV1) : Prop :=
  ∀ a ∈ es, ∀ b ∈ es, a.tableId = b.tableId → a.rowStart = b.rowStart → 0 < a.rowCount →
    0 < b.rowCount

theorem checkContiguous_ok_iff (hfit : next + (es.map (·.rowCount)).sum < 2 ^ 64) :
    checkContiguous next es = .ok () ↔ Stacks (·.rowStart) (·.rowCount) next es := by
  induction es generalizing next with
  | nil => exact iff_of_true rfl trivial
  | cons e es ih =>
    rw [map_cons, sum_cons] at hfit
    simp only [checkContiguous, andThen_eq_ok_iff, rejectIf_eq_ok_iff, checkedAdd_ok_iff, not_not,
      Stacks]
    constructor
    · rintro ⟨-, rfl, stop, ⟨-, rfl⟩, h⟩
      exact ⟨rfl, (ih (by omega)).mp h⟩
    · rintro ⟨rfl, h⟩
      exact ⟨(), rfl, _, ⟨by omega, rfl⟩, (ih (by omega)).mpr h⟩

theorem nodup_segmentIds (hnodup : (es.map fun e => (e.tableId, e.segmentId)).Nodup) (table : Nat) :
    ((under (·.tableId) table es).map (·.segmentId)).Nodup := by
  rw [List.Nodup, pairwise_map] at hnodup ⊢
  refine (hnodup.filter _).imp_of_mem fun {a b} ha hb hne heq => hne ?_
  rw [(mem_under.mp ha).2, (mem_under.mp hb).2, heq]

theorem sum_rowCount_lt (hcount : ∀ e ∈ es, e.rowCount < 2 ^ 32)
    (hnodup : (es.map (·.segmentId)).Nodup) : (es.map (·.rowCount)).sum < 2 ^ 64 := by
  have hlen : es.length ≤ 2 ^ 32 := by
    have hsub : (es.map (·.segmentId)).toFinset ⊆ Finset.range (2 ^ 32) := by
      intro id hid
      obtain ⟨e, -, rfl⟩ := mem_map.mp (List.mem_toFinset.mp hid)
      exact Finset.mem_range.mpr e.segmentId_lt
    have hcard := Finset.card_le_card hsub
    rwa [toFinset_card_of_nodup hnodup, length_map, Finset.card_range] at hcard
  have hsum := sum_le_card_nsmul (es.map (·.rowCount)) (2 ^ 32 - 1) (by
    intro n hn
    obtain ⟨e, he, rfl⟩ := mem_map.mp hn
    have hlt := hcount e he
    omega)
  rw [length_map, Nat.nsmul_eq_mul] at hsum
  omega

theorem emptySegmentsFirst_iff : EmptySegmentsFirst es ↔
    ∀ table, EmptyFirst (·.rowStart) (·.rowCount) (under (·.tableId) table es) := by
  simp only [EmptySegmentsFirst, EmptyFirst, pairwise_iff_forall_sublist]
  constructor
  · intro h table a b hab
    have ha := (mem_under.mp (hab.subset mem_cons_self)).2
    have hb := (mem_under.mp (hab.subset (mem_cons_of_mem _ mem_cons_self))).2
    exact h (hab.trans filter_sublist) (ha.trans hb.symm)
  · intro h a b hab htable
    refine h a.tableId ?_
    have hpair := hab.filter fun e => e.tableId = a.tableId
    rwa [filter_eq_self.mpr (by simp [htable])] at hpair

theorem under_eq_nil {table : Nat} (h : table ∉ keysOf (·.tableId) es) :
    under (·.tableId) table es = [] := by
  refine filter_eq_nil_iff.mpr fun e he htable => h ?_
  exact mem_keysOf.mpr ⟨e, he, of_decide_eq_true htable⟩

theorem keysOf_tiles (h : ∀ table ∈ keysOf (·.tableId) es, TilesRows (under (·.tableId) table es))
    (table : Nat) : TilesRows (under (·.tableId) table es) := by
  by_cases hmem : table ∈ keysOf (·.tableId) es
  · exact h table hmem
  · rw [under_eq_nil hmem]
    exact ⟨[], .refl _, trivial⟩

variable {index index' : TableSegmentIndex} {table : Nat}

theorem groups_fit (hnodup : (index.entries.map fun e => (e.tableId, e.segmentId)).Nodup) :
    0 + ((sortByKey (·.rowStart) (under (·.tableId) table index.entries)).map (·.rowCount)).sum <
      2 ^ 64 := by
  have hperm := sortByKey_perm (·.rowStart) (under (·.tableId) table index.entries)
  rw [Nat.zero_add, (hperm.map _).sum_eq]
  exact sum_rowCount_lt (fun e he => index.rowCount_lt e (mem_under.mp he).1)
    (nodup_segmentIds hnodup table)

theorem validate_ok_iff : index.validate = .ok () ↔
    ExactIndex index.entries ∧ EmptySegmentsFirst index.entries := by
  rw [TableSegmentIndex.validate, validateSegmentIndex, andThen_eq_ok_iff]
  simp only [rejectIf_eq_ok_iff, not_not, checkAll_eq_ok_iff, grouped, forall_mem_map]
  constructor
  · rintro ⟨-, hnodup, hgroups⟩
    have hstacks : ∀ table ∈ keysOf (·.tableId) index.entries,
        TilesRows (under (·.tableId) table index.entries) ∧
          EmptyFirst (·.rowStart) (·.rowCount) (under (·.tableId) table index.entries) := by
      intro table htable
      exact stacks_sortByKey_iff.mp ((checkContiguous_ok_iff (groups_fit hnodup)).mp
        (hgroups table htable))
    refine ⟨⟨hnodup, keysOf_tiles fun table htable => (hstacks table htable).1⟩, ?_⟩
    rw [emptySegmentsFirst_iff]
    intro table
    by_cases hmem : table ∈ keysOf (·.tableId) index.entries
    · exact (hstacks table hmem).2
    · rw [under_eq_nil hmem]
      exact .nil
  · rintro ⟨⟨hnodup, htiles⟩, hempty⟩
    refine ⟨(), hnodup, fun table _ => (checkContiguous_ok_iff (groups_fit hnodup)).mpr ?_⟩
    exact stacks_sortByKey_iff.mpr ⟨htiles table, emptySegmentsFirst_iff.mp hempty table⟩

theorem ExactIndex.perm (h : ExactIndex index.entries) (hperm : index'.entries.Perm index.entries) :
    ExactIndex index'.entries := by
  refine ⟨(hperm.map _).nodup_iff.mpr h.distinct, fun table => ?_⟩
  obtain ⟨order, horder, hstack⟩ := h.tiles table
  exact ⟨order, horder.trans (hperm.filter _).symm, hstack⟩

theorem emptySegmentsFirst_sorted (es : List TableSegmentIndexEntryV1) :
    EmptySegmentsFirst (sortByKey (·.rowCount) es) := by
  refine (sortByKey_pairwise (fun e : TableSegmentIndexEntryV1 => e.rowCount) es).imp ?_
  intro a b hle _ _ hpos
  exact hpos.trans_le hle

theorem emptySegmentsApart_iff {es : List TableSegmentIndexEntryV1} :
    EmptySegmentsApart es ↔ ∀ es', es'.Perm es → EmptySegmentsFirst es' := by
  constructor
  · intro h es' hperm
    refine pairwise_of_forall_mem_list fun a ha b hb => ?_
    exact h a (hperm.subset ha) b (hperm.subset hb)
  · intro h a ha b hb htable hstart hpos
    by_contra hzero
    have hne : b ≠ a := fun heq => hzero (heq ▸ hpos)
    have hb' : b ∈ es.erase a := (mem_erase_of_ne hne).mpr hb
    have hperm : (a :: es.erase a).Perm es := (perm_cons_erase ha).symm
    exact hzero ((pairwise_cons.mp (h _ hperm)).1 b hb' htable hstart hpos)

def TableSegmentIndex.reordered (index : TableSegmentIndex) (es : List TableSegmentIndexEntryV1)
    (h : es.Perm index.entries) : TableSegmentIndex :=
  ⟨index.flags, es, fun e he => index.rowCount_lt e (h.subset he)⟩

theorem order_free_iff : (∀ index' : TableSegmentIndex, index'.entries.Perm index.entries →
      (index'.validate = .ok () ↔ index.validate = .ok ())) ↔
    (ExactIndex index.entries → EmptySegmentsApart index.entries) := by
  constructor
  · intro h hexact
    have hperm := sortByKey_perm (fun e : TableSegmentIndexEntryV1 => e.rowCount) index.entries
    have hsorted := (h (index.reordered _ hperm) hperm).mp (validate_ok_iff.mpr
      ⟨hexact.perm hperm, emptySegmentsFirst_sorted index.entries⟩)
    refine emptySegmentsApart_iff.mpr fun es hes => ?_
    exact (validate_ok_iff.mp ((h (index.reordered es hes) hes).mpr hsorted)).2
  · intro h index' hperm
    rw [validate_ok_iff, validate_ok_iff]
    constructor
    · rintro ⟨hexact, -⟩
      have hexact := hexact.perm hperm.symm
      exact ⟨hexact, emptySegmentsApart_iff.mp (h hexact) _ (.refl _)⟩
    · rintro ⟨hexact, -⟩
      exact ⟨hexact.perm hperm, emptySegmentsApart_iff.mp (h hexact) _ hperm⟩

/-- The validation is exact on an index unless an empty segment follows, in the index, a segment of
its table with the same start that has rows; in every order unless two such segments exist. -/
theorem validate_exact_iff (index : TableSegmentIndex) :
    ((index.validate = .ok () ↔ ExactIndex index.entries) ↔
      (ExactIndex index.entries → EmptySegmentsFirst index.entries)) ∧
    ((∀ index' : TableSegmentIndex, index'.entries.Perm index.entries →
        (index'.validate = .ok () ↔ index.validate = .ok ())) ↔
      (ExactIndex index.entries → EmptySegmentsApart index.entries)) := by
  refine ⟨?_, order_free_iff⟩
  rw [validate_ok_iff]
  tauto

theorem one_lt_u32 : 1 < 2 ^ 32 := by decide

theorem two_lt_u32 : 2 < 2 ^ 32 := by decide

theorem five_lt_u32 : 5 < 2 ^ 32 := by decide

def lateEmptySegment : TableSegmentIndex where
  flags := 0
  entries := [⟨1, 1, 0, 5, 1, 5, 0, 0, one_lt_u32, one_lt_u32, five_lt_u32⟩,
    ⟨1, 2, 0, 0, 0, 5, 0, 0, two_lt_u32, by decide, five_lt_u32⟩]
  rowCount_lt := by decide

theorem late_empty_segment_rejected : ¬ (lateEmptySegment.validate = .ok () ↔
    ExactIndex lateEmptySegment.entries) := by
  intro h
  have hrejected : lateEmptySegment.validate ≠ .ok () := by decide +kernel
  refine hrejected (h.mpr ⟨by decide, fun table => ?_⟩)
  by_cases htable : table = 1
  · subst htable
    exact ⟨lateEmptySegment.entries.reverse, by decide, by decide⟩
  · refine ⟨[], ?_, trivial⟩
    simp [under, lateEmptySegment, Ne.symm htable]

end

end CoveFormat.SegmentIndexes
