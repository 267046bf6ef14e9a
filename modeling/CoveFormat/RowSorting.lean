import CoveFormat.BoundedHeaps
import CoveFormat.FilterKernels
import CoveFormat.ScanSplits

namespace CoveFormat.RowSorting

open BoundedHeaps CheckedArith FilterKernels List Option SelectionBitmaps
open ScanSplits (checkedMul checkedMul_ok_iff)

inductive NativeSortDirection
  | ascending
  | descending

inductive NativeNullOrder
  | first
  | last

section

variable (values : List Int) (validity : ValidityRef) (direction : NativeSortDirection)
  (nullOrder : NativeNullOrder)

def compareI64Rows (left right : Nat) : Ordering :=
  match validity.isValid left, validity.isValid right with
  | false, false => compare left right
  | false, true =>
    match nullOrder with
    | .first => .lt
    | .last => .gt
  | true, false =>
    match nullOrder with
    | .first => .gt
    | .last => .lt
  | true, true =>
    let ordering := (compare (values.getD left 0) (values.getD right 0)).then (compare left right)
    match direction with
    | .ascending => ordering
    | .descending => ordering.swap

def sideKey (row : Nat) : Nat :=
  match nullOrder, validity.isValid row with
  | .first, false | .last, true => 0
  | .first, true | .last, false => 1

def valueKey (row : Nat) : Int :=
  match validity.isValid row, direction with
  | false, _ => 0
  | true, .ascending => values.getD row 0
  | true, .descending => -values.getD row 0

def rowKey (row : Nat) : Int :=
  match validity.isValid row, direction with
  | false, _ | true, .ascending => row
  | true, .descending => -row

theorem compare_neg (a b : Int) : compare (-a) (-b) = (compare a b).swap := by
  rcases lt_trichotomy a b with h | rfl | h
  · rw [compare_lt_iff_lt.mpr h]
    exact compare_gt_iff_gt.mpr (neg_lt_neg h)
  · rw [Std.ReflOrd.compare_self, Std.ReflOrd.compare_self]
    rfl
  · rw [compare_gt_iff_gt.mpr h]
    exact compare_lt_iff_lt.mpr (neg_lt_neg h)

theorem compareI64Rows_eq : compareI64Rows values validity direction nullOrder =
    compareLex (compareOn (sideKey validity nullOrder))
      (compareLex (compareOn (valueKey values validity direction))
        (compareOn (rowKey validity direction))) := by
  funext left right
  simp only [compareI64Rows, compareLex, compareOn, sideKey, valueKey, rowKey]
  have hless : compare 0 1 = Ordering.lt := rfl
  have hgreater : compare 1 0 = Ordering.gt := rfl
  cases validity.isValid left <;> cases validity.isValid right
  · cases nullOrder <;> simp [SortedKeys.compare_natCast]
  · cases nullOrder <;> simp [hless, hgreater]
  · cases nullOrder <;> simp [hless, hgreater]
  · cases nullOrder <;> cases direction <;> simp [compare_neg, SortedKeys.compare_natCast, Ordering.swap_then]

instance : Std.TransCmp (compareI64Rows values validity direction nullOrder) := by
  rw [compareI64Rows_eq]
  infer_instance

theorem compareI64Rows_eq_eq {left right : Nat}
    (h : compareI64Rows values validity direction nullOrder left right = .eq) : left = right := by
  unfold compareI64Rows at h
  split at h
  · exact Nat.compare_eq_eq.mp h
  · cases nullOrder <;> cases h
  · cases nullOrder <;> cases h
  · have hrow : compare left right = .eq := by
      cases direction with
      | ascending => exact (Ordering.then_eq_eq.mp h).2
      | descending => exact (Ordering.then_eq_eq.mp (Ordering.swap_eq_eq.mp h)).2
    exact Nat.compare_eq_eq.mp hrow

instance : Std.LawfulEqCmp (compareI64Rows values validity direction nullOrder) where
  eq_of_compare := compareI64Rows_eq_eq values validity direction nullOrder

end

/-! The kernels. -/

/-- `u32` row ids. -/
abbrev SelectionVector := List Nat

/-- Not `base.is_some_and(|bitmap| !bitmap.contains(row))`. -/
def inBase (base : Option SelectionBitmap) (row : Nat) : Bool :=
  !(base.any fun bitmap => !bitmap.contains row)

def countRow (validity : ValidityRef) (row : Nat) (stats : KernelStats) : KernelStats :=
  { stats with
    rowsValid := if validity.isValid row then stats.rowsValid + 1 else stats.rowsValid
    rowsMatched := stats.rowsMatched + 1 }

def visitRow (base : Option SelectionBitmap) (validity : ValidityRef) (keep : List Nat → Nat → List Nat)
    (state : List Nat × KernelStats) (row : Nat) : Except CoveError (List Nat × KernelStats) :=
  if inBase base row then
    (rowId row).map fun row => (keep state.1 row, countRow validity row state.2)
  else .ok state

def visitRows (base : Option SelectionBitmap) (validity : ValidityRef)
    (keep : List Nat → Nat → List Nat) (rowCount bytesTouched : Nat) :
    Except CoveError (List Nat × KernelStats) :=
  (range rowCount).foldlM (visitRow base validity keep) ([], .start rowCount bytesTouched)

def addRows (rows : List Nat) (stats : KernelStats) : Except CoveError KernelStats := do
  let bytes ← checkedMul rows.length 4
  let touched ← checkedAdd stats.bytesTouchedEstimate bytes
  .ok { stats with bytesTouchedEstimate := touched }

inductive Outcome (α : Type)
  | returned (result : Except CoveError α)
  | panicked
  deriving DecidableEq

def Outcome.map {α β : Type} (f : α → β) : Outcome α → Outcome β
  | .returned result => .returned (result.map f)
  | .panicked => .panicked

/-- `with_capacity` panics for more than `isize::MAX` bytes. -/
def withCapacity {α : Type} (capacity size : Nat) (body : Except CoveError α) : Outcome α :=
  if capacity * size < 2 ^ 63 then .returned body else .panicked

section

/- `itemBytes` is `size_of::<I64TopRow>()`. -/
variable (itemBytes : Nat) (values : List Int) (validity : ValidityRef) (direction : NativeSortDirection)
  (nullOrder : NativeNullOrder) (base : Option SelectionBitmap) (limit : Nat)

def rowCapacity : Nat := base.elim values.length SelectionBitmap.countOnes

def collectSorted : Except CoveError (SelectionVector × KernelStats) := do
  let touched ← checkedMul values.length 8
  let (rows, stats) ← visitRows base validity (fun rows row => rows ++ [row]) values.length touched
  let stats ← addRows rows stats
  .ok (sortBy (compareI64Rows values validity direction nullOrder) rows, stats)

def sortRowsI64WithStats : Outcome (SelectionVector × KernelStats) :=
  if validity.rowCount ≠ values.length then .returned (.error .pageCorrupt)
  else
    withCapacity (rowCapacity values base) 4 (collectSorted values validity direction nullOrder base)

def sortRowsI64 : Outcome SelectionVector :=
  (sortRowsI64WithStats values validity direction nullOrder base).map Prod.fst

def keepBest (heap : List Nat) (row : Nat) : List Nat :=
  let cmp := compareI64Rows values validity direction nullOrder
  if heap.length < limit then row :: heap
  else if (peek cmp heap).any fun worst => cmp row worst = .lt then row :: pop cmp heap
  else heap

def collectBest (touched : Nat) : Except CoveError (SelectionVector × KernelStats) := do
  let (heap, stats) ←
    visitRows base validity (keepBest values validity direction nullOrder limit) values.length touched
  let rows := sortBy (compareI64Rows values validity direction nullOrder) heap
  let stats ← addRows rows stats
  .ok (rows, stats)

def topNRowsI64WithStats : Outcome (SelectionVector × KernelStats) :=
  if validity.rowCount ≠ values.length then .returned (.error .pageCorrupt)
  else
    match checkedMul values.length 8 with
    | .error e => .returned (.error e)
    | .ok touched =>
      if limit = 0 then .returned (.ok ([], .start values.length touched))
      else
        withCapacity limit itemBytes
          (collectBest values validity direction nullOrder base limit touched)

end

/-! What the loops keep. -/

section

variable {base : Option SelectionBitmap} {validity : ValidityRef} {keep : List Nat → Nat → List Nat}
  {rows : List Nat}

theorem visit_ok (h : ∀ row ∈ rows, inBase base row = true → row < 2 ^ 32) (kept : List Nat)
    (stats : KernelStats) :
    ∃ stats', rows.foldlM (visitRow base validity keep) (kept, stats) =
        .ok ((rows.filter (inBase base)).foldl keep kept, stats') ∧
      stats'.bytesTouchedEstimate = stats.bytesTouchedEstimate := by
  induction rows generalizing kept stats with
  | nil => exact ⟨stats, rfl, rfl⟩
  | cons row rows ih =>
    obtain ⟨hrow, hrows⟩ := forall_mem_cons.mp h
    rw [foldlM_cons, visitRow]
    by_cases hbase : inBase base row = true
    · rw [if_pos hbase, rowId, if_pos (hrow hbase), filter_cons_of_pos hbase, foldl_cons]
      exact ih hrows _ _
    · rw [if_neg hbase, filter_cons_of_neg hbase]
      exact ih hrows _ _

theorem visit_error (h : ∃ row ∈ rows, inBase base row = true ∧ 2 ^ 32 ≤ row)
    (state : List Nat × KernelStats) :
    rows.foldlM (visitRow base validity keep) state = .error .arithOverflow := by
  induction rows generalizing state with
  | nil =>
    obtain ⟨row, hmem, -⟩ := h
    cases hmem
  | cons row rows ih =>
    rw [foldlM_cons, visitRow]
    by_cases hfar : inBase base row = true ∧ 2 ^ 32 ≤ row
    · rw [if_pos hfar.1, rowId, if_neg (Nat.not_lt.mpr hfar.2)]
      rfl
    · have hrest : ∃ row ∈ rows, inBase base row = true ∧ 2 ^ 32 ≤ row := by
        obtain ⟨far, hmem, hfar'⟩ := h
        rcases mem_cons.mp hmem with rfl | hmem
        · exact absurd hfar' hfar
        · exact ⟨far, hmem, hfar'⟩
      by_cases hbase : inBase base row = true
      · have hlt : row < 2 ^ 32 := by
          by_contra hle
          exact hfar ⟨hbase, Nat.le_of_not_lt hle⟩
        rw [if_pos hbase, rowId, if_pos hlt]
        exact ih hrest _
      · rw [if_neg hbase]
        exact ih hrest _

theorem foldl_append (kept : List Nat) :
    rows.foldl (fun kept row => kept ++ [row]) kept = kept ++ rows := by
  induction rows generalizing kept with
  | nil => exact (append_nil kept).symm
  | cons row rows ih => rw [foldl_cons, ih, append_assoc, singleton_append]

theorem addRows_ok {stats : KernelStats} {count : Nat} (hcount : count * 8 < 2 ^ 63)
    (hlength : rows.length ≤ count) (hstats : stats.bytesTouchedEstimate = count * 8) :
    ∃ stats', addRows rows stats = .ok stats' := by
  have hbytes : rows.length * 4 < 2 ^ 64 := by omega
  have htouched : count * 8 + rows.length * 4 < 2 ^ 64 := by omega
  refine ⟨{ stats with bytesTouchedEstimate := count * 8 + rows.length * 4 }, ?_⟩
  simp only [addRows, checkedMul, checkedAdd, if_pos hbytes, if_pos htouched, hstats, bind, Except.bind]

end

section

variable {values : List Int} {validity : ValidityRef} {direction : NativeSortDirection}
  {nullOrder : NativeNullOrder} {limit : Nat} {seen heap rest : List Nat}

theorem keepBest_best
    (h : Best (compareI64Rows values validity direction nullOrder) limit seen heap rest) (row : Nat) :
    ∃ rest, Best (compareI64Rows values validity direction nullOrder) limit (seen ++ [row])
      (keepBest values validity direction nullOrder limit heap row) rest := by
  rw [keepBest]
  by_cases hroom : heap.length < limit
  · rw [if_pos hroom]
    exact ⟨rest, h.push hroom row⟩
  · rw [if_neg hroom]
    cases hpeek : peek (compareI64Rows values validity direction nullOrder) heap with
    | none =>
      refine ⟨row :: rest, h.skip hroom fun worst hworst => ?_⟩
      rw [hpeek] at hworst
      cases hworst
    | some worst =>
      by_cases hbeats : compareI64Rows values validity direction nullOrder row worst = .lt
      · rw [any_some, if_pos (decide_eq_true hbeats)]
        exact ⟨worst :: rest, h.replace hroom hpeek hbeats⟩
      · rw [any_some, if_neg (mt of_decide_eq_true hbeats)]
        refine ⟨row :: rest, h.skip hroom fun worst' hworst => ?_⟩
        rw [hpeek] at hworst
        exact some.inj hworst ▸ hbeats

theorem keepBest_run (rows : List Nat)
    (h : Best (compareI64Rows values validity direction nullOrder) limit seen heap rest) :
    ∃ rest, Best (compareI64Rows values validity direction nullOrder) limit (seen ++ rows)
      (rows.foldl (keepBest values validity direction nullOrder limit) heap) rest := by
  induction rows generalizing seen heap rest with
  | nil => exact ⟨rest, (append_nil seen).symm ▸ h⟩
  | cons row rows ih =>
    obtain ⟨rest', hrow⟩ := keepBest_best h row
    have hrun := ih hrow
    rw [append_assoc, singleton_append] at hrun
    exact hrun

end

/-! The kernels against the order of the rows. -/

section

variable (values : List Int) (validity : ValidityRef) (direction : NativeSortDirection)
  (nullOrder : NativeNullOrder) (base : Option SelectionBitmap)

def baseRows : List Nat := (range values.length).filter (inBase base)

/-- A null row does not stand on the wrong side of a valid one. -/
def NullsOrdered (left right : Nat) : Prop :=
  match nullOrder with
  | .first => validity.isValid left = true → validity.isValid right = true
  | .last => validity.isValid right = true → validity.isValid left = true

def ValuesOrdered (left right : Nat) : Prop :=
  match direction with
  | .ascending => values.getD left 0 ≤ values.getD right 0
  | .descending => values.getD right 0 ≤ values.getD left 0

structure SortedRows (rows : List Nat) : Prop where
  perm : rows.Perm (baseRows values base)
  nulls : rows.Pairwise (NullsOrdered validity nullOrder)
  valid : rows.Pairwise fun left right => validity.isValid left = true → validity.isValid right = true →
    ValuesOrdered values direction left right
  ordered : rows.Pairwise fun left right =>
    compareI64Rows values validity direction nullOrder left right = .lt

variable {values validity direction nullOrder base}

variable {left right : Nat}

section

variable (h : compareI64Rows values validity direction nullOrder left right = .lt)
include h

theorem nullsOrdered_of_lt : NullsOrdered validity nullOrder left right := by
  unfold compareI64Rows at h
  unfold NullsOrdered
  split at h
  · cases nullOrder <;> simp [*]
  · cases nullOrder <;> simp_all
  · cases nullOrder <;> simp_all
  · cases nullOrder <;> simp [*]

theorem valuesOrdered_of_lt (hleft : validity.isValid left = true)
    (hright : validity.isValid right = true) : ValuesOrdered values direction left right := by
  simp only [compareI64Rows, hleft, hright] at h
  cases direction with
  | ascending =>
    rcases Ordering.then_eq_lt.mp h with hlt | ⟨heq, -⟩
    · exact le_of_lt (compare_lt_iff_lt.mp hlt)
    · exact le_of_eq (compare_eq_iff_eq.mp heq)
  | descending =>
    rcases Ordering.then_eq_gt.mp (Ordering.swap_eq_lt.mp h) with hgt | ⟨heq, -⟩
    · exact le_of_lt (compare_gt_iff_gt.mp hgt)
    · exact ge_of_eq (compare_eq_iff_eq.mp heq)

end

theorem length_baseRows_le : (baseRows values base).length ≤ values.length :=
  (length_filter_le _ _).trans_eq length_range

theorem baseRows_nodup : (baseRows values base).Nodup := nodup_range.filter _

theorem sortedRows_sortBy : SortedRows values validity direction nullOrder base
    (sortBy (compareI64Rows values validity direction nullOrder) (baseRows values base)) := by
  have hordered : (sortBy (compareI64Rows values validity direction nullOrder)
      (baseRows values base)).Pairwise fun left right =>
        compareI64Rows values validity direction nullOrder left right = .lt :=
    sortBy_strict baseRows_nodup
  exact ⟨sortBy_perm _, hordered.imp nullsOrdered_of_lt, hordered.imp valuesOrdered_of_lt, hordered⟩

theorem checkedMul_slice (hslice : values.length * 8 < 2 ^ 63) :
    checkedMul values.length 8 = .ok (values.length * 8) :=
  checkedMul_ok_iff.mpr ⟨by omega, rfl⟩

theorem sortRowsI64_ok (hslice : values.length * 8 < 2 ^ 63)
    (hvalidity : validity.rowCount = values.length) (hcapacity : rowCapacity values base * 4 < 2 ^ 63)
    (hrows : ∀ row < values.length, inBase base row = true → row < 2 ^ 32) :
    sortRowsI64 values validity direction nullOrder base =
      .returned (.ok (sortBy (compareI64Rows values validity direction nullOrder)
        (baseRows values base))) := by
  obtain ⟨stats, hvisit, hstats⟩ := @visit_ok base validity (fun rows row => rows ++ [row])
    (List.range values.length) (fun row hrow => hrows row (mem_range.mp hrow)) []
    (.start values.length (values.length * 8))
  rw [foldl_append, nil_append] at hvisit
  obtain ⟨stats', hadd⟩ := addRows_ok hslice (@length_baseRows_le values base) hstats
  rw [sortRowsI64, sortRowsI64WithStats, if_neg (not_not.mpr hvalidity), withCapacity, if_pos hcapacity]
  simp only [collectSorted, checkedMul_slice hslice, visitRows, hvisit, bind, Except.bind]
  rw [← baseRows, hadd]
  rfl

variable {itemBytes limit : Nat}

theorem topNRowsI64_ok (hslice : values.length * 8 < 2 ^ 63)
    (hvalidity : validity.rowCount = values.length) (hcapacity : limit * itemBytes < 2 ^ 63)
    (hrows : ∀ row < values.length, inBase base row = true → row < 2 ^ 32) :
    (topNRowsI64WithStats itemBytes values validity direction nullOrder base limit).map Prod.fst =
      .returned (.ok ((sortBy (compareI64Rows values validity direction nullOrder)
        (baseRows values base)).take limit)) := by
  rw [topNRowsI64WithStats, if_neg (not_not.mpr hvalidity), checkedMul_slice hslice]
  by_cases hlimit : limit = 0
  · subst hlimit
    rfl
  · obtain ⟨stats, hvisit, hstats⟩ := @visit_ok base validity
      (keepBest values validity direction nullOrder limit) (List.range values.length)
      (fun row hrow => hrows row (mem_range.mp hrow)) [] (.start values.length (values.length * 8))
    obtain ⟨rest, hbest⟩ := @keepBest_run values validity direction nullOrder limit [] [] []
      (baseRows values base) Best.nil
    have htake := hbest.sortBy_eq_take
    have hlength : (sortBy (compareI64Rows values validity direction nullOrder)
        ((baseRows values base).foldl (keepBest values validity direction nullOrder limit) [])).length ≤
          values.length := by
      rw [htake, length_take, (sortBy_perm _).length_eq]
      exact (Nat.min_le_right _ _).trans length_baseRows_le
    obtain ⟨stats', hadd⟩ := addRows_ok hslice hlength hstats
    simp only [if_neg hlimit, withCapacity, if_pos hcapacity, collectBest, visitRows, hvisit, bind,
      Except.bind]
    rw [← baseRows, hadd]
    exact congrArg (fun rows => Outcome.returned (.ok rows)) htake

theorem sortRowsI64_far (hslice : values.length * 8 < 2 ^ 63)
    (hvalidity : validity.rowCount = values.length) (hcapacity : rowCapacity values base * 4 < 2 ^ 63)
    (hfar : ∃ row < values.length, inBase base row = true ∧ 2 ^ 32 ≤ row) :
    sortRowsI64 values validity direction nullOrder base = .returned (.error .arithOverflow) := by
  obtain ⟨row, hlt, hrow⟩ := hfar
  have hvisit := @visit_error base validity (fun rows row => rows ++ [row]) (List.range values.length)
    ⟨row, mem_range.mpr hlt, hrow⟩ ([], .start values.length (values.length * 8))
  rw [sortRowsI64, sortRowsI64WithStats, if_neg (not_not.mpr hvalidity), withCapacity, if_pos hcapacity]
  simp only [collectSorted, checkedMul_slice hslice, visitRows, hvisit, bind, Except.bind]
  rfl

theorem sortRowsI64_panics (hvalidity : validity.rowCount = values.length)
    (hcapacity : ¬ rowCapacity values base * 4 < 2 ^ 63) :
    sortRowsI64 values validity direction nullOrder base = .panicked := by
  rw [sortRowsI64, sortRowsI64WithStats, if_neg (not_not.mpr hvalidity), withCapacity, if_neg hcapacity]
  rfl

theorem topNRowsI64_far (hslice : values.length * 8 < 2 ^ 63)
    (hvalidity : validity.rowCount = values.length) (hlimit : limit ≠ 0)
    (hcapacity : limit * itemBytes < 2 ^ 63)
    (hfar : ∃ row < values.length, inBase base row = true ∧ 2 ^ 32 ≤ row) :
    topNRowsI64WithStats itemBytes values validity direction nullOrder base limit =
      .returned (.error .arithOverflow) := by
  obtain ⟨row, hlt, hrow⟩ := hfar
  have hvisit := @visit_error base validity (keepBest values validity direction nullOrder limit)
    (List.range values.length) ⟨row, mem_range.mpr hlt, hrow⟩
    ([], .start values.length (values.length * 8))
  rw [topNRowsI64WithStats, if_neg (not_not.mpr hvalidity), checkedMul_slice hslice]
  simp only [if_neg hlimit, withCapacity, if_pos hcapacity, collectBest, visitRows, hvisit, bind,
    Except.bind]

end

/-- The best rows are the first of the sorted rows. A slice has fewer than `2 ^ 63` bytes. -/
theorem topNRowsI64_eq_take (itemBytes : Nat) (values : List Int) (validity : ValidityRef)
    (direction : NativeSortDirection) (nullOrder : NativeNullOrder) (base : Option SelectionBitmap)
    (hslice : values.length * 8 < 2 ^ 63) (hcapacity : rowCapacity values base * 4 < 2 ^ 63) :
    (Std.TransCmp (compareI64Rows values validity direction nullOrder) ∧
      Std.LawfulEqCmp (compareI64Rows values validity direction nullOrder)) ∧
    (validity.rowCount ≠ values.length →
      sortRowsI64 values validity direction nullOrder base = .returned (.error .pageCorrupt) ∧
      ∀ limit, topNRowsI64WithStats itemBytes values validity direction nullOrder base limit =
        .returned (.error .pageCorrupt)) ∧
    (validity.rowCount = values.length →
      (∃ row < values.length, inBase base row = true ∧ 2 ^ 32 ≤ row) →
      sortRowsI64 values validity direction nullOrder base = .returned (.error .arithOverflow) ∧
      ∀ limit ≠ 0, limit * itemBytes < 2 ^ 63 →
        topNRowsI64WithStats itemBytes values validity direction nullOrder base limit =
          .returned (.error .arithOverflow)) ∧
    (validity.rowCount = values.length →
      (∀ row < values.length, inBase base row = true → row < 2 ^ 32) →
      ∃ rows, sortRowsI64 values validity direction nullOrder base = .returned (.ok rows) ∧
        SortedRows values validity direction nullOrder base rows ∧
        ∀ limit, limit * itemBytes < 2 ^ 63 →
          (topNRowsI64WithStats itemBytes values validity direction nullOrder base limit).map Prod.fst =
            .returned (.ok (rows.take limit))) := by
  refine ⟨⟨inferInstance, inferInstance⟩, ?_, ?_, ?_⟩
  · intro hne
    refine ⟨?_, fun limit => if_pos hne⟩
    rw [sortRowsI64, sortRowsI64WithStats, if_pos hne]
    rfl
  · intro hvalidity hfar
    exact ⟨sortRowsI64_far hslice hvalidity hcapacity hfar, fun limit hlimit hheap =>
      topNRowsI64_far hslice hvalidity hlimit hheap hfar⟩
  · intro hvalidity hrows
    exact ⟨_, sortRowsI64_ok hslice hvalidity hcapacity hrows, sortedRows_sortBy, fun limit hheap =>
      topNRowsI64_ok hslice hvalidity hheap hrows⟩

def sampleValues : List Int := [5, -1, 5, 0, 9, -1, 4]

def sampleValidity : ValidityRef := .coveNullBitmap [0b01000000] 7

theorem topNRowsI64_eq_take_sample :
    ∃ rows, sortRowsI64 sampleValues sampleValidity .descending .last none = .returned (.ok rows) ∧
      SortedRows sampleValues sampleValidity .descending .last none rows ∧
      (topNRowsI64WithStats 56 sampleValues sampleValidity .descending .last none 3).map Prod.fst =
        .returned (.ok (rows.take 3)) := by
  obtain ⟨-, -, -, h⟩ :=
    topNRowsI64_eq_take 56 sampleValues sampleValidity .descending .last none (by decide) (by decide)
  obtain ⟨rows, hsort, hsorted, htop⟩ := h rfl (by decide)
  exact ⟨rows, hsort, hsorted, htop 3 (by decide)⟩

theorem wordCount_words (words : Nat) : wordCount (64 * words) = words := by
  rw [wordCount]
  omega

def fullBase (words : Nat) : SelectionBitmap where
  words := replicate words (BitVec.allOnes 64)
  len := 64 * words
  words_length := by rw [List.length_replicate, wordCount_words]

theorem fullBase_countOnes (words : Nat) : (fullBase words).countOnes = words * 64 := by
  have hword : (List.range 64).countP (BitVec.allOnes 64).getLsbD = 64 := by decide
  rw [fullBase, SelectionBitmap.countOnes, map_replicate, hword, sum_replicate,
    Nat.nsmul_eq_mul]

/-- A view of another length, a row past `u32`, and vectors and heaps that cannot be allocated. -/
theorem rows_not_returned :
    sortRowsI64 [1] (.allValid 2) .ascending .first none = .returned (.error .pageCorrupt) ∧
    sortRowsI64 (List.replicate (2 ^ 32 + 1) 0) (.allValid (2 ^ 32 + 1)) .ascending .first none =
      .returned (.error .arithOverflow) ∧
    sortRowsI64 [1] (.allValid 1) .ascending .first (some (fullBase (2 ^ 55))) = .panicked ∧
    topNRowsI64WithStats 56 [1] (.allValid 1) .ascending .first none (2 ^ 64 - 1) = .panicked := by
  have hlength : (replicate (2 ^ 32 + 1) (0 : Int)).length = 2 ^ 32 + 1 := length_replicate
  generalize replicate (2 ^ 32 + 1) (0 : Int) = values at hlength
  refine ⟨by decide, ?_, sortRowsI64_panics rfl ?_, by decide⟩
  · refine sortRowsI64_far (by omega) hlength.symm ?_ ⟨2 ^ 32, by omega, rfl, Nat.le_refl _⟩
    rw [rowCapacity, elim_none]
    omega
  · rw [rowCapacity, elim_some, fullBase_countOnes]
    omega

end CoveFormat.RowSorting
