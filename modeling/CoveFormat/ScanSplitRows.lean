import CoveFormat.StackedRanges
import CoveFormat.ScanSplits

namespace CoveFormat.ScanSplitRows

open CheckedArith ExceptRules SortedKeys Grouping IntervalTiling ScanSplits List

/-- The number of morsels is the least one that has room for all rows. -/
def MorselsExact (s : TableSegmentIndexEntryV1) : Prop :=
  ∀ k, s.rowCount ≤ k * s.morselRowCount ↔ s.morselCount ≤ k

/-- A valid segment index in which the segments of the table have as many morsels as they need. -/
structure TableSegments where
  table : TableEntry
  segments : List TableSegmentIndexEntryV1
  valid : validateSegmentIndex segments = .ok ()
  exact : ∀ s ∈ segments, s.tableId = table.tableId → MorselsExact s

variable {t : TableSegments} {s : TableSegmentIndexEntryV1} {split : ScanSplitEntryV2}
  {covered out : Finset (Nat × Nat)} {c d : SplitCursor}

def TableSegments.own (t : TableSegments) : List TableSegmentIndexEntryV1 :=
  t.segments.filter fun s => t.table.tableId = s.tableId

def TableSegments.rows (t : TableSegments) : Nat := (t.own.map (·.rowCount)).sum

theorem mem_own : s ∈ t.own ↔ s ∈ t.segments ∧ s.tableId = t.table.tableId := by
  rw [TableSegments.own, mem_filter, decide_eq_true_iff, eq_comm (b := s.tableId)]

def morselRows (s : TableSegmentIndexEntryV1) (m : Nat) : Nat :=
  min (s.rowCount - m * s.morselRowCount) s.morselRowCount

/-- The rows of a morsel given by its segment id. -/
def weight (t : TableSegments) (morsel : Nat × Nat) : Nat :=
  ((t.own.find? fun s => s.segmentId = morsel.1).map fun s => morselRows s morsel.2).getD 0

def totalWeight (t : TableSegments) (morsels : Finset (Nat × Nat)) : Nat :=
  morsels.sum (weight t)

theorem sum_morselRows (s : TableSegmentIndexEntryV1) (k : Nat) :
    ((List.range k).map (morselRows s)).sum = min s.rowCount (k * s.morselRowCount) := by
  induction k with
  | zero => simp
  | succ k ih =>
    rw [range_succ, map_append, sum_append, ih, Nat.succ_mul]
    simp only [map_cons, map_nil, sum_cons, sum_nil, morselRows]
    omega

variable {m : Nat}

section

variable (h : MorselsExact s)
include h

theorem sum_all_morselRows : ((List.range s.morselCount).map (morselRows s)).sum = s.rowCount := by
  rw [sum_morselRows]
  exact min_eq_left ((h s.morselCount).mpr (le_refl _))

theorem morsel_starts_inside (hm : m < s.morselCount) : m * s.morselRowCount < s.rowCount := by
  by_contra hge
  exact absurd ((h m).mp (not_lt.mp hge)) (not_le.mpr hm)

theorem morselRows_pos (hm : m < s.morselCount) : 0 < morselRows s m := by
  have hstart := morsel_starts_inside h hm
  have hwidth : 0 < s.morselRowCount := by
    rcases Nat.eq_zero_or_pos s.morselRowCount with hzero | hpos
    · have hmax := (h s.morselCount).mpr (le_refl _)
      rw [hzero, Nat.mul_zero] at hmax
      omega
    · exact hpos
  rw [morselRows]
  omega

end

theorem segmentMorselRowCount_ok {rows : Nat} (h : segmentMorselRowCount s m = .ok rows) :
    rows = morselRows s m := by
  obtain ⟨start, hstart, h⟩ := of_andThen h
  obtain ⟨-, rfl⟩ := checkedMul_ok_iff.mp hstart
  replace h := rest_ok h
  obtain ⟨remaining, hrem, h⟩ := of_andThen h
  obtain ⟨-, rfl⟩ := checkedSub_ok_iff.mp hrem
  exact (Except.ok.inj h).symm

variable {ms : List Nat}

theorem sumMorselRows_ok {rows total : Nat} (h : sumMorselRows s rows ms = .ok total) :
    total = rows + (ms.map (morselRows s)).sum := by
  induction ms generalizing rows with
  | nil =>
    cases h
    simp
  | cons m ms ih =>
    obtain ⟨count, hcount, h⟩ := of_andThen h
    obtain rfl := segmentMorselRowCount_ok hcount
    obtain ⟨-, h⟩ := of_checkedAdd h
    rw [ih h, map_cons, sum_cons, Nat.add_assoc]

variable {id : Nat}

theorem coverMorsels_ok (h : coverMorsels id covered ms = .ok out) :
    (∀ p, p ∈ out ↔ p ∈ covered ∨ ∃ m ∈ ms, p = (id, m)) ∧
      totalWeight t out = totalWeight t covered + (ms.map fun m => weight t (id, m)).sum := by
  induction ms generalizing covered with
  | nil =>
    cases h
    simp
  | cons m ms ih =>
    obtain ⟨hnew, h⟩ := of_reject h
    obtain ⟨hmem, hweight⟩ := ih h
    constructor
    · intro p
      rw [hmem, Finset.mem_insert, exists_mem_cons_iff]
      tauto
    · have hinsert : totalWeight t (insert (id, m) covered) =
          weight t (id, m) + totalWeight t covered :=
        Finset.sum_insert hnew
      rw [hweight, hinsert, map_cons, sum_cons]
      omega

theorem segmentById_ok (h : segmentById t.segments t.table.tableId id = .ok s) :
    s ∈ t.own ∧ s.segmentId = id := by
  rw [segmentById] at h
  split at h
  · rename_i s' hfind
    cases h
    have hs := List.find?_some hfind
    obtain ⟨htable, hid⟩ := of_decide_eq_true hs
    exact ⟨mem_own.mpr ⟨mem_of_find?_eq_some hfind, htable⟩, hid⟩
  · cases h

theorem nodup_ids (t : TableSegments) : (t.own.map (·.segmentId)).Nodup := by
  obtain ⟨hnodup, -⟩ := of_reject t.valid
  have hids := not_not.mp hnodup
  rw [List.Nodup, pairwise_map] at hids ⊢
  refine (hids.filter _).imp_of_mem ?_
  intro a b ha hb hab heq
  have hta : t.table.tableId = a.tableId := by simpa using (mem_filter.mp ha).2
  have htb : t.table.tableId = b.tableId := by simpa using (mem_filter.mp hb).2
  exact hab (Prod.ext (hta.symm.trans htb) heq)

theorem find_own (hs : s ∈ t.own) : t.own.find? (fun s' => s'.segmentId = s.segmentId) = some s := by
  cases hfind : t.own.find? fun s' => s'.segmentId = s.segmentId with
  | none => exact absurd (decide_eq_true rfl) (List.find?_eq_none.mp hfind s hs)
  | some s' =>
    have hid : s'.segmentId = s.segmentId := by simpa using List.find?_some hfind
    exact congrArg some (inj_on_of_nodup_map (nodup_ids t)
      (mem_of_find?_eq_some hfind) hs hid)

theorem weight_own (hs : s ∈ t.own) (m : Nat) : weight t (s.segmentId, m) = morselRows s m := by
  rw [weight, find_own hs]
  rfl

/-- A piece of a segment that a split takes: its morsels `first` to `first + take - 1`. -/
structure Piece (t : TableSegments) (id first take : Nat) (s : TableSegmentIndexEntryV1) : Prop where
  mem : s ∈ t.own
  segmentId : s.segmentId = id
  pos : 0 < take
  inside : first + take ≤ s.morselCount

def firstMorsel (split : ScanSplitEntryV2) (id : Nat) : Nat :=
  if id = split.firstSegmentId then split.firstMorselId else 0

def pieceRows (s : TableSegmentIndexEntryV1) (first take : Nat) : Nat :=
  ((List.range' first take).map (morselRows s)).sum

/-- What taking a segment does to the cursor. -/
structure Took (t : TableSegments) (split : ScanSplitEntryV2) (c : SplitCursor) (id : Nat)
    (s : TableSegmentIndexEntryV1) (d : SplitCursor) : Prop where
  piece : Piece t id (firstMorsel split id)
    (min (s.morselCount - firstMorsel split id) c.remainingMorsels) s
  remaining : d.remainingMorsels =
    c.remainingMorsels - min (s.morselCount - firstMorsel split id) c.remainingMorsels
  rowStart : d.actualRowStart = some (c.actualRowStart.getD
    (s.rowStart + firstMorsel split id * s.morselRowCount))
  rowCount : d.actualRowCount = c.actualRowCount + pieceRows s (firstMorsel split id)
    (min (s.morselCount - firstMorsel split id) c.remainingMorsels)
  covered : ∀ p, p ∈ d.coveredMorsels ↔ p ∈ c.coveredMorsels ∨
    ∃ m, firstMorsel split id ≤ m ∧ m < firstMorsel split id +
      min (s.morselCount - firstMorsel split id) c.remainingMorsels ∧ p = (id, m)
  weight : totalWeight t d.coveredMorsels + c.actualRowCount =
    totalWeight t c.coveredMorsels + d.actualRowCount

theorem segmentMorselRowStart_ok {row : Nat} (h : segmentMorselRowStart s m = .ok row) :
    row = s.rowStart + m * s.morselRowCount := by
  replace h := rest_ok h
  obtain ⟨offset, hoffset, h⟩ := of_andThen h
  obtain ⟨-, rfl⟩ := checkedMul_ok_iff.mp hoffset
  exact (checkedAdd_ok_iff.mp h).2

theorem segmentMorselSpanRows_ok {first take rows : Nat}
    (h : segmentMorselSpanRows s first take = .ok rows) : rows = pieceRows s first take := by
  obtain ⟨stop, -, h⟩ := of_andThen h
  replace h := rest_ok h
  rw [sumMorselRows_ok h, Nat.zero_add, pieceRows]

theorem takeSegment_ok (h : takeSegment t.segments split t.table.tableId c id = .ok d) :
    ∃ s, Took t split c id s d := by
  obtain ⟨s, hs, h⟩ := of_andThen h
  obtain ⟨hown, rfl⟩ := segmentById_ok hs
  obtain ⟨hfirst, h⟩ := of_reject h
  obtain ⟨available, havail, h⟩ := of_andThen h
  obtain ⟨-, rfl⟩ := checkedSub_ok_iff.mp havail
  obtain ⟨htake, h⟩ := of_reject h
  obtain ⟨morselEnd, -, h⟩ := of_andThen h
  obtain ⟨covered, hcover, h⟩ := of_andThen h
  obtain ⟨startRow, hstart, h⟩ := of_andThen h
  obtain ⟨spanRows, hspan, h⟩ := of_andThen h
  obtain ⟨-, h⟩ := of_checkedAdd h
  obtain ⟨remaining, hrem, h⟩ := of_andThen h
  obtain ⟨-, rfl⟩ := checkedSub_ok_iff.mp hrem
  cases h
  have hlt := not_le.mp hfirst
  have hpos := htake
  obtain ⟨hmem, hweight⟩ := coverMorsels_ok (t := t) hcover
  obtain rfl := segmentMorselRowStart_ok hstart
  obtain rfl := segmentMorselSpanRows_ok hspan
  change firstMorsel split s.segmentId < _ at hlt
  refine ⟨s, ⟨⟨hown, rfl, Nat.pos_of_ne_zero hpos, by omega⟩, rfl, rfl, rfl, ?_, ?_⟩⟩
  · intro p
    rw [hmem]
    simp only [mem_range'_1, and_assoc]
    rfl
  · have hrows : ∀ ms : List Nat, ms.map (fun m => weight t (s.segmentId, m)) =
        ms.map (morselRows s) := fun ms =>
      map_congr_left fun m _ => weight_own hown m
    rw [hweight, hrows]
    exact (Nat.add_assoc _ _ _).trans (congrArg _ (Nat.add_comm _ _))

theorem Piece.rows_pos {first take : Nat} (h : Piece t id first take s) :
    0 < pieceRows s first take := by
  obtain ⟨hown, -, hpos, hinside⟩ := h
  obtain ⟨hmem, htable⟩ := mem_own.mp hown
  obtain ⟨take, rfl⟩ := Nat.exists_eq_succ_of_ne_zero hpos.ne'
  exact Nat.add_pos_left (morselRows_pos (t.exact s hmem htable) (by omega)) _

theorem takeSegments_weight {ids : List Nat}
    (h : takeSegments t.segments split t.table.tableId c ids = .ok d) :
    totalWeight t d.coveredMorsels + c.actualRowCount =
        totalWeight t c.coveredMorsels + d.actualRowCount ∧
      (ids ≠ [] → c.actualRowCount < d.actualRowCount) := by
  induction ids generalizing c with
  | nil =>
    cases h
    exact ⟨rfl, fun hne => absurd rfl hne⟩
  | cons id ids ih =>
    obtain ⟨e, he, h⟩ := of_andThen h
    obtain ⟨s, htook⟩ := takeSegment_ok he
    have hlt : c.actualRowCount < e.actualRowCount := by
      rw [htook.rowCount]
      exact Nat.lt_add_of_pos_right htook.piece.rows_pos
    have hweight := htook.weight
    split at h
    · cases h
      exact ⟨hweight, fun _ => hlt⟩
    · obtain ⟨hrest, hle⟩ := ih h
      refine ⟨by omega, fun _ => ?_⟩
      cases ids with
      | nil =>
        cases h
        exact hlt
      | cons id' ids => exact hlt.trans (hle (by simp))

variable {clusters : Option PageClusterDirectoryV2}

theorem checkSplit_ok (h : checkSplit t.segments t.table.tableId clusters covered split = .ok out) :
    split.firstSegmentId + split.segmentCount < 2 ^ 32 ∧ split.segmentCount ≠ 0 ∧
      ∃ d, takeSegments t.segments split t.table.tableId ⟨split.morselCount, none, 0, covered⟩
        (List.range' split.firstSegmentId split.segmentCount) = .ok d ∧
      d.remainingMorsels = 0 ∧ d.actualRowStart = some split.rowStart ∧
      d.actualRowCount = split.rowCount ∧ d.coveredMorsels = out := by
  obtain ⟨hshape, h⟩ := of_check h
  obtain ⟨stop, hstop, h⟩ := of_andThen h
  obtain ⟨d, hd, h⟩ := of_andThen h
  obtain ⟨hrem, h⟩ := of_reject h
  obtain ⟨hrows, h⟩ := of_check h
  replace h := rest_ok h
  have hshape := of_rejectIf hshape
  have hrows := of_rejectIf hrows
  simp only [not_or, not_not] at hshape hrows
  exact ⟨(checkedAdd32_ok_iff.mp hstop).1, hshape.2.1, d, hd,
    not_not.mp hrem, hrows.1, hrows.2, Except.ok.inj h⟩

theorem checkSplit_weight
    (h : checkSplit t.segments t.table.tableId clusters covered split = .ok out) :
    totalWeight t out = totalWeight t covered + split.rowCount ∧ 0 < split.rowCount := by
  obtain ⟨-, hcount, d, hd, -, -, hrows, rfl⟩ := checkSplit_ok h
  obtain ⟨hweight, hpos⟩ := takeSegments_weight hd
  rw [hrows] at hweight hpos
  refine ⟨hweight, hpos ?_⟩
  rw [ne_eq, List.range'_eq_nil_iff]
  exact hcount

variable {splits : List ScanSplitEntryV2}

theorem checkSplits_weight
    (h : checkSplits t.segments t.table.tableId clusters covered splits = .ok out) :
    totalWeight t out = totalWeight t covered + (splits.map (·.rowCount)).sum ∧
      ∀ split ∈ splits, 0 < split.rowCount := by
  induction splits generalizing covered with
  | nil =>
    cases h
    simp
  | cons split splits ih =>
    obtain ⟨next, hnext, h⟩ := of_andThen h
    obtain ⟨hweight, hpos⟩ := checkSplit_weight hnext
    obtain ⟨hrest, hall⟩ := ih h
    refine ⟨?_, forall_mem_cons.mpr ⟨hpos, hall⟩⟩
    rw [hrest, hweight, map_cons, sum_cons, Nat.add_assoc]

variable {p : Nat × Nat}

theorem mem_expectedMorsels : p ∈ expectedMorsels t.segments t.table.tableId ↔
      ∃ s ∈ t.own, ∃ m < s.morselCount, (s.segmentId, m) = p := by
  rw [expectedMorsels, List.mem_toFinset, mem_flatMap]
  simp only [mem_map, mem_range]
  rfl

theorem totalWeight_expected :
    totalWeight t (expectedMorsels t.segments t.table.tableId) = t.rows := by
  have hnodup : (t.own.flatMap fun s =>
      (List.range s.morselCount).map fun m => (s.segmentId, m)).Nodup := by
    refine nodup_flatMap.mpr ⟨fun s _ => ?_, ?_⟩
    · exact nodup_range.map fun a b hab => (Prod.mk.inj hab).2
    · have hids := nodup_ids t
      rw [List.Nodup, pairwise_map] at hids
      refine hids.imp fun hab p hp hq => ?_
      obtain ⟨m, -, rfl⟩ := mem_map.mp hp
      obtain ⟨m', -, heq⟩ := mem_map.mp hq
      exact hab (Prod.mk.inj heq).1.symm
  have hsum : totalWeight t (expectedMorsels t.segments t.table.tableId) =
      ((t.own.flatMap fun s => (List.range s.morselCount).map fun m =>
        (s.segmentId, m)).map (weight t)).sum :=
    sum_toFinset (weight t) hnodup
  rw [hsum, map_flatMap, flatMap_def, sum_flatten, map_map, TableSegments.rows]
  apply congrArg
  apply map_congr_left
  intro s hs
  obtain ⟨hmem, htable⟩ := mem_own.mp hs
  rw [← sum_all_morselRows (t.exact s hmem htable), Function.comp_apply, map_map]
  apply congrArg
  apply map_congr_left
  intro m _
  exact weight_own hs m

variable {index : ScanSplitIndexV2}

theorem accepted_rows_sum
    (h : validateScanSplitAuthority t.segments index t.table clusters = .ok ()) :
    (index.entries.map (·.rowCount)).sum = t.rows ∧ ∀ split ∈ index.entries, 0 < split.rowCount := by
  replace h := rest_ok h
  obtain ⟨covered, hcovered, h⟩ := of_andThen h
  obtain rfl := not_not.mp (of_rejectIf h)
  obtain ⟨hweight, hpos⟩ := checkSplits_weight hcovered
  refine ⟨?_, hpos⟩
  rw [totalWeight_expected, totalWeight, Finset.sum_empty, Nat.zero_add] at hweight
  exact hweight.symm

theorem checkContiguous_ok {start : Nat} {es : List TableSegmentIndexEntryV1}
    (h : checkContiguous start es = .ok ()) :
    (∀ e ∈ es, e.rowStart + e.rowCount < 2 ^ 64) ∧
      ∀ x, start ≤ x → x < start + (es.map (·.rowCount)).sum →
        ∃ e ∈ es, e.rowStart ≤ x ∧ x < e.rowStart + e.rowCount := by
  induction es generalizing start with
  | nil =>
    refine ⟨by simp, fun x hge hlt => ?_⟩
    exact absurd (hge.trans_lt hlt) (lt_irrefl _)
  | cons e es ih =>
    obtain ⟨hstart, h⟩ := of_reject h
    obtain ⟨hfits, h⟩ := of_checkedAdd h
    obtain ⟨hall, hcover⟩ := ih h
    obtain rfl := not_not.mp hstart
    refine ⟨forall_mem_cons.mpr ⟨hfits, hall⟩, fun x hge hlt => ?_⟩
    by_cases hx : x < e.rowStart + e.rowCount
    · exact ⟨e, mem_cons_self, hge, hx⟩
    · rw [map_cons, sum_cons, ← Nat.add_assoc] at hlt
      obtain ⟨e', he', hin⟩ := hcover x (not_lt.mp hx) hlt
      exact ⟨e', mem_cons_of_mem _ he', hin⟩

theorem own_contiguous (h : t.own ≠ []) :
    checkContiguous 0 (sortByKey (·.rowStart) t.own) = .ok () := by
  obtain ⟨⟨⟩, -, hvalid⟩ := of_andThen t.valid
  have hall := checkAll_eq_ok_iff.mp hvalid
  have hunder : t.own = under (·.tableId) t.table.tableId t.segments := by
    apply filter_congr
    intro s _
    exact decide_eq_decide.mpr eq_comm
  obtain ⟨s, hs⟩ := exists_mem_of_ne_nil _ h
  obtain ⟨hmem, htable⟩ := mem_own.mp hs
  rw [hunder]
  exact hall (t.table.tableId, under (·.tableId) t.table.tableId t.segments)
    (mem_map.mpr ⟨t.table.tableId, mem_keysOf.mpr ⟨s, hmem, htable⟩, rfl⟩)

theorem own_fits (hs : s ∈ t.own) : s.rowStart + s.rowCount < 2 ^ 64 :=
  (checkContiguous_ok (own_contiguous (ne_nil_of_mem hs))).1 s
    ((sortByKey_perm _ _).mem_iff.mpr hs)

theorem exists_segment {x : Nat} (hx : x < t.rows) :
    ∃ s ∈ t.own, s.rowStart ≤ x ∧ x < s.rowStart + s.rowCount := by
  have hne : t.own ≠ [] := by
    intro hnil
    rw [TableSegments.rows, hnil] at hx
    exact absurd hx (Nat.not_lt_zero x)
  have hperm := sortByKey_perm (·.rowStart) t.own
  obtain ⟨s, hs, hin⟩ := (checkContiguous_ok (own_contiguous hne)).2 x (Nat.zero_le x) (by
    rw [Nat.zero_add, (hperm.map _).sum_eq]
    exact hx)
  exact ⟨s, hperm.mem_iff.mp hs, hin⟩

/-- Where a segment stands after its first `k` morsels. -/
def rowsBefore (s : TableSegmentIndexEntryV1) (k : Nat) : Nat := min s.rowCount (k * s.morselRowCount)

theorem pieceRows_eq (s : TableSegmentIndexEntryV1) (first take : Nat) :
    rowsBefore s first + pieceRows s first take = rowsBefore s (first + take) := by
  have hsplit : List.range (first + take) = List.range first ++ List.range' first take := by
    rw [range_eq_range', range_eq_range', ← List.range'_append]
    simp
  rw [rowsBefore, rowsBefore, ← sum_morselRows, ← sum_morselRows, hsplit, map_append,
    sum_append, pieceRows]

theorem rowsBefore_mono (s : TableSegmentIndexEntryV1) {k k' : Nat} (h : k ≤ k') :
    rowsBefore s k ≤ rowsBefore s k' :=
  min_le_min_left _ (Nat.mul_le_mul_right _ h)

theorem rowsBefore_inside (h : MorselsExact s) (hm : m < s.morselCount) :
    rowsBefore s m = m * s.morselRowCount :=
  min_eq_right (morsel_starts_inside h hm).le

theorem rowsBefore_all (h : MorselsExact s) : rowsBefore s s.morselCount = s.rowCount :=
  min_eq_left ((h s.morselCount).mpr (le_refl _))

/-- The rows of a morsel lie between `a` and `b`. -/
def InRows (t : TableSegments) (a b : Nat) (p : Nat × Nat) : Prop :=
  ∀ s ∈ t.own, s.segmentId = p.1 →
    a ≤ s.rowStart + rowsBefore s p.2 ∧ s.rowStart + rowsBefore s (p.2 + 1) ≤ b

theorem InRows.mono {a b b' : Nat} (h : InRows t a b p) (hb : b ≤ b') : InRows t a b' p :=
  fun s hs hid => ⟨(h s hs hid).1, (h s hs hid).2.trans hb⟩

/-- The segments of the split follow each other in the rows as they do in their ids. -/
def FollowsRows (t : TableSegments) (split : ScanSplitEntryV2) : Prop :=
  ∀ s ∈ t.own, ∀ s' ∈ t.own, s'.segmentId = s.segmentId + 1 →
    split.firstSegmentId ≤ s.segmentId →
    s'.segmentId < split.firstSegmentId + split.segmentCount → s'.rowStart = s.rowStart + s.rowCount

theorem eq_of_segmentId {s' : TableSegmentIndexEntryV1} (hs : s ∈ t.own) (hs' : s' ∈ t.own)
    (h : s.segmentId = s'.segmentId) : s = s' :=
  inj_on_of_nodup_map (nodup_ids t) hs hs' h

variable {old : Finset (Nat × Nat)}

theorem Took.rows {a : Nat} (h : Took t split c id s d)
    (hat : a + c.actualRowCount = s.rowStart + rowsBefore s (firstMorsel split id))
    (hold : ∀ p ∈ c.coveredMorsels, p ∈ old ∨ InRows t a (a + c.actualRowCount) p) :
    (∀ p ∈ d.coveredMorsels, p ∈ old ∨ InRows t a (a + d.actualRowCount) p) ∧
      (d.remainingMorsels ≠ 0 → a + d.actualRowCount = s.rowStart + s.rowCount) := by
  obtain ⟨hown, hid, -, hinside⟩ := h.piece
  obtain ⟨hmem, htable⟩ := mem_own.mp hown
  have hend : a + d.actualRowCount = s.rowStart + rowsBefore s (firstMorsel split id +
      min (s.morselCount - firstMorsel split id) c.remainingMorsels) := by
    rw [h.rowCount, ← pieceRows_eq, ← Nat.add_assoc, hat, Nat.add_assoc]
  constructor
  · intro p hp
    rcases (h.covered p).mp hp with hp | ⟨m, hge, hlt, rfl⟩
    · refine (hold p hp).imp_right fun hin => hin.mono ?_
      rw [h.rowCount]
      omega
    · refine .inr fun s' hs' hid' => ?_
      obtain rfl := eq_of_segmentId hs' hown (hid'.trans hid.symm)
      have hlow := rowsBefore_mono s' hge
      have hhigh : rowsBefore s' (m + 1) ≤ _ := rowsBefore_mono s' hlt
      constructor
      · dsimp only
        omega
      · rw [hend]
        exact Nat.add_le_add_left hhigh _
  · intro hrem
    rw [h.remaining] at hrem
    have htake : firstMorsel split id +
        min (s.morselCount - firstMorsel split id) c.remainingMorsels = s.morselCount := by omega
    rw [hend, htake, rowsBefore_all (t.exact s hmem htable)]

theorem rowsBefore_first {take : Nat} (h : Piece t id (firstMorsel split id) take s) :
    rowsBefore s (firstMorsel split id) = firstMorsel split id * s.morselRowCount := by
  obtain ⟨hown, -, hpos, hinside⟩ := h
  obtain ⟨hmem, htable⟩ := mem_own.mp hown
  exact rowsBefore_inside (t.exact s hmem htable) (by omega)

theorem takeSegments_rows (hfollows : FollowsRows t split) {a k : Nat}
    (hfirst : split.firstSegmentId ≤ id)
    (hlast : id + k ≤ split.firstSegmentId + split.segmentCount)
    (h : takeSegments t.segments split t.table.tableId c (List.range' id k) = .ok d)
    (hstart : c.actualRowStart = some a ∨ c.actualRowStart = none ∧ c.actualRowCount = 0)
    (hat : ∀ s ∈ t.own, s.segmentId = id → a + c.actualRowCount =
      s.rowStart + rowsBefore s (firstMorsel split id))
    (hold : ∀ p ∈ c.coveredMorsels, p ∈ old ∨ InRows t a (a + c.actualRowCount) p) :
    (∀ p ∈ d.coveredMorsels, p ∈ old ∨ InRows t a (a + d.actualRowCount) p) ∧
      (k ≠ 0 → d.actualRowStart = some a) := by
  induction k generalizing c id with
  | zero =>
    cases h
    exact ⟨hold, fun hne => absurd rfl hne⟩
  | succ k ih =>
    obtain ⟨e, he, h⟩ := of_andThen h
    obtain ⟨s, htook⟩ := takeSegment_ok he
    have hown := htook.piece.mem
    have hid := htook.piece.segmentId
    have hats := hat s hown hid
    obtain ⟨hnew, hend⟩ := htook.rows hats hold
    have hestart : e.actualRowStart = some a := by
      rw [htook.rowStart]
      rcases hstart with hsome | ⟨hnone, hzero⟩
      · rw [hsome]
        rfl
      · rw [hzero, rowsBefore_first htook.piece] at hats
        rw [hnone, ← hats]
        rfl
    split at h
    · cases h
      exact ⟨hnew, fun _ => hestart⟩
    · rename_i hrem
      have hnext : ∀ s' ∈ t.own, s'.segmentId = id + 1 → 0 < k →
          a + e.actualRowCount = s'.rowStart + rowsBefore s' (firstMorsel split (id + 1)) := by
        intro s' hs' hid' hk
        have hrow := hfollows s hown s' hs' (by omega) (by omega) (by omega)
        have hzero : firstMorsel split (id + 1) = 0 := if_neg (by omega)
        rw [hend hrem, hzero, hrow, rowsBefore, Nat.zero_mul, Nat.min_zero, Nat.add_zero]
      cases k with
      | zero =>
        cases h
        exact ⟨hnew, fun _ => hestart⟩
      | succ k =>
        obtain ⟨hall, hsome⟩ := ih (by omega) (by omega) h (.inl hestart)
          (fun s' hs' hid' => hnext s' hs' hid' (Nat.succ_pos k)) hnew
        exact ⟨hall, fun _ => hsome (Nat.succ_ne_zero k)⟩

theorem checkSplit_rows (hfollows : FollowsRows t split)
    (h : checkSplit t.segments t.table.tableId clusters covered split = .ok out) :
    ∀ p ∈ out, p ∈ covered ∨ InRows t split.rowStart (split.rowStart + split.rowCount) p := by
  obtain ⟨-, hcount, d, hd, -, hstart, hrows, rfl⟩ := checkSplit_ok h
  obtain ⟨k, hk⟩ := Nat.exists_eq_succ_of_ne_zero hcount
  have hfirst : ∃ e, takeSegment t.segments split t.table.tableId
      ⟨split.morselCount, none, 0, covered⟩ split.firstSegmentId = .ok e := by
    rw [hk, List.range'_succ] at hd
    obtain ⟨e, he, -⟩ := of_andThen hd
    exact ⟨e, he⟩
  obtain ⟨e, he⟩ := hfirst
  obtain ⟨s, htook⟩ := takeSegment_ok he
  have hat : ∀ s' ∈ t.own, s'.segmentId = split.firstSegmentId →
      s.rowStart + rowsBefore s (firstMorsel split split.firstSegmentId) + 0 =
        s'.rowStart + rowsBefore s' (firstMorsel split split.firstSegmentId) := by
    intro s' hs' hid
    rw [eq_of_segmentId hs' htook.piece.mem (hid.trans htook.piece.segmentId.symm), Nat.add_zero]
  obtain ⟨hall, hsome⟩ := takeSegments_rows hfollows (le_refl _) (le_refl _) hd (.inr ⟨rfl, rfl⟩)
    hat (fun p hp => .inl hp)
  have ha := Option.some.inj (hstart.symm.trans (hsome hcount))
  rwa [← ha, hrows] at hall

theorem checkSplits_rows (hfollows : ∀ split ∈ splits, FollowsRows t split)
    (h : checkSplits t.segments t.table.tableId clusters covered splits = .ok out) :
    ∀ p ∈ out, p ∈ covered ∨
      ∃ split ∈ splits, InRows t split.rowStart (split.rowStart + split.rowCount) p := by
  induction splits generalizing covered with
  | nil =>
    cases h
    exact fun p hp => .inl hp
  | cons split splits ih =>
    obtain ⟨hsplit, hsplits⟩ := forall_mem_cons.mp hfollows
    obtain ⟨next, hnext, h⟩ := of_andThen h
    intro p hp
    rcases ih hsplits h p hp with hp | ⟨split', hs', hin⟩
    · rcases checkSplit_rows hsplit hnext p hp with hp | hin
      · exact .inl hp
      · exact .inr ⟨split, mem_cons_self, hin⟩
    · exact .inr ⟨split', mem_cons_of_mem _ hs', hin⟩

theorem exists_morsel (hs : s ∈ t.own) {x : Nat} (hge : s.rowStart ≤ x)
    (hlt : x < s.rowStart + s.rowCount) :
    ∃ m < s.morselCount, s.rowStart + rowsBefore s m ≤ x ∧ x < s.rowStart + rowsBefore s (m + 1) := by
  obtain ⟨hmem, htable⟩ := mem_own.mp hs
  have hexact := t.exact s hmem htable
  have hlast : x < s.rowStart + rowsBefore s s.morselCount := by rwa [rowsBefore_all hexact]
  -- the first morsel that ends after the row
  have hfind : ∃ k, x < s.rowStart + rowsBefore s k := ⟨_, hlast⟩
  have hfound := Nat.find_spec hfind
  have hleast : ∀ {k}, k < Nat.find hfind → ¬ x < s.rowStart + rowsBefore s k :=
    fun hk => Nat.find_min hfind hk
  have hle : Nat.find hfind ≤ s.morselCount := Nat.find_min' hfind hlast
  cases hk : Nat.find hfind with
  | zero =>
    rw [hk, rowsBefore, Nat.zero_mul, Nat.min_zero, Nat.add_zero] at hfound
    exact absurd hfound (not_lt.mpr hge)
  | succ m =>
    rw [hk] at hfound hle
    exact ⟨m, hle, not_lt.mp (hleast (by rw [hk]; exact Nat.lt_succ_self m)), hfound⟩

theorem tiles_of_followsRows
    (h : validateScanSplitAuthority t.segments index t.table clusters = .ok ())
    (hfollows : ∀ split ∈ index.entries, FollowsRows t split) :
    Tiles ScanSplitEntryV2.rowStart ScanSplitEntryV2.rowCount t.rows index.entries := by
  refine tiles_of_covered (accepted_rows_sum h).1 fun x hx => ?_
  replace h := rest_ok h
  obtain ⟨covered, hcovered, h⟩ := of_andThen h
  obtain rfl := not_not.mp (of_rejectIf h)
  obtain ⟨s, hs, hge, hlt⟩ := exists_segment hx
  obtain ⟨m, hm, hmge, hmlt⟩ := exists_morsel hs hge hlt
  have hmem : (s.segmentId, m) ∈ expectedMorsels t.segments t.table.tableId :=
    mem_expectedMorsels.mpr ⟨s, hs, m, hm, rfl⟩
  rcases checkSplits_rows hfollows hcovered _ hmem with hnone | ⟨split, hsplit, hin⟩
  · exact absurd hnone (Finset.notMem_empty _)
  · obtain ⟨hlow, hhigh⟩ := hin s hs rfl
    exact ⟨split, hsplit, hlow.trans hmge, hmlt.trans_le hhigh⟩

theorem coverMorsels_total (hnodup : ms.Nodup) (hnew : ∀ m ∈ ms, (id, m) ∉ covered) :
    ∃ out, coverMorsels id covered ms = .ok out := by
  induction ms generalizing covered with
  | nil => exact ⟨covered, rfl⟩
  | cons m ms ih =>
    obtain ⟨hm, hms⟩ := nodup_cons.mp hnodup
    have hrest : ∀ m' ∈ ms, (id, m') ∉ insert (id, m) covered := by
      intro m' hm' hin
      rcases Finset.mem_insert.mp hin with heq | hin
      · exact hm ((Prod.mk.inj heq).2 ▸ hm')
      · exact hnew m' (mem_cons_of_mem _ hm') hin
    obtain ⟨out, hout⟩ := ih hms hrest
    exact ⟨out, rejectIf_andThen (hnew m mem_cons_self) hout⟩

theorem morselStart_fits (s : TableSegmentIndexEntryV1) (hm : m < s.morselCount) :
    m * s.morselRowCount < 2 ^ 64 := by
  have hwidth := s.morselRowCount_lt
  have hcount := s.morselCount_lt
  calc m * s.morselRowCount ≤ 2 ^ 32 * s.morselRowCount := Nat.mul_le_mul_right _ (by omega)
    _ < 2 ^ 32 * 2 ^ 32 := Nat.mul_lt_mul_of_pos_left hwidth (by decide)
    _ = 2 ^ 64 := by decide

theorem sumMorselRows_total (h : MorselsExact s) {rows : Nat} (hms : ∀ m ∈ ms, m < s.morselCount)
    (hfits : rows + (ms.map (morselRows s)).sum < 2 ^ 64) :
    ∃ total, sumMorselRows s rows ms = .ok total := by
  induction ms generalizing rows with
  | nil => exact ⟨rows, rfl⟩
  | cons m ms ih =>
    obtain ⟨hm, hms⟩ := forall_mem_cons.mp hms
    rw [map_cons, sum_cons, ← Nat.add_assoc] at hfits
    have hinside := morsel_starts_inside h hm
    have hcount : segmentMorselRowCount s m = .ok (morselRows s m) :=
      andThen_ok (checkedMul_ok_iff.mpr ⟨morselStart_fits s hm, rfl⟩)
        (rejectIf_andThen (not_le.mpr hinside) (andThen_ok (checkedSub_ok_iff.mpr ⟨hinside.le, rfl⟩) rfl))
    obtain ⟨total, htotal⟩ := ih hms hfits
    exact ⟨total, andThen_ok hcount (andThen_ok (checkedAdd_ok_iff.mpr ⟨by omega, rfl⟩) htotal)⟩

theorem segmentById_own (hs : s ∈ t.own) :
    segmentById t.segments t.table.tableId s.segmentId = .ok s := by
  obtain ⟨hmem, htable⟩ := mem_own.mp hs
  cases hfind : t.segments.find? fun s' =>
      s'.tableId = t.table.tableId ∧ s'.segmentId = s.segmentId with
  | none => exact absurd (decide_eq_true ⟨htable, rfl⟩) (List.find?_eq_none.mp hfind s hmem)
  | some s' =>
    have hs' : segmentById t.segments t.table.tableId s.segmentId = .ok s' := by
      rw [segmentById, hfind]
    obtain ⟨hown, hid⟩ := segmentById_ok hs'
    rw [hs', eq_of_segmentId hown hs hid]

theorem pieceRows_all (h : MorselsExact s) : pieceRows s 0 s.morselCount = s.rowCount := by
  rw [pieceRows, ← range_eq_range', sum_all_morselRows h]

theorem takeSegment_whole (hs : s ∈ t.own) (hfirst : split.firstSegmentId = s.segmentId)
    (hmorsel : split.firstMorselId = 0) (hne : s.morselCount ≠ 0)
    (hnew : ∀ m, (s.segmentId, m) ∉ covered) :
    ∃ d, takeSegment t.segments split t.table.tableId ⟨s.morselCount, none, 0, covered⟩
      s.segmentId = .ok d := by
  obtain ⟨hmem, htable⟩ := mem_own.mp hs
  have hexact := t.exact s hmem htable
  have hfits := own_fits hs
  have hstart : (if s.segmentId = split.firstSegmentId then split.firstMorselId else 0) = 0 := by
    rw [if_pos hfirst.symm, hmorsel]
  obtain ⟨out, hcover⟩ := coverMorsels_total (nodup_range' (s := 0) (n := s.morselCount))
    fun m _ => hnew m
  have hrow : segmentMorselRowStart s 0 = .ok s.rowStart :=
    andThen_eq_ok_iff.mpr ⟨(), rejectIf_ok (by omega),
      andThen_eq_ok_iff.mpr ⟨0, checkedMul_ok_iff.mpr (by simp), checkedAdd_ok_iff.mpr ⟨by omega, rfl⟩⟩⟩
  have hsum : 0 + ((List.range' 0 s.morselCount).map (morselRows s)).sum < 2 ^ 64 := by
    have hall := pieceRows_all hexact
    rw [pieceRows] at hall
    omega
  obtain ⟨total, htotal⟩ := sumMorselRows_total hexact
    (fun m hm => by simpa using (mem_range'_1.mp hm).2) hsum
  have hspan : segmentMorselSpanRows s 0 s.morselCount = .ok total :=
    andThen_eq_ok_iff.mpr ⟨_, checkedAdd32_ok_iff.mpr ⟨by simpa using s.morselCount_lt, rfl⟩,
      andThen_eq_ok_iff.mpr ⟨(), rejectIf_ok (by omega), htotal⟩⟩
  have hrows : total = s.rowCount := by rw [segmentMorselSpanRows_ok hspan, pieceRows_all hexact]
  refine ⟨⟨s.morselCount - s.morselCount, some s.rowStart, 0 + total, out⟩,
    andThen_eq_ok_iff.mpr ⟨s, segmentById_own hs, ?_⟩⟩
  simp only [hstart]
  refine andThen_eq_ok_iff.mpr ⟨(), rejectIf_ok (by omega), ?_⟩
  refine andThen_eq_ok_iff.mpr ⟨_, checkedSub_ok_iff.mpr ⟨Nat.zero_le _, rfl⟩, ?_⟩
  simp only [Nat.sub_zero, min_self]
  refine andThen_eq_ok_iff.mpr ⟨(), rejectIf_ok hne, ?_⟩
  refine andThen_eq_ok_iff.mpr ⟨_, checkedAdd32_ok_iff.mpr ⟨by simpa using s.morselCount_lt, rfl⟩, ?_⟩
  refine andThen_eq_ok_iff.mpr ⟨_, hcover, ?_⟩
  refine andThen_eq_ok_iff.mpr ⟨_, hrow, ?_⟩
  refine andThen_eq_ok_iff.mpr ⟨_, hspan, ?_⟩
  refine andThen_eq_ok_iff.mpr ⟨_, checkedAdd_ok_iff.mpr ⟨by omega, rfl⟩, ?_⟩
  exact andThen_eq_ok_iff.mpr ⟨_, checkedSub_ok_iff.mpr ⟨le_refl _, rfl⟩, rfl⟩

theorem checkSplit_default (hs : s ∈ t.own) (hne : s.morselCount ≠ 0)
    (hid : s.segmentId + 1 < 2 ^ 32) (hnew : ∀ m, (s.segmentId, m) ∉ covered) (i : Nat) :
    ∃ out, checkSplit t.segments t.table.tableId none covered
        (defaultSplit t.table.tableId (s, i)) = .ok out ∧
      ∀ p, p ∈ out ↔ p ∈ covered ∨ ∃ m < s.morselCount, (s.segmentId, m) = p := by
  obtain ⟨hmem, htable⟩ := mem_own.mp hs
  have hexact := t.exact s hmem htable
  obtain ⟨d, hd⟩ : ∃ d, takeSegment t.segments (defaultSplit t.table.tableId (s, i))
      t.table.tableId ⟨s.morselCount, none, 0, covered⟩ s.segmentId = .ok d :=
    takeSegment_whole hs rfl rfl hne hnew
  obtain ⟨s', htook⟩ := takeSegment_ok hd
  obtain rfl := eq_of_segmentId htook.piece.mem hs htook.piece.segmentId
  have hfirst : firstMorsel (defaultSplit t.table.tableId (s', i)) s'.segmentId = 0 := if_pos rfl
  obtain ⟨-, hrem, hstart, hrows, hcovered, -⟩ := htook
  simp only [hfirst, Nat.sub_zero, min_self, Nat.sub_self] at hrem hstart hrows hcovered
  have htake : takeSegments t.segments (defaultSplit t.table.tableId (s', i)) t.table.tableId
      ⟨s'.morselCount, none, 0, covered⟩ (List.range' s'.segmentId 1) = .ok d :=
    andThen_ok hd (if_pos hrem)
  refine ⟨d.coveredMorsels, ?_, fun p => ?_⟩
  · refine rejectIf_andThen ?_ ?_
    · simp [defaultSplit, hne]
    refine andThen_ok (checkedAdd32_ok_iff.mpr ⟨hid, rfl⟩) ?_
    refine andThen_ok htake ?_
    refine unless_andThen hrem ?_
    refine rejectIf_andThen ?_ rfl
    rw [not_or, not_not, not_not]
    constructor
    · rw [hstart, Nat.zero_mul]
      rfl
    · rw [hrows, Nat.zero_add, pieceRows_all hexact]
      rfl
  · rw [hcovered]
    simp only [Nat.zero_le, true_and, Nat.zero_add, eq_comm]

theorem checkSplits_default {entries : List (TableSegmentIndexEntryV1 × Nat)}
    (hown : ∀ e ∈ entries, e.1 ∈ t.own ∧ e.1.morselCount ≠ 0 ∧ e.1.segmentId + 1 < 2 ^ 32)
    (hids : (entries.map fun e => e.1.segmentId).Nodup)
    (hnew : ∀ e ∈ entries, ∀ m, (e.1.segmentId, m) ∉ covered) :
    ∃ out, checkSplits t.segments t.table.tableId none covered
        (entries.map (defaultSplit t.table.tableId)) = .ok out ∧
      ∀ p, p ∈ out ↔ p ∈ covered ∨
        ∃ e ∈ entries, ∃ m < e.1.morselCount, (e.1.segmentId, m) = p := by
  induction entries generalizing covered with
  | nil => exact ⟨covered, rfl, fun p => by simp⟩
  | cons e entries ih =>
    obtain ⟨⟨hs, hne, hid⟩, hrest⟩ := forall_mem_cons.mp hown
    obtain ⟨hnotin, hids⟩ := nodup_cons.mp hids
    obtain ⟨next, hnext, hmem⟩ := checkSplit_default hs hne hid (hnew e mem_cons_self) e.2
    obtain ⟨out, hout, hall⟩ := ih hrest hids fun e' he' m hin => by
      rcases (hmem _).mp hin with hin | ⟨m', -, heq⟩
      · exact hnew e' (mem_cons_of_mem _ he') m hin
      · exact hnotin (mem_map.mpr ⟨e', he', (Prod.mk.inj heq).1.symm⟩)
    refine ⟨out, andThen_ok hnext hout, fun p => ?_⟩
    rw [hall, hmem, exists_mem_cons_iff, or_assoc]

def TableSegments.nonempty (t : TableSegments) : List TableSegmentIndexEntryV1 :=
  t.segments.filter fun s => s.tableId = t.table.tableId ∧ s.morselCount ≠ 0

theorem mem_nonempty : s ∈ t.nonempty ↔ s ∈ t.own ∧ s.morselCount ≠ 0 := by
  rw [TableSegments.nonempty, mem_filter, decide_eq_true_iff, mem_own, and_assoc]

/-- The exclusive end of the ids of a segment fits in 32 bits. -/
def HasNextId (s : TableSegmentIndexEntryV1) : Prop := s.segmentId + 1 < 2 ^ 32

theorem nonempty_ids_nodup : (t.nonempty.map (·.segmentId)).Nodup := by
  have hsub : t.nonempty.Sublist t.own := by
    have hfilter : t.nonempty = t.own.filter fun s => s.morselCount ≠ 0 := by
      rw [TableSegments.own, filter_filter]
      apply filter_congr
      intro s _
      rw [Bool.decide_and, Bool.and_comm]
      exact congrArg _ (decide_eq_decide.mpr eq_comm)
    rw [hfilter]
    exact filter_sublist
  exact (nodup_ids t).sublist (hsub.map _)

theorem nonempty_length (hids : ∀ s ∈ t.nonempty, HasNextId s) : t.nonempty.length ≤ 2 ^ 32 - 1 := by
  have hsub : t.nonempty.map (·.segmentId) ⊆ List.range (2 ^ 32 - 1) := by
    intro id hid
    obtain ⟨s, hs, rfl⟩ := mem_map.mp hid
    have hlt := hids s hs
    rw [HasNextId] at hlt
    exact mem_range.mpr (by omega)
  have hlen := (nonempty_ids_nodup.subperm hsub).length_le
  rwa [length_map, length_range] at hlen

theorem splitIds_nodup {ss : List TableSegmentIndexEntryV1} (h : ss.length ≤ 2 ^ 32 - 1)
    (tableId : Nat) : ((ss.zipIdx.map (defaultSplit tableId)).map (·.splitId)).Nodup := by
  have hids : (ss.zipIdx.map (defaultSplit tableId)).map (·.splitId) =
      (List.range' 0 ss.length).map fun i => min (i + 1) (2 ^ 32 - 1) := by
    rw [← zipIdx_map_snd 0 ss, map_map, map_map]
    rfl
  rw [hids]
  refine List.Nodup.map_on (fun i hi j hj hij => ?_) nodup_range'
  have hi' := (mem_range'_1.mp hi).2
  have hj' := (mem_range'_1.mp hj).2
  omega

theorem build_of_hasNextId (hids : ∀ s ∈ t.nonempty, HasNextId s) :
    ∃ index, buildDefaultScanSplitIndex t.segments t.table = .ok index := by
  have hlength := nonempty_length hids
  have hfst : t.nonempty.zipIdx.map Prod.fst = t.nonempty := zipIdx_map_fst 0 _
  have hmem : ∀ e ∈ t.nonempty.zipIdx, e.1 ∈ t.nonempty :=
    fun e he => hfst ▸ mem_map_of_mem he
  have hown : ∀ e ∈ t.nonempty.zipIdx,
      e.1 ∈ t.own ∧ e.1.morselCount ≠ 0 ∧ e.1.segmentId + 1 < 2 ^ 32 := by
    intro e he
    obtain ⟨howne, hne⟩ := mem_nonempty.mp (hmem e he)
    exact ⟨howne, hne, hids e.1 (hmem e he)⟩
  have hnodup := nonempty_ids_nodup (t := t)
  rw [← hfst, map_map] at hnodup
  have hnew : ∀ e ∈ t.nonempty.zipIdx, ∀ m, (e.1.segmentId, m) ∉ (∅ : Finset (Nat × Nat)) :=
    fun e _ m => Finset.notMem_empty _
  obtain ⟨out, hout, hall⟩ := checkSplits_default hown hnodup hnew
  have hexpected : out = expectedMorsels t.segments t.table.tableId := by
    ext p
    rw [hall, mem_expectedMorsels]
    constructor
    · rintro (hnone | ⟨e, he, m, hm, hp⟩)
      · exact absurd hnone (Finset.notMem_empty _)
      · exact ⟨e.1, (mem_nonempty.mp (hmem e he)).1, m, hm, hp⟩
    · rintro ⟨s, hs, m, hm, hp⟩
      have hin : s ∈ t.nonempty.zipIdx.map Prod.fst :=
        hfst.symm ▸ mem_nonempty.mpr ⟨hs, Nat.ne_zero_of_lt hm⟩
      obtain ⟨e, he, rfl⟩ := mem_map.mp hin
      exact .inr ⟨e, he, m, hm, hp⟩
  have hsplits : validateScanSplits
      ⟨(t.nonempty.zipIdx.map (defaultSplit t.table.tableId)).length % 2 ^ 32, 0, 0⟩
      (t.nonempty.zipIdx.map (defaultSplit t.table.tableId)) = .ok () := by
    refine andThen_eq_ok_iff.mpr ⟨(), rejectIf_ok (not_not.mpr ?_), ?_⟩
    · rw [length_map, length_zipIdx]
      exact Nat.mod_eq_of_lt (by omega)
    refine andThen_eq_ok_iff.mpr ⟨(), rejectIf_ok (not_not.mpr ?_), ?_⟩
    · exact splitIds_nodup hlength _
    · refine checkAll_eq_ok_iff.mpr fun split hsplit => ?_
      obtain ⟨e, he, rfl⟩ := mem_map.mp hsplit
      have hfits := own_fits (mem_nonempty.mp (hmem e he)).1
      exact map_eq_ok_iff.mpr ⟨_, checkedAdd_ok_iff.mpr ⟨hfits, rfl⟩, rfl⟩
  exact ⟨_, andThen_eq_ok_iff.mpr ⟨(), andThen_eq_ok_iff.mpr ⟨(), hsplits,
    andThen_eq_ok_iff.mpr ⟨out, hout, rejectIf_ok (not_not.mpr hexpected)⟩⟩, rfl⟩⟩

theorem checkSplits_ids
    (h : checkSplits t.segments t.table.tableId clusters covered splits = .ok out) :
    ∀ split ∈ splits, split.firstSegmentId + split.segmentCount < 2 ^ 32 := by
  induction splits generalizing covered with
  | nil => simp
  | cons split splits ih =>
    obtain ⟨next, hnext, h⟩ := of_andThen h
    exact forall_mem_cons.mpr ⟨(checkSplit_ok hnext).1, ih h⟩

theorem build_iff : (∃ index, buildDefaultScanSplitIndex t.segments t.table = .ok index) ↔
    ∀ s ∈ t.nonempty, HasNextId s := by
  refine ⟨?_, build_of_hasNextId⟩
  rintro ⟨index, h⟩ s hs
  obtain ⟨hvalid, -⟩ := of_check h
  replace hvalid := rest_ok hvalid
  obtain ⟨covered, hcovered, -⟩ := of_andThen hvalid
  have hin : s ∈ t.nonempty.zipIdx.map Prod.fst := by rwa [zipIdx_map_fst]
  obtain ⟨e, he, rfl⟩ := mem_map.mp hin
  exact checkSplits_ids hcovered _ (mem_map_of_mem he)

/-- The declared rows of accepted splits tile the table exactly when a split starts at row 0 and
each one stops at the end of the table or where another starts, and so they do when every split
takes its segments in the order of their rows. The default index is built exactly when no
segment with morsels has the highest id. -/
theorem scan_splits_tile_iff (t : TableSegments) :
    (∀ index clusters, validateScanSplitAuthority t.segments index t.table clusters = .ok () →
      (Tiles ScanSplitEntryV2.rowStart ScanSplitEntryV2.rowCount t.rows index.entries ↔
        Chains ScanSplitEntryV2.rowStart ScanSplitEntryV2.rowCount t.rows index.entries) ∧
      ((∀ split ∈ index.entries, FollowsRows t split) →
        Tiles ScanSplitEntryV2.rowStart ScanSplitEntryV2.rowCount t.rows index.entries)) ∧
    ((∃ index, buildDefaultScanSplitIndex t.segments t.table = .ok index) ↔
      ∀ s ∈ t.nonempty, HasNextId s) := by
  refine ⟨fun index clusters h => ⟨?_, tiles_of_followsRows h⟩, build_iff⟩
  obtain ⟨hsum, hpos⟩ := accepted_rows_sum h
  exact tiles_iff_chains hsum hpos

def tenRows (segmentId rowStart : Nat) (h : segmentId < 2 ^ 32) : TableSegmentIndexEntryV1 where
  tableId := 1
  segmentId := segmentId
  rowStart := rowStart
  rowCount := 10
  morselCount := 1
  morselRowCount := 10
  length := 0
  statsRef := 0
  segmentId_lt := h

theorem tenRows_exact (segmentId rowStart : Nat) (h : segmentId < 2 ^ 32) :
    MorselsExact (tenRows segmentId rowStart h) := by
  intro k
  change 10 ≤ k * 10 ↔ 1 ≤ k
  omega

def shuffledSegments : TableSegments where
  table := ⟨1⟩
  segments := [tenRows 1 0 (by decide), tenRows 2 20 (by decide), tenRows 3 10 (by decide)]
  valid := by decide
  exact := by
    intro s hs _
    simp only [List.mem_cons, List.not_mem_nil, or_false] at hs
    rcases hs with rfl | rfl | rfl <;> exact tenRows_exact _ _ _

def splitOf (splitId rowStart firstSegmentId segmentCount : Nat) : ScanSplitEntryV2 :=
  ⟨splitId, 1, rowStart, 10 * segmentCount, firstSegmentId, segmentCount, 0, segmentCount, 0, 0, 0, 0,
    0, 0, 0⟩

/-- The first split declares rows 0 to 19 for segments that hold rows 0 to 9 and 20 to 29. -/
theorem shuffled_splits_overlap : ¬ ∀ t : TableSegments,
    (∀ index clusters, validateScanSplitAuthority t.segments index t.table clusters = .ok () →
      Tiles ScanSplitEntryV2.rowStart ScanSplitEntryV2.rowCount t.rows index.entries) ∧
    ∃ index, buildDefaultScanSplitIndex t.segments t.table = .ok index := by
  intro hall
  have htiles := (hall shuffledSegments).1 ⟨⟨2, 0, 0⟩, [splitOf 1 0 1 2, splitOf 2 10 3 1]⟩ none
    (by decide)
  obtain ⟨split, hsplit, hin⟩ := (htiles.cover 25).mpr (by decide)
  revert split
  decide

/-- Two segments that follow each other make one split. -/
theorem scan_splits_tile_iff_two : ∃ t : TableSegments,
    Tiles ScanSplitEntryV2.rowStart ScanSplitEntryV2.rowCount t.rows [splitOf 1 0 1 2] := by
  refine ⟨⟨⟨1⟩, [tenRows 1 0 (by decide), tenRows 2 10 (by decide)], by decide, ?_⟩, ?_⟩
  · intro s hs _
    simp only [mem_cons, not_mem_nil, or_false] at hs
    rcases hs with rfl | rfl <;> exact tenRows_exact _ _ _
  · refine ((scan_splits_tile_iff _).1 ⟨⟨1, 0, 0⟩, [splitOf 1 0 1 2]⟩ none (by decide)).1.mpr ?_
    exact ⟨fun _ => ⟨_, mem_singleton_self _, rfl⟩, by decide⟩

end CoveFormat.ScanSplitRows
