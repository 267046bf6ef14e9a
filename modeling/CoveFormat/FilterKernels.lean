import CoveFormat.SelectionBitmaps

namespace CoveFormat.FilterKernels

open ExceptRules List SelectionBitmaps

inductive NativeKernelDispatch
  | auto
  | scalar
  | avx2
  | neon
  deriving DecidableEq

structure KernelStats where
  (rowsSeen rowsValid rowsMatched bitmapWordsTouched bytesTouchedEstimate : Nat)
  dispatch : NativeKernelDispatch
  deriving DecidableEq

def KernelStats.start (rowCount bytesTouched : Nat) : KernelStats :=
  ⟨rowCount, 0, 0, wordCount rowCount, bytesTouched, .scalar⟩

abbrev Filtered := SelectionBitmap × KernelStats

/-- The two guards of the row loops: `base.is_some_and(|bitmap| !bitmap.contains(row))` and
`!validity.is_valid(row)`. -/
def candidate (base : Option SelectionBitmap) (validity : ValidityRef) (row : Nat) : Bool :=
  !(base.any fun bitmap => !bitmap.contains row) && validity.isValid row

/-- `u32::try_from(row)`. -/
def rowId (row : Nat) : Except CoveError Nat :=
  if row < 2 ^ 32 then .ok row else .error .arithOverflow

def mark (matched : Bool) (row : Nat) (state : Filtered) : Filtered :=
  (if matched then state.1.set row else state.1,
    { state.2 with
      rowsValid := state.2.rowsValid + 1
      rowsMatched := if matched then state.2.rowsMatched + 1 else state.2.rowsMatched })

def scanRow (candidate : Nat → Bool) (test : Nat → Except CoveError Bool) (state : Filtered)
    (row : Nat) : Except CoveError Filtered :=
  if candidate row then (test row).map fun matched => mark matched row state else .ok state

def scanRows (candidate : Nat → Bool) (test : Nat → Except CoveError Bool)
    (rowCount bytesTouched : Nat) : Except CoveError Filtered :=
  (range rowCount).foldlM (scanRow candidate test)
    (.none rowCount, .start rowCount bytesTouched)

/-! What a scan leaves. -/

section

variable {candidate : Nat → Bool} {test : Nat → Except CoveError Bool} {rows : List Nat}
  {state state' : Filtered} {rowCount bytesTouched : Nat}

/-- A selection after a scan, from the one before. -/
structure Scanned (candidate : Nat → Bool) (test : Nat → Except CoveError Bool) (rows : List Nat)
    (out out' : SelectionBitmap) : Prop where
  tested : ∀ row ∈ rows, candidate row = true → ∃ matched, test row = .ok matched
  len : out'.len = out.len
  tidy : out.Tidy → out'.Tidy
  contains : ∀ row, out'.contains row = true ↔ out.contains row = true ∨
    row < out.len ∧ row ∈ rows ∧ candidate row = true ∧ test row = .ok true

theorem scanRow_ok {row : Nat} (h : scanRow candidate test state row = .ok state') :
    Scanned candidate test [row] state.1 state'.1 := by
  rw [scanRow] at h
  by_cases hrow : candidate row = true
  · rw [if_pos hrow] at h
    obtain ⟨matched, htest, rfl⟩ := map_eq_ok_iff.mp h
    refine ⟨fun r hr _ => ⟨matched, mem_singleton.mp hr ▸ htest⟩, ?_, ?_, fun r => ?_⟩
    · cases matched with
      | true => exact SelectionBitmap.set_len row
      | false => rfl
    · cases matched with
      | true => exact fun ht => SelectionBitmap.set_tidy ht row
      | false => exact id
    · rw [mem_singleton]
      cases matched with
      | true =>
        simp only [mark, if_true, SelectionBitmap.set_contains, Bool.or_eq_true, decide_eq_true_eq]
        constructor
        · rintro (h | ⟨rfl, hlt⟩)
          · exact .inl h
          · exact .inr ⟨hlt, rfl, hrow, htest⟩
        · rintro (h | ⟨hlt, rfl, -, -⟩)
          · exact .inl h
          · exact .inr ⟨rfl, hlt⟩
      | false =>
        constructor
        · exact .inl
        · rintro (h | ⟨-, rfl, -, h⟩)
          · exact h
          · rw [htest] at h
            cases h
  · rw [if_neg hrow] at h
    cases h
    refine ⟨fun r hr hc => absurd (mem_singleton.mp hr ▸ hc) hrow, rfl, id, fun r => ?_⟩
    constructor
    · exact .inl
    · rintro (h | ⟨-, hr, hc, -⟩)
      · exact h
      · exact absurd (mem_singleton.mp hr ▸ hc) hrow

theorem Scanned.cons {row : Nat} {out mid out' : SelectionBitmap}
    (hhead : Scanned candidate test [row] out mid) (htail : Scanned candidate test rows mid out') :
    Scanned candidate test (row :: rows) out out' where
  tested r hr hc := by
    rcases mem_cons.mp hr with rfl | hr
    · exact hhead.tested r mem_cons_self hc
    · exact htail.tested r hr hc
  len := htail.len.trans hhead.len
  tidy ht := htail.tidy (hhead.tidy ht)
  contains r := by
    rw [htail.contains, hhead.contains, hhead.len, mem_singleton, mem_cons]
    tauto

theorem scan_ok (h : rows.foldlM (scanRow candidate test) state = .ok state') :
    Scanned candidate test rows state.1 state'.1 := by
  induction rows generalizing state with
  | nil =>
    cases h
    refine ⟨fun r hr => absurd hr not_mem_nil, rfl, id, fun r => ?_⟩
    simp only [not_mem_nil, false_and, and_false, or_false]
  | cons row rows ih =>
    obtain ⟨mid, hmid, h⟩ := of_andThen h
    exact (scanRow_ok hmid).cons (ih h)

theorem exists_scan (h : ∀ row ∈ rows, candidate row = true → ∃ matched, test row = .ok matched)
    (state : Filtered) : ∃ state', rows.foldlM (scanRow candidate test) state = .ok state' := by
  induction rows generalizing state with
  | nil => exact ⟨state, rfl⟩
  | cons row rows ih =>
    obtain ⟨hrow, hrows⟩ := forall_mem_cons.mp h
    have hnext : ∃ next, scanRow candidate test state row = .ok next := by
      rw [scanRow]
      by_cases hc : candidate row = true
      · obtain ⟨matched, htest⟩ := hrow hc
        exact ⟨_, by rw [if_pos hc, htest]; rfl⟩
      · exact ⟨state, if_neg hc⟩
    obtain ⟨next, hnext⟩ := hnext
    obtain ⟨state', hrest⟩ := ih hrows next
    exact ⟨state', by rw [foldlM_cons, hnext]; exact hrest⟩

theorem scanRows_ok {out : SelectionBitmap} {stats : KernelStats}
    (h : scanRows candidate test rowCount bytesTouched = .ok (out, stats)) :
    out.len = rowCount ∧ out.Tidy ∧ ∀ row, out.contains row = true ↔
        row < rowCount ∧ candidate row = true ∧ test row = .ok true := by
  have hs := scan_ok h
  refine ⟨hs.len, hs.tidy SelectionBitmap.none_tidy, fun row => ?_⟩
  rw [hs.contains, SelectionBitmap.none_contains, SelectionBitmap.none_len, mem_range]
  tauto

theorem scanRows_ok_iff : (∃ filtered, scanRows candidate test rowCount bytesTouched = .ok filtered) ↔
    ∀ row < rowCount, candidate row = true → ∃ matched, test row = .ok matched := by
  constructor
  · rintro ⟨filtered, h⟩ row hrow
    exact (scan_ok h).tested row (mem_range.mpr hrow)
  · intro h
    exact exists_scan (fun row hrow => h row (mem_range.mp hrow)) _

theorem scan_error_iff {test' : Nat → Except CoveError Bool} {e : CoveError}
    (h : ∀ row ∈ rows, candidate row = true → ∀ e, test row = .error e ↔ test' row = .error e)
    (state state' : Filtered) :
    rows.foldlM (scanRow candidate test) state = .error e ↔
      rows.foldlM (scanRow candidate test') state' = .error e := by
  induction rows generalizing state state' with
  | nil => exact iff_of_false nofun nofun
  | cons row rows ih =>
    obtain ⟨hrow, hrows⟩ := forall_mem_cons.mp h
    rw [foldlM_cons, foldlM_cons, scanRow, scanRow]
    by_cases hc : candidate row = true
    · rw [if_pos hc, if_pos hc]
      have herror := hrow hc
      cases htest : test row with
      | error e' =>
        rw [(herror e').mp htest]
        exact Iff.rfl
      | ok matched =>
        cases htest' : test' row with
        | error e' =>
          have := (herror e').mpr htest'
          rw [htest] at this
          cases this
        | ok matched' => exact ih hrows _ _
    · rw [if_neg hc, if_neg hc]
      exact ih hrows _ _

theorem scan_candidates {candidate' : Nat → Bool} (h : ∀ row ∈ rows, candidate row = candidate' row)
    (state : Filtered) :
    rows.foldlM (scanRow candidate test) state = rows.foldlM (scanRow candidate' test) state := by
  induction rows generalizing state with
  | nil => rfl
  | cons row rows ih =>
    obtain ⟨hrow, hrows⟩ := forall_mem_cons.mp h
    have hstep : scanRow candidate test state row = scanRow candidate' test state row := by
      rw [scanRow, scanRow, hrow]
    rw [foldlM_cons, foldlM_cons, hstep]
    exact bind_congr fun next => ih hrows next

end

end CoveFormat.FilterKernels
