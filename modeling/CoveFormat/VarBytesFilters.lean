import CoveFormat.FilterKernels
import CoveFormat.TransformPayloads

namespace CoveFormat.VarBytesFilters

open ByteCodes CheckedArith Except ExceptRules FilterKernels FixedFields List Option
  SelectionBitmaps
open TransformPayloads (readU32LeChecked)

def nextValue (values : Bytes) (offset : Nat) : Except CoveError (Bytes × Nat) := do
  let lenEnd ← checkedAdd offset 4
  rejectIf (values.length < lenEnd) .bufferTooShort
  let len ← readU32LeChecked values offset
  let valueEnd ← checkedAdd lenEnd len.toNat
  rejectIf (values.length < valueEnd) .bufferTooShort
  .ok ((values.drop lenEnd).take len.toNat, valueEnd)

/-! The kernels over prepared offsets. -/

def rowOffsets (values : Bytes) : Nat → Nat → Except CoveError (List Nat × Nat)
  | 0, pos => .ok ([], pos)
  | count + 1, pos => do
      rejectIf (2 ^ 32 ≤ pos) .arithOverflow
      let next ← nextValue values pos
      let rest ← rowOffsets values count next.2
      .ok (pos :: rest.1, rest.2)

def prepareVarbytesRowOffsets (values : Bytes) (rowCount : Nat) (validity : ValidityRef) :
    Except CoveError (List Nat) :=
  if validity.isAllNull && values.isEmpty then .ok (replicate rowCount 0)
  else do
    let walk ← rowOffsets values rowCount 0
    rejectIf (walk.2 ≠ values.length) .pageCorrupt
    .ok walk.1

section

variable (rowOffsets : List Nat)

def varbytesPayloadAt (values : Bytes) (row : Nat) : Except CoveError Bytes :=
  match rowOffsets[row]? with
  | none => .error .offsetRange
  | some offset => (nextValue values offset).map Prod.fst

def filterRowOffsets (values : Bytes) (validity : ValidityRef) (needles : List Bytes)
    (holds : Bytes → Bool) (base : Option SelectionBitmap) :
    Except CoveError Filtered := do
  rejectIf (validity.rowCount ≠ rowOffsets.length) .pageCorrupt
  let touched ← checkedAdd values.length (4 * rowOffsets.length)
  let touched ← needles.foldlM (fun sum needle => checkedAdd sum needle.length) touched
  scanRows (candidate base validity) (fun row => (varbytesPayloadAt rowOffsets values row).map holds)
    rowOffsets.length touched

def filterVarbytesEq (values : Bytes) (validity : ValidityRef) (needle : Bytes) :
    Option SelectionBitmap → Except CoveError Filtered :=
  filterRowOffsets rowOffsets values validity [] (· == needle)

def filterVarbytesIn (values : Bytes) (validity : ValidityRef) (needles : List Bytes)
    (base : Option SelectionBitmap) : Except CoveError Filtered := do
  rejectIf (needles.isEmpty = true) (.badSchema "VarBytes IN requires at least one literal")
  filterRowOffsets rowOffsets values validity needles needles.contains base

def filterVarbytesPrefix (values : Bytes) (validity : ValidityRef) (start : Bytes) :
    Option SelectionBitmap → Except CoveError Filtered :=
  filterRowOffsets rowOffsets values validity [] start.isPrefixOf

end

/-! The kernels over the length-prefixed values themselves. -/

def walkRows (selected : Nat → Bool) (values : Bytes) (holds : Bytes → Bool) :
    Nat → Nat → Nat → Filtered → Except CoveError (Nat × Filtered)
  | 0, _, offset, state => .ok (offset, state)
  | count + 1, row, offset, state => do
      let next ← nextValue values offset
      walkRows selected values holds count (row + 1) next.2
        (if selected row then mark (holds next.1) row state else state)

def walkPage (values : Bytes) (rowCount : Nat) (selected : Nat → Bool) (holds : Bytes → Bool)
    (touched : Nat) : Except CoveError Filtered := do
  let walk ← walkRows selected values holds rowCount 0 0 (.none rowCount, .start rowCount touched)
  rejectIf (walk.1 ≠ values.length) .pageCorrupt
  .ok walk.2

/-- `base.is_none_or(|bitmap| bitmap.count_ones() == row_count)`. -/
def allSelected (base : Option SelectionBitmap) (rowCount : Nat) : Bool :=
  base.all fun bitmap => bitmap.countOnes == rowCount

def walkSelects (base : Option SelectionBitmap) (rowCount : Nat) (validity : ValidityRef) (row : Nat) :
    Bool :=
  (allSelected base rowCount || base.any (·.contains row)) && validity.isValid row

def filterLengthPrefixed (values : Bytes) (rowCount : Nat) (validity : ValidityRef)
    (needles : List Bytes) (holds : Bytes → Bool) (base : Option SelectionBitmap) :
    Except CoveError Filtered := do
  rejectIf (validity.rowCount ≠ rowCount) .pageCorrupt
  let touched ← needles.foldlM (fun sum needle => checkedAdd sum needle.length) values.length
  if validity.isAllNull && values.isEmpty then .ok (.none rowCount, .start rowCount touched)
  else walkPage values rowCount (walkSelects base rowCount validity) holds touched

def filterLengthPrefixedVarbytesEq (values : Bytes) (rowCount : Nat) (validity : ValidityRef)
    (needle : Bytes) : Option SelectionBitmap → Except CoveError Filtered :=
  filterLengthPrefixed values rowCount validity [] (· == needle)

def filterLengthPrefixedVarbytesIn (values : Bytes) (rowCount : Nat) (validity : ValidityRef)
    (needles : List Bytes) (base : Option SelectionBitmap) : Except CoveError Filtered := do
  rejectIf (needles.isEmpty = true) (.badSchema "VarBytes IN requires at least one literal")
  filterLengthPrefixed values rowCount validity needles needles.contains base

def filterLengthPrefixedVarbytesPrefix (values : Bytes) (rowCount : Nat) (validity : ValidityRef)
    (start : Bytes) : Option SelectionBitmap → Except CoveError Filtered :=
  filterLengthPrefixed values rowCount validity [] start.isPrefixOf

def valueAt : Bytes → Nat → Bytes
  | values, 0 => (values.drop 4).take (leNat (values.take 4))
  | values, row + 1 => valueAt (values.drop (4 + leNat (values.take 4))) row

section

variable {values : Bytes} {offset : Nat} {next : Bytes × Nat}

section

variable (h : nextValue values offset = .ok next)
include h

theorem nextValue_ok :
    next.1 = valueAt (values.drop offset) 0 ∧
      next.2 = offset + (4 + leNat ((values.drop offset).take 4)) ∧ next.2 ≤ values.length := by
  obtain ⟨-, h⟩ := of_checkedAdd h
  obtain ⟨hlen, h⟩ := of_check h
  obtain ⟨len, hread, h⟩ := of_andThen h
  obtain ⟨-, h⟩ := of_checkedAdd h
  obtain ⟨hend, h⟩ := of_check h
  rw [rejectIf_eq_ok_iff] at hend
  cases h
  obtain ⟨raw, hraw, hread⟩ := of_andThen hread
  obtain ⟨-, -, rfl⟩ := checkedRegion_ok_iff.mp hraw
  have hlt : leNat ((values.drop offset).take 4) < 2 ^ 32 := by
    have hle : ((values.drop offset).take 4).length ≤ 4 := length_take_le _ _
    exact Nat.lt_of_lt_of_le (leNat_lt _) (Nat.pow_le_pow_right (by decide) hle)
  have htoNat : len.toNat = leNat ((values.drop offset).take 4) := by
    rw [← ok.inj hread]
    exact UInt32.toNat_ofNat_of_lt' hlt
  refine ⟨?_, ?_, by omega⟩
  · rw [valueAt, drop_drop, htoNat]
  · rw [← htoNat, Nat.add_assoc]

theorem valueAt_succ (row : Nat) :
    valueAt (values.drop offset) (row + 1) = valueAt (values.drop next.2) row := by
  rw [valueAt, drop_drop, (nextValue_ok h).2.1]

end

variable {count pos : Nat} {offsets : List Nat} {stop : Nat}

theorem rowOffsets_succ (h : rowOffsets values (count + 1) pos = .ok (offsets, stop)) :
    ∃ next rest, nextValue values pos = .ok next ∧ rowOffsets values count next.2 = .ok (rest, stop) ∧
      offsets = pos :: rest := by
  replace h := rest_ok h
  obtain ⟨next, hnext, h⟩ := of_andThen h
  obtain ⟨rest, hrest, h⟩ := of_andThen h
  cases ok.inj h
  exact ⟨next, rest.1, hnext, hrest, rfl⟩

theorem rowOffsets_ok (h : rowOffsets values count pos = .ok (offsets, stop)) :
    offsets.length = count ∧ pos + 4 * count ≤ stop ∧ ∀ row offset, offsets[row]? = some offset →
        ∃ stop, nextValue values offset = .ok (valueAt (values.drop pos) row, stop) := by
  induction count generalizing pos offsets with
  | zero =>
    cases ok.inj h
    exact ⟨rfl, Nat.le_refl _, fun row offset h => by cases h⟩
  | succ count ih =>
    obtain ⟨next, rest, hnext, hrest, rfl⟩ := rowOffsets_succ h
    obtain ⟨hlen, hstop, hvalues⟩ := ih hrest
    obtain ⟨hvalue, hafter, -⟩ := nextValue_ok hnext
    refine ⟨by rw [length_cons, hlen], by omega, fun row offset hrow => ?_⟩
    cases row with
    | zero =>
      cases hrow
      exact ⟨next.2, by rw [hnext, ← hvalue]⟩
    | succ row =>
      rw [valueAt_succ hnext]
      exact hvalues row offset hrow

theorem walkRows_eq_scan {count pos row : Nat} {offsets all : List Nat} {stop : Nat}
    {selected : Nat → Bool} {holds : Bytes → Bool} (h : rowOffsets values count pos = .ok (offsets, stop))
    (hall : all.drop row = offsets) (state : Filtered) :
    walkRows selected values holds count row pos state = ((List.range' row count).foldlM
        (scanRow selected fun row => (varbytesPayloadAt all values row).map holds) state).map
          fun filtered => (stop, filtered) := by
  induction count generalizing pos row offsets state with
  | zero =>
    cases ok.inj h
    rfl
  | succ count ih =>
    obtain ⟨next, rest, hnext, hrest, rfl⟩ := rowOffsets_succ h
    have hget : all[row]? = some pos := by rw [← List.head?_drop, hall, List.head?_cons]
    have htail : all.drop (row + 1) = rest := by rw [← tail_drop, hall, tail_cons]
    have hstep : scanRow selected (fun row => (varbytesPayloadAt all values row).map holds) state row =
        .ok (if selected row then mark (holds next.1) row state else state) := by
      rw [scanRow, varbytesPayloadAt, hget]
      by_cases hselected : selected row = true
      · rw [if_pos hselected, if_pos hselected]
        simp only [hnext]
        rfl
      · rw [if_neg hselected, if_neg hselected]
    rw [walkRows, hnext, List.range'_succ, foldlM_cons, hstep]
    exact ih hrest htail _

end

/-! Agreement of the kernels. -/

/-- The tests of a value. -/
inductive ValueFilter
  | eq (needle : Bytes)
  | isIn (needles : List Bytes)
  | startsWith (start : Bytes)

namespace ValueFilter

def holds : ValueFilter → Bytes → Bool
  | .eq needle => (· == needle)
  | .isIn needles => needles.contains
  | .startsWith start => start.isPrefixOf

def needles : ValueFilter → List Bytes
  | .isIn needles => needles
  | _ => []

def overOffsets (f : ValueFilter) (rowOffsets : List Nat) (values : Bytes) (validity : ValidityRef)
    (base : Option SelectionBitmap) : Except CoveError Filtered :=
  match f with
  | .eq needle => filterVarbytesEq rowOffsets values validity needle base
  | .isIn needles => filterVarbytesIn rowOffsets values validity needles base
  | .startsWith start => filterVarbytesPrefix rowOffsets values validity start base

def overPrefixed (f : ValueFilter) (values : Bytes) (rowCount : Nat) (validity : ValidityRef)
    (base : Option SelectionBitmap) : Except CoveError Filtered :=
  match f with
  | .eq needle => filterLengthPrefixedVarbytesEq values rowCount validity needle base
  | .isIn needles => filterLengthPrefixedVarbytesIn values rowCount validity needles base
  | .startsWith start => filterLengthPrefixedVarbytesPrefix values rowCount validity start base

/-- There is a literal, and the estimate of the bytes touched is in range. -/
def Fits (f : ValueFilter) (values : Bytes) (rowCount : Nat) : Prop :=
  match f with
  | .isIn needles => needles ≠ [] ∧
      values.length + 4 * rowCount + (needles.map List.length).sum < 2 ^ 64
  | _ => True

end ValueFilter

/-- The number of set bits is that of the rows only if every row is selected. -/
def CountsRows (bitmap : SelectionBitmap) : Prop :=
  bitmap.countOnes = bitmap.len → ∀ row < bitmap.len, bitmap.contains row = true

variable {needles : List Bytes} {touched : Nat}

theorem estimate_ok (h : touched + (needles.map List.length).sum < 2 ^ 64) :
    needles.foldlM (fun sum needle => checkedAdd sum needle.length) touched =
      .ok (touched + (needles.map List.length).sum) := by
  induction needles generalizing touched with
  | nil => rfl
  | cons needle needles ih =>
    rw [map_cons, sum_cons, ← Nat.add_assoc] at h ⊢
    have hadd : checkedAdd touched needle.length = .ok (touched + needle.length) :=
      checkedAdd_ok_iff.mpr ⟨by omega, rfl⟩
    rw [foldlM_cons, hadd]
    exact ih h

theorem estimate_overflow (h : 2 ^ 64 ≤ touched + (needles.map List.length).sum)
    (htouched : touched < 2 ^ 64) :
    needles.foldlM (fun sum needle => checkedAdd sum needle.length) touched = .error .arithOverflow := by
  induction needles generalizing touched with
  | nil =>
    rw [map_nil, sum_nil] at h
    omega
  | cons needle needles ih =>
    rw [map_cons, sum_cons, ← Nat.add_assoc] at h
    rw [foldlM_cons, checkedAdd]
    by_cases hlt : touched + needle.length < 2 ^ 64
    · rw [if_pos hlt]
      exact ih h hlt
    · rw [if_neg hlt]
      rfl

section

variable {values : Bytes} {rowCount : Nat} {validity : ValidityRef} {base : Option SelectionBitmap}
  {needles : List Bytes} {holds : Bytes → Bool} {offsets : List Nat}

theorem filterRowOffsets_eq (hvalidity : validity.rowCount = offsets.length)
    (hfits : values.length + 4 * offsets.length + (needles.map List.length).sum < 2 ^ 64) :
    ∃ touched, filterRowOffsets offsets values validity needles holds base =
      scanRows (candidate base validity) (fun row => (varbytesPayloadAt offsets values row).map holds)
        offsets.length touched := by
  have hsame : rejectIf (validity.rowCount ≠ offsets.length) CoveError.pageCorrupt = .ok () :=
    rejectIf_ok fun h => h hvalidity
  have hadd : checkedAdd values.length (4 * offsets.length) =
      .ok (values.length + 4 * offsets.length) :=
    checkedAdd_ok_iff.mpr ⟨by omega, rfl⟩
  refine ⟨values.length + 4 * offsets.length + (needles.map List.length).sum, ?_⟩
  have hestimate := estimate_ok hfits
  simp only [filterRowOffsets, hsame, hadd, bind, Except.bind, hestimate]

theorem filterLengthPrefixed_eq (hvalidity : validity.rowCount = rowCount)
    (hfits : values.length + (needles.map List.length).sum < 2 ^ 64) :
    ∃ touched, filterLengthPrefixed values rowCount validity needles holds base =
      if validity.isAllNull && values.isEmpty then .ok (.none rowCount, .start rowCount touched)
      else walkPage values rowCount (walkSelects base rowCount validity) holds touched := by
  have hsame : rejectIf (validity.rowCount ≠ rowCount) CoveError.pageCorrupt = .ok () :=
    rejectIf_ok fun h => h hvalidity
  refine ⟨values.length + (needles.map List.length).sum, ?_⟩
  have hestimate := estimate_ok hfits
  simp only [filterLengthPrefixed, hsame, bind, Except.bind, hestimate]

variable {row : Nat}

theorem walkSelects_eq (hlen : ∀ bitmap ∈ base, bitmap.len = rowCount)
    (hcounts : ∀ bitmap ∈ base, CountsRows bitmap) (hrow : row < rowCount) :
    walkSelects base rowCount validity row = candidate base validity row := by
  rw [walkSelects, candidate, allSelected]
  cases base with
  | none => rfl
  | some bitmap =>
    have hlen := hlen bitmap rfl
    have hcounts := hcounts bitmap rfl
    rw [CountsRows, hlen] at hcounts
    rw [all_some, any_some, any_some, Bool.not_not]
    by_cases hall : bitmap.countOnes = rowCount
    · rw [hcounts hall row hrow, Bool.or_true]
    · rw [beq_eq_false_iff_ne.mpr hall, Bool.false_or]

theorem prepare_ok (hshape : (validity.isAllNull && values.isEmpty) = false)
    (h : prepareVarbytesRowOffsets values rowCount validity = .ok offsets) :
    rowOffsets values rowCount 0 = .ok (offsets, values.length) := by
  rw [prepareVarbytesRowOffsets, hshape, if_neg Bool.false_ne_true] at h
  obtain ⟨walk, hwalk, h⟩ := of_andThen h
  obtain ⟨hstop, h⟩ := of_check h
  rw [rejectIf_eq_ok_iff, not_not] at hstop
  rw [hwalk, ← ok.inj h, ← hstop]

theorem payload_ok (h : rowOffsets values rowCount 0 = .ok (offsets, values.length))
    (hrow : row < rowCount) : varbytesPayloadAt offsets values row = .ok (valueAt values row) := by
  obtain ⟨hlen, -, hvalues⟩ := rowOffsets_ok h
  have hget : offsets[row]? = some offsets[row] := List.getElem?_eq_getElem (hlen ▸ hrow)
  obtain ⟨stop, hnext⟩ := hvalues row offsets[row] hget
  rw [varbytesPayloadAt, hget]
  simp only [hnext, drop_zero]
  rfl

/-- What both kernels select of a page whose offsets were prepared. -/
def Selects (values : Bytes) (rowCount : Nat) (validity : ValidityRef) (holds : Bytes → Bool)
    (base : Option SelectionBitmap) (out : SelectionBitmap) : Prop :=
  ∀ row, out.contains row = true ↔ row < rowCount ∧ (∀ bitmap ∈ base, bitmap.contains row = true) ∧
    validity.isValid row = true ∧ holds (valueAt values row) = true

theorem candidate_iff : candidate base validity row = true ↔
    (∀ bitmap ∈ base, bitmap.contains row = true) ∧ validity.isValid row = true := by
  rw [candidate, Bool.and_eq_true]
  refine and_congr_left fun _ => ?_
  cases base with
  | none | some bitmap => simp

theorem walkPage_eq (h : rowOffsets values rowCount 0 = .ok (offsets, values.length))
    (hlen : ∀ bitmap ∈ base, bitmap.len = rowCount) (hcounts : ∀ bitmap ∈ base, CountsRows bitmap)
    (touched : Nat) : walkPage values rowCount (walkSelects base rowCount validity) holds touched =
      scanRows (candidate base validity) (fun row => (varbytesPayloadAt offsets values row).map holds)
        rowCount touched := by
  have hwalk := @walkRows_eq_scan values rowCount 0 0 offsets offsets values.length
    (walkSelects base rowCount validity) holds h rfl (.none rowCount, .start rowCount touched)
  have hguards := @scan_candidates (walkSelects base rowCount validity)
    (fun row => (varbytesPayloadAt offsets values row).map holds) (List.range rowCount)
    (candidate base validity) (fun row hrow => walkSelects_eq hlen hcounts (mem_range.mp hrow))
    (.none rowCount, .start rowCount touched)
  have hstop : rejectIf (values.length ≠ values.length) CoveError.pageCorrupt = .ok () :=
    rejectIf_ok fun h => h rfl
  rw [← range_eq_range', hguards, ← scanRows] at hwalk
  rw [walkPage, hwalk]
  cases scanRows (candidate base validity)
      (fun row => (varbytesPayloadAt offsets values row).map holds) rowCount touched with
  | error e => rfl
  | ok filtered => simp only [Except.map, bind, Except.bind, hstop]

/-- Both kernels select the same rows, of the values and of their offsets. -/
def KernelsAgree (values : Bytes) (rowCount : Nat) (validity : ValidityRef) (needles : List Bytes)
    (holds : Bytes → Bool) (base : Option SelectionBitmap) (offsets : List Nat) : Prop :=
  ∃ out stats stats',
    filterLengthPrefixed values rowCount validity needles holds base = .ok (out, stats) ∧
    filterRowOffsets offsets values validity needles holds base = .ok (out, stats') ∧
    Selects values rowCount validity holds base out

section

variable (hvalidity : validity.rowCount = rowCount)
  (hfits : values.length + 4 * rowCount + (needles.map List.length).sum < 2 ^ 64)
  (h : prepareVarbytesRowOffsets values rowCount validity = .ok offsets)
include hvalidity hfits h

theorem agree_empty (hshape : (validity.isAllNull && values.isEmpty) = true) :
    KernelsAgree values rowCount validity needles holds base offsets := by
  have hinvalid (row : Nat) : validity.isValid row = false := by
    rw [Bool.and_eq_true] at hshape
    cases validity with
    | allNull n => rfl
    | allValid n | coveNullBitmap bytes n => cases hshape.1
  have hnever (row : Nat) : candidate base validity row = false := by
    rw [candidate, hinvalid, Bool.and_false]
  rw [prepareVarbytesRowOffsets, if_pos hshape] at h
  cases h
  have hcount : (replicate rowCount 0).length = rowCount := length_replicate
  obtain ⟨touched, hprefixed⟩ := @filterLengthPrefixed_eq values rowCount validity base needles holds
    hvalidity (by omega)
  obtain ⟨touched', hoffsets⟩ := @filterRowOffsets_eq values validity base needles holds
    (replicate rowCount 0) (hvalidity.trans hcount.symm) (by rwa [hcount])
  obtain ⟨⟨out, stats⟩, hscan⟩ := (@scanRows_ok_iff (candidate base validity)
    (fun row => (varbytesPayloadAt (replicate rowCount 0) values row).map holds) rowCount
      touched').mpr fun row _ hc => absurd hc (Bool.eq_false_iff.mp (hnever row))
  obtain ⟨hlen, htidy, hcontains⟩ := scanRows_ok hscan
  have hout : out = .none rowCount := by
    refine SelectionBitmap.ext hlen htidy SelectionBitmap.none_tidy fun row => ?_
    rw [SelectionBitmap.none_contains, Bool.eq_false_iff]
    intro hrow
    exact absurd ((hcontains row).mp hrow).2.1 (Bool.eq_false_iff.mp (hnever row))
  subst hout
  rw [hcount] at hoffsets
  refine ⟨_, _, _, by rw [hprefixed, if_pos hshape], hoffsets.trans hscan, fun row => ?_⟩
  rw [SelectionBitmap.none_contains, hinvalid]
  simp

variable (hlen : ∀ bitmap ∈ base, bitmap.len = rowCount)
  (hcounts : ∀ bitmap ∈ base, CountsRows bitmap)
include hlen hcounts

theorem agree_page (hshape : (validity.isAllNull && values.isEmpty) = false) :
    KernelsAgree values rowCount validity needles holds base offsets := by
  have hoffsets := prepare_ok hshape h
  obtain ⟨hcount, -, -⟩ := rowOffsets_ok hoffsets
  have htest : ∀ row < rowCount, (varbytesPayloadAt offsets values row).map holds =
      .ok (holds (valueAt values row)) := by
    intro row hrow
    rw [payload_ok hoffsets hrow]
    rfl
  have htotal (touched : Nat) := (@scanRows_ok_iff (candidate base validity)
    (fun row => (varbytesPayloadAt offsets values row).map holds) rowCount touched).mpr
      fun row hrow _ => ⟨_, htest row hrow⟩
  obtain ⟨touched, hprefixed⟩ := @filterLengthPrefixed_eq values rowCount validity base needles holds
    hvalidity (by omega)
  obtain ⟨touched', hprepared⟩ := @filterRowOffsets_eq values validity base needles holds offsets
    (hvalidity.trans hcount.symm) (by rwa [hcount])
  obtain ⟨⟨out, stats⟩, hscan⟩ := htotal touched
  obtain ⟨⟨out', stats'⟩, hscan'⟩ := htotal touched'
  obtain ⟨hout, htidy, hcontains⟩ := scanRows_ok hscan
  obtain ⟨hout', htidy', hcontains'⟩ := scanRows_ok hscan'
  have hsame : out' = out := by
    refine SelectionBitmap.ext (hout'.trans hout.symm) htidy' htidy fun row => ?_
    rw [Bool.eq_iff_iff, hcontains, hcontains']
  rw [hshape, if_neg Bool.false_ne_true, walkPage_eq hoffsets hlen hcounts, hscan] at hprefixed
  rw [hcount, hscan', hsame] at hprepared
  refine ⟨out, stats, stats', hprefixed, hprepared, fun row => ?_⟩
  rw [hcontains, candidate_iff, and_assoc]
  refine and_congr_right fun hrow => and_congr_right fun _ => and_congr_right fun _ => ?_
  rw [htest row hrow, ok.injEq]

theorem kernels_agree : KernelsAgree values rowCount validity needles holds base offsets := by
  cases hshape : validity.isAllNull && values.isEmpty with
  | true => exact agree_empty hvalidity hfits h hshape
  | false => exact agree_page hvalidity hfits h hlen hcounts hshape

end

theorem prepare_length (h : prepareVarbytesRowOffsets values rowCount validity = .ok offsets) :
    offsets.length = rowCount := by
  cases hshape : validity.isAllNull && values.isEmpty with
  | true =>
    rw [prepareVarbytesRowOffsets, if_pos hshape] at h
    rw [← ok.inj h, length_replicate]
  | false => exact (rowOffsets_ok (prepare_ok hshape h)).1

theorem rowCount_le (hshape : (validity.isAllNull && values.isEmpty) = false)
    (h : prepareVarbytesRowOffsets values rowCount validity = .ok offsets) :
    4 * rowCount ≤ values.length := by
  have hstop := (rowOffsets_ok (prepare_ok hshape h)).2.1
  omega

end

section

variable {f : ValueFilter} {values : Bytes} {rowCount : Nat} {validity : ValidityRef}
  {base : Option SelectionBitmap}

variable (hfits : f.Fits values rowCount)
include hfits

theorem overPrefixed_eq :
    f.overPrefixed values rowCount validity base =
      filterLengthPrefixed values rowCount validity f.needles f.holds base := by
  cases f with
  | eq needle | startsWith start => rfl
  | isIn needles =>
    have hsome : ¬ needles.isEmpty = true := fun h => hfits.1 (List.isEmpty_iff.mp h)
    rw [ValueFilter.overPrefixed, filterLengthPrefixedVarbytesIn, rejectIf, if_neg hsome]
    rfl

theorem overOffsets_eq (offsets : List Nat) :
    f.overOffsets offsets values validity base =
      filterRowOffsets offsets values validity f.needles f.holds base := by
  cases f with
  | eq needle | startsWith start => rfl
  | isIn needles =>
    have hsome : ¬ needles.isEmpty = true := fun h => hfits.1 (List.isEmpty_iff.mp h)
    rw [ValueFilter.overOffsets, filterVarbytesIn, rejectIf, if_neg hsome]
    rfl

theorem fits_bound (hrows : values.length + 4 * rowCount < 2 ^ 64) :
    values.length + 4 * rowCount + (f.needles.map List.length).sum < 2 ^ 64 := by
  cases f with
  | eq needle | startsWith start => exact hrows
  | isIn needles => exact hfits.2

theorem needles_bound (hvalues : values.length < 2 ^ 63) :
    values.length + (f.needles.map List.length).sum < 2 ^ 64 := by
  cases f with
  | eq needle | startsWith start => exact Nat.lt_of_lt_of_le hvalues (by decide)
  | isIn needles =>
    have := hfits.2
    rw [ValueFilter.needles]
    omega

end

/-- If the offsets of a page are prepared, both kernels select the same rows of it: those of the base,
valid, whose value passes the test. So the kernel over the values rejects no page that the preparation
accepts. A slice or a vector holds fewer than `2 ^ 63` bytes. -/
theorem varbytes_kernels_agree (f : ValueFilter) (values : Bytes) (rowCount : Nat)
    (validity : ValidityRef) (base : Option SelectionBitmap) (hvalues : values.length < 2 ^ 63)
    (hvalidity : validity.rowCount = rowCount) (hlen : ∀ bitmap ∈ base, bitmap.len = rowCount)
    (hcounts : ∀ bitmap ∈ base, CountsRows bitmap) (hfits : f.Fits values rowCount) :
    (∀ offsets, prepareVarbytesRowOffsets values rowCount validity = .ok offsets →
      4 * offsets.length < 2 ^ 63 →
        ∃ out stats stats', f.overPrefixed values rowCount validity base = .ok (out, stats) ∧
          f.overOffsets offsets values validity base = .ok (out, stats') ∧
          Selects values rowCount validity f.holds base out) ∧
    (∀ e, f.overPrefixed values rowCount validity base = .error e →
      ∃ e', prepareVarbytesRowOffsets values rowCount validity = .error e') := by
  rw [overPrefixed_eq hfits]
  have hagree {offsets : List Nat}
      (h : prepareVarbytesRowOffsets values rowCount validity = .ok offsets)
      (hrows : values.length + 4 * rowCount < 2 ^ 64) :=
    @kernels_agree values rowCount validity base f.needles f.holds offsets hvalidity
      (fits_bound hfits hrows) h hlen hcounts
  constructor
  · intro offsets h hoffsets
    rw [overOffsets_eq hfits]
    rw [prepare_length h] at hoffsets
    exact hagree h (by omega)
  · intro e herror
    cases hprepare : prepareVarbytesRowOffsets values rowCount validity with
    | error e' => exact ⟨e', rfl⟩
    | ok offsets =>
      exfalso
      cases hshape : validity.isAllNull && values.isEmpty with
      | true =>
        obtain ⟨touched, hempty⟩ := @filterLengthPrefixed_eq values rowCount validity base
          f.needles f.holds hvalidity (needles_bound hfits hvalues)
        rw [hempty, if_pos hshape] at herror
        cases herror
      | false =>
        have hle := rowCount_le hshape hprepare
        obtain ⟨out, stats, stats', hok, -⟩ := hagree hprepare (by omega)
        rw [hok] at herror
        cases herror

/-- Two rows, the second null, and the needle of the first. -/
theorem varbytes_kernels_agree_sample : ∃ out stats stats',
      (ValueFilter.isIn [[7], []]).overPrefixed [1, 0, 0, 0, 7, 0, 0, 0, 0] 2 (.coveNullBitmap [2] 2) none =
        .ok (out, stats) ∧
      (ValueFilter.isIn [[7], []]).overOffsets [0, 5] [1, 0, 0, 0, 7, 0, 0, 0, 0] (.coveNullBitmap [2] 2)
        none = .ok (out, stats') ∧
      Selects [1, 0, 0, 0, 7, 0, 0, 0, 0] 2 (.coveNullBitmap [2] 2)
        (ValueFilter.isIn [[7], []]).holds none out :=
  (varbytes_kernels_agree (.isIn [[7], []]) [1, 0, 0, 0, 7, 0, 0, 0, 0] 2 (.coveNullBitmap [2] 2) none
    (by decide) rfl nofun nofun ⟨by decide, by decide⟩).1 [0, 5] (by rfl) (by decide)

theorem overflow_refused {values : Bytes} {rowCount : Nat} {validity : ValidityRef}
    (base : Option SelectionBitmap) (hvalidity : validity.rowCount = rowCount)
    (hneedles : needles ≠ []) (hvalues : values.length < 2 ^ 64)
    (h : 2 ^ 64 ≤ values.length + (needles.map List.length).sum) :
    filterLengthPrefixedVarbytesIn values rowCount validity needles base = .error .arithOverflow := by
  have hsome : ¬ needles.isEmpty = true := fun h => hneedles (List.isEmpty_iff.mp h)
  have hsame : rejectIf (validity.rowCount ≠ rowCount) CoveError.pageCorrupt = .ok () :=
    rejectIf_ok fun h => h hvalidity
  have hestimate := estimate_overflow h hvalues
  rw [filterLengthPrefixedVarbytesIn, rejectIf, if_neg hsome]
  simp only [filterLengthPrefixed, hsame, bind, Except.bind, hestimate]

/-- An empty list of literals, and one of `2 ^ 64` bytes in all, are refused on an acceptable page; and
a bit past the rows of the base makes the kernel over the values take all rows. -/
theorem kernels_disagree : prepareVarbytesRowOffsets [0, 0, 0, 0] 1 (.allValid 1) = .ok [0] ∧
    filterLengthPrefixedVarbytesIn [0, 0, 0, 0] 1 (.allValid 1) [] none =
      .error (.badSchema "VarBytes IN requires at least one literal") ∧
    filterLengthPrefixedVarbytesIn [0, 0, 0, 0] 1 (.allValid 1)
      (List.replicate (2 ^ 33) (List.replicate (2 ^ 31) 0)) none = .error .arithOverflow ∧
    (SelectionBitmap.mk [2] 1 rfl).contains 0 = false ∧
    (filterLengthPrefixedVarbytesEq [0, 0, 0, 0] 1 (.allValid 1) [] (some ⟨[2], 1, rfl⟩)).map
      (fun filtered => filtered.1.contains 0) = .ok true ∧
    (filterVarbytesEq [0] [0, 0, 0, 0] (.allValid 1) [] (some ⟨[2], 1, rfl⟩)).map
      (fun filtered => filtered.1.contains 0) = .ok false := by
  refine ⟨by decide +kernel, rfl, ?_, by decide +kernel, by decide +kernel, by decide +kernel⟩
  have hsum : ((replicate (2 ^ 33) (replicate (2 ^ 31) (0 : UInt8))).map List.length).sum =
      2 ^ 64 := by
    rw [map_replicate, length_replicate, sum_replicate_nat]
    rfl
  have hneedles : replicate (2 ^ 33) (replicate (2 ^ 31) (0 : UInt8)) ≠ [] := by
    rw [ne_eq, replicate_eq_nil_iff]
    decide
  exact overflow_refused none rfl hneedles (by decide) (by rw [hsum]; decide)

end CoveFormat.VarBytesFilters
