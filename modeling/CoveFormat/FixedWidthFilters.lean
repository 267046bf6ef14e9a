import CoveFormat.BinarySearch
import CoveFormat.FilterKernels
import CoveFormat.NumericComparisons
import CoveFormat.PropertyValues
import CoveFormat.TransformPayloads

namespace CoveFormat.FixedWidthFilters

open BinarySearch ByteCodes CoveTypes Except ExceptRules FilterKernels FixedFields List
  LoweredFilters NumCodes NumericComparisons SelectionBitmaps
open PropertyValues (debugText)
open TransformPayloads (checkedMul readU32LeChecked readU64LeChecked)

def validateFixedLeWidthForValidity (bytes : Bytes) (rowCount width : Nat) (validity : ValidityRef) :
    Except CoveError Unit := do
  let expected ← checkedMul rowCount width
  if validity.isAllNull && bytes.isEmpty then .ok () else rejectIf (bytes.length ≠ expected) .pageCorrupt

/-! The number codes. -/

/-- `compare_native_numcode_value` with its error. -/
def compareNumcode (logical : CoveLogicalType) (value : UInt64) (op : NumericPredicateOp)
    (literal : PredicateLiteral) : Except CoveError Bool :=
  match compareNativeNumcodeValue logical value.toNat op literal with
  | some answer => .ok answer
  | none => .error (.unsupportedEncoding ("numeric predicate for " ++ debugText logical ++ " NumCode"))

def numcodeTest (bytes : Bytes) (holds : UInt64 → Except CoveError Bool) (row : Nat) :
    Except CoveError Bool := do
  let value ← readU64LeChecked bytes (row * 8)
  holds value

def matchesAny (logical : CoveLogicalType) (value : UInt64) :
    List PredicateLiteral → Except CoveError Bool
  | [] => .ok false
  | literal :: literals => do
      let equal ← compareNumcode logical value .eq literal
      if equal then .ok true else matchesAny logical value literals

/-! The codes of a file dictionary. -/

def codeTest (bytes : Bytes) (holds : UInt32 → Bool) (row : Nat) : Except CoveError Bool := do
  let value ← readU32LeChecked bytes (row * 4)
  .ok (holds value)

/-- `needles.binary_search(&value).is_ok()`. -/
def searchNeedles (needles : List UInt32) (value : UInt32) : Bool :=
  (binarySearch (needles.map UInt32.toNat) value.toNat).isSome

/-- The vector kernels, which compute what the row loops do. -/
structure SimdKernels where
  i64Cmp : Bytes → Nat → NumericPredicateOp → Int64 → Option (SelectionBitmap × NativeKernelDispatch)
  u32Eq : Bytes → Nat → UInt32 → Option (SelectionBitmap × NativeKernelDispatch)
  i64Cmp_sound {bytes rowCount op needle out dispatch} : bytes.length = rowCount * 8 →
    i64Cmp bytes rowCount op needle = some (out, dispatch) →
      ∃ stats, scanRows (candidate none (.allValid rowCount))
        (numcodeTest bytes fun value => compareNumcode .int64 value op (.int64 needle)) rowCount
        (rowCount * 8) = .ok (out, stats)
  u32Eq_sound {bytes rowCount needle out dispatch} : bytes.length = rowCount * 4 →
    u32Eq bytes rowCount needle = some (out, dispatch) →
      ∃ stats, scanRows (candidate none (.allValid rowCount)) (codeTest bytes (· == needle)) rowCount
        (rowCount * 4) = .ok (out, stats)

def SimdKernels.scalar : SimdKernels := ⟨fun _ _ _ _ => none, fun _ _ _ => none, nofun, nofun⟩

section

variable (simd : SimdKernels) (bytes : Bytes) (rowCount : Nat) (validity : ValidityRef)

def dispatched (base : Option SelectionBitmap) (width : Nat)
    (vector : Option (SelectionBitmap × NativeKernelDispatch)) (test : Nat → Except CoveError Bool) :
    Except CoveError Filtered :=
  match if base.isSome || validity != .allValid rowCount then none else vector with
  | some (out, dispatch) =>
    .ok (out, ⟨rowCount, rowCount, out.countOnes, wordCount rowCount, rowCount * width, dispatch⟩)
  | none => scanRows (candidate base validity) test rowCount (rowCount * width)

def i64Vector (logical : CoveLogicalType) (op : NumericPredicateOp) :
    PredicateLiteral → Option (SelectionBitmap × NativeKernelDispatch)
  | .int64 needle => if logical = .int64 then simd.i64Cmp bytes rowCount op needle else none
  | _ => none

def filterNumcodeLeTyped (logical : CoveLogicalType) (op : NumericPredicateOp)
    (literal : PredicateLiteral) (base : Option SelectionBitmap) : Except CoveError Filtered := do
  validateFixedLeWidthForValidity bytes rowCount 8 validity
  dispatched rowCount validity base 8 (i64Vector simd bytes rowCount logical op literal)
    (numcodeTest bytes fun value => compareNumcode logical value op literal)

def numcodeInLoop (logical : CoveLogicalType) (literals : List PredicateLiteral)
    (base : Option SelectionBitmap) : Except CoveError Filtered :=
  scanRows (candidate base validity) (numcodeTest bytes fun value => matchesAny logical value literals)
    rowCount (rowCount * 8)

def filterNumcodeLeInTyped (logical : CoveLogicalType) (literals : List PredicateLiteral)
    (base : Option SelectionBitmap) : Except CoveError Filtered := do
  validateFixedLeWidthForValidity bytes rowCount 8 validity
  match literals with
  | [literal] => filterNumcodeLeTyped simd bytes rowCount validity logical .eq literal base
  | [] => .ok (.none rowCount, .start rowCount (rowCount * 8))
  | literals => numcodeInLoop bytes rowCount validity logical literals base

def numcodeNotInLoop (logical : CoveLogicalType) (literals : List PredicateLiteral)
    (base : Option SelectionBitmap) : Except CoveError Filtered :=
  scanRows (candidate base validity)
    (fun row => (numcodeTest bytes (fun value => matchesAny logical value literals) row).map not)
    rowCount (rowCount * 8)

def complemented (matched : Except CoveError Filtered) : Except CoveError Filtered :=
  matched.map fun (out, stats) =>
    let selected := validRowsExcept rowCount validity out
    (selected, { stats with rowsMatched := selected.countOnes })

def filterNumcodeLeNotInTyped (logical : CoveLogicalType) (literals : List PredicateLiteral)
    (base : Option SelectionBitmap) : Except CoveError Filtered := do
  validateFixedLeWidthForValidity bytes rowCount 8 validity
  match base, literals with
  | none, [literal] =>
    complemented rowCount validity
      (filterNumcodeLeTyped simd bytes rowCount validity logical .eq literal none)
  | base, literals => numcodeNotInLoop bytes rowCount validity logical literals base

/-- `filter_u32_le_eq_dispatch` with the `Auto` policy. -/
def filterU32LeEqDispatch (needle : UInt32) (base : Option SelectionBitmap) :
    Except CoveError Filtered := do
  validateFixedLeWidthForValidity bytes rowCount 4 validity
  dispatched rowCount validity base 4 (simd.u32Eq bytes rowCount needle) (codeTest bytes (· == needle))

variable (needles : List UInt32)

def codeInLoop (base : Option SelectionBitmap) : Except CoveError Filtered :=
  scanRows (candidate base validity) (codeTest bytes (searchNeedles needles)) rowCount (rowCount * 4)

def filterU32LeInSorted (base : Option SelectionBitmap) :
    Except CoveError Filtered := do
  validateFixedLeWidthForValidity bytes rowCount 4 validity
  match needles with
  | [needle] => filterU32LeEqDispatch simd bytes rowCount validity needle base
  | needles => codeInLoop bytes rowCount validity needles base

def codeNotInLoop (base : Option SelectionBitmap) : Except CoveError Filtered :=
  scanRows (candidate base validity)
    (fun row => (codeTest bytes (searchNeedles needles) row).map not) rowCount (rowCount * 4)

def filterU32LeNotInSorted (base : Option SelectionBitmap) :
    Except CoveError Filtered := do
  validateFixedLeWidthForValidity bytes rowCount 4 validity
  match base, needles with
  | none, [needle] =>
    complemented rowCount validity (filterU32LeEqDispatch simd bytes rowCount validity needle none)
  | base, needles => codeNotInLoop bytes rowCount validity needles base

end

/-! The kernels select what the row loops do. -/

section

variable {bytes : Bytes} {rowCount width row : Nat} {validity : ValidityRef}
  {base : Option SelectionBitmap} {test : Nat → Except CoveError Bool}

theorem validate_ok_iff : validateFixedLeWidthForValidity bytes rowCount width validity = .ok () ↔
      rowCount * width < 2 ^ 64 ∧
        (validity.isAllNull = true ∧ bytes = [] ∨ bytes.length = rowCount * width) := by
  rw [validateFixedLeWidthForValidity, checkedMul]
  by_cases hlt : rowCount * width < 2 ^ 64
  · rw [if_pos hlt]
    change (if _ then _ else _) = _ ↔ _
    by_cases hnull : (validity.isAllNull && bytes.isEmpty) = true
    · rw [if_pos hnull]
      rw [Bool.and_eq_true, List.isEmpty_iff] at hnull
      exact iff_of_true rfl ⟨hlt, .inl hnull⟩
    · rw [if_neg hnull, rejectIf_eq_ok_iff, not_not]
      rw [Bool.and_eq_true, List.isEmpty_iff] at hnull
      tauto
  · rw [if_neg hlt]
    exact iff_of_false nofun fun h => hlt h.1

theorem candidate_valid (h : candidate base validity row = true) : validity.isValid row = true := by
  rw [candidate, Bool.and_eq_true] at h
  exact h.2

theorem candidate_none : candidate none validity row = validity.isValid row :=
  Bool.true_and _

section

variable (h : validateFixedLeWidthForValidity bytes rowCount width validity = .ok ())
include h

theorem length_of_valid (hvalid : validity.isValid row = true) : bytes.length = rowCount * width := by
  rcases (validate_ok_iff.mp h).2 with ⟨hnull, -⟩ | hlength
  · cases validity with
    | allNull n => cases hvalid
    | allValid n | coveNullBitmap bytes n => cases hnull
  · exact hlength

theorem region_of_valid (hvalid : validity.isValid row = true) (hrow : row < rowCount) :
    checkedRegion bytes (row * width) width = .ok ((bytes.drop (row * width)).take width) := by
  have hlength := length_of_valid h hvalid
  have hlt := (validate_ok_iff.mp h).1
  have hle : (row + 1) * width ≤ rowCount * width := Nat.mul_le_mul_right _ hrow
  rw [Nat.succ_mul] at hle
  exact checkedRegion_ok_iff.mpr ⟨by omega, by omega, rfl⟩

end

theorem dispatched_map {vector : Option (SelectionBitmap × NativeKernelDispatch)}
    (h : validity = .allValid rowCount → ∀ out dispatch, vector = some (out, dispatch) →
      ∃ stats, scanRows (candidate none (.allValid rowCount)) test rowCount (rowCount * width) =
        .ok (out, stats)) :
    (dispatched rowCount validity base width vector test).map Prod.fst =
      (scanRows (candidate base validity) test rowCount (rowCount * width)).map Prod.fst := by
  rw [dispatched]
  by_cases hplain : (base.isSome || validity != .allValid rowCount) = true
  · rw [if_pos hplain]
  · rw [if_neg hplain]
    rw [Bool.or_eq_true, bne_iff_ne, not_or, not_not, Bool.not_eq_true, Option.isSome_eq_false_iff,
      Option.isNone_iff_eq_none] at hplain
    obtain ⟨rfl, rfl⟩ := hplain
    cases hvector : vector with
    | none => rfl
    | some found =>
      obtain ⟨stats, hscan⟩ := h rfl found.1 found.2 hvector
      rw [hscan]
      rfl

theorem complemented_map {kernel : Except CoveError Filtered} {touched : Nat}
    (hvalidity : validity.rowCount = rowCount)
    (h : kernel.map Prod.fst = (scanRows (candidate none validity) test rowCount touched).map Prod.fst) :
    (complemented rowCount validity kernel).map Prod.fst =
      (scanRows (candidate none validity) (fun row => (test row).map not) rowCount touched).map
        Prod.fst := by
  have hfails (row : Nat) (e : CoveError) : test row = .error e ↔ (test row).map not = .error e := by
    cases test row with
    | error e' => exact Iff.rfl
    | ok matched => exact iff_of_false nofun nofun
  cases hscan : scanRows (candidate none validity) test rowCount touched with
  | error e =>
    have hcomplement : scanRows (candidate none validity) (fun row => (test row).map not) rowCount
        touched = .error e :=
      (scan_error_iff (fun row _ _ e => hfails row e) _ _).mp hscan
    rw [hscan] at h
    rw [hcomplement]
    cases kernel with
    | error e' => rw [complemented, Except.map, Except.error.inj h]
    | ok filtered => cases h
  | ok filtered =>
    obtain ⟨out, stats⟩ := filtered
    have htested := scanRows_ok_iff.mp ⟨_, hscan⟩
    have hnegated : ∀ row < rowCount, candidate none validity row = true →
        ∃ matched, (test row).map not = .ok matched := by
      intro row hrow hc
      obtain ⟨matched, htest⟩ := htested row hrow hc
      exact ⟨!matched, by rw [htest]; rfl⟩
    obtain ⟨⟨out', stats'⟩, hcomplement⟩ := (@scanRows_ok_iff _ _ _ touched).mpr hnegated
    obtain ⟨hlen, htidy, hcontains⟩ := scanRows_ok hscan
    obtain ⟨hlen', htidy', hcontains'⟩ := scanRows_ok hcomplement
    rw [hscan] at h
    cases kernel with
    | error e' => cases h
    | ok found =>
      have hfound : found.1 = out := ok.inj h
      rw [hcomplement]
      refine congrArg ok (SelectionBitmap.ext hlen'.symm (validRowsExcept_tidy _) htidy' ?_)
      intro row
      have hselected := validRowsExcept_contains found.1 hvalidity row
      refine Bool.eq_iff_iff.mpr (hselected ▸ ?_)
      rw [hfound, hcontains', candidate_none, Bool.and_eq_true, Bool.not_eq_true']
      constructor
      · rintro ⟨hvalid, hbit⟩
        have hrow : row < rowCount := hvalidity ▸ ValidityRef.isValid_lt hvalid
        obtain ⟨matched, htest⟩ := htested row hrow (candidate_none.trans hvalid)
        have hout : ¬ out.contains row = true := by
          rw [SelectionBitmap.contains_eq, hbit, Bool.and_false]
          exact Bool.false_ne_true
        cases matched with
        | true => exact absurd ((hcontains row).mpr ⟨hrow, candidate_none.trans hvalid, htest⟩) hout
        | false => exact ⟨hrow, hvalid, by rw [htest]; rfl⟩
      · rintro ⟨hrow, hvalid, hnegated⟩
        obtain ⟨matched, htest, hmatched⟩ := map_eq_ok_iff.mp hnegated
        refine ⟨hvalid, Bool.eq_false_iff.mpr fun hbit => ?_⟩
        have hout : out.contains row = true := by
          rw [SelectionBitmap.contains_eq, hbit, hlen, decide_eq_true hrow, Bool.and_self]
        have htrue := ((hcontains row).mp hout).2.2
        rw [htest] at htrue
        rw [ok.inj htrue] at hmatched
        cases hmatched

end

/-! Membership and its complement. -/

/-- The lists that the membership kernels are called with. -/
inductive Membership
  | numcodes (logical : CoveLogicalType) (literals : List PredicateLiteral)
  | codes (needles : List UInt32)

namespace Membership

def width : Membership → Nat
  | .numcodes _ _ => 8
  | .codes _ => 4

def Sorted : Membership → Prop
  | .numcodes _ _ => True
  | .codes needles => (needles.map UInt32.toNat).Pairwise (· ≤ ·)

def test (bytes : Bytes) : Membership → Nat → Except CoveError Bool
  | .numcodes logical literals => numcodeTest bytes fun value => matchesAny logical value literals
  | .codes needles => codeTest bytes (searchNeedles needles)

def valueAt (bytes : Bytes) (row width : Nat) : Nat := leNat ((bytes.drop (row * width)).take width)

/-- The value of the row is one of the list. -/
def Holds (bytes : Bytes) (row : Nat) : Membership → Prop
  | .numcodes logical literals => ∃ literal ∈ literals, ∃ number,
      storedNumber logical (valueAt bytes row 8) = some number ∧ predicateNumber literal = some number
  | .codes needles => ∃ needle ∈ needles, valueAt bytes row 4 = needle.toNat

section

variable (m : Membership) (simd : SimdKernels) (bytes : Bytes) (rowCount : Nat) (validity : ValidityRef)
  (base : Option SelectionBitmap)

def filterIn : Except CoveError Filtered :=
  match m with
  | .numcodes logical literals => filterNumcodeLeInTyped simd bytes rowCount validity logical literals base
  | .codes needles => filterU32LeInSorted simd bytes rowCount validity needles base

def filterNotIn : Except CoveError Filtered :=
  match m with
  | .numcodes logical literals =>
    filterNumcodeLeNotInTyped simd bytes rowCount validity logical literals base
  | .codes needles => filterU32LeNotInSorted simd bytes rowCount validity needles base

def inLoop : Except CoveError Filtered :=
  scanRows (candidate base validity) (m.test bytes) rowCount (rowCount * m.width)

def notInLoop : Except CoveError Filtered :=
  scanRows (candidate base validity) (fun row => (m.test bytes row).map not) rowCount (rowCount * m.width)

/-- Both selections together are the valid rows of the base, and the first is that of the members. -/
structure Partition (found rest : SelectionBitmap) : Prop where
  disjoint : ∀ row, ¬ (found.contains row = true ∧ rest.contains row = true)
  inside : ∀ row, rowCount ≤ row → bit found.words row = false ∧ bit rest.words row = false
  union : ∀ row, found.contains row = true ∨ rest.contains row = true ↔
    row < rowCount ∧ candidate base validity row = true
  members : ∀ row, found.contains row = true ↔
    row < rowCount ∧ candidate base validity row = true ∧ m.Holds bytes row

/-- Some row is not the value of any literal, but a float onto which a literal is rounded. -/
def Misread : Prop :=
  match m with
  | .numcodes logical literals => ∃ row < rowCount, candidate base validity row = true ∧
      (∃ literal ∈ literals, Misjudged logical (valueAt bytes row 8) .eq literal) ∧ ¬ m.Holds bytes row
  | .codes _ => False

end

section

variable {bytes : Bytes} {rowCount row : Nat} {validity : ValidityRef} {base : Option SelectionBitmap}
  {m : Membership} {simd : SimdKernels}

theorem searchNeedles_iff {needles : List UInt32} {value : UInt32}
    (h : (needles.map UInt32.toNat).Pairwise (· ≤ ·)) :
    searchNeedles needles value = true ↔ value ∈ needles := by
  rw [searchNeedles, binarySearch_isSome_iff h, mem_map]
  constructor
  · rintro ⟨needle, hneedle, heq⟩
    exact UInt32.toNat_inj.mp heq ▸ hneedle
  · intro hmem
    exact ⟨value, hmem, rfl⟩

theorem related_eq_iff {a b : Option Extended} :
    related .eq a b = true ↔ ∃ number, a = some number ∧ b = some number := by
  cases a <;> cases b <;> simp [related, ordered, lowerOp, eq_comm]

variable {logical : CoveLogicalType} {literal : PredicateLiteral}

theorem misjudged_eq {value : Nat} (h : Misjudged logical value .eq literal) :
    (logical = .float32 ∨ logical = .float64) ∧
      related .eq (storedNumber logical value) (predicateNumber literal) = false := by
  rw [Misjudged] at h
  split at h
  · rename_i hfloat
    obtain ⟨number, original, exact, hstored, -, -, hexact, hne⟩ := h
    refine ⟨hfloat, ?_⟩
    rw [hstored, hexact]
    exact decide_eq_false hne
  · rcases h with ⟨-, h | h⟩ | ⟨-, h | h⟩ <;> cases h

variable {value : UInt64} {typed : NativeTypedNumericValue}

section

variable (htyped : typedNativeNumcodeValue logical value.toNat = some typed)
include htyped

theorem compareTyped_eq_iff (literal : PredicateLiteral) :
    compareNativeTypedNumericValue typed .eq literal = true ↔
      (∃ number, storedNumber logical value.toNat = some number ∧
        predicateNumber literal = some number) ∨ Misjudged logical value.toNat .eq literal := by
  have hiff := compareNativeTypedNumericValue_iff htyped .eq literal
  rw [← related_eq_iff]
  by_cases hm : Misjudged logical value.toNat .eq literal
  · have hrelated := (misjudged_eq hm).2
    have hne := mt hiff.mp (not_not.mpr hm)
    rw [hrelated, Bool.not_eq_false] at hne
    exact iff_of_true hne (.inr hm)
  · rw [hiff.mpr hm]
    exact (or_iff_left hm).symm

theorem matchesAny_typed (literals : List PredicateLiteral) :
    matchesAny logical value literals =
      .ok (literals.any fun literal => compareNativeTypedNumericValue typed .eq literal) := by
  have hcompare (literal : PredicateLiteral) : compareNumcode logical value .eq literal =
      .ok (compareNativeTypedNumericValue typed .eq literal) := by
    rw [compareNumcode, compareNativeNumcodeValue, htyped]
    rfl
  induction literals with
  | nil => rfl
  | cons literal literals ih =>
    rw [matchesAny, hcompare, ih, any_cons]
    cases compareNativeTypedNumericValue typed .eq literal <;> rfl

end

variable {literals : List PredicateLiteral} {answer : Bool}

theorem matchesAny_iff (h : matchesAny logical value literals = .ok answer) :
    answer = true ↔ (∃ literal ∈ literals, ∃ number, storedNumber logical value.toNat = some number ∧
      predicateNumber literal = some number) ∨
        ∃ literal ∈ literals, Misjudged logical value.toNat .eq literal := by
  cases literals with
  | nil =>
    cases h
    simp
  | cons first others =>
    cases htyped : typedNativeNumcodeValue logical value.toNat with
    | none =>
      rw [matchesAny, compareNumcode, compareNativeNumcodeValue, htyped] at h
      cases h
    | some typed =>
      rw [matchesAny_typed htyped] at h
      rw [← ok.inj h, any_eq_true]
      simp only [compareTyped_eq_iff htyped, and_or_left, exists_or]

theorem test_of_valid (h : validateFixedLeWidthForValidity bytes rowCount m.width validity = .ok ())
    (hvalid : validity.isValid row = true) (hrow : row < rowCount) :
    m.test bytes row =
      match m with
      | .numcodes logical literals =>
        matchesAny logical (UInt64.ofNat (valueAt bytes row 8)) literals
      | .codes needles => .ok (searchNeedles needles (UInt32.ofNat (valueAt bytes row 4))) := by
  have hregion := region_of_valid h hvalid hrow
  cases m with
  | numcodes logical literals =>
    rw [test, numcodeTest, readU64LeChecked]
    rw [width] at hregion
    rw [hregion]
    rfl
  | codes needles =>
    rw [test, codeTest, readU32LeChecked]
    rw [width] at hregion
    rw [hregion]
    rfl

theorem valueAt_lt (bytes : Bytes) (row width : Nat) : valueAt bytes row width < 256 ^ width := by
  have hlt := leNat_lt ((bytes.drop (row * width)).take width)
  have hlen : ((bytes.drop (row * width)).take width).length ≤ width := length_take_le _ _
  exact Nat.lt_of_lt_of_le hlt (Nat.pow_le_pow_right (by decide) hlen)

theorem test_ok_iff (h : validateFixedLeWidthForValidity bytes rowCount m.width validity = .ok ())
    (hsorted : m.Sorted) (hc : candidate base validity row = true) (hrow : row < rowCount)
    (htest : m.test bytes row = .ok answer) (hread : ¬ m.Misread bytes rowCount validity base) :
      answer = true ↔ m.Holds bytes row := by
  rw [test_of_valid h (candidate_valid hc) hrow] at htest
  have hlt := valueAt_lt bytes row m.width
  cases m with
  | numcodes logical literals =>
    have hvalue : (UInt64.ofNat (valueAt bytes row 8)).toNat = valueAt bytes row 8 :=
      UInt64.toNat_ofNat_of_lt' hlt
    have hiff := matchesAny_iff htest
    rw [hvalue] at hiff
    rw [hiff, Holds, or_iff_left_of_imp]
    intro hmisjudged
    by_contra hholds
    exact hread ⟨row, hrow, hc, hmisjudged, hholds⟩
  | codes needles =>
    have hvalue : (UInt32.ofNat (valueAt bytes row 4)).toNat = valueAt bytes row 4 :=
      UInt32.toNat_ofNat_of_lt' hlt
    rw [← ok.inj htest, searchNeedles_iff hsorted, Holds]
    constructor
    · intro hmem
      exact ⟨_, hmem, hvalue.symm⟩
    · rintro ⟨needle, hneedle, heq⟩
      rw [heq, UInt32.ofNat_toNat]
      exact hneedle

theorem test_total (hfloat : logical = .float32 ∨ logical = .float64)
    (h : validateFixedLeWidthForValidity bytes rowCount 8 validity = .ok ())
    (hvalid : validity.isValid row = true) (hrow : row < rowCount) :
    ∃ answer, (numcodes logical literals).test bytes row = .ok answer := by
  have htyped : ∃ typed, typedNativeNumcodeValue logical
      (UInt64.ofNat (valueAt bytes row 8)).toNat = some typed := by
    rcases hfloat with rfl | rfl
    · exact ⟨_, rfl⟩
    · exact ⟨_, rfl⟩
  obtain ⟨typed, htyped⟩ := htyped
  exact ⟨_, (test_of_valid h hvalid hrow).trans (matchesAny_typed htyped literals)⟩

/-! The short cuts. -/

theorem matchesAny_singleton (logical : CoveLogicalType) (literal : PredicateLiteral) (value : UInt64) :
    matchesAny logical value [literal] = compareNumcode logical value .eq literal := by
  rw [matchesAny]
  cases compareNumcode logical value .eq literal with
  | error e => rfl
  | ok equal => cases equal <;> rfl

theorem searchNeedles_singleton (needle value : UInt32) :
    searchNeedles [needle] value = (value == needle) := by
  rw [Bool.eq_iff_iff, searchNeedles_iff (pairwise_singleton _ _), mem_singleton, beq_iff_eq]

theorem eqKernel_map (h : validateFixedLeWidthForValidity bytes rowCount 8 validity = .ok ()) :
    (filterNumcodeLeTyped simd bytes rowCount validity logical .eq literal base).map Prod.fst =
      ((numcodes logical [literal]).inLoop bytes rowCount validity base).map Prod.fst := by
  have htest : (numcodes logical [literal]).test bytes =
      numcodeTest bytes fun value => compareNumcode logical value .eq literal := by
    exact congrArg (numcodeTest bytes) (funext fun value => matchesAny_singleton logical literal value)
  rw [filterNumcodeLeTyped, h, inLoop, htest]
  refine dispatched_map fun hvalid out dispatch hvector => ?_
  subst hvalid
  have hlength : bytes.length = rowCount * 8 := by
    rcases (validate_ok_iff.mp h).2 with ⟨hnull, -⟩ | hlength
    · cases hnull
    · exact hlength
  cases literal with
  | int64 needle =>
    rw [i64Vector, Option.ite_none_right_eq_some] at hvector
    rw [hvector.1]
    exact simd.i64Cmp_sound hlength hvector.2
  | uint64 needle | float64 needle => cases hvector

theorem codeEqKernel_map {needle : UInt32}
    (h : validateFixedLeWidthForValidity bytes rowCount 4 validity = .ok ()) :
    (filterU32LeEqDispatch simd bytes rowCount validity needle base).map Prod.fst =
      ((codes [needle]).inLoop bytes rowCount validity base).map Prod.fst := by
  have htest : (codes [needle]).test bytes = codeTest bytes (· == needle) := by
    exact congrArg (codeTest bytes) (funext fun value => searchNeedles_singleton needle value)
  rw [filterU32LeEqDispatch, h, inLoop, htest]
  refine dispatched_map fun hvalid out dispatch hvector => ?_
  subst hvalid
  have hlength : bytes.length = rowCount * 4 := by
    rcases (validate_ok_iff.mp h).2 with ⟨hnull, -⟩ | hlength
    · cases hnull
    · exact hlength
  exact simd.u32Eq_sound hlength hvector

theorem inLoop_nil (h : validateFixedLeWidthForValidity bytes rowCount 8 validity = .ok ()) :
    ((numcodes logical []).inLoop bytes rowCount validity base).map Prod.fst =
      .ok (SelectionBitmap.none rowCount) := by
  have htest : ∀ row < rowCount, candidate base validity row = true →
      (numcodes logical []).test bytes row = .ok false :=
    fun row hrow hc => test_of_valid h (candidate_valid hc) hrow
  obtain ⟨⟨out, stats⟩, hscan⟩ := (@scanRows_ok_iff _ _ _ (rowCount * 8)).mpr
    fun row hrow hc => ⟨false, htest row hrow hc⟩
  obtain ⟨hlen, htidy, hcontains⟩ := scanRows_ok hscan
  have hloop : (numcodes logical []).inLoop bytes rowCount validity base = .ok (out, stats) := hscan
  rw [hloop]
  refine congrArg ok (SelectionBitmap.ext hlen htidy SelectionBitmap.none_tidy fun row => ?_)
  rw [SelectionBitmap.none_contains, Bool.eq_false_iff]
  intro hrow
  obtain ⟨hlt, hc, htrue⟩ := (hcontains row).mp hrow
  rw [htest row hlt hc] at htrue
  cases htrue

theorem filterIn_map (h : validateFixedLeWidthForValidity bytes rowCount m.width validity = .ok ()) :
    (m.filterIn simd bytes rowCount validity base).map Prod.fst =
      (m.inLoop bytes rowCount validity base).map Prod.fst := by
  cases m with
  | numcodes logical literals =>
    rw [width] at h
    rcases literals with _ | ⟨literal, _ | ⟨second, others⟩⟩
    · rw [filterIn, filterNumcodeLeInTyped, h]
      exact (inLoop_nil h).symm
    · rw [filterIn, filterNumcodeLeInTyped, h]
      exact eqKernel_map h
    · rw [filterIn, filterNumcodeLeInTyped, h]
      · rfl
      · exact nofun
      · exact nofun
  | codes needles =>
    rw [width] at h
    rcases needles with _ | ⟨needle, _ | ⟨second, others⟩⟩
    · rw [filterIn, filterU32LeInSorted, h]
      · rfl
      · exact nofun
    · rw [filterIn, filterU32LeInSorted, h]
      exact codeEqKernel_map h
    · rw [filterIn, filterU32LeInSorted, h]
      · rfl
      · exact nofun

theorem inLoop_of_filterIn
    (haccepted : validateFixedLeWidthForValidity bytes rowCount m.width validity = .ok ())
    {found : Filtered} (hfound : m.filterIn simd bytes rowCount validity base = .ok found) :
    ∃ stats, m.inLoop bytes rowCount validity base = .ok (found.1, stats) := by
  have hmap := @filterIn_map bytes rowCount validity base m simd haccepted
  rw [hfound] at hmap
  obtain ⟨⟨out, stats⟩, hloop, rfl⟩ := map_eq_ok_iff.mp hmap.symm
  exact ⟨stats, hloop⟩

theorem filterNotIn_map (hvalidity : validity.rowCount = rowCount)
    (h : validateFixedLeWidthForValidity bytes rowCount m.width validity = .ok ()) :
    (m.filterNotIn simd bytes rowCount validity base).map Prod.fst =
      (m.notInLoop bytes rowCount validity base).map Prod.fst := by
  have hshort {α : Type} (list : List α) :
      (∃ only, base = none ∧ list = [only]) ∨ ∀ only, base = none → list = [only] → False := by
    by_cases hone : ∃ only, base = none ∧ list = [only]
    · exact .inl hone
    · exact .inr fun only hbase hlist => hone ⟨only, hbase, hlist⟩
  cases m with
  | numcodes logical literals =>
    rw [width] at h
    rcases hshort literals with ⟨literal, rfl, rfl⟩ | hgeneral
    · rw [filterNotIn, filterNumcodeLeNotInTyped, h]
      exact complemented_map hvalidity (eqKernel_map h)
    · rw [filterNotIn, filterNumcodeLeNotInTyped, h]
      · rfl
      · exact hgeneral
  | codes needles =>
    rw [width] at h
    rcases hshort needles with ⟨needle, rfl, rfl⟩ | hgeneral
    · rw [filterNotIn, filterU32LeNotInSorted, h]
      exact complemented_map hvalidity (codeEqKernel_map h)
    · rw [filterNotIn, filterU32LeNotInSorted, h]
      · rfl
      · exact hgeneral

variable (h : validateFixedLeWidthForValidity bytes rowCount m.width validity = .ok ())
include h

theorem partition_of_loops (hsorted : m.Sorted) (hread : ¬ m.Misread bytes rowCount validity base)
    {found rest : SelectionBitmap}
    (hin : (m.inLoop bytes rowCount validity base).map Prod.fst = .ok found)
    (hout : (m.notInLoop bytes rowCount validity base).map Prod.fst = .ok rest) :
    m.Partition bytes rowCount validity base found rest := by
  obtain ⟨⟨found, stats⟩, hscan, rfl⟩ := map_eq_ok_iff.mp hin
  obtain ⟨⟨rest, stats'⟩, hscan', rfl⟩ := map_eq_ok_iff.mp hout
  have htested := scanRows_ok_iff.mp ⟨_, hscan⟩
  obtain ⟨hlen, htidy, hfound⟩ := scanRows_ok hscan
  obtain ⟨hlen', htidy', hrest⟩ := scanRows_ok hscan'
  have hnot (row : Nat) : (m.test bytes row).map not = .ok true ↔ m.test bytes row = .ok false := by
    cases m.test bytes row with
    | error e => exact iff_of_false nofun nofun
    | ok matched => cases matched <;> simp [Except.map]
  refine ⟨fun row => ?_, fun row hrow => ?_, fun row => ?_, fun row => ?_⟩
  · rintro ⟨hrow, hrow'⟩
    have htrue := ((hfound row).mp hrow).2.2
    have hfalse := (hnot row).mp ((hrest row).mp hrow').2.2
    rw [htrue] at hfalse
    cases hfalse
  · exact ⟨htidy row (hlen.le.trans hrow), htidy' row (hlen'.le.trans hrow)⟩
  · rw [hfound, hrest]
    constructor
    · rintro (⟨hlt, hc, -⟩ | ⟨hlt, hc, -⟩)
      · exact ⟨hlt, hc⟩
      · exact ⟨hlt, hc⟩
    · rintro ⟨hlt, hc⟩
      obtain ⟨matched, htest⟩ := htested row hlt hc
      cases matched with
      | true => exact .inl ⟨hlt, hc, htest⟩
      | false => exact .inr ⟨hlt, hc, (hnot row).mpr htest⟩
  · rw [hfound]
    constructor
    · rintro ⟨hlt, hc, htest⟩
      exact ⟨hlt, hc, (test_ok_iff h hsorted hc hlt htest hread).mp rfl⟩
    · rintro ⟨hlt, hc, hholds⟩
      obtain ⟨matched, htest⟩ := htested row hlt hc
      have := (test_ok_iff h hsorted hc hlt htest hread).mpr hholds
      rw [this] at htest
      exact ⟨hlt, hc, htest⟩

theorem misread_selected (hread : m.Misread bytes rowCount validity base) :
    ∃ found stats rest stats', m.inLoop bytes rowCount validity base = .ok (found, stats) ∧
      m.notInLoop bytes rowCount validity base = .ok (rest, stats') ∧
        ∃ row, found.contains row = true ∧ ¬ m.Holds bytes row := by
  cases m with
  | codes needles => exact hread.elim
  | numcodes logical literals =>
    obtain ⟨row, hrow, hc, ⟨literal, hliteral, hmisjudged⟩, hholds⟩ := hread
    have hfloat := (misjudged_eq hmisjudged).1
    have htotal : ∀ row < rowCount, candidate base validity row = true →
        ∃ matched, (numcodes logical literals).test bytes row = .ok matched :=
      fun row hrow hc => test_total hfloat h (candidate_valid hc) hrow
    obtain ⟨⟨found, stats⟩, hin⟩ := (@scanRows_ok_iff _ _ _ (rowCount * 8)).mpr htotal
    have hnegated : ∀ row < rowCount, candidate base validity row = true →
        ∃ matched, ((numcodes logical literals).test bytes row).map not = .ok matched := by
      intro row hrow hc
      obtain ⟨matched, htest⟩ := htotal row hrow hc
      exact ⟨!matched, by rw [htest]; rfl⟩
    obtain ⟨⟨rest, stats'⟩, hout⟩ := (@scanRows_ok_iff _ _ _ (rowCount * 8)).mpr hnegated
    refine ⟨found, stats, rest, stats', hin, hout, row, ?_, hholds⟩
    obtain ⟨matched, htest⟩ := htotal row hrow hc
    have hanswer := htest
    rw [test_of_valid h (candidate_valid hc) hrow] at hanswer
    have hvalue : (UInt64.ofNat (valueAt bytes row 8)).toNat = valueAt bytes row 8 :=
      UInt64.toNat_ofNat_of_lt' (valueAt_lt bytes row 8)
    rw [← hvalue] at hmisjudged
    have htrue := (matchesAny_iff hanswer).mpr (.inr ⟨literal, hliteral, hmisjudged⟩)
    rw [htrue] at htest
    exact ((scanRows_ok hin).2.2 row).mpr ⟨hrow, hc, htest⟩

end

/-- The membership kernel and its complement part the valid rows of the base, by the values that are
equal to a literal, and their short cuts do what the row loops do; exactly when no float is taken for
a literal that is rounded onto it. -/
theorem in_not_in_iff (m : Membership) (simd : SimdKernels) (bytes : Bytes) (rowCount : Nat)
    (validity : ValidityRef) (base : Option SelectionBitmap) (hvalidity : validity.rowCount = rowCount)
    (hsorted : m.Sorted)
    (haccepted : validateFixedLeWidthForValidity bytes rowCount m.width validity = .ok ()) :
    ((∀ found stats rest stats', m.filterIn simd bytes rowCount validity base = .ok (found, stats) →
        m.filterNotIn simd bytes rowCount validity base = .ok (rest, stats') →
          m.Partition bytes rowCount validity base found rest) ∧
      (m.filterIn simd bytes rowCount validity base).map Prod.fst =
        (m.inLoop bytes rowCount validity base).map Prod.fst ∧
      (m.filterNotIn simd bytes rowCount validity base).map Prod.fst =
        (m.notInLoop bytes rowCount validity base).map Prod.fst) ↔
    ¬ m.Misread bytes rowCount validity base := by
  have hin := @filterIn_map bytes rowCount validity base m simd haccepted
  have hout := @filterNotIn_map bytes rowCount validity base m simd hvalidity haccepted
  constructor
  · rintro ⟨hpartition, -, -⟩ hread
    obtain ⟨found, stats, rest, stats', hloop, hloop', row, hrow, hholds⟩ :=
      misread_selected haccepted hread
    rw [hloop] at hin
    rw [hloop'] at hout
    obtain ⟨⟨found', s⟩, hfound, rfl⟩ := map_eq_ok_iff.mp hin
    obtain ⟨⟨rest', t⟩, hrest, rfl⟩ := map_eq_ok_iff.mp hout
    exact hholds (((hpartition _ _ _ _ hfound hrest).members row).mp hrow).2.2
  · intro hread
    refine ⟨fun found stats rest stats' hfound hrest => ?_, hin, hout⟩
    rw [hfound] at hin
    rw [hrest] at hout
    exact partition_of_loops haccepted hsorted hread hin.symm hout.symm

/-- Two rows, the second null; the list has the value of the first. -/
theorem in_not_in_iff_sample : ∃ found stats rest stats',
      (codes [2, 5]).filterIn .scalar [5, 0, 0, 0, 2, 0, 0, 0] 2 (.coveNullBitmap [2] 2) none =
        .ok (found, stats) ∧
      (codes [2, 5]).filterNotIn .scalar [5, 0, 0, 0, 2, 0, 0, 0] 2 (.coveNullBitmap [2] 2) none =
        .ok (rest, stats') ∧
      (codes [2, 5]).Partition [5, 0, 0, 0, 2, 0, 0, 0] 2 (.coveNullBitmap [2] 2) none found rest :=
  ⟨_, _, _, _, rfl, rfl,
    ((in_not_in_iff (codes [2, 5]) .scalar [5, 0, 0, 0, 2, 0, 0, 0] 2 (.coveNullBitmap [2] 2) none rfl
      (show (([2, 5] : List UInt32).map UInt32.toNat).Pairwise (· ≤ ·)
        by decide) rfl).mpr id).1 _ _ _ _ rfl rfl⟩

/-- `2 ^ 53` is selected as a member of the list of `2 ^ 53 + 1`. -/
theorem rounded_literal_selected :
    ((numcodes .float64 [.int64 9007199254740993]).filterIn .scalar [0, 0, 0, 0, 0, 0, 0x40, 0x43] 1
      (.allValid 1) none).map (fun filtered => filtered.1.contains 0) = .ok true ∧
    ((numcodes .float64 [.int64 9007199254740993]).filterNotIn .scalar [0, 0, 0, 0, 0, 0, 0x40, 0x43] 1
      (.allValid 1) none).map (fun filtered => filtered.1.contains 0) = .ok false ∧
    ¬ (numcodes .float64 [.int64 9007199254740993]).Holds [0, 0, 0, 0, 0, 0, 0x40, 0x43] 0 := by
  refine ⟨by decide +kernel, by decide +kernel, ?_⟩
  rintro ⟨literal, hliteral, number, hstored, hnumber⟩
  have hvalue : valueAt [0, 0, 0, 0, 0, 0, 0x40, 0x43] 0 8 = 0x4340000000000000 := by decide
  obtain rfl := mem_singleton.mp hliteral
  rw [hvalue, stored_two_pow_53] at hstored
  have hexact : predicateNumber (.int64 9007199254740993) = some (whole 9007199254740993) := rfl
  rw [hexact, ← hstored, Option.some.injEq] at hnumber
  exact absurd (whole_strictMono.injective hnumber) (by decide)

/-- A kernel that is given the selection of another selects what each of them selects alone. -/
theorem filterIn_chained (m m' : Membership) (simd : SimdKernels) (bytes bytes' : Bytes) (rowCount : Nat)
    (validity validity' : ValidityRef) (base : Option SelectionBitmap) {found alone : Filtered}
    (haccepted : validateFixedLeWidthForValidity bytes rowCount m.width validity = .ok ())
    (haccepted' : validateFixedLeWidthForValidity bytes' rowCount m'.width validity' = .ok ())
    (hfound : m.filterIn simd bytes rowCount validity base = .ok found)
    (halone : m'.filterIn simd bytes' rowCount validity' base = .ok alone) :
    ∃ both, m'.filterIn simd bytes' rowCount validity' (some found.1) = .ok both ∧
      ∀ row, both.1.contains row = true ↔ found.1.contains row = true ∧ alone.1.contains row = true := by
  obtain ⟨stats, hloop⟩ := inLoop_of_filterIn haccepted hfound
  obtain ⟨stats', hloop'⟩ := inLoop_of_filterIn haccepted' halone
  have hfirst := (scanRows_ok hloop).2.2
  have hcandidate (row : Nat) : candidate (some found.1) validity' row = true ↔
      found.1.contains row = true ∧ candidate base validity' row = true := by
    simp only [candidate, Option.any_some, Bool.not_not, Bool.and_eq_true, hfirst]
    tauto
  have htested := scanRows_ok_iff.mp ⟨_, hloop'⟩
  obtain ⟨both, hboth⟩ :=
      (@scanRows_ok_iff (candidate (some found.1) validity') _ _ (rowCount * m'.width)).mpr
    fun row hrow hc => htested row hrow ((hcandidate row).mp hc).2
  have hmap := @filterIn_map bytes' rowCount validity' (some found.1) m' simd haccepted'
  rw [inLoop, hboth] at hmap
  obtain ⟨both', hrun, hsame⟩ := map_eq_ok_iff.mp hmap
  refine ⟨both', hrun, fun row => ?_⟩
  rw [hsame, (scanRows_ok hboth).2.2, (scanRows_ok hloop').2.2, hcandidate]
  tauto

theorem filterIn_chained_sample : ∃ found both,
    (codes [5, 9]).filterIn .scalar [5, 0, 0, 0, 9, 0, 0, 0] 2 (.allValid 2) none = .ok found ∧
      (codes [1, 5]).filterIn .scalar [5, 0, 0, 0, 2, 0, 0, 0] 2 (.allValid 2) (some found.1) = .ok both ∧
      both.1.contains 0 = true := by
  obtain ⟨both, hboth, hrows⟩ :=
      filterIn_chained (codes [5, 9]) (codes [1, 5]) .scalar [5, 0, 0, 0, 9, 0, 0, 0]
    [5, 0, 0, 0, 2, 0, 0, 0] 2 (.allValid 2) (.allValid 2) none rfl rfl rfl rfl
  exact ⟨_, both, rfl, hboth, (hrows 0).mpr (by decide)⟩

end Membership

end CoveFormat.FixedWidthFilters
