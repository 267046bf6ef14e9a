import CoveFormat.HashJoins

namespace CoveFormat.JoinKernels

open FilterKernels HashJoins List SelectionBitmaps

variable {K : Type}

/-- The rows that a loop does not skip. -/
def baseRows (values : List K) (base : Option SelectionBitmap) : List (K × Nat) :=
  values.zipIdx.filter fun row => !(base.any fun bitmap => !bitmap.contains row.2)

section

/- `width` is `size_of::<K>()`. -/
variable (marks : K → Bool) (marksNulls : Bool) (width : Nat) (leftValues : List K)
    (leftValidity : ValidityRef)
  (rightValues : List K) (rightValidity : ValidityRef) (base : Option SelectionBitmap)

def probeRow (state : Filtered) (row : K × Nat) : Filtered :=
  if leftValidity.isValid row.2 then mark (marks row.1) row.2 state
  else if marksNulls then (state.1.set row.2, { state.2 with rowsMatched := state.2.rowsMatched + 1 })
  else state

def probeRows : Filtered :=
  (baseRows leftValues base).foldl (probeRow marks marksNulls leftValidity)
    (.none leftValues.length, .start leftValues.length ((leftValues.length + rightValues.length) * width))

/-- The hash set of the values on the right. -/
def build : List K := (validRows rightValues rightValidity).map Prod.fst

variable [DecidableEq K]

def semiJoinEq : Filtered :=
  probeRows (fun value => value ∈ build rightValues rightValidity) false width leftValues leftValidity
    rightValues base

def antiJoinEq (leftNullsUnmatched : Bool) : Filtered :=
  probeRows (fun value => value ∉ build rightValues rightValidity) leftNullsUnmatched width leftValues
    leftValidity rightValues base

end

structure NativeCodeDomain where
  (fileId snapshotId : Option String)
  (tableId objectTypeId propertyId columnId : Option UInt32)
  (dictionaryId semanticDomainId : Option String)
  dictionaryEpoch : Option UInt64
  collationId : Option UInt16
  (nullPolicy securityScope : Option String)
  deriving DecidableEq

/-- The source compares the fields one by one. -/
def NativeCodeDomain.codeEqualityCompatible (domain other : NativeCodeDomain) : Bool :=
  (domain.semanticDomainId.isSome || domain.dictionaryId.isSome || domain.tableId.isSome ||
    domain.objectTypeId.isSome || domain.propertyId.isSome || domain.columnId.isSome) &&
    decide (domain = other)

/-- The values of a column with their validity and the domain of their codes. -/
structure CodeColumn (K : Type) where
  values : List K
  validity : ValidityRef
  domain : NativeCodeDomain

section

variable [DecidableEq K]

def semiJoin (width : Nat) (text : String) (left right : CodeColumn K)
    (base : Option SelectionBitmap) : Except CoveError Filtered :=
  if left.domain.codeEqualityCompatible right.domain then
    .ok (semiJoinEq width left.values left.validity right.values right.validity base)
  else .error (.badSchema text)

def antiJoin (width : Nat) (text : String) (leftNullsUnmatched : Bool)
    (left right : CodeColumn K) (base : Option SelectionBitmap) : Except CoveError Filtered :=
  if left.domain.codeEqualityCompatible right.domain then
    .ok (antiJoinEq width left.values left.validity right.values right.validity base
      leftNullsUnmatched)
  else .error (.badSchema text)

def semiJoinU32Eq := semiJoin (K := UInt32) 4
  "u32 code semi-join requires a proven shared code equality domain"

def semiJoinU64Eq := semiJoin (K := UInt64) 8
  "u64 code semi-join requires a proven shared code equality domain"

def semiJoinI64Eq := semiJoin (K := Int64) 8
  "i64 semi-join requires a proven shared equality domain"

def antiJoinU32Eq := antiJoin (K := UInt32) 4
  "u32 code anti-join requires a proven shared code equality domain" false

def antiJoinU64Eq := antiJoin (K := UInt64) 8
  "u64 code anti-join requires a proven shared code equality domain" false

def antiJoinI64Eq := antiJoin (K := Int64) 8
  "i64 anti-join requires a proven shared equality domain" false

def antiJoinU32EqLeftNullsUnmatched := antiJoin (K := UInt32) 4
  "u32 code anti-join requires a proven shared code equality domain" true

def antiJoinU64EqLeftNullsUnmatched := antiJoin (K := UInt64) 8
  "u64 code anti-join requires a proven shared code equality domain" true

def antiJoinI64EqLeftNullsUnmatched := antiJoin (K := Int64) 8
  "i64 anti-join requires a proven shared equality domain" true

end

section

variable {marks : K → Bool} {marksNulls : Bool} {width : Nat} {leftValues : List K}
    {leftValidity : ValidityRef}
  {rightValues : List K} {rightValidity : ValidityRef} {base : Option SelectionBitmap}

def picks (marks : K → Bool) (marksNulls : Bool) (leftValidity : ValidityRef) (row : K × Nat) : Bool :=
  bif leftValidity.isValid row.2 then marks row.1 else marksNulls

theorem probeRow_fst (state : Filtered) (row : K × Nat) :
    (probeRow marks marksNulls leftValidity state row).1 =
    if picks marks marksNulls leftValidity row then state.1.set row.2 else state.1 := by
  rw [probeRow, picks]
  cases leftValidity.isValid row.2
  · cases marksNulls <;> rfl
  · cases marks row.1 <;> rfl

theorem contains_probe (rows : List (K × Nat)) (state : Filtered) (left : Nat) :
    (rows.foldl (probeRow marks marksNulls leftValidity) state).1.contains left = true ↔
      state.1.contains left = true ∨ left < state.1.len ∧ ∃ row ∈ rows, row.2 = left ∧
        picks marks marksNulls leftValidity row = true := by
  induction rows generalizing state with
  | nil => simp
  | cons row rows ih =>
    rw [foldl_cons, ih, exists_mem_cons_iff, probeRow_fst]
    cases picks marks marksNulls leftValidity row
    · simp
    · simp only [if_true, SelectionBitmap.set_contains, SelectionBitmap.set_len, Bool.or_eq_true,
        decide_eq_true_eq]
      grind

theorem contains_probeRows (left : Nat) :
    (probeRows marks marksNulls width leftValues leftValidity rightValues base).1.contains left = true ↔
      (base.any fun bitmap => !bitmap.contains left) = false ∧ ∃ value, leftValues[left]? = some value ∧
        picks marks marksNulls leftValidity (value, left) = true := by
  rw [probeRows, contains_probe, SelectionBitmap.none_contains, SelectionBitmap.none_len]
  simp only [baseRows, mem_filter, mem_zipIdx_iff_getElem?, Prod.exists]
  grind

theorem mem_build {value : K} : value ∈ build rightValues rightValidity ↔
    ∃ right, rightValues[right]? = some value ∧ rightValidity.isValid right = true := by
  rw [build, mem_map]
  constructor
  · rintro ⟨row, hrow, rfl⟩
    exact ⟨row.2, mem_validRows.mp hrow⟩
  · rintro ⟨right, hright⟩
    exact ⟨(value, right), mem_validRows.mpr hright, rfl⟩

variable [DecidableEq K]

theorem contains_semiJoinEq (left : Nat) :
    (semiJoinEq width leftValues leftValidity rightValues rightValidity base).1.contains left = true ↔
      ∃ right, (left, right) ∈ nestedLoopJoin leftValues leftValidity rightValues rightValidity base := by
  rw [semiJoinEq, contains_probeRows]
  simp only [mem_nestedLoopJoin, candidate, picks]
  cases leftValidity.isValid left <;> simp [mem_build]
  grind

theorem contains_antiJoinEq (left : Nat) (leftNullsUnmatched : Bool) :
    (antiJoinEq width leftValues leftValidity rightValues rightValidity base
        leftNullsUnmatched).1.contains left = true ↔
      left < leftValues.length ∧ (base.any fun bitmap => !bitmap.contains left) = false ∧
        (leftValidity.isValid left = true ∨ leftNullsUnmatched = true) ∧
        ∀ right, (left, right) ∉ nestedLoopJoin leftValues leftValidity rightValues rightValidity base := by
  rw [antiJoinEq, contains_probeRows]
  have hlt : left < leftValues.length ↔ (leftValues[left]?).isSome = true := by simp
  simp only [mem_nestedLoopJoin, candidate, picks, hlt]
  cases leftValues[left]? <;> cases leftValidity.isValid left <;> simp [mem_build]
  grind

/-- Without a shared domain of codes nothing is joined; with one, what a member selects and what the
member of the other kind selects make up the valid rows of the base. -/
theorem semiJoin_antiJoin {text text' : String} {left right : CodeColumn K} {semi anti : Filtered}
    (hsemi : semiJoin width text left right base = .ok semi)
    (hanti : antiJoin width text' false left right base = .ok anti) (row : Nat) :
    left.domain.codeEqualityCompatible right.domain = true ∧
      (anti.1.contains row = true ↔ row < left.values.length ∧
        (base.any fun bitmap => !bitmap.contains row) = false ∧ left.validity.isValid row = true ∧
          ¬ semi.1.contains row = true) := by
  rw [semiJoin] at hsemi
  rw [antiJoin] at hanti
  split at hsemi
  · rename_i hdomain
    rw [if_pos hdomain] at hanti
    cases hsemi
    cases hanti
    rw [contains_semiJoinEq, contains_antiJoinEq]
    simp [hdomain]
  · cases hsemi

theorem joined_eq {order : IterationOrder K} {pairs : Joined} (hslice : rightValues.length < 2 ^ 64)
    (h : innerJoinEq order width leftValues leftValidity rightValues rightValidity base = .ok pairs) :
    pairs.1 = unzipped (nestedLoopJoin leftValues leftValidity rightValues rightValidity base) := by
  rcases innerJoinEq_run order width hslice with ⟨-, herror⟩ | ⟨-, stats, hok⟩
  · cases h.symm.trans herror
  · cases h.symm.trans hok
    rfl

/-- A semi-join keeps the left rows that the inner join pairs, an anti-join the other rows of the base. -/
theorem semi_anti_joins_part :
    (∀ left, (semiJoinEq width leftValues leftValidity rightValues rightValidity base).1.contains
      left = true ↔
      ∃ right, (left, right) ∈ nestedLoopJoin leftValues leftValidity rightValues rightValidity base) ∧
    (∀ left leftNullsUnmatched, (antiJoinEq width leftValues leftValidity rightValues rightValidity base
        leftNullsUnmatched).1.contains left = true ↔
      left < leftValues.length ∧ (base.any fun bitmap => !bitmap.contains left) = false ∧
        (leftValidity.isValid left = true ∨ leftNullsUnmatched = true) ∧
        ∀ right, (left, right) ∉ nestedLoopJoin leftValues leftValidity rightValues rightValidity base) ∧
    ∀ (order : IterationOrder K) (pairs : Joined), rightValues.length < 2 ^ 64 →
      innerJoinEq order width leftValues leftValidity rightValues rightValidity base = .ok pairs →
      ∀ left, (semiJoinEq width leftValues leftValidity rightValues rightValidity base).1.contains
        left = true ↔
        left ∈ pairs.1.leftRows := by
  refine ⟨contains_semiJoinEq, contains_antiJoinEq, fun order pairs hslice hpairs left => ?_⟩
  rw [contains_semiJoinEq, joined_eq hslice hpairs, unzipped, mem_map, Prod.exists]
  simp

theorem nodup_nestedLoopJoin :
    (nestedLoopJoin leftValues leftValidity rightValues rightValidity base).Nodup := by
  refine nestedLoopJoin_ordered.imp ?_
  rintro pair _ hlt rfl
  omega

theorem semi_anti_joins_part_sample : ∀ left,
    (semiJoinEq 4 [7, 5, (2 : UInt32)] (.allValid 3) [2, 7] (.allValid 2) none).1.contains left = true ↔
      left ∈ [0, 2] :=
  semi_anti_joins_part.2.2 .reversed (⟨[0, 2], [1, 0]⟩, ⟨3, 3, 2, 1, 44, .scalar⟩) (by decide) rfl

/-- The pairs are the same whichever side the hash table is built from. -/
theorem innerJoinEq_swapped (order order' : IterationOrder K) {pairs pairs' : Joined}
    (hright : rightValues.length < 2 ^ 64) (hleft : leftValues.length < 2 ^ 64)
    (h : innerJoinEq order width leftValues leftValidity rightValues rightValidity none = .ok pairs)
    (h' : innerJoinEq order' width rightValues rightValidity leftValues leftValidity none = .ok pairs') :
    (pairs.1.leftRows.zip pairs.1.rightRows).Perm (pairs'.1.rightRows.zip pairs'.1.leftRows) := by
  have hswap (pairs : List (Nat × Nat)) : (unzipped pairs).rightRows.zip (unzipped pairs).leftRows =
      pairs.map Prod.swap := zip_map'
  have hzip (pairs : List (Nat × Nat)) : (unzipped pairs).leftRows.zip (unzipped pairs).rightRows = pairs :=
    (zip_of_prod rfl rfl).symm
  rw [joined_eq hright h, joined_eq hleft h', hswap, hzip]
  refine (perm_ext_iff_of_nodup nodup_nestedLoopJoin (nodup_nestedLoopJoin.map Prod.swap_injective)).mpr ?_
  rintro ⟨left, right⟩
  rw [mem_map_of_involutive Prod.swap_swap, Prod.swap_prod_mk]
  simp only [mem_nestedLoopJoin, candidate, Option.any_none]
  tauto

theorem innerJoinEq_swapped_sample : ∃ pairs pairs',
    innerJoinEq .reversed 4 [7, 2, 2] (.allValid 3) [(2 : UInt32), 7] (.allValid 2) none = .ok pairs ∧
      innerJoinEq .reversed 4 [(2 : UInt32), 7] (.allValid 2) [7, 2, 2] (.allValid 3) none = .ok pairs' ∧
      (pairs.1.leftRows.zip pairs.1.rightRows).Perm (pairs'.1.rightRows.zip pairs'.1.leftRows) :=
  have hpairs : innerJoinEq .reversed 4 [7, 2, 2] (.allValid 3) [(2 : UInt32), 7] (.allValid 2) none =
      .ok (⟨[0, 1, 2], [1, 0, 0]⟩, ⟨3, 3, 3, 1, 52, .scalar⟩) := rfl
  have hpairs' : innerJoinEq .reversed 4 [(2 : UInt32), 7] (.allValid 2) [7, 2, 2] (.allValid 3) none =
      .ok (⟨[0, 0, 1], [1, 2, 0]⟩, ⟨2, 2, 3, 1, 56, .scalar⟩) := rfl
  ⟨_, _, hpairs, hpairs', innerJoinEq_swapped .reversed .reversed (by decide) (by decide) hpairs hpairs'⟩

end

end CoveFormat.JoinKernels
