import CoveFormat.LookupKeys
import CoveFormat.MorselScan

namespace CoveFormat.MorselLookup

open ByteCodes CoveTypes List LookupKeys MorselScan NumCodes Option Selections
open EncodedArrays (CoveArrayValue logicalTypeFixedWidth)

section

variable (state : DatasetState) (morsel : Morsel)

/-- The NumCode of a value, whatever encoding its page has. -/
def numCodeOf (logical : CoveLogicalType) : CoveArrayValue → Option UInt64
  | .numCode code | .varint code => some code
  | .int64 value => some value.toUInt64
  | .bytes bytes | .ownedBytes bytes =>
    if logicalTypeFixedWidth logical = some bytes.length ∧ bytes.length ≤ 8 then
      some (UInt64.ofNat (leNat bytes))
    else none
  | .boolean value | .validityBit value => some (if value then 1 else 0)
  | .null | .fileCode _ | .dictValue _ => none

def numberMatches (logical : CoveLogicalType) (op : NumericPredicateOp) (literal : PredicateLiteral)
    (expected : Bool) (value : CoveArrayValue) : Bool :=
  (numCodeOf logical value).any fun code =>
    compareNativeNumcodeValue logical code.toNat op literal == some expected

/-- Whether a predicate is TRUE of a value; numbers are compared by their NumCodes. -/
def isTrueValue (logical : CoveLogicalType) (predicate : CovePredicate) (value : CoveArrayValue) :
    Bool :=
  match predicate with
  | .numeric _ op literal => numberMatches logical op literal true value
  | .numericIn _ literals => literals.any fun literal => numberMatches logical .eq literal true value
  | .numericNotIn _ literals =>
    value ≠ .null && literals.all fun literal => numberMatches logical .eq literal false value
  | _ => keepsValue logical predicate value == some true

/-- The predicate is TRUE on the row. -/
def IsTrue (predicate : CovePredicate) (row : Nat) : Prop :=
  isTrueValue (state.columns (predicateColumnIndex predicate)).logical predicate
    (state.value (predicateColumnIndex predicate) row) = true

/-- The scan of the page keeps the row. -/
def Keeps (predicate : CovePredicate) (row : Nat) : Prop := keepsRow state predicate row = some true

instance (predicate : CovePredicate) (row : Nat) : Decidable (IsTrue state predicate row) :=
  inferInstanceAs (Decidable (_ = _))

instance (predicate : CovePredicate) (row : Nat) : Decidable (Keeps state predicate row) :=
  inferInstanceAs (Decidable (_ = _))

def canonicalKey (logical : CoveLogicalType) : LookupKeyKind → CoveArrayValue → Option Nat
  | .numCode, value => (numCodeOf logical value).map fun code => canonicalNumcode logical code.toNat
  | .fileCode, .fileCode code => some code.toNat
  | .fileCode, _ => none

def Posted (index : LookupIndex) (key row : Nat) : Prop :=
  ∃ rows, index.rowsFor key = some rows ∧
    ⟨state.tableId, morsel.segmentId, morsel.morselId, row⟩ ∈ rows

/-- Every index posts each row of the morsel under its canonical key and nowhere else. -/
def Truthful : Prop :=
  ∀ i index, state.lookupFor (state.columns i).columnId = some index →
    ∀ row < morsel.rowCount, ∀ key, Posted state morsel index key row ↔
      canonicalKey (state.columns i).logical index.keyKind (state.value i row) = some key

/-- The row has one of the keys that the predicate looks up. -/
def KeyMatch (predicate : CovePredicate) (row : Nat) : Prop :=
  ∃ i kind keys, lookupKeys state predicate = some (i, kind, keys) ∧
    ∃ key ∈ keys, canonicalKey (state.columns i).logical kind (state.value i row) = some key

/-- The number of the row in the column is infinite. -/
def InfiniteAt (i row : Nat) : Prop :=
  ∃ code, numCodeOf (state.columns i).logical (state.value i row) = some code ∧
    numcodeIsInfinite (state.columns i).logical code.toNat = true

variable {state : DatasetState} {morsel : Morsel} {logical : CoveLogicalType}
  {literals : List PredicateLiteral}

theorem numberMatches_iff {op : NumericPredicateOp} {literal : PredicateLiteral} {expected : Bool}
    {value : CoveArrayValue} : numberMatches logical op literal expected value = true ↔
      ∃ code, numCodeOf logical value = some code ∧
        compareNativeNumcodeValue logical code.toNat op literal = some expected := by
  simp only [numberMatches, Option.any_eq_true, beq_iff_eq]

variable {value : CoveArrayValue}

theorem canonicalKey_numCode {key : Nat} :
    canonicalKey logical .numCode value = some key ↔
      ∃ code, numCodeOf logical value = some code ∧ canonicalNumcode logical code.toNat = key := by
  rw [canonicalKey, Option.map_eq_some_iff]

theorem canonicalKey_fileCode {key : Nat} :
    canonicalKey logical .fileCode value = some key ↔
      ∃ code, value = .fileCode code ∧ code.toNat = key := by
  cases value <;> simp [canonicalKey]

theorem compareFileCode_true {test : UInt32 → Bool} :
    compareFileCode test value = some true ↔ ∃ code, value = .fileCode code ∧ test code = true := by
  cases value <;> simp [compareFileCode]

variable {i row : Nat}

theorem keyMatch_fileCodeIn {codes : List UInt32} :
    KeyMatch state (.fileCodeIn i codes) row ↔ IsTrue state (.fileCodeIn i codes) row := by
  have htrue : IsTrue state (.fileCodeIn i codes) row ↔
      ∃ code, state.value i row = .fileCode code ∧ code ∈ codes := by
    simp only [IsTrue, isTrueValue, keepsValue, predicateColumnIndex, beq_iff_eq,
      compareFileCode_true, decide_eq_true_eq]
  rw [htrue]
  constructor
  · rintro ⟨_, _, _, hkeys, key, hkey, hvalue⟩
    cases hkeys
    obtain ⟨code, hcode, rfl⟩ := canonicalKey_fileCode.mp hvalue
    obtain ⟨other, hother, heq⟩ := mem_map.mp hkey
    exact ⟨code, hcode, UInt32.toNat_inj.mp heq ▸ hother⟩
  · rintro ⟨code, hcode, hmem⟩
    exact ⟨i, .fileCode, _, rfl, code.toNat, mem_map_of_mem hmem,
      canonicalKey_fileCode.mpr ⟨code, hcode, rfl⟩⟩

variable {literal : PredicateLiteral}

theorem lookupKeys_numeric {found} :
    lookupKeys state (.numeric i .eq literal) = some found ↔
      numericLookupKeys (state.columns i).logical literal ≠ [] ∧
        (i, .numCode, numericLookupKeys (state.columns i).logical literal) = found := by
  simp only [lookupKeys, List.isEmpty_iff, ite_none_left_eq_some, some.injEq, ne_eq]

theorem lookupKeys_numericIn {found} :
    lookupKeys state (.numericIn i literals) = some found ↔
      numericInLookupKeys (state.columns i).logical literals ≠ [] ∧
        (i, .numCode, numericInLookupKeys (state.columns i).logical literals) = found := by
  simp only [lookupKeys, List.isEmpty_iff, ite_none_left_eq_some, some.injEq, ne_eq]

theorem isTrue_numeric :
    IsTrue state (.numeric i .eq literal) row ↔
      ∃ code, numCodeOf (state.columns i).logical (state.value i row) = some code ∧
        compareNativeNumcodeValue (state.columns i).logical code.toNat .eq literal = some true :=
  numberMatches_iff

theorem isTrue_numericIn :
    IsTrue state (.numericIn i literals) row ↔
      ∃ code, numCodeOf (state.columns i).logical (state.value i row) = some code ∧
        ∃ literal ∈ literals,
          compareNativeNumcodeValue (state.columns i).logical code.toNat .eq literal = some true := by
  simp only [IsTrue, isTrueValue, predicateColumnIndex, List.any_eq_true, numberMatches_iff]
  constructor
  · rintro ⟨literal, hliteral, code, hcode, htrue⟩
    exact ⟨code, hcode, literal, hliteral, htrue⟩
  · rintro ⟨code, hcode, literal, hliteral, htrue⟩
    exact ⟨literal, hliteral, code, hcode, htrue⟩

/-- On a looked up predicate the key of a row decides: it matches only where the predicate is
TRUE, and it fails there only for an infinite number of a membership list. -/
theorem keyMatch_true {predicate : CovePredicate} (h : KeyMatch state predicate row) :
    IsTrue state predicate row := by
  have hmatch := h
  obtain ⟨i, kind, keys, hkeys, key, hkey, hvalue⟩ := h
  cases predicate with
  | fileCodeIn j codes => exact keyMatch_fileCodeIn.mp hmatch
  | numeric j op literal =>
    cases op with
    | eq =>
      obtain ⟨hne, heq⟩ := lookupKeys_numeric.mp hkeys
      cases heq
      obtain ⟨code, hcode, rfl⟩ := canonicalKey_numCode.mp hvalue
      exact isTrue_numeric.mpr ⟨code, hcode, ((lookupAgrees _ code.toNat_lt literal).1 hne).mp hkey⟩
    | lt | ltEq | gt | gtEq => cases hkeys
  | numericIn j literals =>
    obtain ⟨hne, heq⟩ := lookupKeys_numericIn.mp hkeys
    cases heq
    obtain ⟨code, hcode, rfl⟩ := canonicalKey_numCode.mp hvalue
    obtain ⟨literal, hliteral, hmem⟩ := mem_numericInLookupKeys.mp hkey
    exact isTrue_numericIn.mpr ⟨code, hcode, literal, hliteral,
      ((lookupAgrees _ code.toNat_lt literal).1 (ne_nil_of_mem hmem)).mp hmem⟩
  | null | numericNotIn | fileCodeNotIn | fixedBytesEq | fixedBytesIn | varBytesEq | varBytesIn
  | varBytesPrefix => cases hkeys

theorem keyMatch_of_true {predicate : CovePredicate}
    (hcovered : predicateIsIndexCovered state predicate = true) (h : IsTrue state predicate row) :
    KeyMatch state predicate row ∨
      ∃ i literals, predicate = .numericIn i literals ∧ InfiniteAt state i row := by
  rw [predicateIsIndexCovered] at hcovered
  cases hkeys : lookupKeys state predicate with
  | none =>
    rw [hkeys] at hcovered
    cases hcovered
  | some found =>
    cases predicate with
    | fileCodeIn j codes => exact .inl (keyMatch_fileCodeIn.mpr h)
    | numeric j op literal =>
      cases op with
      | eq =>
        obtain ⟨hne, rfl⟩ := lookupKeys_numeric.mp hkeys
        obtain ⟨code, hcode, htrue⟩ := isTrue_numeric.mp h
        exact .inl ⟨_, _, _, hkeys, _, ((lookupAgrees _ code.toNat_lt literal).1 hne).mpr htrue,
          canonicalKey_numCode.mpr ⟨code, hcode, rfl⟩⟩
      | lt | ltEq | gt | gtEq => cases hkeys
    | numericIn j literals =>
      obtain ⟨-, rfl⟩ := lookupKeys_numericIn.mp hkeys
      obtain ⟨code, hcode, literal, hliteral, htrue⟩ := isTrue_numericIn.mp h
      have hagrees := lookupAgrees (state.columns j).logical code.toNat_lt literal
      by_cases hempty : numericLookupKeys (state.columns j).logical literal = []
      · exact .inr ⟨j, literals, rfl, code, hcode, hagrees.2 hempty htrue⟩
      · exact .inl ⟨_, _, _, hkeys, _,
          mem_numericInLookupKeys.mpr ⟨literal, hliteral, (hagrees.1 hempty).mpr htrue⟩,
          canonicalKey_numCode.mpr ⟨code, hcode, rfl⟩⟩
    | null | numericNotIn | fileCodeNotIn | fixedBytesEq | fixedBytesIn | varBytesEq | varBytesIn
    | varBytesPrefix => cases hkeys

theorem infinite_not_keyMatch (h : InfiniteAt state i row) :
    ¬ KeyMatch state (.numericIn i literals) row := by
  rintro ⟨_, _, _, hkeys, key, hkey, hvalue⟩
  obtain ⟨-, heq⟩ := lookupKeys_numericIn.mp hkeys
  cases heq
  obtain ⟨code, hcode, hinfinite⟩ := h
  obtain ⟨other, hother, rfl⟩ := canonicalKey_numCode.mp hvalue
  cases hcode.symm.trans hother
  obtain ⟨literal, -, hmem⟩ := mem_numericInLookupKeys.mp hkey
  exact infinite_not_key hinfinite literal hmem

variable {index : LookupIndex} {keys : List Nat}

theorem mem_postedRows :
    row ∈ postedRows state morsel index keys ↔ ∃ key ∈ keys, Posted state morsel index key row := by
  rw [postedRows, mem_flatMap]
  refine exists_congr fun key => and_congr_right fun _ => ?_
  rw [mem_filterMap, Posted]
  constructor
  · rintro ⟨found, hfound, hrow⟩
    rw [ite_none_left_eq_some, not_or, not_or, not_not, not_not, not_not] at hrow
    obtain ⟨⟨htable, hsegment, hmorsel⟩, hrow⟩ := hrow
    have hrow := some.inj hrow
    cases hrows : index.rowsFor key with
    | none =>
      rw [hrows] at hfound
      cases hfound
    | some rows =>
      rw [hrows] at hfound
      refine ⟨rows, rfl, ?_⟩
      rw [← htable, ← hsegment, ← hmorsel, ← hrow]
      exact hfound
  · rintro ⟨rows, hrows, hmem⟩
    exact ⟨_, by rw [hrows]; exact hmem, by simp⟩

theorem covered_iff {predicate : CovePredicate} :
    predicateIsIndexCovered state predicate = true ↔ ∃ i kind keys index,
      lookupKeys state predicate = some (i, kind, keys) ∧
        state.lookupFor (state.columns i).columnId = some index ∧ index.keyKind = kind := by
  rw [predicateIsIndexCovered]
  cases hkeys : lookupKeys state predicate with
  | none => simp
  | some found =>
    obtain ⟨i, kind, keys⟩ := found
    simp only [Option.any_eq_true, beq_iff_eq, Option.some.injEq, Prod.mk.injEq]
    constructor
    · rintro ⟨index, hindex, hkind⟩
      exact ⟨i, kind, keys, index, ⟨rfl, rfl, rfl⟩, hindex, hkind⟩
    · rintro ⟨_, _, _, index, ⟨rfl, rfl, rfl⟩, hindex, hkind⟩
      exact ⟨index, hindex, hkind⟩

theorem posted_iff_keyMatch (htruthful : Truthful state morsel) {predicate : CovePredicate}
    {kind : LookupKeyKind} (hkeys : lookupKeys state predicate = some (i, kind, keys))
    (hindex : state.lookupFor (state.columns i).columnId = some index)
    (hkind : index.keyKind = kind) (hrow : row < morsel.rowCount) :
    row ∈ postedRows state morsel index keys ↔ KeyMatch state predicate row := by
  rw [mem_postedRows, KeyMatch]
  constructor
  · rintro ⟨key, hkey, hposted⟩
    exact ⟨i, kind, keys, hkeys, key, hkey, hkind ▸ (htruthful i index hindex row hrow key).mp hposted⟩
  · rintro ⟨_, _, _, hfound, key, hkey, hvalue⟩
    cases hkeys.symm.trans hfound
    exact ⟨key, hkey, (htruthful i index hindex row hrow key).mpr (hkind ▸ hvalue)⟩

theorem length_narrowed (mask : SelectionMask) (rows : List Nat) :
    (mask.andMask ((SelectionMask.fillNone mask.length).setRows rows)).length = mask.length := by
  apply SelectionMask.length_andMask
  rw [SelectionMask.length_setRows]
  exact length_replicate.symm

theorem contains_narrowed {mask : SelectionMask} {rows : List Nat}
    (hrange : rows.any (mask.length ≤ ·) ≠ true) (row : Nat) :
    (mask.andMask ((SelectionMask.fillNone mask.length).setRows rows)).contains row = true ↔
      mask.contains row = true ∧ row ∈ rows := by
  have hlength : mask.length = ((SelectionMask.fillNone mask.length).setRows rows).length := by
    rw [SelectionMask.length_setRows]
    exact length_replicate.symm
  have hrows : ∀ r ∈ rows, r < (SelectionMask.fillNone mask.length).length := by
    intro r hr
    rw [SelectionMask.fillNone, length_replicate]
    by_contra hge
    exact hrange (any_eq_true.mpr ⟨r, hr, decide_eq_true (Nat.le_of_not_lt hge)⟩)
  rw [SelectionMask.contains_andMask hlength, Bool.and_eq_true, SelectionMask.contains_setRows hrows,
    SelectionMask.contains_fillNone]
  simp

/-- The indexes keep the rows of the mask that have a key of every predicate they cover. -/
def Narrows (state : DatasetState) (morsel : Morsel) (filters : List FilterPlan)
    (mask out : SelectionMask) : Prop :=
  out.length = morsel.rowCount ∧ ∀ row, out.contains row = true ↔ mask.contains row = true ∧
    ∀ filter ∈ filters, ∀ predicate, filter.predicate = some predicate →
      predicateIsIndexCovered state predicate = true → KeyMatch state predicate row

theorem Narrows.uncovered {filter : FilterPlan} {filters : List FilterPlan}
    {mask out : SelectionMask} (h : Narrows state morsel filters mask out)
    (huncovered : ∀ predicate, filter.predicate = some predicate →
      predicateIsIndexCovered state predicate = false) :
    Narrows state morsel (filter :: filters) mask out := by
  refine ⟨h.1, fun row => (h.2 row).trans ?_⟩
  rw [forall_mem_cons]
  refine and_congr_right fun _ => (and_iff_right fun predicate hpredicate hcovered => ?_).symm
  rw [huncovered predicate hpredicate] at hcovered
  cases hcovered

section

variable {filter : FilterPlan} {filters : List FilterPlan} {predicate : CovePredicate}
  {mask narrowed : SelectionMask}

variable (hpredicate : filter.predicate = some predicate)
include hpredicate

theorem covered_head (hcovered : predicateIsIndexCovered state predicate = true) (row : Nat) :
    (∀ p, filter.predicate = some p → predicateIsIndexCovered state p = true →
      KeyMatch state p row) ↔ KeyMatch state predicate row := by
  refine ⟨fun hall => hall predicate hpredicate hcovered, fun hmatch p hp _ => ?_⟩
  rw [← some.inj (hpredicate.symm.trans hp)]
  exact hmatch

theorem Narrows.covered {out : SelectionMask}
    (hcovered : predicateIsIndexCovered state predicate = true)
    (hnarrowed : ∀ row, narrowed.contains row = true ↔
      mask.contains row = true ∧ KeyMatch state predicate row)
    (h : Narrows state morsel filters narrowed out) :
    Narrows state morsel (filter :: filters) mask out := by
  refine ⟨h.1, fun row => (h.2 row).trans ?_⟩
  rw [hnarrowed, forall_mem_cons, covered_head hpredicate hcovered, and_assoc]

theorem Narrows.empty (hcovered : predicateIsIndexCovered state predicate = true)
    (hnarrowed : ∀ row, narrowed.contains row = true ↔
      mask.contains row = true ∧ KeyMatch state predicate row)
    (hlength : narrowed.length = morsel.rowCount) (hzero : narrowed.allZero = true) :
    Narrows state morsel (filter :: filters) mask narrowed := by
  refine ⟨hlength, fun row => ⟨fun hcontains => ?_, fun hall => ?_⟩⟩
  · rw [SelectionMask.allZero_iff.mp hzero row] at hcontains
    cases hcontains
  · rw [forall_mem_cons, covered_head hpredicate hcovered] at hall
    exact (hnarrowed row).mpr ⟨hall.1, hall.2.1⟩

end

theorem lookupSelection_narrows (htruthful : Truthful state morsel) {filters : List FilterPlan}
    {saw : Bool} {mask out : SelectionMask} (hlength : mask.length = morsel.rowCount)
    (h : lookupSelection state morsel filters saw mask = (true, out)) :
    Narrows state morsel filters mask out := by
  induction filters generalizing saw mask with
  | nil =>
    cases h
    exact ⟨hlength, fun row => (and_iff_left fun _ hmem => absurd hmem not_mem_nil).symm⟩
  | cons filter filters ih =>
    rw [lookupSelection] at h
    cases hpredicate : filter.predicate with
    | none =>
      rw [hpredicate] at h
      exact (ih hlength h).uncovered fun _ hsome => by
        rw [hpredicate] at hsome
        cases hsome
    | some predicate =>
      rw [hpredicate, bind_some] at h
      have hsame : ∀ p, filter.predicate = some p → p = predicate := by
        intro p hp
        exact (some.inj (hpredicate.symm.trans hp)).symm
      cases hkeys : lookupKeys state predicate with
      | none =>
        rw [hkeys] at h
        refine (ih hlength h).uncovered fun p hp => ?_
        rw [hsame p hp, predicateIsIndexCovered, hkeys]
      | some found =>
        obtain ⟨i, kind, keys⟩ := found
        rw [hkeys] at h
        cases hindex : state.lookupFor (state.columns i).columnId with
        | none =>
          simp only [hindex] at h
          split at h
          · cases h
          · refine (ih hlength h).uncovered fun p hp => ?_
            simp only [hsame p hp, predicateIsIndexCovered, hkeys, hindex, any_none]
        | some index =>
          simp only [hindex] at h
          split at h
          · cases h
          split at h
          · cases h
          rename_i hkind hrange
          rw [not_not] at hkind
          have hcovered := covered_iff.mpr ⟨i, kind, keys, index, hkeys, hindex, hkind⟩
          have hnarrowed := fun row => (contains_narrowed hrange row).trans
            (and_congr_right fun hcontains => posted_iff_keyMatch htruthful hkeys hindex hkind
              (hlength ▸ SelectionMask.contains_lt hcontains))
          have hlength' := (length_narrowed mask (postedRows state morsel index keys)).trans hlength
          split at h
          · rename_i hzero
            cases h
            exact .empty hpredicate hcovered hnarrowed hlength' hzero
          · exact .covered hpredicate hcovered hnarrowed (ih hlength' h)

end

end CoveFormat.MorselLookup
