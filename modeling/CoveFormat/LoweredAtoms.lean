import CoveFormat.LiteralValues

namespace CoveFormat.LoweredAtoms

open ByteCodes CoveTypes ExceptRules ExprLowering Kleene LikePatterns List LiteralValues
  LoweredFilters NumCodes SortedKeys
open MorselScan (NullPredicateKind CoveFilterUse)

/-! Tests of a value that may be missing. -/

section

variable {β ι : Type} {value : Option β}

def answer (value : Option β) (test : β → Bool) : Truth :=
  match value with
  | none => .unknown
  | some b => Truth.ofBool (test b)

theorem answer_yes {test : β → Bool} : answer value test = .yes ↔ value.any test = true := by
  cases value with
  | none => simp [answer]
  | some b => rw [answer, ofBool_yes, Option.any_some]

theorem answer_not (test : β → Bool) : (answer value test).not = answer value fun b => !test b := by
  cases value with
  | none => rfl
  | some b => cases h : test b <;> simp [answer, h, Truth.ofBool, Truth.not]

theorem any_ofBool (items : List ι) (test : ι → Bool) :
    Truth.any (items.map fun a => Truth.ofBool (test a)) = Truth.ofBool (items.any test) := by
  induction items with
  | nil => rfl
  | cons a items ih =>
    have hcons : Truth.any ((a :: items).map fun a => Truth.ofBool (test a)) =
        (Truth.ofBool (test a)).or (Truth.any (items.map fun a => Truth.ofBool (test a))) := rfl
    rw [hcons, ih, any_cons]
    cases test a <;> cases items.any test <;> rfl

theorem any_answers (items : List ι) (test : ι → β → Bool) (h : items ≠ [] ∨ value.isSome) :
    Truth.any (items.map fun a => answer value (test a)) =
      answer value fun b => items.any fun a => test a b := by
  cases value with
  | some b => exact any_ofBool items fun a => test a b
  | none =>
    have hne : items ≠ [] := h.resolve_right (by simp)
    clear h
    induction items with
    | nil => exact absurd rfl hne
    | cons a items ih =>
      cases items with
      | nil => rfl
      | cons b items => exact congrArg (Truth.or .unknown) (ih (cons_ne_nil b items))

theorem any_answers_yes (items : List ι) (test : ι → β → Bool) :
    Truth.any (items.map fun a => answer value (test a)) = .yes ↔
      value.any (fun b => items.any fun a => test a b) = true := by
  by_cases h : items ≠ [] ∨ value.isSome
  · rw [any_answers items test h, answer_yes]
  · obtain ⟨hitems, hvalue⟩ := not_or.mp h
    obtain rfl := not_not.mp hitems
    obtain rfl := Option.not_isSome_iff_eq_none.mp hvalue
    exact ⟨fun h => Truth.noConfusion h, fun h => Bool.noConfusion h⟩

theorem any_optional_answers (items : List (Option ι)) (test : ι → β → Bool) :
    Truth.any (items.map fun item => item.elim .unknown fun a => answer value (test a)) = .yes ↔
      value.any (fun b => (items.filterMap id).any fun a => test a b) = true := by
  rw [← any_answers_yes, any_yes_iff, any_yes_iff]
  constructor
  · rintro ⟨t, ht, hyes⟩
    obtain ⟨item, hitem, rfl⟩ := mem_map.mp ht
    cases item with
    | none => cases hyes
    | some a => exact ⟨_, mem_map.mpr ⟨a, mem_filterMap.mpr ⟨some a, hitem, rfl⟩, rfl⟩, hyes⟩
  · rintro ⟨t, ht, hyes⟩
    obtain ⟨a, ha, rfl⟩ := mem_map.mp ht
    obtain ⟨item, hitem, rfl⟩ := mem_filterMap.mp ha
    exact ⟨_, mem_map.mpr ⟨some a, hitem, rfl⟩, hyes⟩

end

/-! Rows of the columns of each kind. -/

section

variable {T : Texts} {column : TableColumn} {cell : Cell T.toTextPredicates} {literal : LowerLiteral}

theorem comparison_null {logical : CoveLogicalType} {op : LowerOperator} :
    comparison logical cell op .null = .unknown := by
  rw [comparison]
  split
  · rename_i hnull
    cases hnull
  · rfl

section

variable (htyped : CellTyped column cell)
include htyped

theorem numeric_answer {p : PredicateLiteral} (hcolumn : column.physical = .numCode)
    (h : numericLiteral literal = some p) (op : LowerOperator) :
    comparison column.logical cell op literal =
      answer (cell.number column.logical) fun n => (predicateNumber p).any (ordered op n) := by
  obtain ⟨m, hm, hpoint⟩ : ∃ m, predicateNumber p = some m ∧
      literalPoint column.logical literal = some (.number m) := numericLiteral_point h
  cases cell with
  | null => rfl
  | code code =>
    obtain ⟨n, hn⟩ := Option.isSome_iff_exists.mp htyped.2
    rw [comparison, cellPoint, hpoint, Cell.number, hn, hm]
    rfl
  | canonical v => exact absurd hcolumn htyped.1.1
  | bytes value =>
    rcases htyped with h | h <;> exact absurd (hcolumn.symm.trans h.1) (by decide)
  | text value => exact absurd (hcolumn.symm.trans htyped.1) (by decide)

theorem fileCode_answer {c : FileCodeCanonicalLiteral} (hcolumn : column.physical = .fileCode)
    (hnan : NotNan literal) (hkeys : KeysAgree column cell literal)
    (h : fileCodeCanonicalLiteral T column.logical literal = .ok (some c)) :
    comparison column.logical cell .eq literal = answer cell.key fun key => key = c.key := by
  cases cell with
  | null => rfl
  | code code | text value => exact absurd (hcolumn.symm.trans htyped.1) (by decide)
  | canonical v =>
    obtain ⟨-, htag, ⟨payload, hpayload⟩, hpoint⟩ := htyped
    obtain ⟨x, hx⟩ := encodeTagged_ok hpayload
    rw [fileCode_compares htag hx hpoint hcolumn hnan hkeys h, Cell.key, hx]
    rfl
  | bytes value =>
    rcases htyped with h | h <;> exact absurd (hcolumn.symm.trans h.1) (by decide)

theorem optional_answer {found : Option FileCodeCanonicalLiteral}
    (hcolumn : column.physical = .fileCode) (hnan : NotNan literal)
    (hkeys : KeysAgree column cell literal)
    (h : fileCodeCanonicalLiteral T column.logical literal = .ok found) :
    comparison column.logical cell .eq literal =
      found.elim .unknown fun c => answer cell.key fun key => key = c.key := by
  cases found with
  | none => rw [canonicalLiteral_null h, comparison_null, Option.elim_none]
  | some c => exact fileCode_answer htyped hcolumn hnan hkeys h

end

variable {expected : Bytes}

variable (htyped : CellTyped column cell)
include htyped

theorem fixedBytes_answer (hcolumn : column.physical = .fixedBytes)
    (h : fixedBytesLiteral column.logical literal = some expected) :
    comparison column.logical cell .eq literal = answer cell.stored fun value => value = expected := by
  obtain ⟨hpoint, hwidth⟩ := fixedBytesLiteral_point h
  cases cell with
  | null => rfl
  | code code | text value => exact absurd (hcolumn.symm.trans htyped.1) (by decide)
  | canonical v => exact absurd hcolumn htyped.1.2.1
  | bytes value =>
    rcases htyped with h | h
    · rw [comparison, cellPoint, hpoint]
      exact bytes_compares (hwidth.trans (congrArg some (h.2 _ hwidth).symm)) hwidth
    · exact absurd (hcolumn.symm.trans h.1) (by decide)

theorem varBytes_answer (hcolumn : column.physical = .varBytes) (hlogical : column.logical = .utf8)
    (h : utf8Literal literal = some expected) :
    comparison column.logical cell .eq literal = answer cell.stored fun value => value = expected := by
  cases cell with
  | null => rfl
  | code code => exact absurd (hcolumn.symm.trans htyped.1) (by decide)
  | canonical v => exact absurd hcolumn htyped.1.2.2
  | bytes value =>
    rcases htyped with h | h
    · exact absurd (hcolumn.symm.trans h.1) (by decide)
    · exact absurd hlogical h.2
  | text value =>
    rw [hlogical, comparison, cellPoint, utf8Literal_point h]
    exact compares_ofBool trivial (by rw [Point.bytes.injEq])

end

/-! Lists of literals. -/

section

variable {α : Type} {as : List α}

theorem mem_sortedSet [LinearOrder α] {a : α} : a ∈ sortedSet as ↔ a ∈ as := by
  rw [sortedSet, mem_dedupAdjacent, (sortByKey_perm id as).mem_iff]

theorem decide_mem_sortedSet (key : Bytes) (keys : List Bytes) :
    decide (key ∈ sortedSet keys) = keys.any fun k => key = k := by
  rw [Bool.eq_iff_iff]
  simp [mem_sortedSet]

theorem equalsNumber_normalized (n : Extended) (p : PredicateLiteral) :
    equalsNumber n (ExprLowering.PredicateLiteral.normalized p) = equalsNumber n p := by
  rw [equalsNumber, normalized_number, equalsNumber]

theorem any_normalized (n : Extended) (out literals : List PredicateLiteral) :
    (literals.foldl (fun out literal =>
      let literal := ExprLowering.PredicateLiteral.normalized literal
      if literal ∈ out then out else out ++ [literal]) out).any (equalsNumber n) =
        (out.any (equalsNumber n) || literals.any (equalsNumber n)) := by
  induction literals generalizing out with
  | nil => simp
  | cons p literals ih =>
    rw [foldl_cons, ih, any_cons, ← Bool.or_assoc, ← equalsNumber_normalized n p]
    dsimp only
    split
    · rename_i hmem
      by_cases hp : equalsNumber n (ExprLowering.PredicateLiteral.normalized p) = true
      · rw [hp, Bool.or_true, any_eq_true.mpr ⟨_, hmem, hp⟩]
      · rw [Bool.eq_false_iff.mpr hp, Bool.or_false]
    · rw [any_append, any_cons, any_nil, Bool.or_false]

theorem any_normalizeNumericLiterals (n : Extended) (literals : List PredicateLiteral) :
    (normalizeNumericLiterals literals).any (equalsNumber n) =
      literals.any fun p => (predicateNumber p).any (ordered .eq n) := by
  rw [normalizeNumericLiterals, any_normalized, any_nil, Bool.false_or]
  congr 1

theorem forall₂_of_mapM_some {β : Type} {f : α → Option β} {bs : List β} (h : as.mapM f = some bs) :
    Forall₂ (fun a b => f a = some b) as bs := by
  induction as generalizing bs with
  | nil =>
    cases h
    exact .nil
  | cons a as ih =>
    rw [mapM_cons] at h
    obtain ⟨b, hb, h⟩ := Option.bind_eq_some_iff.mp h
    obtain ⟨bs', hbs, h⟩ := Option.bind_eq_some_iff.mp h
    cases h
    exact .cons hb (ih hbs)

end

theorem toOption_join_eq_some_iff {ε α : Type} {r : Except ε (Option α)} {a : α} :
    r.toOption.join = some a ↔ r = .ok (some a) := by
  rw [Option.join_eq_some_iff, toOption_eq_some_iff]

/-! Plans of one predicate. -/

section

variable {T : Texts} {state : DatasetState} {row : Nat → Cell T.toTextPredicates}
  {outside : LowerExpr → Truth} {filter : FilterPlan} {t : Truth}

/-- The plan has one predicate, true where the expression is. -/
def Stands (state : DatasetState) (row : Nat → Cell T.toTextPredicates) (filter : FilterPlan)
    (t : Truth) : Prop :=
  ∃ predicate, filter.predicate = some predicate ∧ filter.predicateExpr = some (.atom predicate) ∧
    (predicateHolds state row predicate = true ↔ t = .yes)

def Lowers (state : DatasetState) (row : Nat → Cell T.toTextPredicates) (filter : FilterPlan)
    (t : Truth) : Prop :=
  filter.useKind = .unsupported ∨ Stands state row filter t

variable {display : String}

theorem lowers_unsupported : Lowers state row (.unsupported display) t := .inl rfl

variable {i : Nat} {predicate : CovePredicate}

theorem stands_pruning (h : predicateHolds state row predicate = true ↔ t = .yes) :
    Stands state row (.pruning i predicate display) t :=
  ⟨predicate, rfl, rfl, h⟩

theorem Stands.promote (h : Stands state row filter t) :
    Stands state row (promoteFilterExactness state filter) t := by
  rw [promoteFilterExactness]
  split <;> exact h

theorem Lowers.promote (h : Lowers state row filter t) :
    Lowers state row (promoteFilterExactness state filter) t := by
  rcases h with h | h
  · exact .inl (by rw [promoteFilterExactness, if_pos h, h])
  · exact .inr h.promote

variable {expr : LowerExpr} {found : TableColumn × Nat}

theorem topLevelColumn_eq (h : topLevelColumn state expr = some found) :
    state.columns[found.2]? = some found.1 ∧ expr = .column found.1.name := by
  cases expr with
  | column name =>
    have hname := List.find?_some h
    have hmem := mem_of_find?_eq_some h
    exact ⟨mem_zipIdx_iff_getElem?.mp hmem, by simpa using (of_decide_eq_true hname).symm⟩
  | _ => cases h

theorem columnLiteral_eq {column literal : LowerExpr} {found : (TableColumn × Nat) × LowerLiteral}
    (h : columnLiteral state column literal = some found) :
    topLevelColumn state column = some found.1 ∧ literalOf literal = some found.2 := by
  obtain ⟨c, hc, h⟩ := Option.bind_eq_some_iff.mp h
  obtain ⟨l, hl, h⟩ := Option.bind_eq_some_iff.mp h
  cases h
  exact ⟨hc, hl⟩

variable {column : TableColumn} {i : Nat}

section

variable (hcolumn : state.columns[i]? = some column)
include hcolumn

theorem numberAt_eq : numberAt state row i = (row i).number column.logical := by
  rw [numberAt, hcolumn, Option.bind_some]

theorem stands_numericIn (literals : List PredicateLiteral) (display : String)
    (ht : t = .yes ↔ ((row i).number column.logical).any
      (fun n => literals.any fun p => (predicateNumber p).any (ordered .eq n)) = true) :
    Stands state row (.pruningNumericIn i literals display) t := by
  refine stands_pruning ?_
  rw [predicateHolds, numberAt_eq hcolumn, ht]
  simp only [any_normalizeNumericLiterals]

theorem stands_numericNotIn (literals : List PredicateLiteral) (display : String)
    (ht : t = .yes ↔ ((row i).number column.logical).any
      (fun n => !literals.any fun p => (predicateNumber p).any (ordered .eq n)) = true) :
    Stands state row (.pruningNumericNotIn i literals display) t := by
  refine stands_pruning ?_
  rw [predicateHolds, numberAt_eq hcolumn, ht]
  simp only [any_normalizeNumericLiterals]

theorem stands_numeric {op : LowerOperator} (hop : op ≠ .notEq) (p : PredicateLiteral)
    (display : String)
    (ht : t = .yes ↔ ((row i).number column.logical).any
      (fun n => (predicateNumber p).any (ordered op n)) = true) :
    Stands state row (.pruningNumeric i (numericOp op) p display) t := by
  refine stands_pruning ?_
  have hlower : lowerOp (numericOp op) = op := by
    cases op with
    | notEq => exact absurd rfl hop
    | _ => rfl
  rw [predicateHolds, numberAt_eq hcolumn, ht, normalized_number, hlower]

end

theorem stands_fileCodeIn (values keys : List Bytes) (display : String)
    (ht : t = .yes ↔ (row i).key.any (fun key => keys.any fun k => key = k) = true) :
    Stands state row (.pruningFileCodeIn i values keys display) t := by
  refine stands_pruning ?_
  rw [predicateHolds, ht]
  simp only [decide_mem_sortedSet]

theorem stands_fileCodeNotIn (values keys : List Bytes) (display : String)
    (ht : t = .yes ↔ (row i).key.any (fun key => !keys.any fun k => key = k) = true) :
    Stands state row (.pruningFileCodeNotIn i values keys display) t := by
  refine stands_pruning ?_
  rw [predicateHolds, ht]
  simp only [decide_not, decide_mem_sortedSet]

theorem stands_bytesIn (literals : List Bytes)
    (hpredicate : predicate = .fixedBytesIn i (sortedSet literals) ∨
      predicate = .varBytesIn i (sortedSet literals))
    (display : String)
    (ht : t = .yes ↔ (row i).stored.any (fun value => literals.any fun k => value = k) = true) :
    Stands state row (.pruning i predicate display) t := by
  refine stands_pruning ?_
  rcases hpredicate with rfl | rfl <;> rw [predicateHolds, ht] <;> simp only [decide_mem_sortedSet]

/-- The float literals beside columns of file codes stand for the rows that have their bits. -/
def Agrees (row : Nat → Cell T.toTextPredicates) (pair : (TableColumn × Nat) × LowerLiteral) : Prop :=
  NotNan pair.2 ∧ KeysAgree pair.1.1 (row pair.1.2) pair.2

theorem classifyNullFilter_lowers (input : LowerExpr) (display : String) :
    Lowers state row (classifyNullFilter state input .isNull display)
        (nullTruth T state row outside input) ∧
      Lowers state row (classifyNullFilter state input .isNotNull display)
        (nullTruth T state row outside input).not := by
  rw [classifyNullFilter, classifyNullFilter, nullTruth]
  cases h : topLevelColumn state input with
  | none => exact ⟨lowers_unsupported, lowers_unsupported⟩
  | some found =>
    dsimp only
    constructor
    · split
      · exact lowers_unsupported
      · split
        · exact lowers_unsupported
        · exact .inr (stands_pruning ofBool_yes.symm)
    · split
      · exact lowers_unsupported
      · split
        · exact lowers_unsupported
        · refine .inr (stands_pruning ?_)
          rw [predicateHolds, not_yes_iff, ofBool_no, Bool.not_eq_true']

theorem classifyColumnLiteral_lowers {literal : LowerLiteral}
    (hcolumn : state.columns[found.2]? = some found.1) (htyped : CellTyped found.1 (row found.2))
    (op : LowerOperator) (hagrees : op = .eq ∨ op = .notEq → Agrees row (found, literal))
    (display : String) : Lowers state row (classifyColumnLiteral T found op literal display)
      (comparison found.1.logical (row found.2) op literal) := by
  rw [classifyColumnLiteral.eq_def]
  split
  · rename_i hphysical
    split
    · exact lowers_unsupported
    · rename_i p hp
      split
      · rename_i hop
        split
        · exact lowers_unsupported
        · refine .inr (stands_numericNotIn hcolumn [p] display ?_)
          rw [hop, comparison_notEq, numeric_answer htyped hphysical hp, answer_not, answer_yes]
          simp only [any_cons, any_nil, Bool.or_false]
      · rename_i hop
        refine .inr (stands_numeric hcolumn hop p display ?_)
        rw [numeric_answer htyped hphysical hp, answer_yes]
  · rename_i hphysical
    split
    · rename_i c hc
      obtain ⟨hnan, hkeys⟩ := hagrees (.inl rfl)
      refine .inr (stands_fileCodeIn _ _ display ?_)
      rw [fileCode_answer htyped hphysical hnan hkeys hc, answer_yes]
      simp only [any_cons, any_nil, Bool.or_false]
    · rename_i hnull
      refine .inr (stands_fileCodeIn _ _ display ?_)
      rw [canonicalLiteral_null hnull, comparison_null]
      simp
    · rename_i c hc
      obtain ⟨hnan, hkeys⟩ := hagrees (.inr rfl)
      refine .inr (stands_fileCodeNotIn _ _ display ?_)
      rw [comparison_notEq, fileCode_answer htyped hphysical hnan hkeys hc, answer_not, answer_yes]
      simp only [any_cons, any_nil, Bool.or_false]
    · exact lowers_unsupported
  · rename_i hphysical
    split
    · rename_i hop
      obtain ⟨rfl, hlogical⟩ := hop
      split
      · exact lowers_unsupported
      · rename_i value hvalue
        refine .inr (stands_pruning ?_)
        rw [predicateHolds, varBytes_answer htyped hphysical hlogical hvalue, answer_yes]
    · exact lowers_unsupported
  · rename_i hphysical
    split
    · rename_i hop
      obtain rfl := hop
      split
      · exact lowers_unsupported
      · rename_i value hvalue
        refine .inr (stands_pruning ?_)
        rw [predicateHolds, fixedBytes_answer htyped hphysical hvalue, answer_yes]
    · exact lowers_unsupported
  · exact lowers_unsupported

variable {left right : LowerExpr}

theorem mem_binaryComparisons {found : (TableColumn × Nat) × LowerLiteral} :
    found ∈ binaryComparisons state left right ↔
      columnLiteral state left right = some found ∨ columnLiteral state right left = some found := by
  rw [binaryComparisons, mem_append, Option.mem_toList, Option.mem_toList]

theorem classifyBinaryFilter_lowers
    (htyped : ∀ i column, state.columns[i]? = some column → CellTyped column (row i))
    (op : LowerOperator)
    (hagrees : ∀ pair ∈ canonicalComparisons state (.binary left op right), Agrees row pair)
    (display : String) :
    Lowers state row (classifyBinaryFilter T state left op right display)
      (binaryTruth T state row outside left op right) := by
  have hpairs : op = .eq ∨ op = .notEq → ∀ pair ∈ binaryComparisons state left right,
      Agrees row pair := by
    intro hop
    rwa [canonicalComparisons, if_pos hop] at hagrees
  rw [classifyBinaryFilter, binaryTruth]
  cases hleft : columnLiteral state left right with
  | some found =>
    have hcolumn := (topLevelColumn_eq (columnLiteral_eq hleft).1).1
    exact classifyColumnLiteral_lowers hcolumn (htyped _ _ hcolumn) op
      (fun hop => hpairs hop found (mem_binaryComparisons.mpr (.inl hleft))) display
  | none =>
    cases hright : columnLiteral state right left with
    | some found =>
      have hcolumn := (topLevelColumn_eq (columnLiteral_eq hright).1).1
      refine classifyColumnLiteral_lowers hcolumn (htyped _ _ hcolumn) (flipOp op)
        (fun hop => hpairs ?_ found (mem_binaryComparisons.mpr (.inr hright))) display
      cases op <;> simp [flipOp] at hop ⊢
    | none => exact lowers_unsupported

/-! Lists. -/

variable {α : Type}

theorem listPlan_lowers {items : Option (List α)} {nonEmpty : Bool}
    {plan : List α → String → FilterPlan}
    (h : ∀ found, items = some found → (nonEmpty = true → found ≠ []) →
      Lowers state row (plan found display) t) :
    Lowers state row (listPlan items nonEmpty plan display) t := by
  rw [listPlan.eq_def]
  split
  · exact lowers_unsupported
  · rename_i found
    split
    · exact lowers_unsupported
    · rename_i hnonEmpty
      refine h found rfl fun hrequired hnil => hnonEmpty ?_
      rw [hrequired, hnil]
      rfl

variable {list : List LowerExpr}

theorem inListTruth_eq {take : LowerLiteral → Option α} {items : List α} {test : α → Truth}
    (hfound : topLevelColumn state expr = some found) (hitems : itemsOf take list = some items)
    (hagrees : ∀ item ∈ list, ∀ pair ∈ binaryComparisons state expr item, Agrees row pair)
    (htest : ∀ literal a, Agrees row (found, literal) → take literal = some a →
      comparison found.1.logical (row found.2) .eq literal = test a) :
    inListTruth T state row outside expr list = Truth.any (items.map test) := by
  rw [inListTruth]
  congr 1
  have hall := forall₂_of_mapM_some hitems
  clear hitems
  induction hall with
  | nil => rfl
  | @cons item a list items hitem _ ih =>
    obtain ⟨literal, hliteral, ha⟩ := Option.bind_eq_some_iff.mp hitem
    have hpair : columnLiteral state expr item = some (found, literal) := by
      rw [columnLiteral, hfound, hliteral]
      rfl
    have hagree := hagrees item mem_cons_self (found, literal)
      (mem_binaryComparisons.mpr (.inl hpair))
    rw [map_cons, map_cons, ih fun item hmem => hagrees item (mem_cons_of_mem _ hmem),
      binaryTruth, hpair]
    exact congrArg (· :: _) (htest literal a hagree ha)

section

variable (htyped : ∀ i column, state.columns[i]? = some column → CellTyped column (row i))
include htyped

theorem classifyInListFilter_lowers
    (hagrees : ∀ item ∈ list, ∀ pair ∈ binaryComparisons state expr item, Agrees row pair)
    (display : String) :
    Lowers state row (classifyInListFilter T state expr list display)
      (inListTruth T state row outside expr list) := by
  rw [classifyInListFilter.eq_def]
  split
  · exact lowers_unsupported
  · rename_i column i hfound
    have hcolumn := (topLevelColumn_eq hfound).1
    have htypedCell := htyped _ _ hcolumn
    split
    · rename_i hphysical
      refine listPlan_lowers fun items hitems _ => .inr (stands_fileCodeIn _ _ display ?_)
      rw [inListTruth_eq hfound hitems hagrees fun literal found hagree hc =>
        optional_answer htypedCell hphysical hagree.1 hagree.2 (toOption_eq_some_iff.mp hc),
          any_optional_answers]
      simp only [any_map, Function.comp_def]
    · rename_i hphysical
      refine listPlan_lowers fun items hitems _ => .inr (stands_numericIn hcolumn items display ?_)
      rw [inListTruth_eq hfound hitems hagrees fun literal p _ hp =>
        numeric_answer htypedCell hphysical hp .eq]
      exact any_answers_yes items _
    · rename_i hphysical
      refine listPlan_lowers fun items hitems _ => .inr (stands_bytesIn items (.inl rfl) display ?_)
      rw [inListTruth_eq hfound hitems hagrees fun literal value _ hvalue =>
        fixedBytes_answer htypedCell hphysical hvalue]
      exact any_answers_yes items _
    · rename_i hphysical
      split
      · rename_i hlogical
        refine listPlan_lowers fun items hitems _ => .inr (stands_bytesIn items (.inr rfl) display ?_)
        rw [inListTruth_eq hfound hitems hagrees fun literal value _ hvalue =>
          varBytes_answer htypedCell hphysical hlogical hvalue]
        exact any_answers_yes items _
      · exact lowers_unsupported
    · exact lowers_unsupported

theorem classifyNotInListFilter_lowers
    (hagrees : ∀ item ∈ list, ∀ pair ∈ binaryComparisons state expr item, Agrees row pair)
    (display : String) :
    Lowers state row (classifyNotInListFilter T state expr list display)
      (inListTruth T state row outside expr list).not := by
  rw [classifyNotInListFilter.eq_def]
  split
  · exact lowers_unsupported
  · rename_i column i hfound
    have hcolumn := (topLevelColumn_eq hfound).1
    have htypedCell := htyped _ _ hcolumn
    split
    · rename_i hphysical
      split
      · exact lowers_unsupported
      · refine listPlan_lowers fun items hitems hne => .inr (stands_numericNotIn hcolumn items display ?_)
        rw [inListTruth_eq hfound hitems hagrees fun literal p _ hp =>
          numeric_answer htypedCell hphysical hp .eq, any_answers items _ (.inl (hne rfl)), answer_not,
          answer_yes]
    · rename_i hphysical
      refine listPlan_lowers fun items hitems hne => .inr (stands_fileCodeNotIn _ _ display ?_)
      rw [inListTruth_eq hfound hitems hagrees fun literal c hagree hc =>
        fileCode_answer htypedCell hphysical hagree.1 hagree.2 (toOption_join_eq_some_iff.mp hc),
        any_answers items _ (.inl (hne rfl)), answer_not, answer_yes]
      simp only [any_map, Function.comp_def]
    · exact lowers_unsupported

end

/-! Patterns. -/

variable {column : TableColumn} {cell : Cell T.toTextPredicates}

theorem text_cell (htyped : CellTyped column cell) (hphysical : column.physical = .varBytes)
    (hlogical : column.logical = .utf8) : cell = .null ∨ ∃ value, cell = .text value := by
  cases cell with
  | null => exact .inl rfl
  | code code => exact absurd (hphysical.symm.trans htyped.1) (by decide)
  | canonical v => exact absurd hphysical htyped.1.2.2
  | bytes value =>
    rcases htyped with h | h
    · exact absurd (hphysical.symm.trans h.1) (by decide)
    · exact absurd hlogical h.2
  | text value => exact .inr ⟨value, rfl⟩

variable {out : LikeLiteral}

theorem stored_text {test : Bytes → Bool} (hcell : cell = .null ∨ ∃ value, cell = .text value)
    (h : ∀ value : String, test (utf8 value.toList) = true ↔ out.accepts value.toList) :
    cell.stored.any test = true ↔ ∃ value, cell = .text value ∧ out.accepts value.toList := by
  rcases hcell with rfl | ⟨value, rfl⟩
  · exact ⟨fun h => Bool.noConfusion h, fun ⟨_, h, _⟩ => Cell.noConfusion rfl (heq_of_eq h)⟩
  · constructor
    · intro htest
      exact ⟨value, rfl, (h value).mp htest⟩
    · rintro ⟨value', heq, haccepts⟩
      obtain rfl := Cell.text.inj heq
      exact (h value).mpr haccepts

variable {pattern : LowerExpr} {escapeChar : Option Char}

theorem likeTruth_yes {text : String} (hfound : topLevelColumn state expr = some (column, i))
    (hliteral : literalOf pattern = some (.utf8 text))
    (hlike : exactLikeLiteral text.toList escapeChar = some out)
    (hcell : row i = .null ∨ ∃ value, row i = .text value) :
    likeTruth T state row outside expr pattern false escapeChar = .yes ↔
      ∃ value, row i = .text value ∧ out.accepts value.toList := by
  obtain ⟨tokens, htokens, hmatch⟩ := exactLikeLiteral_spec hlike
  rw [likeTruth, hfound, hliteral]
  dsimp only
  rw [if_neg Bool.false_ne_true, htokens]
  rcases hcell with hcell | ⟨value, hcell⟩ <;> rw [hcell]
  · simp
  · dsimp only
    rw [ofBool_yes, ← hmatch]
    constructor
    · intro h
      exact ⟨value, rfl, h⟩
    · rintro ⟨value', heq, h⟩
      obtain rfl := Cell.text.inj heq
      exact h

section

variable (htyped : ∀ i column, state.columns[i]? = some column → CellTyped column (row i))
include htyped

theorem classifyLikeFilter_lowers (negated caseInsensitive : Bool) (display : String) :
    Lowers state row
      (classifyLikeFilter state expr pattern negated caseInsensitive escapeChar display)
      (negatedIf negated (likeTruth T state row outside expr pattern caseInsensitive escapeChar)) := by
  rw [classifyLikeFilter]
  split
  · exact lowers_unsupported
  · rename_i hplain
    obtain ⟨rfl, rfl⟩ : negated = false ∧ caseInsensitive = false := by simpa using hplain
    split
    · rename_i column i text hfound hliteral
      split
      · exact lowers_unsupported
      · rename_i hkind
        obtain ⟨hphysical, hlogical⟩ := not_or.mp hkind
        have hcell := text_cell (htyped _ _ (topLevelColumn_eq hfound).1) (not_not.mp hphysical)
          (not_not.mp hlogical)
        split
        case h_3 => exact lowers_unsupported
        all_goals
          rename_i literal hlike
          refine .inr (stands_pruning ?_)
          rw [negatedIf, if_neg Bool.false_ne_true, likeTruth_yes hfound hliteral hlike hcell,
            predicateHolds]
          refine stored_text hcell fun value => decide_eq_true_iff.trans ?_
          first
          | exact utf8_inj
          | exact utf8_isPrefix_iff
    · exact lowers_unsupported

theorem lowerAtomFilter_lowers (hagrees : ∀ pair ∈ canonicalComparisons state expr, Agrees row pair)
    (display : String) :
    Lowers state row (lowerAtomFilter T state expr display) (exprTruth T state row outside expr) := by
  refine Lowers.promote ?_
  split
  · exact (classifyNullFilter_lowers _ display).1
  · exact (classifyNullFilter_lowers _ display).2
  · exact classifyBinaryFilter_lowers htyped _ hagrees display
  · refine classifyInListFilter_lowers htyped (fun item hitem pair hpair => ?_) display
    exact hagrees pair (mem_flatMap.mpr ⟨item, hitem, hpair⟩)
  · refine classifyNotInListFilter_lowers htyped (fun item hitem pair hpair => ?_) display
    exact hagrees pair (mem_flatMap.mpr ⟨item, hitem, hpair⟩)
  · exact classifyLikeFilter_lowers htyped _ _ display
  · exact lowers_unsupported

end

/-! OR of equalities of one column. -/

/-- A child of the OR: an equality of the column with a literal that is taken. -/
structure EqualityOf {α : Type} (T : Texts) (state : DatasetState)
    (row : Nat → Cell T.toTextPredicates) (outside : LowerExpr → Truth) (accepts : TableColumn → Bool)
    (take : TableColumn → LowerLiteral → Option α) (found : TableColumn × Nat) (literal : LowerLiteral)
    (child : LowerExpr) (a : α) : Prop where
  column : state.columns[found.2]? = some found.1
  accepted : accepts found.1 = true
  taken : take found.1 literal = some a
  mem : (found, literal) ∈ canonicalComparisons state child
  truth : exprTruth T state row outside child = comparison found.1.logical (row found.2) .eq literal

theorem sameColumnEqualities_spec {α : Type} {accepts : TableColumn → Bool}
    {take : TableColumn → LowerLiteral → Option α} {index : Option Nat} {children : List LowerExpr}
    {out : Option Nat × List α}
    (h : sameColumnEqualities state accepts take index children = some out) :
    (∀ i, index = some i → out.1 = some i) ∧ Forall₂ (fun child a => ∃ found literal,
      out.1 = some found.2 ∧ EqualityOf T state row outside accepts take found literal child a)
        children out.2 := by
  fun_induction sameColumnEqualities state accepts take index children generalizing out with
  | case1 index =>
    cases h
    exact ⟨fun _ h => h, .nil⟩
  | case2 index left right children ih =>
    obtain ⟨⟨found, literal⟩, hfound, h⟩ := Option.bind_eq_some_iff.mp h
    split at h
    · rename_i haccept
      obtain ⟨haccepts, hindex⟩ := Bool.and_eq_true_iff.mp haccept
      obtain ⟨a, ha, h⟩ := Option.bind_eq_some_iff.mp h
      obtain ⟨rest, hrest, h⟩ := Option.bind_eq_some_iff.mp h
      cases h
      obtain ⟨hindexed, hchildren⟩ := ih (found, literal) hrest
      have hlast := hindexed _ rfl
      refine ⟨fun i hi => ?_, .cons ⟨found, literal, hlast, ?_⟩ hchildren⟩
      · rw [hi, Option.all_some, decide_eq_true_eq] at hindex
        rw [hindex, hlast]
      · rcases Option.or_eq_some_iff.mp hfound with hleft | ⟨hnone, hright⟩
        · exact ⟨(topLevelColumn_eq (columnLiteral_eq hleft).1).1, haccepts, ha,
            mem_binaryComparisons.mpr (.inl hleft), by rw [exprTruth, binaryTruth, hleft]⟩
        · exact ⟨(topLevelColumn_eq (columnLiteral_eq hright).1).1, haccepts, ha,
            mem_binaryComparisons.mpr (.inr hright), by
              rw [exprTruth, binaryTruth, hnone, hright]
              rfl⟩
    · cases h
  | case3 => cases h

theorem exprTruths_eq_map (children : List LowerExpr) :
    exprTruths T state row outside children = children.map (exprTruth T state row outside) := by
  induction children with
  | nil => rfl
  | cons child children ih => rw [exprTruths, ih, map_cons]

variable {children : List LowerExpr}

theorem mem_childComparisons {pair : (TableColumn × Nat) × LowerLiteral} :
    pair ∈ childComparisons state children ↔ ∃ child ∈ children, pair ∈ canonicalComparisons state child := by
  induction children with
  | nil => simp [childComparisons]
  | cons child children ih => rw [childComparisons, mem_append, ih, exists_mem_cons_iff]

/-- The equalities of one column, with the values of their literals. -/
def Equalities {α : Type} (T : Texts) (state : DatasetState) (row : Nat → Cell T.toTextPredicates)
    (outside : LowerExpr → Truth) (accepts : TableColumn → Bool)
    (take : TableColumn → LowerLiteral → Option α) (i : Nat) : List LowerExpr → List α → Prop :=
  Forall₂ fun child a => ∃ found literal,
    i = found.2 ∧ EqualityOf T state row outside accepts take found literal child a

section

variable {α : Type} {accepts : TableColumn → Bool} {take : TableColumn → LowerLiteral → Option α}
  {children : List LowerExpr} {items : List α}

section

variable (h : Equalities T state row outside accepts take i children items)
include h

theorem Equalities.hasColumn (hne : children ≠ []) :
    ∃ column, state.columns[i]? = some column ∧ accepts column = true := by
  cases h with
  | nil => exact absurd rfl hne
  | cons h _ =>
    obtain ⟨found, literal, rfl, heq⟩ := h
    exact ⟨found.1, heq.column, heq.accepted⟩

theorem Equalities.truths {test : α → Truth} (hcolumn : state.columns[i]? = some column)
    (hagrees : ∀ pair ∈ childComparisons state children, Agrees row pair)
    (htest : ∀ literal a, Agrees row ((column, i), literal) → take column literal = some a →
      comparison column.logical (row i) .eq literal = test a) :
    children.map (exprTruth T state row outside) = items.map test := by
  induction h with
  | nil => rfl
  | @cons child a children items hchild _ ih =>
    obtain ⟨found, literal, rfl, heq⟩ := hchild
    obtain rfl := Option.some.inj (hcolumn.symm.trans heq.column)
    have hagree := hagrees _ (mem_childComparisons.mpr ⟨child, mem_cons_self, heq.mem⟩)
    rw [map_cons, map_cons, heq.truth, htest literal a hagree heq.taken, ih]
    intro pair hpair
    obtain ⟨c, hc, hmem⟩ := mem_childComparisons.mp hpair
    exact hagrees pair (mem_childComparisons.mpr ⟨c, mem_cons_of_mem _ hc, hmem⟩)

end

theorem sameColumnEqualities_equalities
    (h : sameColumnEqualities state accepts take none children = some (some i, items)) :
    Equalities T state row outside accepts take i children items ∧ children ≠ [] := by
  obtain ⟨-, hall⟩ := @sameColumnEqualities_spec T state row outside α accepts take _ _ _ h
  constructor
  · refine Forall₂.imp ?_ hall
    rintro child a ⟨found, literal, hlast, heq⟩
    exact ⟨found, literal, Option.some.inj hlast, heq⟩
  · rintro rfl
    cases h

theorem sameColumnEqualityOr_stands {plan : Nat → List α → FilterPlan}
    (test : TableColumn → Nat → α → Truth)
    (htest : ∀ column i literal a, state.columns[i]? = some column → accepts column = true →
      Agrees row ((column, i), literal) → take column literal = some a →
        comparison column.logical (row i) .eq literal = test column i a)
    (hplan : ∀ column i items, state.columns[i]? = some column → accepts column = true →
      Stands state row (plan i items) (Truth.any (items.map (test column i))))
    (hagrees : ∀ pair ∈ childComparisons state children, Agrees row pair)
    (h : sameColumnEqualityOr state accepts take plan children = some filter) :
    Stands state row filter (exprTruth T state row outside (.or children)) := by
  obtain ⟨⟨index, items⟩, hfound, h⟩ := Option.bind_eq_some_iff.mp h
  obtain ⟨i, hindex, h⟩ := Option.bind_eq_some_iff.mp h
  cases h
  obtain rfl : index = some i := hindex
  obtain ⟨hall, hne⟩ := @sameColumnEqualities_equalities T state row outside i _ _ _ _ _ hfound
  obtain ⟨column, hcolumn, haccepts⟩ := hall.hasColumn hne
  rw [exprTruth, exprTruths_eq_map, hall.truths hcolumn hagrees fun literal a hagree ha =>
    htest column i literal a hcolumn haccepts hagree ha]
  exact (hplan column i items hcolumn haccepts).promote

end

theorem classifySameColumnEqualityOr_stands
    (htyped : ∀ i column, state.columns[i]? = some column → CellTyped column (row i))
    (hagrees : ∀ pair ∈ childComparisons state children, Agrees row pair)
    (h : classifySameColumnEqualityOr T state children display = some filter) :
    Stands state row filter (exprTruth T state row outside (.or children)) := by
  rcases Option.or_eq_some_iff.mp h with h | ⟨-, h⟩
  · refine sameColumnEqualityOr_stands _ (fun column i literal p hcolumn haccepts _ hp =>
      numeric_answer (htyped i column hcolumn) (of_decide_eq_true haccepts) hp .eq)
      (fun column i items hcolumn _ => ?_) hagrees h
    exact stands_numericIn hcolumn items display (any_answers_yes items _)
  rcases Option.or_eq_some_iff.mp h with h | ⟨-, h⟩
  · refine sameColumnEqualityOr_stands _ (fun column i literal c hcolumn haccepts hagree hc =>
      fileCode_answer (htyped i column hcolumn) (of_decide_eq_true haccepts) hagree.1 hagree.2
        (toOption_join_eq_some_iff.mp hc)) (fun column i items _ _ => ?_) hagrees h
    refine stands_fileCodeIn _ _ display ?_
    rw [any_answers_yes]
    simp only [any_map, Function.comp_def]
  rcases Option.or_eq_some_iff.mp h with h | ⟨-, h⟩
  · refine sameColumnEqualityOr_stands _ (fun column i literal value hcolumn haccepts _ hvalue =>
      fixedBytes_answer (htyped i column hcolumn) (of_decide_eq_true haccepts) hvalue)
      (fun column i items _ _ => ?_) hagrees h
    exact stands_bytesIn items (.inl rfl) display (any_answers_yes items _)
  · have htext : ∀ {column : TableColumn}, (column.physical = .varBytes && column.logical = .utf8) = true →
        column.physical = .varBytes ∧ column.logical = .utf8 := by simp
    refine sameColumnEqualityOr_stands _ (fun column i literal value hcolumn haccepts _ hvalue =>
      varBytes_answer (htyped i column hcolumn) (htext haccepts).1 (htext haccepts).2 hvalue)
      (fun column i items _ _ => ?_) hagrees h
    exact stands_bytesIn items (.inr rfl) display (any_answers_yes items _)

end

end CoveFormat.LoweredAtoms
