import CoveFormat.LoweredAtoms
import Mathlib.Data.BitVec

namespace CoveFormat.LoweringAgreement

open ByteCodes Canonical CanonicalIdentity CoveTypes ExceptRules ExprLowering Kleene List
  LiteralValues LoweredAtoms LoweredFilters Option
open MorselScan (NullPredicateKind CoveFilterUse)

variable {T : Texts} {state : DatasetState} {row : Nat → Cell T.toTextPredicates}
  {outside : LowerExpr → Truth} {display : String}

/-! Lowerings of whole expressions. -/

theorem expr_induction {motive : LowerExpr → Prop}
    (and : ∀ children, (∀ child ∈ children, motive child) → motive (.and children))
    (or : ∀ children, (∀ child ∈ children, motive child) → motive (.or children))
    (atom : ∀ expr, (∀ children, expr ≠ .and children ∧ expr ≠ .or children) → motive expr)
    (expr : LowerExpr) : motive expr :=
  @LowerExpr.rec motive (fun children => ∀ child ∈ children, motive child)
    (fun _ => atom _ (by simp)) (fun _ => atom _ (by simp)) (fun _ _ => atom _ (by simp))
    (fun _ _ => atom _ (by simp)) and or (fun _ _ _ _ _ => atom _ (by simp))
    (fun _ _ _ _ _ _ => atom _ (by simp)) (fun _ _ _ _ _ => atom _ (by simp))
    (fun _ _ _ _ _ _ _ => atom _ (by simp)) (fun _ => atom _ (by simp)) (by simp)
    (fun _ _ hchild hchildren => forall_mem_cons.mpr ⟨hchild, hchildren⟩) expr

section

variable {lowering a b : FilterLowering} {s t : Truth}

/-- The filters are true where the expression is, and only there where nothing is left out. -/
structure Agreement (state : DatasetState) (row : Nat → Cell T.toTextPredicates)
    (lowering : FilterLowering) (t : Truth) : Prop where
  atoms : ∀ filter ∈ lowering.filters, ∀ predicate ∈ filter.predicate,
    filter.predicateExpr = some (.atom predicate)
  sound : t = .yes → ∀ filter ∈ lowering.filters, Satisfied state row filter
  exact : lowering.fallbacks = 0 → (∀ filter ∈ lowering.filters, Satisfied state row filter) → t = .yes

theorem agreement_fallback : Agreement state row fallback t :=
  { atoms := fun _ h => absurd h not_mem_nil
    sound := fun _ _ h => absurd h not_mem_nil
    exact := fun h => absurd h Nat.one_ne_zero }

theorem Agreement.append (ha : Agreement state row a s) (hb : Agreement state row b t) :
    Agreement state row (a.append b) (s.and t) := by
  constructor
  · intro filter hfilter
    exact (mem_append.mp hfilter).elim (ha.atoms filter) (hb.atoms filter)
  · intro h filter hfilter
    obtain ⟨hs, ht⟩ := (and_yes_iff s t).mp h
    exact (mem_append.mp hfilter).elim (ha.sound hs filter) (hb.sound ht filter)
  · intro hfallbacks h
    obtain ⟨hfa, hfb⟩ := Nat.add_eq_zero_iff.mp hfallbacks
    exact (and_yes_iff s t).mpr ⟨ha.exact hfa fun filter hfilter => h filter (mem_append_left _ hfilter),
      hb.exact hfb fun filter hfilter => h filter (mem_append_right _ hfilter)⟩

variable {filter : FilterPlan}

theorem satisfied_of_atom {predicate : CovePredicate}
    (hpredicate : filter.predicate = some predicate)
    (hexpr : filter.predicateExpr = some (.atom predicate)) :
    Satisfied state row filter ↔ predicateHolds state row predicate = true := by
  rw [Satisfied, hpredicate, hexpr]
  simp [predicateExprHolds]

theorem stands_agreement (h : Stands state row filter t) : Agreement state row ⟨[filter], 0⟩ t := by
  obtain ⟨predicate, hpredicate, hexpr, hholds⟩ := h
  have hsatisfied := (satisfied_of_atom hpredicate hexpr).trans hholds
  constructor
  · intro f hf p hp
    obtain rfl := mem_singleton.mp hf
    obtain rfl := some.inj (hpredicate.symm.trans hp)
    exact hexpr
  · intro ht f hf
    obtain rfl := mem_singleton.mp hf
    exact hsatisfied.mpr ht
  · intro _ hall
    exact hsatisfied.mp (hall filter (mem_singleton_self _))

theorem pushLoweredAtom_agreement
    (htyped : ∀ i column, state.columns[i]? = some column → CellTyped column (row i))
    {expr : LowerExpr} (hagrees : ∀ pair ∈ canonicalComparisons state expr, Agrees row pair)
    (display : String) :
    Agreement state row (pushLoweredAtom T state expr display) (exprTruth T state row outside expr) := by
  rw [pushLoweredAtom]
  split
  · exact agreement_fallback
  · rename_i hkind
    exact stands_agreement ((lowerAtomFilter_lowers htyped hagrees display).resolve_left hkind)

/-! The predicate of a child. -/

variable {exprs : List CovePredicateExpr}

theorem allHold_iff :
    allHold state row exprs = true ↔ ∀ expr ∈ exprs, predicateExprHolds state row expr = true := by
  induction exprs with
  | nil => simp [allHold]
  | cons expr exprs ih => rw [allHold, Bool.and_eq_true, ih, forall_mem_cons]

theorem anyHolds_iff :
    anyHolds state row exprs = true ↔ ∃ expr ∈ exprs, predicateExprHolds state row expr = true := by
  induction exprs with
  | nil => simp [anyHolds]
  | cons expr exprs ih => rw [anyHolds, Bool.or_eq_true, ih, exists_mem_cons_iff]

theorem predicateExprForFilters_holds {filters : List FilterPlan} {expr : CovePredicateExpr}
    (h : predicateExprForFilters filters = some expr) :
    ∃ exprs, Forall₂ (fun filter e => filter.predicateExpr = some e) filters exprs ∧
      (predicateExprHolds state row expr = true ↔
        ∀ e ∈ exprs, predicateExprHolds state row e = true) := by
  obtain ⟨exprs, hexprs, h⟩ := bind_eq_some_iff.mp h
  refine ⟨exprs, forall₂_of_mapM_some hexprs, ?_⟩
  match exprs, h with
  | [e], h =>
    cases h
    simp
  | _ :: _ :: _, h =>
    cases h
    rw [predicateExprHolds, allHold_iff]

variable {expr : CovePredicateExpr}

theorem satisfied_iff
    (hatoms : ∀ predicate ∈ filter.predicate, filter.predicateExpr = some (.atom predicate))
    (hexpr : filter.predicateExpr = some expr) :
    Satisfied state row filter ↔ predicateExprHolds state row expr = true := by
  constructor
  · intro h
    exact h.2 expr hexpr
  · intro h
    constructor
    · intro predicate hpredicate
      obtain rfl := some.inj (hexpr.symm.trans (hatoms predicate hpredicate))
      rwa [predicateExprHolds] at h
    · intro e he
      obtain rfl := some.inj (hexpr.symm.trans he)
      exact h

theorem wholeExpr_holds {child : FilterLowering} (hchild : Agreement state row child t)
    (h : wholeExpr child = some expr) : predicateExprHolds state row expr = true ↔ t = .yes := by
  rw [wholeExpr] at h
  split at h
  · cases h
  · rename_i hwhole
    obtain ⟨hfallbacks, -⟩ := not_or.mp hwhole
    obtain ⟨exprs, hall, hholds⟩ := @predicateExprForFilters_holds T state row _ _ h
    rw [hholds]
    constructor
    · intro hexprs
      refine hchild.exact (not_not.mp hfallbacks) fun filter hfilter => ?_
      obtain ⟨e, he, hexpr⟩ := forall₂_mem_left hall hfilter
      exact (satisfied_iff (hchild.atoms filter hfilter) hexpr).mpr (hexprs e he)
    · intro ht e he
      obtain ⟨filter, hfilter, hexpr⟩ := forall₂_mem_left hall.flip he
      exact (satisfied_iff (hchild.atoms filter hfilter) hexpr).mp (hchild.sound ht filter hfilter)

/-! And, Or and the rest. -/

theorem lowerEach_eq_map (children : List LowerExpr) (display : String) :
    lowerEach T state children display = children.map fun child => lowerFilters T state child display := by
  induction children with
  | nil => rfl
  | cons child children ih => rw [lowerEach, ih, map_cons]

theorem and_agreement {lowered : List FilterLowering} {ts : List Truth}
    (h : Forall₂ (Agreement state row) lowered ts) :
    Agreement state row (lowered.foldr FilterLowering.append ⟨[], 0⟩) (Truth.all ts) := by
  induction h with
  | nil =>
    exact
      { atoms := fun _ h => absurd h not_mem_nil
        sound := fun _ _ h => absurd h not_mem_nil
        exact := fun _ _ => rfl }
  | cons h _ ih => exact h.append ih

theorem pruningExpr_agreement {columns : List Nat}
    (h : predicateExprHolds state row expr = true ↔ t = .yes) :
    Agreement state row ⟨[.pruningExpr columns expr display], 0⟩ t := by
  have hsatisfied : Satisfied state row (.pruningExpr columns expr display) ↔ t = .yes := by
    rw [← h]
    exact satisfied_iff (fun _ hnone => nomatch hnone) rfl
  constructor
  · intro filter hfilter predicate hpredicate
    obtain rfl := mem_singleton.mp hfilter
    cases hpredicate
  · intro ht filter hfilter
    obtain rfl := mem_singleton.mp hfilter
    exact hsatisfied.mpr ht
  · intro _ hall
    exact hsatisfied.mp (hall _ (mem_singleton_self _))

section

variable (htyped : ∀ i column, state.columns[i]? = some column → CellTyped column (row i))
include htyped

theorem or_agreement {children : List LowerExpr}
    (hagrees : ∀ pair ∈ childComparisons state children, Agrees row pair)
    (h : ∀ child ∈ children, Agreement state row (lowerFilters T state child display)
      (exprTruth T state row outside child)) :
    Agreement state row (lowerOr T state children (lowerEach T state children display) display)
      (exprTruth T state row outside (.or children)) := by
  rw [lowerOr.eq_def]
  split
  · rename_i filter hfilter
    exact stands_agreement (classifySameColumnEqualityOr_stands htyped hagrees hfilter)
  · split
    · exact agreement_fallback
    · rename_i exprs hexprs
      refine pruningExpr_agreement ?_
      rw [lowerEach_eq_map] at hexprs
      have hwhole := forall₂_map_left_iff.mp (forall₂_of_mapM_some hexprs)
      rw [predicateExprHolds, anyHolds_iff, exprTruth, exprTruths_eq_map, any_yes_iff]
      constructor
      · rintro ⟨expr, hexpr, hholds⟩
        obtain ⟨child, hchild, hlowered⟩ := forall₂_mem_left hwhole.flip hexpr
        exact ⟨_, mem_map_of_mem hchild, (wholeExpr_holds (h child hchild) hlowered).mp hholds⟩
      · rintro ⟨t, ht, hyes⟩
        obtain ⟨child, hchild, rfl⟩ := mem_map.mp ht
        obtain ⟨expr, hexpr, hlowered⟩ := forall₂_mem_left hwhole hchild
        exact ⟨expr, hexpr, (wholeExpr_holds (h child hchild) hlowered).mpr hyes⟩

theorem between_agreement {expr low high : LowerExpr} (display : String) :
    Agreement state row (lowerFilters T state (.between expr low high) display)
      (exprTruth T state row outside (.between expr low high)) := by
  have hnone : ∀ (op : LowerOperator) (bound : LowerExpr), op = .gtEq ∨ op = .ltEq →
      ∀ pair ∈ canonicalComparisons state (.binary expr op bound), Agrees row pair := by
    rintro op bound (rfl | rfl) pair hpair <;> cases hpair
  refine Agreement.append ?_ ?_
  · have h := @pushLoweredAtom_agreement T state row outside htyped (.binary expr .gtEq low)
      (hnone .gtEq low (.inl rfl))
    exact h _
  · have h := @pushLoweredAtom_agreement T state row outside htyped (.binary expr .ltEq high)
      (hnone .ltEq high (.inr rfl))
    exact h _

end

theorem lowerFilters_agreement
    (htyped : ∀ i column, state.columns[i]? = some column → CellTyped column (row i))
    (expr : LowerExpr) (hagrees : ∀ pair ∈ canonicalComparisons state expr, Agrees row pair)
    (display : String) :
    Agreement state row (lowerFilters T state expr display) (exprTruth T state row outside expr) := by
  induction expr using expr_induction with
  | and children ih =>
    rw [lowerFilters, lowerEach_eq_map, exprTruth, exprTruths_eq_map]
    refine and_agreement (forall₂_map_left_iff.mpr (forall₂_map_right_iff.mpr ?_))
    refine forall₂_same.mpr fun child hchild => ih child hchild fun pair hpair => ?_
    exact hagrees pair (mem_childComparisons.mpr ⟨child, hchild, hpair⟩)
  | or children ih =>
    refine or_agreement htyped hagrees fun child hchild => ih child hchild fun pair hpair => ?_
    exact hagrees pair (mem_childComparisons.mpr ⟨child, hchild, hpair⟩)
  | atom expr hatom =>
    cases expr with
    | and children => exact absurd rfl (hatom children).1
    | or children => exact absurd rfl (hatom children).2
    | between expr low high => exact between_agreement htyped display
    | unsupported reason => exact agreement_fallback
    | _ => exact pushLoweredAtom_agreement htyped hagrees display

end

/-! One literal beside a column of file codes. -/

section

/-- What is lowered from an expression is true on a row where the expression is, and where all of it is
exact it is true nowhere else. -/
def LoweringAgrees (T : Texts) (state : DatasetState) (row : Nat → Cell T.toTextPredicates)
    (outside : LowerExpr → Truth) (expr : LowerExpr) (display : String) : Prop :=
  let lowered := lowerFilters T state expr display
  (exprTruth T state row outside expr = .yes → ∀ filter ∈ lowered.filters, Satisfied state row filter) ∧
    (lowered.fallbacks = 0 →
      (∀ filter ∈ lowered.filters, filter.useKind = .fullRowPredicateExact) → lowered.filters ≠ [] →
        (∀ filter ∈ lowered.filters, Satisfied state row filter) →
          exprTruth T state row outside expr = .yes)

theorem promote_kind (i : Nat) (predicate : CovePredicate) :
    (promoteFilterExactness state (.pruning i predicate display)).useKind ≠ .unsupported := by
  rw [promoteFilterExactness, if_neg (by simp [FilterPlan.pruning])]
  split <;> simp

theorem atom_holds {left right : LowerExpr} {op : LowerOperator} {i : Nat} {predicate : CovePredicate}
    (hlower : classifyBinaryFilter T state left op right display = .pruning i predicate display)
    (h : LoweringAgrees T state row outside (.binary left op right) display)
    (hyes : exprTruth T state row outside (.binary left op right) = .yes) :
    predicateHolds state row predicate = true := by
  have hfilters : lowerFilters T state (.binary left op right) display =
      ⟨[promoteFilterExactness state (.pruning i predicate display)], 0⟩ := by
    rw [← hlower]
    exact if_neg (by
      rw [lowerAtomFilter, hlower]
      exact promote_kind i predicate)
  have hsatisfied := h.1 hyes
  rw [hfilters] at hsatisfied
  refine (hsatisfied _ (mem_singleton_self _)).1 predicate ?_
  rfl

variable {found : TableColumn × Nat} {literal : LowerLiteral} {c : FileCodeCanonicalLiteral} {x : Bytes}

section

variable (hreached : topLevelColumn state (.column found.1.name) = some found)
include hreached

theorem columnLiteral_reached :
    columnLiteral state (.column found.1.name) (.literal literal) = some (found, literal) := by
  rw [columnLiteral, hreached]
  rfl

theorem comparisons_reached (op : LowerOperator) {pair : (TableColumn × Nat) × LowerLiteral}
    (hpair : pair ∈ canonicalComparisons state
      (.binary (.column found.1.name) op (.literal literal))) : pair = (found, literal) := by
  rw [canonicalComparisons] at hpair
  split at hpair
  · rcases mem_binaryComparisons.mp hpair with h | h
    · exact some.inj (h.symm.trans (columnLiteral_reached hreached))
    · cases h
  · cases hpair

theorem key_of_agrees (hphysical : found.1.physical = .fileCode) (hkey : (row found.2).key = some x)
    (hc : fileCodeCanonicalLiteral T found.1.logical literal = .ok (some c))
    (h : ∀ op, LoweringAgrees T state row outside
      (.binary (.column found.1.name) op (.literal literal)) display) :
    (comparison found.1.logical (row found.2) .eq literal = .yes → x = c.key) ∧
      (comparison found.1.logical (row found.2) .notEq literal = .yes → x ≠ c.key) := by
  have htruth : ∀ op, exprTruth T state row outside
      (.binary (.column found.1.name) op (.literal literal)) =
        comparison found.1.logical (row found.2) op literal := by
    intro op
    rw [exprTruth, binaryTruth, columnLiteral_reached hreached]
  constructor
  · intro hyes
    have hholds := @atom_holds T state row outside display (.column found.1.name) (.literal literal) .eq
      found.2 (.fileCodeIn found.2 [] (sortedSet [c.payload]) (sortedSet [c.key])) (by
        rw [classifyBinaryFilter, columnLiteral_reached hreached]
        dsimp only
        rw [classifyColumnLiteral.eq_def, hphysical]
        rw [hc]
        rfl) (h .eq) ((htruth .eq).trans hyes)
    simpa [predicateHolds, hkey, mem_sortedSet] using hholds
  · intro hyes
    have hholds := @atom_holds T state row outside display (.column found.1.name) (.literal literal)
      .notEq found.2 (.fileCodeNotIn found.2 [] (sortedSet [c.payload]) (sortedSet [c.key])) (by
        rw [classifyBinaryFilter, columnLiteral_reached hreached]
        dsimp only
        rw [classifyColumnLiteral.eq_def, hphysical]
        rw [hc]
        rfl) (h .notEq) ((htruth .notEq).trans hyes)
    simpa [predicateHolds, hkey, mem_sortedSet] using hholds

theorem same_of_agrees {v w : CanonicalValue T.toTextPredicates} {a b : Extended} {payload : Bytes}
    (hphysical : found.1.physical = .fileCode) (hcell : row found.2 = .canonical v)
    (hencode : encodeTagged v = .ok x) (ha : valuePoint v = some (.number a))
    (hw : canonicalValue T found.1.logical literal = .ok (some w))
    (hpayload : encode w = .ok payload)
    (hb : literalPoint found.1.logical literal = some (.number b))
    (h : ∀ op, LoweringAgrees T state row outside
      (.binary (.column found.1.name) op (.literal literal)) display) :
    a = b ↔ Same v w := by
  have hc : fileCodeCanonicalLiteral T found.1.logical literal =
      .ok (some ⟨payload, taggedKey w.valueTag payload⟩) := by
    rw [fileCodeCanonicalLiteral, canonicalLiteral, hw]
    dsimp only [bind, Except.bind]
    rw [taggedCanonicalLiteral, hpayload]
    rfl
  obtain ⟨w', hw', hkey⟩ := canonicalLiteral_key hc
  obtain rfl := some.inj (Except.ok.inj (hw.symm.trans hw'))
  have hrow : (row found.2).key = some x := by
    rw [hcell, Cell.key, hencode]
    rfl
  obtain ⟨heq, hne⟩ := key_of_agrees hreached hphysical hrow hc h
  have hkind : SameKind (.number a) (.number b) := trivial
  rw [hcell, comparison_canonical ha hb, (compares_eq hkind).1, ofBool_yes, decide_eq_true_eq,
    Point.number.injEq] at heq
  rw [hcell, comparison_canonical ha hb, (compares_eq hkind).2, ofBool_yes, decide_eq_true_eq,
    ne_eq, Point.number.injEq] at hne
  rw [← key_eq_iff hencode hkey]
  exact ⟨heq, fun hx => by_contra fun hab => hne hab hx⟩

end

theorem keysAgree_of_agrees (hreached : topLevelColumn state (.column found.1.name) = some found)
    (htyped : CellTyped found.1 (row found.2)) (hnan : NotNan literal)
    (h : ∀ op, LoweringAgrees T state row outside
      (.binary (.column found.1.name) op (.literal literal)) display) :
    KeysAgree found.1 (row found.2) literal := by
  intro hphysical bits hbits
  subst hbits
  obtain ⟨b, hb⟩ := floatNumber_isSome (hnan bits rfl)
  have hpoint : ∀ logical, literalPoint logical (.float64 bits) = some (.number b) := by
    intro logical
    rw [literalPoint, hb]
    rfl
  split
  · rename_i value hlogical hcell
    rw [hcell] at htyped
    obtain ⟨p, hp⟩ := isSome_iff_exists.mp (htyped.2.2.2 (.inl rfl))
    obtain ⟨a, ha, rfl⟩ := map_eq_some_iff.mp hp
    have hw : canonicalValue T found.1.logical (.float64 bits) =
        .ok (some (.float32 (BitVec.ofNat 32 (narrowed bits.toNat)))) := by
      rw [hlogical]
      rfl
    have hsame := same_of_agrees hreached hphysical hcell rfl hp hw rfl (hpoint _) h
    rw [ha, hb, some.injEq, hsame, same_float32_iff, BitVec.toNat_ofNat,
      Nat.mod_eq_of_lt (narrowed_lt (hnan bits rfl))]
  · rename_i value hlogical hcell
    rw [hcell] at htyped
    obtain ⟨p, hp⟩ := isSome_iff_exists.mp (htyped.2.2.2 (.inr rfl))
    obtain ⟨a, ha, rfl⟩ := map_eq_some_iff.mp hp
    have hw : canonicalValue T found.1.logical (.float64 bits) =
        .ok (some (.float64 bits.toBitVec)) := by
      rw [hlogical]
      rfl
    have hsame := same_of_agrees hreached hphysical hcell rfl hp hw rfl (hpoint _) h
    rw [ha, hb, some.injEq, hsame, same_float64_iff]
    rfl
  · trivial

end

/-! Columns of floats. -/

def anyText : Texts where
  utf8Valid _ := true
  jsonValid _ := true
  json_utf8 _ h := h
  utf8_text _ := rfl

def floatTable (logical : CoveLogicalType) : DatasetState :=
  ⟨[⟨"x", logical, .fileCode, true⟩], [⟨false, true⟩]⟩

def floatRow (value : CanonicalValue anyText.toTextPredicates) (_ : Nat) :
    Cell anyText.toTextPredicates :=
  .canonical value

def floatComparison (op : LowerOperator) (bits : UInt64) : LowerExpr :=
  .binary (.column "x") op (.literal (.float64 bits))

theorem floatRow_typed {logical : CoveLogicalType} {value : CanonicalValue anyText.toTextPredicates}
    {payload : Bytes} (htag : value.valueTag ∈ tagsOf logical) (hencode : encode value = .ok payload)
    (hpoint : (valuePoint value).isSome) (i : Nat) (column : TableColumn)
    (h : (floatTable logical).columns[i]? = some column) : CellTyped column (floatRow value i) := by
  cases i with
  | zero =>
    cases h
    exact ⟨⟨nofun, nofun, nofun⟩, htag, ⟨payload, hencode⟩, fun _ => hpoint⟩
  | succ i => cases h

/-- No key is taken for `x < 0.0`, and those of 1.0 and -1.0 are not the key of -0.0. -/
def signedExpr : LowerExpr :=
  .and [.or [floatComparison .lt 0, .unsupported "f(x)"],
    .inList (.column "x") [.literal (.float64 0x3ff0000000000000)] true,
    floatComparison .notEq 0xbff0000000000000]

end CoveFormat.LoweringAgreement
