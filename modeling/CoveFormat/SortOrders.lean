import CoveFormat.BoundedHeaps
import CoveFormat.ValueKeys
import CoveFormat.ValueOrders

namespace CoveFormat.SortOrders

open BoundedHeaps DecimalOrders ExactDecimals ExprEval JsonValue TypedComparison ValueKeys ValueOrders

inductive AstOrderDirection
  | asc
  | desc

inductive AstNullOrdering
  | default
  | nullsFirst
  | nullsLast
  deriving DecidableEq

/-- The aggregates that select a value. -/
inductive OrderedAggregateName
  | min
  | max

section

variable (lib : TextLibrary)

def orderedAggregate (name : OrderedAggregateName) (logicalType : Option String)
    (collationId : Option Nat) (values : List Value) : Value :=
  ((values.filter (!·.isNull)).foldl (fun (selected : Option Value) value =>
    let replace :=
      match selected with
      | none => true
      | some current =>
        (valueOrderingTyped lib value current logicalType collationId).elim false fun ordering =>
          match name with
          | .min => ordering.isLT
          | .max => ordering.isGT
    if replace then some value else selected) none).getD .null

def directed : AstOrderDirection → Ordering → Ordering
  | .asc, ordering => ordering
  | .desc, ordering => ordering.swap

variable (direction : AstOrderDirection) (nulls : AstNullOrdering) (logicalType : Option String)
  (collationId : Option Nat)

def compareSortValues (left right : Value) : Ordering :=
  let nulls : AstNullOrdering :=
    match nulls, direction with
    | .default, .asc => .nullsLast
    | .default, .desc => .nullsFirst
    | explicit, _ => explicit
  match left.isNull, right.isNull with
  | true, true => .eq
  | true, false => if nulls = .nullsFirst then .lt else .gt
  | false, true => if nulls = .nullsFirst then .gt else .lt
  | false, false =>
    directed direction ((valueOrderingTyped lib left right logicalType collationId).getD
      (compare (stableValueKey lib left) (stableValueKey lib right)))

/-- What `sort_rows` reads of a row: the value of the order expression (null where it fails),
the dataset file and the text of the row. -/
structure OrderedRow where
  value : Value
  datasetFileOrdinal : Option Nat
  stableKey : String

def compareManifestMemberOrder (files : Nat) (left right : OrderedRow) : Ordering :=
  if files ≤ 1 then .eq else compare left.datasetFileOrdinal right.datasetFileOrdinal

def compareRows (files : Nat) (left right : OrderedRow) : Ordering :=
  (compareSortValues lib direction nulls logicalType collationId left.value right.value).then
    ((compareManifestMemberOrder files left right).then (compare left.stableKey right.stableKey))

/-- The branch of `sort_rows` with an ORDER BY. -/
def sortRows (files : Nat) (rows : List OrderedRow) : List OrderedRow :=
  sortBy (compareRows lib direction nulls logicalType collationId files) rows

end

/-- The minimum is the first value in ascending order, the maximum in descending order. -/
def OrderedAggregateName.order : OrderedAggregateName → AstOrderDirection
  | min => .asc
  | max => .desc

/-- `compare_sort_values` under these rules. -/
abbrev compared (k : Rules) (direction : AstOrderDirection) (nulls : AstNullOrdering)
    (left right : Value) : Ordering :=
  compareSortValues k.lib direction nulls k.logicalType k.collationId left right

section

variable (k : Rules) (direction : AstOrderDirection) (nulls : AstNullOrdering)

/-- ORDER BY over these values is a total preorder. -/
structure OrdersTotally (values : Set Value) : Prop where
  preorder : Std.TransCmp fun v w : values => compared k direction nulls v w
  decimals : ∀ left ∈ values, ∀ right ∈ values, ∀ l r : ExactDecimal, k.mixed left right →
    k.decimal left = some l → k.decimal right = some r →
      compared k direction nulls left right = directed direction (compare (rational l) (rational r))
  sorted : ∀ (files : Nat) (rows others : List OrderedRow), (∀ r ∈ rows, r.value ∈ values) →
    rows.Perm others → (rows.map (·.stableKey)).Nodup →
      sortRows k.lib direction nulls k.logicalType k.collationId files rows =
        sortRows k.lib direction nulls k.logicalType k.collationId files others
  selected : ∀ (name : OrderedAggregateName) (found others : List Value), (∀ v ∈ found, v ∈ values) →
    found.Perm others → orderedAggregate k.lib name k.logicalType k.collationId found =
      orderedAggregate k.lib name k.logicalType k.collationId others

end

section

variable {k : Rules} {v w u : Value} {values : Set Value} {direction : AstOrderDirection}
  {nulls : AstNullOrdering} {name : OrderedAggregateName} {found : List Value}

theorem directed_swap (direction : AstOrderDirection) (o : Ordering) :
    directed direction o.swap = (directed direction o).swap := by
  cases direction <;> rfl

theorem compareSortValues_swap (v w : Value) : compared k direction nulls w v =
      (compared k direction nulls v w).swap := by
  unfold compared compareSortValues
  cases v.isNull <;> cases w.isNull
  · simp only [← directed_swap]
    rw [valueOrderingTyped_swap k.lib v w, Std.OrientedOrd.eq_swap]
    cases valueOrderingTyped k.lib v w k.logicalType k.collationId <;> rfl
  · exact (apply_ite Ordering.swap _ .gt .lt).symm
  · exact (apply_ite Ordering.swap _ .lt .gt).symm
  · rfl

/-- The direction puts the one value before the other. -/
def Ahead (k : Rules) (direction : AstOrderDirection) (v w : Value) : Prop :=
  match direction with
  | .asc => Before k v w
  | .desc => Before k w v

theorem compareSortValues_of_ahead (h : Ahead k direction v w) :
    compared k direction nulls v w = .lt := by
  unfold compared compareSortValues
  cases direction with
  | asc =>
    have hnull := Before.left_not_null h
    have hnull' := Before.right_not_null h
    simp [hnull, hnull', before_iff.mp h, directed]
  | desc =>
    have hnull := Before.left_not_null h
    have hnull' := Before.right_not_null h
    simp [hnull, hnull', before_swap_iff.mp h, directed]

theorem compareSortValues_self (v : Value) : compared k direction nulls v v = .eq := by
  have h := @compareSortValues_swap k direction nulls v v
  cases ho : compared k direction nulls v v with
  | eq => rfl
  | lt | gt =>
    rw [ho] at h
    cases h

theorem ahead_or (h : OneOrder k values) (hv : v ∈ values) (hw : w ∈ values)
    (hvn : v.isNull = false) (hwn : w.isNull = false) (hne : v ≠ w) :
    Ahead k direction v w ∨ Ahead k direction w v := by
  cases direction
  · exact h.before_or hv hw hvn hwn hne
  · exact (h.before_or hv hw hvn hwn hne).symm

theorem compared_isLE_iff (h : OneOrder k values) (hv : v ∈ values)
    (hw : w ∈ values) (hvn : v.isNull = false) (hwn : w.isNull = false) :
    (compared k direction nulls v w).isLE ↔ v = w ∨ Ahead k direction v w := by
  constructor
  · intro hle
    refine or_iff_not_imp_left.mpr fun hne => ?_
    refine (ahead_or h hv hw hvn hwn hne).resolve_right fun hahead => ?_
    rw [compareSortValues_swap, compareSortValues_of_ahead hahead] at hle
    cases hle
  · rintro (rfl | hahead)
    · rw [compareSortValues_self]
      rfl
    · rw [compareSortValues_of_ahead hahead]
      rfl

theorem ahead_trans (h : OneOrder k values) (hu : u ∈ values) (hv : v ∈ values) (hw : w ∈ values)
    (huv : Ahead k direction u v) (hvw : Ahead k direction v w) :
    Ahead k direction u w := by
  cases direction
  · exact h.trans hu hv hw huv hvw
  · exact h.trans hw hv hu hvw huv

theorem compared_transCmp (h : OneOrder k values) :
    Std.TransCmp fun v w : values => compared k direction nulls v w where
  eq_swap := compareSortValues_swap _ _
  isLE_trans := by
    rintro ⟨u, hu⟩ ⟨v, hv⟩ ⟨w, hw⟩ huv hvw
    dsimp only at huv hvw ⊢
    cases hun : u.isNull <;> cases hvn : v.isNull <;> cases hwn : w.isNull
    case false.false.false =>
      rw [compared_isLE_iff h hu hv hun hvn] at huv
      rw [compared_isLE_iff h hv hw hvn hwn] at hvw
      rw [compared_isLE_iff h hu hw hun hwn]
      rcases huv with rfl | huv
      · exact hvw
      · rcases hvw with rfl | hvw
        · exact .inr huv
        · exact .inr (ahead_trans h hu hv hw huv hvw)
    all_goals
      unfold compared compareSortValues at huv hvw ⊢
      simp only [hun, hvn, hwn] at huv hvw ⊢
      first
        | exact huv
        | exact hvw
        | split_ifs at huv hvw ⊢ <;> first | rfl | exact absurd huv (by decide) | exact absurd hvw (by decide)

theorem manifestMemberOrder_transCmp (files : Nat) : Std.TransCmp (compareManifestMemberOrder files) := by
  by_cases hfiles : files ≤ 1
  · have heq : compareManifestMemberOrder files = fun _ _ => .eq := by
      funext left right
      exact if_pos hfiles
    rw [heq]
    exact { eq_swap := rfl, isLE_trans := fun _ _ => rfl }
  · have heq : compareManifestMemberOrder files = compareOn OrderedRow.datasetFileOrdinal := by
      funext left right
      exact if_neg hfiles
    rw [heq]
    infer_instance

theorem compareRows_transCmp (h : Std.TransCmp fun v w : values => compared k direction nulls v w)
    (files : Nat) : Std.TransCmp fun left right : {r : OrderedRow // r.value ∈ values} =>
      compareRows k.lib direction nulls k.logicalType k.collationId files left right := by
  have hvalues := transCmp_comap h fun r : {r : OrderedRow // r.value ∈ values} => ⟨r.1.value, r.2⟩
  have hmembers := transCmp_comap (manifestMemberOrder_transCmp files)
    (Subtype.val : {r : OrderedRow // r.value ∈ values} → OrderedRow)
  exact inferInstanceAs (Std.TransCmp (compareLex _ (compareLex _
    (compareOn fun r : {r : OrderedRow // r.value ∈ values} => r.1.stableKey))))

theorem sortRows_eq (h : OneOrder k values) {rows others : List OrderedRow}
    (files : Nat) (hrows : ∀ r ∈ rows, r.value ∈ values) (hperm : rows.Perm others)
    (hkeys : (rows.map (·.stableKey)).Nodup) :
    sortRows k.lib direction nulls k.logicalType k.collationId files rows =
      sortRows k.lib direction nulls k.logicalType k.collationId files others := by
  refine sortBy_eq_of_perm (compareRows_transCmp (compared_transCmp h) files)
    hrows hperm fun a ha b hb heq => ?_
  rw [compareRows, Ordering.then_eq_eq, Ordering.then_eq_eq] at heq
  exact List.inj_on_of_nodup_map hkeys ha hb (Std.LawfulEqOrd.eq_of_compare heq.2.2)

/-- One step of the loop of `ordered_aggregate`. -/
def select (k : Rules) (name : OrderedAggregateName) (selected : Option Value) (value : Value) :
    Option Value :=
  let replace :=
    match selected with
    | none => true
    | some current =>
      (k.ordering value current).elim false fun ordering =>
        match name with
        | .min => ordering.isLT
        | .max => ordering.isGT
  if replace then some value else selected

open Classical in
theorem select_some (v w : Value) : select k name (some v) w =
    some (if Ahead k name.order w v then w else v) := by
  have hreplace : ((k.ordering w v).elim false fun ordering =>
      match name with
      | .min => ordering.isLT
      | .max => ordering.isGT) = decide (Ahead k name.order w v) := by
    rw [Bool.eq_iff_iff, decide_eq_true_eq]
    cases name with
    | min =>
      refine Iff.trans ?_ before_iff.symm
      rcases k.ordering w v with _ | _ | _ | _ <;> decide
    | max =>
      refine Iff.trans ?_ before_swap_iff.symm
      rcases k.ordering w v with _ | _ | _ | _ <;> decide
  simp only [select, hreplace, decide_eq_true_eq]
  split <;> rfl

/-- The value is preferred to all others that were seen. -/
def Selected (k : Rules) (name : OrderedAggregateName) (seen : List Value) (v : Value) : Prop :=
  v ∈ seen ∧ ∀ w ∈ seen, w = v ∨ Ahead k name.order v w

theorem select_selected (h : OneOrder k values) {seen : List Value}
    (hseen : ∀ x ∈ seen ++ [w], x ∈ values ∧ x.isNull = false) (hv : Selected k name seen v) :
    ∃ x, select k name (some v) w = some x ∧ Selected k name (seen ++ [w]) x := by
  obtain ⟨hmem, hbest⟩ := hv
  have hv := hseen v (by simp [hmem])
  have hw := hseen w (by simp)
  rw [select_some]
  refine ⟨_, rfl, ?_⟩
  split
  · rename_i hahead
    refine ⟨by simp, fun x hx => ?_⟩
    rcases List.mem_append.mp hx with hx | hx
    · right
      rcases hbest x hx with rfl | hvx
      · exact hahead
      · exact ahead_trans h hw.1 hv.1 (hseen x (by simp [hx])).1 hahead hvx
    · exact .inl (List.mem_singleton.mp hx)
  · rename_i hahead
    refine ⟨by simp [hmem], fun x hx => ?_⟩
    rcases List.mem_append.mp hx with hx | hx
    · exact hbest x hx
    · obtain rfl := List.mem_singleton.mp hx
      refine or_iff_not_imp_left.mpr fun hne => ?_
      exact (ahead_or h hv.1 hw.1 hv.2 hw.2 (Ne.symm hne)).resolve_right hahead

theorem fold_selected (h : OneOrder k values) (name : OrderedAggregateName) (found : List Value)
    (hfound : ∀ x ∈ found, x ∈ values ∧ x.isNull = false) :
    (found.foldl (select k name) none = none ∧ found = []) ∨
      ∃ v, found.foldl (select k name) none = some v ∧ Selected k name found v := by
  induction found using List.reverseRecOn with
  | nil => exact .inl ⟨rfl, rfl⟩
  | append_singleton seen w ih =>
    right
    rw [List.foldl_append, List.foldl_cons, List.foldl_nil]
    rcases ih fun x hx => hfound x (by simp [hx]) with ⟨hfold, rfl⟩ | ⟨v, hfold, hv⟩
    · rw [hfold]
      exact ⟨w, rfl, by simp, by simp⟩
    · rw [hfold]
      exact select_selected h hfound hv

theorem Selected.unique (hv : Selected k name found v) (hw : Selected k name found w) : v = w := by
  rcases hv.2 w hw.1 with heq | hvw
  · exact heq.symm
  · rcases hw.2 v hv.1 with heq | hwv
    · exact heq
    · cases name
      · exact absurd hwv (Before.asymm hvw)
      · exact absurd hwv (Before.asymm hvw)

theorem orderedAggregate_eq (h : OneOrder k values) (name : OrderedAggregateName)
    {found others : List Value} (hfound : ∀ v ∈ found, v ∈ values) (hperm : found.Perm others) :
    orderedAggregate k.lib name k.logicalType k.collationId found =
      orderedAggregate k.lib name k.logicalType k.collationId others := by
  have hpresent := hperm.filter fun v => !v.isNull
  have hin : ∀ x ∈ found.filter (!·.isNull), x ∈ values ∧ x.isNull = false := by
    intro x hx
    rw [List.mem_filter, Bool.not_eq_true'] at hx
    exact ⟨hfound x hx.1, hx.2⟩
  change Option.getD ((found.filter (!·.isNull)).foldl (select k name) none) .null =
    Option.getD ((others.filter (!·.isNull)).foldl (select k name) none) .null
  rcases fold_selected h name _ hin with ⟨hfold, hnil⟩ | ⟨v, hfold, hv⟩
  · rw [hnil, List.nil_perm] at hpresent
    rw [hfold, hpresent]
    rfl
  · rcases fold_selected h name _ fun x hx => hin x (hpresent.mem_iff.mpr hx) with
      ⟨-, hnil⟩ | ⟨w, hfold', hw⟩
    · rw [hnil, List.perm_nil] at hpresent
      rw [hpresent] at hv
      exact absurd hv.1 List.not_mem_nil
    · have hw : Selected k name (found.filter (!·.isNull)) w :=
        ⟨hpresent.mem_iff.mpr hw.1, fun x hx => hw.2 x (hpresent.mem_iff.mp hx)⟩
      rw [hfold, hfold', hv.unique hw]

theorem compared_decimals (h : OneOrder k values) (hv : v ∈ values)
    (hw : w ∈ values) {l r : ExactDecimal} (hmixed : k.mixed v w)
    (hl : k.decimal v = some l) (hr : k.decimal w = some r) : compared k direction nulls v w =
      directed direction (compare (rational l) (rational r)) := by
  by_cases hne : v = w
  · subst hne
    cases hl.symm.trans hr
    rw [compareSortValues_self, compare_eq_iff_eq.mpr rfl]
    cases direction <;> rfl
  · have hvn : v.isNull = false := by
      cases v <;> first | rfl | cases hl
    have hwn : w.isNull = false := by
      cases w <;> first | rfl | cases hr
    have happart := h.apart v hv w hw hvn hwn hne
    unfold Apart at happart
    rw [if_pos hmixed] at happart
    obtain ⟨l', r', hl', hr', hfits, -⟩ := happart
    cases hl.symm.trans hl'
    cases hr.symm.trans hr'
    have hordering : valueOrderingTyped k.lib v w k.logicalType k.collationId =
        some (compare (rational l) (rational r)) :=
      (ordering_of_decimals hmixed hl hr).trans (compareDecimals_eq_some_iff.mpr ⟨hfits, rfl⟩)
    unfold compared compareSortValues
    simp only [hvn, hwn, hordering, Option.getD_some]

theorem orderedAggregate_pair (hv : v.isNull = false) (hw : w.isNull = false) :
    orderedAggregate k.lib name k.logicalType k.collationId [v, w] =
      (select k name (some v) w).getD .null := by
  have hpresent : [v, w].filter (!·.isNull) = [v, w] := by simp [hv, hw]
  change Option.getD (([v, w].filter (!·.isNull)).foldl (select k name) none) .null = _
  rw [hpresent]
  rfl

section

variable (h : OrdersTotally k direction nulls values)
include h

/-- The minimum of two values does not depend on their order, so one of them is before the other. -/
theorem OrdersTotally.before_or (hv : v ∈ values) (hw : w ∈ values) (hvn : v.isNull = false)
    (hwn : w.isNull = false) (hne : v ≠ w) : Before k v w ∨ Before k w v := by
  have hsame := h.selected .min [v, w] [w, v] (by simp [hv, hw]) (.swap ..)
  rw [orderedAggregate_pair hvn hwn, orderedAggregate_pair hwn hvn, select_some, select_some] at hsame
  by_contra hnone
  rw [not_or] at hnone
  rw [if_neg (show ¬ Ahead k OrderedAggregateName.min.order w v from hnone.2),
    if_neg (show ¬ Ahead k OrderedAggregateName.min.order v w from hnone.1)] at hsame
  exact hne hsame

theorem OrdersTotally.before_of_lt (hv : v ∈ values) (hw : w ∈ values) {l r : ExactDecimal}
    (hmixed : k.mixed v w) (hl : k.decimal v = some l)
    (hr : k.decimal w = some r) (hlt : rational l < rational r) : Before k v w := by
  have hvn := decimal_not_null hl
  have hwn := decimal_not_null hr
  have hne : v ≠ w := by
    rintro rfl
    cases hl.symm.trans hr
    exact lt_irrefl _ hlt
  refine (h.before_or hv hw hvn hwn hne).resolve_right fun hwv => ?_
  have hmixed' : k.mixed w v := (typedOrMixed_comm k.lib v w _).trans hmixed
  exact lt_asymm hlt (hwv.rational_lt hmixed' hr hl)

theorem OrdersTotally.trans (hu : u ∈ values) (hv : v ∈ values) (hw : w ∈ values)
    (huv : Before k u v) (hvw : Before k v w) : Before k u w := by
  have hne : u ≠ w := by
    rintro rfl
    exact huv.asymm hvw
  refine (h.before_or hu hw huv.left_not_null hvw.right_not_null hne).resolve_right fun hwu => ?_
  have htrans := h.preorder
  cases direction with
  | asc =>
    have hlt := htrans.lt_trans (a := ⟨u, hu⟩) (b := ⟨v, hv⟩) (c := ⟨w, hw⟩)
      (compareSortValues_of_ahead huv) (compareSortValues_of_ahead hvw)
    rw [compareSortValues_swap, @compareSortValues_of_ahead _ _ _ .asc _ hwu] at hlt
    cases hlt
  | desc =>
    have hlt := htrans.lt_trans (a := ⟨w, hw⟩) (b := ⟨v, hv⟩) (c := ⟨u, hu⟩)
      (compareSortValues_of_ahead hvw) (compareSortValues_of_ahead huv)
    rw [compareSortValues_swap, @compareSortValues_of_ahead _ _ _ .desc _ hwu] at hlt
    cases hlt

theorem OrdersTotally.oneOrder : OneOrder k values where
  apart v hv w hw hvn hwn hne := (apart_iff hne).mpr (h.before_or hv hw hvn hwn hne)
  aroundNumber htype s t n hs ht hn a b c ha hb hc hab hbc := by
    have hsn := h.before_of_lt hs hn (mixed_iff.mpr
        ⟨.inr (.inr rfl), by rw [ha]; rfl, by rw [hb]; rfl⟩) ha hb hab
    have hnt := h.before_of_lt hn ht (mixed_iff.mpr
        ⟨.inr (.inl rfl), by rw [hb]; rfl, by rw [hc]; rfl⟩) hb hc hbc
    rcases h.trans hs hn ht hsn hnt with ⟨hmixed, -⟩ | hst
    · have hnumeric := (mixed_iff.mp hmixed).1
      simp [htype, isNumber] at hnumeric
    · cases hst with
      | texts _ hlt => exact hlt
  aroundText htype s t u hs ht hu a c ha hnone hc hst htu := by
    have hbefore := h.trans hs ht hu
      (.inr (.texts (by simp [typedOrMixedNumericValues, hnone]) hst))
      (.inr (.texts (by simp [typedOrMixedNumericValues, hnone]) htu))
    exact hbefore.rational_lt (mixed_iff.mpr ⟨.inl htype, by rw [ha]; rfl, by rw [hc]; rfl⟩) ha hc
  aroundDouble l m n hl hm hn a c ha hnone hc hlm hmn := by
    have hbefore := h.trans hl hm hn
      (.inr (.doubles (by simp [typedOrMixedNumericValues, hnone]) hlm))
      (.inr (.doubles (by simp [typedOrMixedNumericValues, hnone]) hmn))
    exact hbefore.rational_lt (mixed_iff.mpr ⟨.inr (.inl rfl), by rw [ha]; rfl, by rw [hc]; rfl⟩) ha hc

end

/-- ORDER BY is a total preorder of exactly those values that its rules put in one order. -/
theorem ordersTotally_iff : OrdersTotally k direction nulls values ↔ OneOrder k values :=
  ⟨fun h => h.oneOrder, fun h =>
    { preorder := compared_transCmp h
      decimals := fun _ hv _ hw _ _ hmixed hl hr => compared_decimals h hv hw hmixed hl hr
      sorted := fun files _ _ hrows hperm hkeys => sortRows_eq h files hrows hperm hkeys
      selected := fun name _ _ hfound hperm => orderedAggregate_eq h name hfound hperm }⟩

end

/-- With the default collation 5 comes before `"7"`, `"7"` before `"x"` and `"x"` before 5. -/
theorem sortValues_circle :
    ¬ OrdersTotally ⟨jsonTexts, none, none⟩ .asc .default {.number (.posInt 5),
      .string "7", .string "x"} := by
  intro h
  have hlt := h.preorder.lt_trans (a := ⟨.number (.posInt 5), by simp⟩) (b := ⟨.string "7", by simp⟩)
    (c := ⟨.string "x", by simp⟩) (by decide +kernel) (by decide +kernel)
  exact absurd hlt (by decide +kernel)

end CoveFormat.SortOrders
