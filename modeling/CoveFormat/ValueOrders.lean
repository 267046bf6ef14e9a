import CoveFormat.DecimalOrders
import CoveFormat.TypedComparison

namespace CoveFormat.ValueOrders

open ByteCodes DecimalOrders ExactDecimals ExprEval JsonValue TypedComparison

/-- What the comparison of two values depends on. -/
structure Rules where
  lib : TextLibrary
  logicalType : Option String
  collationId : Option Nat

namespace Rules

variable (k : Rules)

abbrev decimal (value : Value) : Option ExactDecimal := parseDecimalValue k.lib value

abbrev mixed (left right : Value) : Bool := typedOrMixedNumericValues k.lib left right k.logicalType

abbrev ordering (left right : Value) : Option Ordering :=
  valueOrderingTyped k.lib left right k.logicalType k.collationId

end Rules

section

def textBytes (text : String) : Bytes := text.toUTF8.data.toList

/-- The collation orders texts by their bytes, or texts of one width by the number in their bytes. -/
def Collates (collationId : Option Nat) (left right : String) : Prop :=
  collationId.getD 1 ≤ 2 ∨ collationId.getD 1 ≤ 5 ∧
    (textBytes left).length = (textBytes right).length ∧ (textBytes left).length ∈ [1, 2, 4, 8, 16]

variable (k : Rules)

/-- One rule puts two different values one before the other: two decimals of different numbers that can
be written with one scale, numbers of different doubles, texts that collate, or the two booleans. -/
def Apart (left right : Value) : Prop :=
  if k.mixed left right then
    ∃ l r, k.decimal left = some l ∧ k.decimal right = some r ∧
      Alignable l r ∧ rational l ≠ rational r
  else
    match left, right with
    | .number _, .number _ => ∃ o, doublesCompare left right = some o ∧ o ≠ .eq
    | .string left, .string right => Collates k.collationId left right
    | .bool _, .bool _ => True
    | _, _ => False

/-- The rules that meet among the values put them in one order. -/
structure OneOrder (values : Set Value) : Prop where
  apart : ∀ v ∈ values, ∀ w ∈ values, v.isNull = false → w.isNull = false → v ≠ w →
    Apart k v w
  /-- Two texts around a number, which is compared with both as a decimal. -/
  aroundNumber : isNumericType k.logicalType = false → ∀ (s t : String) (n : Number),
    .string s ∈ values → .string t ∈ values → .number n ∈ values → ∀ a b c : ExactDecimal,
      k.decimal (.string s) = some a → k.decimal (.number n) = some b →
        k.decimal (.string t) = some c → rational a < rational b →
          rational b < rational c → stringOrdering s t k.collationId = some .lt
  /-- Two decimal texts around one that is no decimal. -/
  aroundText : isNumericType k.logicalType → ∀ s t u : String,
    .string s ∈ values → .string t ∈ values → .string u ∈ values → ∀ a c : ExactDecimal,
      k.decimal (.string s) = some a → k.decimal (.string t) = none →
        k.decimal (.string u) = some c → stringOrdering s t k.collationId = some .lt →
          stringOrdering t u k.collationId = some .lt → rational a < rational c
  /-- Two decimal numbers around one that is no decimal. -/
  aroundDouble : ∀ l m n : Number, .number l ∈ values → .number m ∈ values → .number n ∈ values →
    ∀ a c : ExactDecimal, k.decimal (.number l) = some a →
      k.decimal (.number m) = none → k.decimal (.number n) = some c →
        doublesCompare (.number l) (.number m) = some .lt →
          doublesCompare (.number m) (.number n) = some .lt → rational a < rational c

end

section

variable {collationId : Option Nat} {s t u : String}

/-- What the numeric collations read in the bytes of a text. -/
def textNumber (id : Nat) (text : String) : Int :=
  if id = 4 then leNat (textBytes text)
  else signed (8 * (textBytes text).length) (leNat (textBytes text))

open Classical in
theorem stringOrdering_eq (s t : String) (collationId : Option Nat) :
    stringOrdering s t collationId = if Collates collationId s t then
      some (if collationId.getD 1 ≤ 2 then compare s t
        else compare (textNumber (collationId.getD 1) s) (textNumber (collationId.getD 1) t))
    else none := by
  have numeric (read : Bytes → Int) : CollationKind.numericCompare read s t =
      if (textBytes s).length = (textBytes t).length ∧ (textBytes s).length ∈ [1, 2, 4, 8, 16] then
        some (compare (read (textBytes s)) (read (textBytes t))) else none := rfl
  rw [Collates, stringOrdering]
  generalize collationId.getD 1 = id
  rcases id with _ | _ | _ | _ | _ | _ | id <;>
    simp [CollationKind.fromId, CollationKind.supportsOrdering, CollationKind.compareTexts, numeric,
      textNumber]

theorem textBytes_inj (h : textBytes s = textBytes t) : s = t :=
  String.toByteArray_inj.mp (ByteArray.ext (Array.toList_inj.mp h))

theorem textNumber_inj {id : Nat} (hlen : (textBytes s).length = (textBytes t).length)
    (h : textNumber id s = textNumber id t) : s = t := by
  have hlt (text : String) : leNat (textBytes text) < 2 ^ (8 * (textBytes text).length) := by
    rw [pow_mul]
    exact leNat_lt _
  have hbytes : leNat (textBytes s) = leNat (textBytes t) := by
    rw [textNumber, textNumber] at h
    split at h
    · exact_mod_cast h
    · rw [← unsigned_signed (hlt s), ← unsigned_signed (hlt t), h, hlen]
  exact textBytes_inj (by rw [← leBytes_leNat (textBytes s), ← leBytes_leNat (textBytes t), hbytes, hlen])

theorem stringOrdering_ne_eq (hne : s ≠ t) : stringOrdering s t collationId ≠ some .eq := by
  rw [stringOrdering_eq]
  intro h
  split at h
  · rename_i hcollates
    have h := Option.some.inj h
    split at h
    · exact hne (Std.LawfulEqOrd.eq_of_compare h)
    · rename_i hnumeric
      have hlen := (hcollates.resolve_left hnumeric).2.1
      exact hne (textNumber_inj hlen (Std.LawfulEqOrd.eq_of_compare h))
  · cases h

theorem collates_iff : Collates collationId s t ↔ (stringOrdering s t collationId).isSome := by
  rw [stringOrdering_eq]
  split <;> simp_all

theorem stringOrdering_trans (hst : stringOrdering s t collationId = some .lt)
    (htu : stringOrdering t u collationId = some .lt) : stringOrdering s u collationId = some .lt := by
  have hsu : Collates collationId s u := by
    have hs := collates_iff.mpr (Option.isSome_iff_exists.mpr ⟨_, hst⟩)
    have ht := collates_iff.mpr (Option.isSome_iff_exists.mpr ⟨_, htu⟩)
    rcases hs with hs | ⟨hid, hlen, hmem⟩
    · exact .inl hs
    · rcases ht with ht | ⟨-, hlen', -⟩
      · exact .inl ht
      · exact .inr ⟨hid, hlen.trans hlen', hmem⟩
  rw [stringOrdering_eq] at hst htu ⊢
  rw [if_pos hsu]
  split at hst
  · split at htu
    · split
      · rename_i hid
        rw [if_pos hid] at hst htu
        rw [Std.TransCmp.lt_trans (Option.some.inj hst) (Option.some.inj htu)]
      · rename_i hid
        rw [if_neg hid] at hst htu
        rw [Std.TransCmp.lt_trans (Option.some.inj hst) (Option.some.inj htu)]
    · cases htu
  · cases hst

end

section

variable (k : Rules)

/-- Both values read as decimals, of which the left one is smaller. -/
def DecimalBefore (v w : Value) : Prop :=
  k.mixed v w ∧ ∃ l r, k.decimal v = some l ∧
    k.decimal w = some r ∧ Alignable l r ∧ rational l < rational r

/-- The rules for two values of one kind. -/
inductive KindBefore : Value → Value → Prop
  | doubles {m n : Number} (hmixed : k.mixed (.number m) (.number n) = false)
      (h : doublesCompare (.number m) (.number n) = some .lt) : KindBefore (.number m) (.number n)
  | texts {s t : String} (hmixed : k.mixed (.string s) (.string t) = false)
      (h : stringOrdering s t k.collationId = some .lt) : KindBefore (.string s) (.string t)
  | bools : KindBefore (.bool false) (.bool true)

def Before (v w : Value) : Prop :=
  DecimalBefore k v w ∨ KindBefore k v w

variable {k} {v w u : Value} {values : Set Value}

theorem mixed_iff : k.mixed v w ↔ (isNumericType k.logicalType ∨ isNumber v ∨ isNumber w) ∧
    (k.decimal v).isSome ∧ (k.decimal w).isSome :=
  typedOrMixed_iff

theorem decimal_not_null {d : ExactDecimal} (h : k.decimal v = some d) : v.isNull = false := by
  cases v <;> first | rfl | cases h

theorem ordering_of_decimals {l r : ExactDecimal} (hmixed : k.mixed v w) (hl : k.decimal v = some l)
    (hr : k.decimal w = some r) : k.ordering v w = compareDecimals l r := by
  have hl : parseDecimalValue k.lib v = some l := hl
  have hr : parseDecimalValue k.lib w = some r := hr
  unfold Rules.ordering valueOrderingTyped
  rw [if_pos hmixed, decimalCompare, hl, hr]
  rfl

theorem before_iff : Before k v w ↔ k.ordering v w = some .lt := by
  constructor
  · rintro (⟨hmixed, l, r, hl, hr, hfits, hlt⟩ | h)
    · rw [ordering_of_decimals hmixed hl hr]
      exact compareDecimals_eq_some_iff.mpr ⟨hfits, compare_lt_iff_lt.mpr hlt⟩
    · cases h with
      | doubles hmixed h => simpa [valueOrderingTyped, hmixed, isNumber] using h
      | texts hmixed h => simpa [valueOrderingTyped, hmixed, isNumber] using h
      | bools => simp [valueOrderingTyped, typedOrMixedNumericValues, parseDecimalValue, isNumber]; rfl
  · intro h
    unfold Rules.ordering valueOrderingTyped at h
    split at h
    · rename_i hmixed
      obtain ⟨l, hl, h⟩ := Option.bind_eq_some_iff.mp h
      obtain ⟨r, hr, h⟩ := Option.bind_eq_some_iff.mp h
      obtain ⟨hfits, hlt⟩ := compareDecimals_eq_some_iff.mp h
      exact .inl ⟨hmixed, l, r, hl, hr, hfits, compare_lt_iff_lt.mp hlt⟩
    · rename_i hmixed
      rw [Bool.not_eq_true] at hmixed
      refine .inr ?_
      cases v <;> cases w <;> try cases h
      case number.number m n => exact .doubles hmixed h
      case string.string s t => exact .texts hmixed h
      case bool.bool a b =>
        cases a <;> cases b <;> first | exact .bools | cases h

theorem before_swap_iff : Before k w v ↔ k.ordering v w = some .gt := by
  rw [before_iff, Rules.ordering, valueOrderingTyped_swap k.lib v w, Option.map_eq_some_iff]
  constructor
  · rintro ⟨o, h, ho⟩
    cases o <;> first | exact h | cases ho
  · exact fun h => ⟨_, h, rfl⟩

theorem Before.asymm (h : Before k v w) : ¬ Before k w v := by
  rw [before_iff] at h
  rw [before_swap_iff, h]
  intro heq
  cases heq

theorem Before.left_not_null (h : Before k v w) : v.isNull = false := by
  rcases h with ⟨-, l, r, hl, -⟩ | h
  · exact decimal_not_null hl
  · cases h <;> rfl

theorem Before.right_not_null (h : Before k v w) : w.isNull = false := by
  rcases h with ⟨-, l, r, -, hr, -⟩ | h
  · exact decimal_not_null hr
  · cases h <;> rfl

theorem Before.rational_lt (h : Before k v w) {l r : ExactDecimal}
    (hmixed : k.mixed v w) (hl : k.decimal v = some l)
    (hr : k.decimal w = some r) : rational l < rational r := by
  rcases h with ⟨-, l', r', hl', hr', -, hlt⟩ | h
  · cases hl.symm.trans hl'
    cases hr.symm.trans hr'
    exact hlt
  · cases h with
    | doubles hkinds | texts hkinds =>
      rw [hkinds] at hmixed
      cases hmixed
    | bools => cases hl

theorem apart_iff (hne : v ≠ w) : Apart k v w ↔ Before k v w ∨ Before k w v := by
  rw [before_iff, before_swap_iff]
  unfold Apart
  split
  · rename_i hmixed
    obtain ⟨-, hl, hr⟩ := mixed_iff.mp hmixed
    obtain ⟨l, hl⟩ := Option.isSome_iff_exists.mp hl
    obtain ⟨r, hr⟩ := Option.isSome_iff_exists.mp hr
    rw [ordering_of_decimals hmixed hl hr, compareDecimals_eq_some_iff, compareDecimals_eq_some_iff,
      compare_lt_iff_lt, compare_gt_iff_gt, ← and_or_left, ← ne_iff_lt_or_gt]
    constructor
    · rintro ⟨l', r', hl', hr', happart⟩
      cases hl.symm.trans hl'
      cases hr.symm.trans hr'
      exact happart
    · exact fun happart => ⟨l, r, hl, hr, happart⟩
  · have hsides (found : Option Ordering) :
        (∃ o, found = some o ∧ o ≠ .eq) ↔ found = some .lt ∨ found = some .gt := by
      rcases found with _ | _ | _ | _ <;> simp
    rename_i hmixed
    unfold Rules.ordering valueOrderingTyped
    rw [if_neg hmixed]
    clear hmixed
    cases v <;> cases w
    case number.number m n => exact hsides _
    case string.string s t =>
      refine collates_iff.trans ?_
      have hst := @stringOrdering_ne_eq k.collationId _ _ fun heq => hne (congrArg _ heq)
      rw [Option.isSome_iff_exists]
      refine Iff.trans ?_ (hsides _)
      exact ⟨fun ⟨o, ho⟩ => ⟨o, ho, fun heq => hst (heq ▸ ho)⟩, fun ⟨o, ho, _⟩ => ⟨o, ho⟩⟩
    case bool.bool a b =>
      refine iff_of_true trivial ?_
      cases a <;> cases b <;> first | exact absurd rfl hne | exact .inl rfl | exact .inr rfl
    all_goals exact iff_of_false not_false (by simp [isNumber])

theorem OneOrder.before_or (h : OneOrder k values) (hv : v ∈ values)
    (hw : w ∈ values) (hvn : v.isNull = false) (hwn : w.isNull = false) (hne : v ≠ w) :
    Before k v w ∨ Before k w v :=
  (apart_iff hne).mp (h.apart v hv w hw hvn hwn hne)

theorem doublesCompare_lt (h : doublesCompare v w = some .lt) :
    ∃ x y, v.asF64 = some x ∧ w.asF64 = some y ∧ f64Key x < f64Key y := by
  obtain ⟨x, hx, h⟩ := Option.bind_eq_some_iff.mp h
  obtain ⟨y, hy, h⟩ := Option.bind_eq_some_iff.mp h
  rw [f64Compare] at h
  split at h
  · cases h
  · exact ⟨x, y, hx, hy, compare_lt_iff_lt.mp (Option.some.inj h)⟩

theorem KindBefore.not_circle (huv : KindBefore k u v)
    (hvw : KindBefore k v w) : ¬ KindBefore k w u := by
  intro hwu
  cases huv with
  | doubles _ huv =>
    cases hvw with
    | doubles _ hvw =>
      cases hwu with
      | doubles _ hwu =>
        obtain ⟨x, y, hx, hy, hxy⟩ := doublesCompare_lt huv
        obtain ⟨y', z, hy', hz, hyz⟩ := doublesCompare_lt hvw
        obtain ⟨z', x', hz', hx', hzx⟩ := doublesCompare_lt hwu
        cases hx.symm.trans hx'
        cases hy.symm.trans hy'
        cases hz.symm.trans hz'
        exact lt_asymm (hxy.trans hyz) hzx
  | texts _ huv =>
    cases hvw with
    | texts _ hvw =>
      cases hwu with
      | texts _ hwu =>
        rw [stringOrdering_swap, stringOrdering_trans huv hvw] at hwu
        cases hwu
  | bools => cases hvw

section

variable (h : OneOrder k values) (hu : u ∈ values) (hv : v ∈ values) (hw : w ∈ values)
include h hu hv hw

/-- Two decimal steps cannot be closed to a circle. -/
theorem OneOrder.not_of_decimals (huv : DecimalBefore k u v)
    (hvw : DecimalBefore k v w) : ¬ Before k w u := by
  obtain ⟨huv, a, b, ha, hb, -, hab⟩ := huv
  obtain ⟨-, b', c, hb', hc, -, hbc⟩ := hvw
  obtain rfl := Option.some.inj (hb.symm.trans hb')
  rintro (⟨-, c', a', hc', ha', -, hca⟩ | hwu)
  · rw [ha] at ha'
    rw [hc] at hc'
    cases ha'
    cases hc'
    exact lt_asymm (hab.trans hbc) hca
  · cases hwu with
    | doubles hmixed =>
      rw [Bool.eq_false_iff] at hmixed
      exact hmixed (mixed_iff.mpr ⟨.inr (.inl rfl), by rw [hc]; rfl, by rw [ha]; rfl⟩)
    | texts hmixed hlt =>
      have htype : isNumericType k.logicalType = false := by
        rw [Bool.eq_false_iff] at hmixed ⊢
        exact fun htype => hmixed (mixed_iff.mpr ⟨.inl htype, by rw [hc]; rfl, by rw [ha]; rfl⟩)
      have hnumber : isNumber v := by simpa [htype, isNumber] using (mixed_iff.mp huv).1
      cases v <;> try cases hnumber
      have hback := h.aroundNumber htype _ _ _ hu hw hv a b c ha hb hc hab hbc
      rw [stringOrdering_swap, hback] at hlt
      cases hlt
    | bools => cases ha

/-- One decimal step cannot be closed to a circle by a value that is no decimal. -/
theorem OneOrder.not_of_decimal (huv : DecimalBefore k u v)
    (hvw : KindBefore k v w) : ¬ KindBefore k w u := by
  obtain ⟨huv, a, b, ha, hb, -, hab⟩ := huv
  intro hwu
  have hread : (isNumericType k.logicalType ∨ isNumber v) → k.mixed v w = false →
      k.decimal w = none := by
    intro htype hmixed
    by_contra hsome
    rw [Bool.eq_false_iff] at hmixed
    exact hmixed (mixed_iff.mpr ⟨htype.imp_right .inl, by rw [hb]; rfl, Option.isSome_iff_ne_none.mpr hsome⟩)
  cases hvw with
  | doubles hmixed hvw =>
    cases hwu with
    | doubles _ hwu =>
      exact lt_asymm hab (h.aroundDouble _ _ _ hv hw hu b a hb (hread (.inr rfl) hmixed) ha hvw hwu)
  | texts hmixed hvw =>
    cases hwu with
    | texts _ hwu =>
      have htype : isNumericType k.logicalType := by simpa [isNumber] using (mixed_iff.mp huv).1
      exact lt_asymm hab (h.aroundText htype _ _ _ hv hw hu b a hb (hread (.inl htype) hmixed) ha hvw hwu)
  | bools => cases hb

/-- Whatever rules its steps follow, no circle goes through the values. -/
theorem OneOrder.not_circle (huv : Before k u v) (hvw : Before k v w) : ¬ Before k w u := by
  intro hwu
  rcases huv with huv | huv
  · rcases hvw with hvw | hvw
    · exact h.not_of_decimals hu hv hw huv hvw hwu
    · rcases hwu with hwu | hwu
      · exact h.not_of_decimals hw hu hv hwu huv (.inr hvw)
      · exact h.not_of_decimal hu hv hw huv hvw hwu
  · rcases hvw with hvw | hvw
    · rcases hwu with hwu | hwu
      · exact h.not_of_decimals hv hw hu hvw hwu (.inr huv)
      · exact h.not_of_decimal hv hw hu hvw hwu huv
    · rcases hwu with hwu | hwu
      · exact h.not_of_decimal hw hu hv hwu huv hvw
      · exact huv.not_circle hvw hwu

theorem OneOrder.trans (huv : Before k u v) (hvw : Before k v w) : Before k u w := by
  have hne : u ≠ w := by
    rintro rfl
    exact huv.asymm hvw
  exact (h.before_or hu hw huv.left_not_null hvw.right_not_null hne).resolve_right
    (h.not_circle hu hv hw huv hvw)

end

end

end CoveFormat.ValueOrders
