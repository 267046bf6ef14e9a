import CoveFormat.DecimalOrders
import CoveFormat.Grouping
import CoveFormat.IntegerTexts
import CoveFormat.TypedComparison
import Mathlib.Data.String.Basic

namespace CoveFormat.ValueKeys

open DecimalOrders ExactDecimals ExprEval Grouping IntegerTexts JsonValue List SortedKeys
open TypedComparison

section

variable (lib : TextLibrary) (logicalType : Option String)

def stableValueKey (value : Value) : String := lib.jsonText value

def logicalValueKey (value : Value) : String :=
  let decimal :=
    if isNumericType logicalType || isNumber value then parseDecimalValue lib value else none
  decimal.elim (stableValueKey lib value) fun decimal =>
    let decimal := normalized decimal.value decimal.scale
    "number:" ++ toString decimal.scale ++ ":" ++ toString decimal.value

def distinctCount (values : List Value) : Nat := (keysOf (logicalValueKey lib logicalType) values).length

/-- The groups of `aggregate_rows` for one expression, of which each row gives a value. -/
def aggregateGroups (values : List Value) : List (String × List Value) :=
  grouped (fun value => lib.jsonText (.array [value])) values

/-- Values are in one group, and count once, exactly where they are equal. -/
structure OneSameness (values : List Value) : Prop where
  grouping : ∀ v ∈ values, ∀ w ∈ values, v.isNull = false → w.isNull = false →
    ((∃ group ∈ aggregateGroups lib values, v ∈ group.2 ∧ w ∈ group.2) ↔
      valuesEqualTyped lib v w logicalType)
  counting : ∀ v ∈ values, ∀ w ∈ values, v.isNull = false → w.isNull = false →
    (distinctCount lib logicalType [v, w] = 1 ↔ valuesEqualTyped lib v w logicalType)
  total : (aggregateGroups lib values).length =
    distinctCount lib logicalType (values.filter (!·.isNull)) +
      if values.any Value.isNull then 1 else 0

/-- Two spellings of one value: of one decimal, where both are compared as decimals, else of one
double, else JSON values that are equal. -/
def SameSpelled (v w : Value) : Prop :=
  if typedOrMixedNumericValues lib v w logicalType then
    parseDecimalValue lib v = parseDecimalValue lib w
  else if isNumber v && isNumber w then doublesCompare v w = some .eq
  else sameValue v w

/-- `serde_json` gives different values different texts, none of which begins like the key of a
number, and a JSON value holds no NaN. -/
structure WritesApart (values : List Value) : Prop where
  value : ∀ v ∈ values, ∀ w ∈ values, lib.jsonText v = lib.jsonText w → v = w
  single : ∀ v ∈ values, ∀ w ∈ values, lib.jsonText (.array [v]) = lib.jsonText (.array [w]) → v = w
  start : ∀ v ∈ values, ¬ "number:".toList <+: (lib.jsonText v).toList
  reflexive : ∀ v ∈ values, sameValue v v

end

section

variable {lib : TextLibrary} {logicalType : Option String} {v w : Value} {values : List Value}

theorem key_eq_of_length {key : Value → String} {v w : Value} (h : (keysOf key [v, w]).length = 1) :
    key v = key w := by
  obtain ⟨k, hk⟩ := length_eq_one_iff.mp h
  have hv : key v ∈ keysOf key [v, w] := mem_keysOf.mpr ⟨v, by simp, rfl⟩
  have hw : key w ∈ keysOf key [v, w] := mem_keysOf.mpr ⟨w, by simp, rfl⟩
  rw [hk, mem_singleton] at hv hw
  exact hv.trans hw.symm

theorem WritesApart.mono {others : List Value} (h : WritesApart lib values) (hsub : others ⊆ values) :
    WritesApart lib others :=
  ⟨fun v hv w hw => h.value v (hsub hv) w (hsub hw), fun v hv w hw => h.single v (hsub hv) w (hsub hw),
    fun v hv => h.start v (hsub hv), fun v hv => h.reflexive v (hsub hv)⟩

theorem append_cons_inj {xs ys zs us : List Char} {c : Char} (hxs : c ∉ xs) (hzs : c ∉ zs)
    (h : xs ++ c :: ys = zs ++ c :: us) : xs = zs ∧ ys = us := by
  rcases append_eq_append_iff.mp h with ⟨as, rfl, has⟩ | ⟨as, rfl, has⟩
  · cases as with
    | nil => exact ⟨(append_nil _).symm, (cons.inj has).2⟩
    | cons a as =>
      rw [cons_append] at has
      exact absurd (mem_append_right _ ((cons.inj has).1 ▸ mem_cons_self)) hzs
  · cases as with
    | nil => exact ⟨append_nil _, (cons.inj has).2.symm⟩
    | cons a as =>
      rw [cons_append] at has
      exact absurd (mem_append_right _ ((cons.inj has).1 ▸ mem_cons_self)) hxs

def numberKey (d : ExactDecimal) : String :=
  "number:" ++ toString d.scale ++ ":" ++ toString d.value

theorem numberKey_inj {d e : ExactDecimal} (h : numberKey d = numberKey e) : d = e := by
  have hlist (d : ExactDecimal) : (numberKey d).toList =
      "number:".toList ++ (Nat.toDigits 10 d.scale ++ ':' :: (toString d.value).toList) := by
    simp [numberKey, String.toList_append]
  have hcolon (n : Nat) : ':' ∉ Nat.toDigits 10 n := fun hmem => by
    cases isAsciiDigit_of_mem hmem
  have h := congrArg String.toList h
  rw [hlist, hlist] at h
  obtain ⟨hscale, hvalue⟩ := append_cons_inj (hcolon _) (hcolon _) (append_cancel_left h)
  have hscale : d.scale = e.scale := by
    rw [← digitsValue_toDigits d.scale, hscale, digitsValue_toDigits]
  have hvalue := toString_inj (String.toList_inj.mp hvalue)
  obtain ⟨value, scale⟩ := d
  obtain ⟨value', scale'⟩ := e
  cases hscale
  cases hvalue
  rfl

/-- The value has a key that is made of its decimal. -/
def HasNumberKey (lib : TextLibrary) (logicalType : Option String) (v : Value) (d : ExactDecimal) : Prop :=
  (isNumericType logicalType || isNumber v) ∧ parseDecimalValue lib v = some d

theorem logicalValueKey_cases (lib : TextLibrary) (logicalType : Option String) (v : Value) :
    (∃ d, HasNumberKey lib logicalType v d ∧ logicalValueKey lib logicalType v = numberKey d) ∨
      logicalValueKey lib logicalType v = lib.jsonText v := by
  by_cases htype : (isNumericType logicalType || isNumber v) = true
  · cases hd : parseDecimalValue lib v with
    | none =>
      right
      simp [logicalValueKey, htype, hd, stableValueKey]
    | some d =>
      left
      refine ⟨d, ⟨htype, hd⟩, ?_⟩
      simp only [logicalValueKey, htype, hd, if_true, Option.elim_some,
        (parseDecimalValue_normal hd).normalized_eq, numberKey]
  · right
    simp [logicalValueKey, htype, stableValueKey]

/-- `values_equal_typed` finds the spellings of one value equal. -/
theorem valuesEqualTyped_iff : valuesEqualTyped lib v w logicalType ↔ SameSpelled lib logicalType v w := by
  rw [valuesEqualTyped, SameSpelled]
  split
  · rename_i hmixed
    obtain ⟨-, hl, hr⟩ := typedOrMixed_iff.mp hmixed
    obtain ⟨l, hl⟩ := Option.isSome_iff_exists.mp hl
    obtain ⟨r, hr⟩ := Option.isSome_iff_exists.mp hr
    rw [decimalCompare, hl, hr, Option.bind_some, Option.bind_some, beq_iff_eq,
      compareDecimals_eq_some_iff, compare_eq_iff_eq, Option.some.injEq]
    constructor
    · exact fun h => (parseDecimalValue_normal hl).rational_inj (parseDecimalValue_normal hr) h.2
    · rintro rfl
      exact ⟨⟨.inl (max_self _), .inl (max_self _)⟩, rfl⟩
  · split
    · exact beq_iff_eq
    · rfl

section

variable (h : WritesApart lib values)
include h

theorem sameSpelled_self (hv : v ∈ values) : SameSpelled lib logicalType v v := by
  have hself := h.reflexive v hv
  rw [SameSpelled]
  split
  · rfl
  · rename_i hmixed
    split
    · cases v with
      | number n =>
        cases n with
        | posInt | negInt => exact absurd (typedOrMixed_iff.mpr ⟨.inr (.inl rfl), rfl, rfl⟩) hmixed
        | float bits => exact beq_iff_eq.mp hself
      | _ => simp_all [isNumber]
    · exact hself

theorem sameSpelled_of_key (hv : v ∈ values) (hw : w ∈ values)
    (hkey : logicalValueKey lib logicalType v = logicalValueKey lib logicalType w) :
    SameSpelled lib logicalType v w := by
  have hstart (d : ExactDecimal) : "number:".toList <+: (numberKey d).toList := by
    rw [numberKey, String.append_assoc, String.append_assoc, String.toList_append]
    exact prefix_append _ _
  rcases logicalValueKey_cases lib logicalType v with ⟨d, ⟨htype, hd⟩, hkeyv⟩ | hkeyv
  · rcases logicalValueKey_cases lib logicalType w with ⟨e, ⟨-, he⟩, hkeyw⟩ | hkeyw
    · rw [hkeyv, hkeyw] at hkey
      have hmixed : typedOrMixedNumericValues lib v w logicalType :=
        typedOrMixed_iff.mpr ⟨((Bool.or_eq_true _ _).mp htype).imp_right .inl,
          by rw [hd]; rfl, by rw [he]; rfl⟩
      rw [SameSpelled, if_pos hmixed, hd, he, numberKey_inj hkey]
    · rw [hkeyv, hkeyw] at hkey
      exact absurd (hkey ▸ hstart d) (h.start w hw)
  · rcases logicalValueKey_cases lib logicalType w with ⟨e, -, hkeyw⟩ | hkeyw
    · rw [hkeyv, hkeyw] at hkey
      exact absurd (hkey ▸ hstart e) (h.start v hv)
    · rw [hkeyv, hkeyw] at hkey
      rw [← h.value v hv w hw hkey]
      exact sameSpelled_self h hv

theorem one_group_iff (hv : v ∈ values) (hw : w ∈ values) :
    (∃ group ∈ aggregateGroups lib values, v ∈ group.2 ∧ w ∈ group.2) ↔ v = w := by
  constructor
  · rintro ⟨group, hgroup, hvg, hwg⟩
    obtain ⟨key, -, rfl⟩ := mem_map.mp hgroup
    exact h.single v hv w hw ((mem_under.mp hvg).2.trans (mem_under.mp hwg).2.symm)
  · rintro rfl
    refine ⟨_, mem_map.mpr ⟨_, mem_keysOf.mpr ⟨v, hv, rfl⟩, rfl⟩, ?_, ?_⟩ <;>
      exact mem_under.mpr ⟨hv, rfl⟩

end

theorem keysOf_length {α κ : Type} [DecidableEq α] [LinearOrder κ] {key : α → κ} {xs : List α}
    (h : ∀ a ∈ xs, ∀ b ∈ xs, key a = key b → a = b) : (keysOf key xs).length = xs.toFinset.card := by
  have himage : (xs.map key).toFinset = xs.toFinset.image key := by
    ext
    simp
  rw [keysOf, (sortByKey_perm id _).length_eq, ← card_toFinset, himage]
  refine Finset.card_image_of_injOn fun a ha b hb hab => ?_
  exact h a (mem_toFinset.mp ha) b (mem_toFinset.mp hb) hab

theorem isNull_iff : v.isNull ↔ v = .null := by
  cases v <;> simp [Value.isNull]

open Classical in
theorem card_nonNull (values : List Value) : values.toFinset.card =
    (values.filter (!·.isNull)).toFinset.card + if values.any Value.isNull then 1 else 0 := by
  split
  · rename_i hany
    obtain ⟨v, hv, hnull⟩ := any_eq_true.mp hany
    obtain rfl := isNull_iff.mp hnull
    have hinsert : values.toFinset = insert .null (values.filter (!·.isNull)).toFinset := by
      ext w
      rw [mem_toFinset, Finset.mem_insert, mem_toFinset, mem_filter, Bool.not_eq_true',
        ← Bool.not_eq_true, isNull_iff]
      by_cases hw : w = .null
      · simp [hw, hv]
      · simp [hw]
    rw [hinsert, Finset.card_insert_of_notMem]
    simp [Value.isNull]
  · rename_i hany
    have hall : values.filter (!·.isNull) = values := by
      refine filter_eq_self.mpr fun v hv => ?_
      rw [Bool.not_eq_true']
      exact Bool.eq_false_iff.mpr fun hnull => hany (any_eq_true.mpr ⟨v, hv, hnull⟩)
    rw [hall, Nat.add_zero]

end

def scalarText : Value → String
  | .number (.posInt n) => toString n
  | .string text => "\"" ++ text ++ "\""
  | _ => "null"

def plainJson : Value → String
  | .array values => "[" ++ ",".intercalate (values.map scalarText) ++ "]"
  | .object fields =>
    "\x7b" ++ ",".intercalate (fields.map fun f => "\"" ++ f.1 ++ "\":" ++ scalarText f.2) ++ "\x7d"
  | value => scalarText value

def jsonTexts : TextLibrary := ⟨toAsciiLowercase, id, fun _ => none, fun _ => "", plainJson⟩

theorem spellings_apart :
    WritesApart jsonTexts [.number (.posInt 5), .string "5", .number (.posInt 7), .null] := by
  refine ⟨fun v hv w hw h => ?_, fun v hv w hw h => ?_, by decide, by decide⟩
  all_goals
    simp only [mem_cons, not_mem_nil, or_false] at hv hw
    rcases hv with rfl | rfl | rfl | rfl <;> rcases hw with rfl | rfl | rfl | rfl <;>
      first | rfl | exact absurd h (by decide)

end CoveFormat.ValueKeys
