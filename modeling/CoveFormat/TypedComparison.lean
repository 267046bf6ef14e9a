import CoveFormat.ExprEval

namespace CoveFormat.TypedComparison

open ExprEval JsonValue

section

variable (lib : TextLibrary)

theorem swap_bind_map {α : Type} (left right : Option α) (test : α → α → Ordering)
    (h : ∀ a b, test b a = (test a b).swap) :
    (right.bind fun r => left.map fun l => test r l) =
      (left.bind fun l => right.map fun r => test l r).map .swap := by
  cases left with
  | none => cases right <;> rfl
  | some l =>
    cases right with
    | none => rfl
    | some r => exact congrArg some (h l r)

theorem compareDecimals_swap (left right : ExactDecimal) :
    compareDecimals right left = (compareDecimals left right).map .swap := by
  unfold compareDecimals
  rw [max_comm]
  exact swap_bind_map _ _ _ fun a b => Std.OrientedOrd.eq_swap

theorem decimalCompare_swap (left right : Value) :
    decimalCompare lib right left = (decimalCompare lib left right).map .swap := by
  unfold decimalCompare
  cases parseDecimalValue lib left with
  | none => cases parseDecimalValue lib right <;> rfl
  | some l =>
    cases parseDecimalValue lib right with
    | none => rfl
    | some r => exact compareDecimals_swap l r

theorem doublesCompare_swap (left right : Value) :
    doublesCompare right left = (doublesCompare left right).map .swap := by
  unfold doublesCompare
  cases left.asF64 with
  | none => cases right.asF64 <;> rfl
  | some l =>
    cases right.asF64 with
    | none => rfl
    | some r => exact f64Compare_swap l r

theorem compareTexts_swap (left right : String) (kind : CollationKind) :
    kind.compareTexts right left = (kind.compareTexts left right).map .swap := by
  have numeric (read : ByteCodes.Bytes → Int) :
      CollationKind.numericCompare read right left =
        (CollationKind.numericCompare read left right).map .swap := by
    simp only [CollationKind.numericCompare]
    by_cases h : left.toUTF8.data.toList.length = right.toUTF8.data.toList.length
    · rw [h]
      split_ifs
      · exact congrArg some Std.OrientedOrd.eq_swap
      · rfl
    · rw [if_neg fun hc => h hc.1.symm, if_neg fun hc => h hc.1]
      rfl
  cases kind with
  | none =>
    simp only [CollationKind.compareTexts, eq_comm (a := right)]
    split_ifs <;> rfl
  | utf8Bytewise | unsignedFixedBytes => exact congrArg some Std.OrientedOrd.eq_swap
  | signedNumeric | timestampChronological =>
    exact numeric fun b => ByteCodes.signed (8 * b.length) (ByteCodes.leNat b)
  | unsignedNumeric => exact numeric fun b => ByteCodes.leNat b

theorem stringOrdering_swap (left right : String) (collationId : Option Nat) :
    stringOrdering right left collationId = (stringOrdering left right collationId).map .swap := by
  simp only [stringOrdering]
  generalize (if collationId.getD 1 = 0 then some CollationKind.utf8Bytewise
    else CollationKind.fromId (collationId.getD 1)) = kind
  cases kind with
  | none => rfl
  | some kind =>
    simp only [Option.bind_some]
    split_ifs
    · exact compareTexts_swap left right kind
    · rfl

theorem typedOrMixed_comm (left right : Value) (hint : Option String) :
    typedOrMixedNumericValues lib right left hint =
      typedOrMixedNumericValues lib left right hint := by
  unfold typedOrMixedNumericValues
  rw [Bool.or_right_comm, Bool.and_right_comm]

variable {lib} in
theorem typedOrMixed_iff {left right : Value} {hint : Option String} :
    typedOrMixedNumericValues lib left right hint ↔ (isNumericType hint ∨ isNumber left ∨ isNumber right) ∧
      (parseDecimalValue lib left).isSome ∧ (parseDecimalValue lib right).isSome := by
  simp [typedOrMixedNumericValues, or_assoc, and_assoc]

theorem valueOrderingTyped_swap (left right : Value) (hint : Option String)
    (collationId : Option Nat) :
    valueOrderingTyped lib right left hint collationId =
      (valueOrderingTyped lib left right hint collationId).map .swap := by
  unfold valueOrderingTyped
  rw [typedOrMixed_comm, Bool.and_comm]
  split_ifs
  · exact decimalCompare_swap lib left right
  · exact doublesCompare_swap left right
  · cases left <;> cases right <;> try rfl
    · exact congrArg some Std.OrientedOrd.eq_swap
    · exact stringOrdering_swap _ _ collationId

end

end CoveFormat.TypedComparison
