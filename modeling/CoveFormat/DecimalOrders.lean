import CoveFormat.ExactDecimals

namespace CoveFormat.DecimalOrders

open ExactDecimals ExprEval JsonValue

/-- The value with `scale` digits behind the point is an `i128` as well. -/
def ScalesTo (d : ExactDecimal) (scale : Nat) : Prop :=
  scale = d.scale ∨ (10 : Int) ^ (scale - d.scale) < 2 ^ 127 ∧
    -2 ^ 127 ≤ d.value * 10 ^ (scale - d.scale) ∧ d.value * 10 ^ (scale - d.scale) < 2 ^ 127

def Alignable (left right : ExactDecimal) : Prop :=
  ScalesTo left (max left.scale right.scale) ∧ ScalesTo right (max left.scale right.scale)

/-- No digit behind the point can be left out. -/
def Normal (d : ExactDecimal) : Prop := d.scale = 0 ∨ d.value % 10 ≠ 0

section

variable {left right d : ExactDecimal} {k scale : Nat} {o : Ordering}

theorem pow10_isSome_iff : (pow10 k).isSome ↔ (10 : Int) ^ k < 2 ^ 127 := by
  induction k with
  | zero => decide
  | succ k ih =>
    rw [pow10]
    cases hk : pow10 k with
    | none =>
      rw [hk] at ih
      refine iff_of_false Bool.false_ne_true fun h => ?_
      exact Bool.false_ne_true (ih.mpr ((pow_lt_pow_right₀ (by norm_num) k.lt_succ_self).trans h))
    | some p =>
      have hpos : (0 : Int) < 10 ^ (k + 1) := by positivity
      rw [Option.bind_some, pow10_eq hk, ← pow_succ, i128]
      split_ifs with h
      · exact iff_of_true rfl h.2
      · exact iff_of_false Bool.false_ne_true fun hlt => h ⟨by omega, hlt⟩

theorem rescaleDecimal_isSome_iff (hle : d.scale ≤ scale) :
    (rescaleDecimal d.value d.scale scale).isSome ↔ ScalesTo d scale := by
  rw [rescaleDecimal, ScalesTo]
  split_ifs with heq hlt
  · exact iff_of_true rfl (.inl heq)
  · omega
  · rw [← pow10_isSome_iff]
    cases hp : pow10 (scale - d.scale) with
    | none => simp [heq]
    | some p =>
      rw [← pow10_eq hp, Option.bind_some, i128]
      split_ifs with h
      · exact iff_of_true rfl (.inr ⟨rfl, h⟩)
      · refine iff_of_false Bool.false_ne_true ?_
        rintro (hscale | ⟨-, hrange⟩)
        · exact heq hscale
        · exact h hrange

theorem compare_div {p : ℚ} (hp : 0 < p) (l r : Int) : compare (l / p : ℚ) (r / p) = compare l r := by
  rcases lt_trichotomy l r with h | rfl | h
  · rw [compare_lt_iff_lt.mpr h, compare_lt_iff_lt, div_lt_div_iff_of_pos_right hp]
    exact_mod_cast h
  · rw [compare_eq_iff_eq.mpr rfl, compare_eq_iff_eq.mpr rfl]
  · rw [compare_gt_iff_gt.mpr h, compare_gt_iff_gt, div_lt_div_iff_of_pos_right hp]
    exact_mod_cast h

/-- Two decimals are ordered as their rationals, if they can be written with one scale. -/
theorem compareDecimals_eq_some_iff : compareDecimals left right = some o ↔
    Alignable left right ∧ compare (rational left) (rational right) = o := by
  rw [Alignable, ← rescaleDecimal_isSome_iff (le_max_left ..), ← rescaleDecimal_isSome_iff (le_max_right ..)]
  simp only [compareDecimals]
  cases hl : rescaleDecimal left.value left.scale (max left.scale right.scale) with
  | none => simp
  | some l =>
    cases hr : rescaleDecimal right.value right.scale (max left.scale right.scale) with
    | none => simp
    | some r =>
      rw [rational, rational, ← rescaleDecimal_rational (le_max_left ..) hl,
        ← rescaleDecimal_rational (le_max_right ..) hr, compare_div (by positivity)]
      simp

theorem normalized_normal (value : Int) (scale : Nat) : Normal (normalized value scale) := by
  induction scale generalizing value with
  | zero => exact .inl rfl
  | succ scale ih =>
    rw [normalized]
    split
    · exact ih _
    · exact .inr ‹_›

theorem Normal.normalized_eq (h : Normal d) : normalized d.value d.scale = d := by
  obtain ⟨value, scale⟩ := d
  cases scale with
  | zero => rfl
  | succ scale =>
    rcases h with h | h
    · cases h
    · rw [normalized, if_neg h]

/-- A number has one normal decimal. -/
theorem Normal.rational_inj (hl : Normal left) (hr : Normal right) (h : rational left = rational right) :
    left = right := by
  wlog hle : left.scale ≤ right.scale generalizing left right
  · exact (this hr hl h.symm (le_of_not_ge hle)).symm
  obtain ⟨k, hk⟩ := Nat.exists_eq_add_of_le hle
  have hvalue : right.value = left.value * 10 ^ k := by
    rw [rational, rational, hk, pow_add] at h
    field_simp at h
    exact_mod_cast h.symm
  cases k with
  | zero =>
    obtain ⟨lv, ls⟩ := left
    obtain ⟨rv, rs⟩ := right
    simp only [pow_zero, mul_one, Nat.add_zero] at hvalue hk
    rw [hvalue, hk]
  | succ k =>
    rcases hr with hr | hr
    · omega
    · rw [hvalue, pow_succ, ← mul_assoc] at hr
      exact absurd (Int.mul_emod_left ..) hr

end

theorem parseDecimalStr_normal {text : String} {d : ExactDecimal} (h : parseDecimalStr text = some d) :
    Normal d := by
  have hunsigned {negative : Bool} {unsigned : List Char}
      (h : parseUnsignedDecimal negative unsigned = some d) : Normal d := by
    unfold parseUnsignedDecimal at h
    dsimp only at h
    split at h
    · cases h
    · obtain ⟨value, -, rfl⟩ := Option.map_eq_some_iff.mp h
      exact normalized_normal _ _
  unfold parseDecimalStr at h
  split at h <;> exact hunsigned h

theorem parseDecimalValue_normal {lib : TextLibrary} {v : Value} {d : ExactDecimal}
    (h : parseDecimalValue lib v = some d) : Normal d := by
  unfold parseDecimalValue at h
  split at h
  · cases h
    exact .inl rfl
  · cases h
    exact .inl rfl
  · exact parseDecimalStr_normal h
  · exact parseDecimalStr_normal h
  · cases h

end CoveFormat.DecimalOrders
