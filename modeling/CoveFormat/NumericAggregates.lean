import CoveFormat.ExactDecimals

namespace CoveFormat.NumericAggregates

open ExactDecimals Except ExceptRules ExprEval JsonValue List ResolvedQuery

variable {logicalType : Option String} {value : Value} {values : List Value} {s : Accumulator}

/-- The aggregates that add numbers up; their caller handles the others. -/
inductive NumericAggregateName
  | sum
  | avg

structure BuildExecutionError where
  (code message : String)

/-- The result is null, the JSON number of a double or the JSON value of a decimal. -/
inductive AggregateResult
  | null
  | float (value : ℚ)
  | exact (value : Value)

structure Accumulator where
  exactSum : Option ExactDecimal
  floatSum : ℚ
  sawFloat : Bool
  count : Nat

section

variable (overflowChecks : Bool) (lib : TextLibrary)

-- A double is read as the rational of its text, and added as such.
variable (floatValue : Nat → ℚ)

def notNumeric : BuildExecutionError :=
  ⟨"E_AGGREGATE", "sum/avg aggregate requires numeric materialized values"⟩

def exactAsF64 : Value → Option ℚ
  | .number (.posInt n) | .number (.negInt n) => some n
  | .number (.float bits) => some (floatValue bits)
  | _ => none

def numericIsFloat (logicalType : Option String) (value : Value) : Bool :=
  logicalType = some "float32" || logicalType = some "float64" ||
    (match value with
    | .number n => (Value.number n).asI64.isNone && (Value.number n).asU64.isNone
    | _ => false)

def addExact : Option ExactDecimal → ExactDecimal → Except BuildExecutionError ExactDecimal
  | some sum, decimal => (checkedAdd sum decimal).elim
      (.error ⟨"E_AGGREGATE", "sum/avg aggregate overflowed decimal accumulator"⟩) .ok
  | none, decimal => .ok decimal

def addValue (logicalType : Option String) (s : Accumulator) (value : Value) :
    Except BuildExecutionError Accumulator :=
  if numericIsFloat logicalType value then
    match exactAsF64 floatValue value with
    | none => .error notNumeric
    | some number =>
      .ok { s with sawFloat := true, floatSum := s.floatSum + number, count := s.count + 1 }
  else
    match parseDecimalValue lib value with
    | none => .error notNumeric
    | some decimal => do
        let sum ← addExact s.exactSum decimal
        .ok { s with exactSum := some sum, count := s.count + 1 }

/-- The outer `none` is a panic. -/
def finishAggregate (name : NumericAggregateName) (s : Accumulator) :
    Option (Except BuildExecutionError AggregateResult) :=
  if s.count = 0 then some (.ok .null)
  else if s.sawFloat then
    match name with
    | .sum => some (.ok (.float s.floatSum))
    | .avg => some (.ok (.float (s.floatSum / s.count)))
  else
    match s.exactSum with
    | none => some (.error ⟨"E_AGGREGATE", "empty numeric accumulator"⟩)
    | some sum =>
      match name with
      | .sum => (toJsonSum overflowChecks sum).map fun value => .ok (.exact value)
      | .avg => (checkedDivU64 overflowChecks sum s.count).bind fun quotient =>
        match quotient with
        | none => some (.error ⟨"E_AGGREGATE", "avg aggregate overflowed decimal accumulator"⟩)
        | some average => (toJsonSum overflowChecks average).map fun value => .ok (.exact value)

def numericAggregate (name : NumericAggregateName) (arg : Option ResolvedExpr) (values : List Value) :
    Option (Except BuildExecutionError AggregateResult) :=
  match (values.filter (!·.isNull)).foldlM (addValue lib floatValue (arg.bind exprLogicalType))
      ⟨none, 0, false, 0⟩ with
  | .error e => some (.error e)
  | .ok s => finishAggregate overflowChecks name s

def numberOf : Value → Option ℚ
  | .number (.posInt n) | .number (.negInt n) => some n
  | .number (.float bits) => some (floatValue bits)
  | .string text => (parseDecimalStr text).map rational
  | _ => none

def AggregateResult.number : AggregateResult → Option ℚ
  | null => none
  | float value => some value
  | exact value => numberOf floatValue value

def total (values : List Value) : ℚ := (values.map fun value => (numberOf floatValue value).getD 0).sum

def scaleOf (value : Value) : Nat := ((parseDecimalValue lib value).map ExactDecimal.scale).getD 0

def largestScale (values : List Value) : Nat := (values.map (scaleOf lib)).foldr max 0

variable {lib : TextLibrary} {floatValue : Nat → ℚ} {decimal : ExactDecimal} {x : ℚ}

theorem numberOf_of_exactAsF64 (h : exactAsF64 floatValue value = some x) :
    numberOf floatValue value = some x := by
  unfold exactAsF64 at h
  split at h
  · exact h
  · exact h
  · exact h
  · cases h

theorem numberOf_of_parseDecimalValue (hexact : numericIsFloat logicalType value = false)
    (h : parseDecimalValue lib value = some decimal) :
      numberOf floatValue value = some (rational decimal) := by
  unfold parseDecimalValue at h
  split at h
  · cases h
    simp [numberOf, rational]
  · cases h
    simp [numberOf, rational]
  · simp [numericIsFloat, Value.asI64, Value.asU64] at hexact
  · rw [numberOf, h, Option.map_some]
  · cases h

theorem total_append (values values' : List Value) :
    total floatValue (values ++ values') = total floatValue values + total floatValue values' := by
  rw [total, map_append, sum_append]
  rfl

theorem total_singleton (value : Value) : total floatValue [value] = (numberOf floatValue value).getD 0 := by
  simp [total]

theorem largestScale_append (values values' : List Value) :
    largestScale lib (values ++ values') = max (largestScale lib values) (largestScale lib values') := by
  induction values with
  | nil => simp [largestScale]
  | cons value values ih =>
    simp only [largestScale, cons_append, map_cons, foldr_cons] at ih ⊢
    rw [ih, max_assoc]

theorem largestScale_singleton (value : Value) : largestScale lib [value] = scaleOf lib value := by
  simp [largestScale]

theorem total_split (p : Value → Bool) (values : List Value) :
    total floatValue values = total floatValue (values.filter p)
      + total floatValue (values.filter (!p ·)) := by
  induction values with
  | nil => simp [total]
  | cons value values ih =>
    rw [← singleton_append, total_append, ih, filter_append, filter_append, total_append,
      total_append]
    by_cases hp : p value <;> simp [hp, total] <;> ring

variable {s' : Accumulator}

/-- What the accumulators hold after some values. -/
structure Accumulates (lib : TextLibrary) (floatValue : Nat → ℚ) (logicalType : Option String)
    (values : List Value) (s : Accumulator) : Prop where
  count : s.count = values.length
  sawFloat : s.sawFloat = values.any (numericIsFloat logicalType)
  floatSum : s.floatSum = total floatValue (values.filter (numericIsFloat logicalType))
  exactSum : ∀ sum, s.exactSum = some sum → Fits sum ∧
    rational sum = total floatValue (values.filter (!numericIsFloat logicalType ·)) ∧
    sum.scale = largestScale lib (values.filter (!numericIsFloat logicalType ·))
  isNone : s.exactSum = none → values.filter (!numericIsFloat logicalType ·) = []
  numeric : ∀ value ∈ values, (numberOf floatValue value).isSome

theorem accumulates_nil : Accumulates lib floatValue logicalType [] ⟨none, 0, false, 0⟩ :=
  ⟨rfl, rfl, rfl, nofun, fun _ => rfl, nofun⟩

theorem Accumulates.step (hs : Accumulates lib floatValue logicalType values s) (hvalue : InRange value)
    (h : addValue lib floatValue logicalType s value = .ok s') :
    Accumulates lib floatValue logicalType (values ++ [value]) s' := by
  unfold addValue at h
  by_cases hfloat : numericIsFloat logicalType value = true
  · rw [if_pos hfloat] at h
    split at h
    · cases h
    · rename_i number hnumber
      cases h
      have hvalue := numberOf_of_exactAsF64 hnumber
      refine ⟨by simp [hs.count], by simp [hfloat], ?_, ?_, ?_, ?_⟩
      · simp [filter_append, hfloat, total_append, total_singleton, hvalue, hs.floatSum]
      · simpa [filter_append, hfloat] using hs.exactSum
      · simpa [filter_append, hfloat] using hs.isNone
      · simpa [or_imp, forall_and, hvalue] using hs.numeric
  · rw [Bool.not_eq_true] at hfloat
    rw [hfloat, if_neg (by decide)] at h
    split at h
    · cases h
    · rename_i decimal hdecimal
      obtain ⟨sum, hsum, h⟩ := bind_eq_ok_iff.mp h
      cases h
      have hnumber : numberOf floatValue value = _ := numberOf_of_parseDecimalValue hfloat hdecimal
      have hfits := parseDecimalValue_fits hvalue hdecimal
      have hscale : scaleOf lib value = decimal.scale := by rw [scaleOf, hdecimal]; rfl
      refine ⟨by simp [hs.count], by simp [hs.sawFloat, hfloat], ?_, ?_, nofun, ?_⟩
      · simpa [filter_append, hfloat] using hs.floatSum
      · rintro _ ⟨⟩
        have hkept : (values ++ [value]).filter (!numericIsFloat logicalType ·) =
            values.filter (!numericIsFloat logicalType ·) ++ [value] := by
          simp [filter_append, hfloat]
        rw [hkept, total_append, total_singleton, hnumber, Option.getD_some, largestScale_append,
          largestScale_singleton, hscale]
        cases hbefore : s.exactSum with
        | none =>
          rw [hbefore] at hsum
          cases hsum
          rw [hs.isNone hbefore]
          exact ⟨hfits, by simp [total], by simp [largestScale]⟩
        | some before =>
          rw [hbefore] at hsum
          obtain ⟨hbeforeFits, hrational, hbeforeScale⟩ := hs.exactSum before hbefore
          cases hadd : checkedAdd before decimal with
          | none =>
            rw [addExact, hadd] at hsum
            cases hsum
          | some added =>
            rw [addExact, hadd] at hsum
            cases hsum
            obtain ⟨haddScale, -, -, hexact⟩ := checkedAdd_eq_some hadd
            exact ⟨checkedAdd_fits hbeforeFits.scale_lt hfits.scale_lt hadd, hrational ▸ hexact,
              hbeforeScale ▸ haddScale⟩
      · simpa [or_imp, forall_and, hnumber] using hs.numeric

theorem accumulates_foldlM (hvalues : ∀ value ∈ values, InRange value)
    (h : values.foldlM (addValue lib floatValue logicalType) ⟨none, 0, false, 0⟩ = .ok s) :
    Accumulates lib floatValue logicalType values s := by
  induction values using reverseRecOn generalizing s with
  | nil =>
    cases h
    exact accumulates_nil
  | append_singleton values value ih =>
    rw [foldlM_append] at h
    obtain ⟨middle, hmiddle, h⟩ := bind_eq_ok_iff.mp h
    obtain ⟨last, hlast, h⟩ := bind_eq_ok_iff.mp h
    cases h
    exact (ih (fun value hmem => hvalues value (mem_append_left _ hmem)) hmiddle).step
      (hvalues value (mem_append_right _ mem_cons_self)) hlast

variable {overflowChecks : Bool} {name : NumericAggregateName} {arg : Option ResolvedExpr}
  {d : ExactDecimal} {result : AggregateResult}

theorem numberOf_ofInt (n : Int) : numberOf floatValue (.ofInt n) = some (n : ℚ) := by
  unfold Value.ofInt
  split
  · rename_i hn
    rw [numberOf, Option.some.injEq, ← Int.cast_natCast, Int.toNat_of_nonneg hn]
  · rfl

theorem numberOf_toJsonSum (hd : Fits d) (hv : toJsonSum overflowChecks d = some value) :
    numberOf floatValue value = if d.value = -2 ^ 127 then none else some (rational d) := by
  have hread : numberOf floatValue value = (parseDecimalValue plainTexts value).map rational := by
    unfold toJsonSum decimalToJsonValue at hv
    split at hv
    · cases hv
      rw [numberOf_ofInt, parseDecimalValue_ofInt]
      simp [rational]
    · split at hv
      · cases hv
        rw [numberOf_ofInt, parseDecimalValue_ofInt]
        simp [rational]
      · obtain ⟨magnitude, -, rfl⟩ := Option.map_eq_some_iff.mp hv
        rfl
  rw [hread]
  by_cases hmin : d.value = -2 ^ 127
  · rw [if_pos hmin, (toJsonSum_least plainTexts hmin hv).2]
    rfl
  · obtain ⟨value', hv', e, he, hrational⟩ := @toJsonSum_reads plainTexts overflowChecks d hd hmin
    obtain rfl := Option.some.inj (hv.symm.trans hv')
    rw [if_neg hmin, he, Option.map_some, hrational]

def present (values : List Value) : List Value := values.filter (!·.isNull)

/-- The result stands for the sum of the values, or for the sum divided by their number. -/
structure IncludesEvery (lib : TextLibrary) (floatValue : Nat → ℚ) (logicalType : Option String)
    (name : NumericAggregateName) (values : List Value) (result : AggregateResult) : Prop where
  null : present values = [] → result = .null
  numeric : ∀ value ∈ present values, (numberOf floatValue value).isSome
  sum : name = .sum → present values ≠ [] →
    result.number floatValue = some (total floatValue (present values))
  avg : name = .avg → present values ≠ [] → ∃ average, result.number floatValue = some average ∧
    if (present values).any (numericIsFloat logicalType) then
      average = total floatValue (present values) / (present values).length
    else |average - total floatValue (present values) / (present values).length| <
      1 / 10 ^ (largestScale lib (present values) + 6)

/-- Where one value counts as a double those kept exactly add up to zero; where none does the sum can
be printed, and the scale of an average that is not zero fits. -/
structure LosesNothing (overflowChecks : Bool) (lib : TextLibrary) (floatValue : Nat → ℚ)
    (logicalType : Option String) (name : NumericAggregateName) (values : List Value) : Prop where
  mixed : (present values).any (numericIsFloat logicalType) = true →
    total floatValue ((present values).filter (!numericIsFloat logicalType ·)) = 0
  sum : name = .sum → (present values).any (numericIsFloat logicalType) = false → overflowChecks = false →
    total floatValue (present values) * 10 ^ largestScale lib (present values) ≠ -2 ^ 127
  avg : name = .avg → (present values).any (numericIsFloat logicalType) = false → overflowChecks = false →
    2 ^ 32 ≤ largestScale lib (present values) + 6 →
    |total floatValue (present values) * 10 ^ (largestScale lib (present values) + 6)| <
      ((present values).length : ℚ)

theorem filter_of_any_false (h : values.any (numericIsFloat logicalType) = false) :
    values.filter (!numericIsFloat logicalType ·) = values := by
  rw [any_eq_false] at h
  exact filter_eq_self.mpr fun value hvalue => by simpa using h value hvalue

theorem value_eq (d : ExactDecimal) : (d.value : ℚ) = rational d * 10 ^ d.scale := by
  rw [rational, div_mul_cancel₀]
  positivity

theorem exactSum_iff (hd : Fits d)
    (h : (toJsonSum overflowChecks d).map (fun value => ok (AggregateResult.exact value)) =
      some (ok (ε := BuildExecutionError) result)) :
    result.number floatValue = some (rational d) ↔ (overflowChecks = false → d.value ≠ -2 ^ 127) := by
  obtain ⟨value, hvalue, hresult⟩ := Option.map_eq_some_iff.mp h
  cases hresult
  rw [AggregateResult.number, numberOf_toJsonSum hd hvalue]
  by_cases hmin : d.value = -2 ^ 127
  · rw [if_pos hmin]
    exact ⟨nofun, fun h => absurd hmin (h (toJsonSum_least plainTexts hmin hvalue).1)⟩
  · rw [if_neg hmin]
    exact ⟨fun _ _ => hmin, fun _ => rfl⟩

theorem exactAverage_iff {n : Nat} (floatValue : Nat → ℚ) (hd : Fits d)
    (h : ((checkedDivU64 overflowChecks d n).bind fun quotient =>
      match quotient with
      | none => some (.error ⟨"E_AGGREGATE", "avg aggregate overflowed decimal accumulator"⟩)
      | some average => (toJsonSum overflowChecks average).map fun value => .ok (.exact value)) =
      some (ok (ε := BuildExecutionError) result)) :
    (∃ average, result.number floatValue = some average ∧
      |average - rational d / n| < 1 / 10 ^ (d.scale + 6)) ↔
      (overflowChecks = false → 2 ^ 32 ≤ d.scale + 6 → |(d.value : ℚ) * 10 ^ 6| < (n : ℚ)) := by
  obtain ⟨quotient, hquotient, h⟩ := Option.bind_eq_some_iff.mp h
  cases quotient with
  | none => cases h
  | some q =>
    obtain ⟨value, hvalue, hresult⟩ := Option.map_eq_some_iff.mp h
    cases hresult
    obtain ⟨hn, ⟨hlow, hhigh⟩, -⟩ := checkedDivU64_eq_some hquotient
    have hnumber : (AggregateResult.exact value).number floatValue = some (rational q) := by
      rw [AggregateResult.number, numberOf_toJsonSum (checkedDivU64_fits hquotient) hvalue,
        if_neg (checkedDivU64_ne_least hquotient)]
    have hwraps : ScaleWraps overflowChecks d n ↔
        overflowChecks = false ∧ 2 ^ 32 ≤ d.scale + 6 ∧ (n : ℚ) ≤ |(d.value : ℚ) * 10 ^ 6| := by
      have habs : |(d.value : ℚ) * 10 ^ 6| = (((d.value * 10 ^ 6).natAbs : ℕ) : ℚ) := by
        rw [Nat.cast_natAbs]
        push_cast
        rfl
      rw [habs, Nat.cast_le]
      constructor
      · rintro ⟨hunchecked, hoverflows, -, -, hle⟩
        exact ⟨hunchecked, hoverflows, hle⟩
      · rintro ⟨hunchecked, hoverflows, hle⟩
        exact ⟨hunchecked, hoverflows, by rw [i128_eq_some.mpr ⟨⟨hlow.le, hhigh⟩, rfl⟩]; rfl, hn, hle⟩
    have hnear : |rational q - rational d / n| < 1 / 10 ^ (d.scale + 6) ↔
        ¬ ScaleWraps overflowChecks d n := by
      refine ⟨fun hnear h => ?_, fun h => ((dividesExactly_iff hd.scale_lt).mpr h q hquotient).near⟩
      obtain ⟨q', hq', hfar⟩ := h.far hd.scale_lt
      obtain rfl := Option.some.inj (Option.some.inj (hquotient.symm.trans hq'))
      exact absurd hnear (not_lt.mpr hfar)
    rw [hnumber]
    simp only [Option.some.injEq, exists_eq_left', hnear, hwraps, not_and, not_le]

theorem includesEvery_sum_iff (hsome : present values ≠ [])
    (hnumeric : ∀ value ∈ present values, (numberOf floatValue value).isSome) :
    IncludesEvery lib floatValue logicalType .sum values result ↔
      result.number floatValue = some (total floatValue (present values)) :=
  ⟨fun h => h.sum rfl hsome, fun h => ⟨fun hnone => absurd hnone hsome, hnumeric, fun _ _ => h, nofun⟩⟩

theorem includesEvery_avg_iff (hsome : present values ≠ [])
    (hnumeric : ∀ value ∈ present values, (numberOf floatValue value).isSome) :
    IncludesEvery lib floatValue logicalType .avg values result ↔
      ∃ average, result.number floatValue = some average ∧
        if (present values).any (numericIsFloat logicalType) then
          average = total floatValue (present values) / (present values).length
        else |average - total floatValue (present values) / (present values).length| <
          1 / 10 ^ (largestScale lib (present values) + 6) :=
  ⟨fun h => h.avg rfl hsome, fun h => ⟨fun hnone => absurd hnone hsome, hnumeric, nofun, fun _ _ => h⟩⟩

section

variable (hs : Accumulates lib floatValue logicalType (present values) s)
include hs

theorem finishAggregate_float_iff (hsome : present values ≠ [])
    (hfloat : (present values).any (numericIsFloat logicalType) = true)
    (h : finishAggregate overflowChecks name s = some (.ok result)) :
    IncludesEvery lib floatValue logicalType name values result ↔
      total floatValue ((present values).filter (!numericIsFloat logicalType ·)) = 0 := by
  have hcount : s.count ≠ 0 := by rw [hs.count]; exact fun h => hsome (length_eq_zero_iff.mp h)
  have hlength : ((present values).length : ℚ) ≠ 0 := Nat.cast_ne_zero.mpr (hs.count ▸ hcount)
  have hsplit : total floatValue (present values) = s.floatSum +
      total floatValue ((present values).filter (!numericIsFloat logicalType ·)) :=
    hs.floatSum ▸ total_split (numericIsFloat logicalType) (present values)
  unfold finishAggregate at h
  rw [if_neg hcount, if_pos (hs.sawFloat.trans hfloat)] at h
  cases name with
  | sum =>
    obtain rfl := ok.inj (Option.some.inj h)
    rw [includesEvery_sum_iff hsome hs.numeric, AggregateResult.number, Option.some.injEq, hsplit]
    exact left_eq_add
  | avg =>
    obtain rfl := ok.inj (Option.some.inj h)
    rw [includesEvery_avg_iff hsome hs.numeric, AggregateResult.number, hs.count, hsplit]
    simp only [hfloat, if_true, Option.some.injEq, exists_eq_left', div_left_inj' hlength]
    exact left_eq_add

theorem finishAggregate_exact_iff (hsome : present values ≠ [])
    (hexact : (present values).any (numericIsFloat logicalType) = false)
    (h : finishAggregate overflowChecks name s = some (.ok result)) :
    IncludesEvery lib floatValue logicalType name values result ↔
      LosesNothing overflowChecks lib floatValue logicalType name values := by
  have hcount : s.count ≠ 0 := by rw [hs.count]; exact fun h => hsome (length_eq_zero_iff.mp h)
  unfold finishAggregate at h
  rw [if_neg hcount, if_neg (by rw [hs.sawFloat, hexact]; decide)] at h
  cases hsum : s.exactSum with
  | none => exact absurd ((filter_of_any_false hexact).symm.trans (hs.isNone hsum)) hsome
  | some d =>
    obtain ⟨hd, hrational, hscale⟩ := hs.exactSum d hsum
    rw [filter_of_any_false hexact] at hrational hscale
    rw [hsum] at h
    cases name with
    | sum =>
      rw [includesEvery_sum_iff hsome hs.numeric, ← hrational, exactSum_iff hd h]
      have hleast : d.value ≠ -2 ^ 127 ↔
          total floatValue (present values) * 10 ^ largestScale lib (present values) ≠ -2 ^ 127 := by
        rw [← hrational, ← hscale, ← value_eq]
        norm_cast
      rw [hleast]
      exact ⟨fun h => ⟨fun hfloat => absurd (hexact.symm.trans hfloat) (by decide), fun _ _ => h, nofun⟩,
        fun h => h.sum rfl hexact⟩
    | avg =>
      have hscaled : (d.value : ℚ) * 10 ^ 6 =
          total floatValue (present values) * 10 ^ (largestScale lib (present values) + 6) := by
        rw [← hrational, ← hscale, pow_add, ← mul_assoc, ← value_eq]
      have haverage := exactAverage_iff floatValue hd h
      rw [hs.count, hscaled, hrational, hscale] at haverage
      rw [includesEvery_avg_iff hsome hs.numeric]
      simp only [hexact, Bool.false_eq_true, if_false]
      rw [haverage]
      exact ⟨fun h => ⟨fun hfloat => absurd (hexact.symm.trans hfloat) (by decide), nofun, fun _ _ => h⟩,
        fun h => h.avg rfl hexact⟩

end

def halfValue (bits : Nat) : ℚ := if bits = 0x3fe0000000000000 then 1 / 2 else 0

end

end CoveFormat.NumericAggregates
