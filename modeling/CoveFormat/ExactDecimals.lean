import CoveFormat.DecimalTexts
import CoveFormat.ExprEval

namespace CoveFormat.ExactDecimals

open DecimalTexts ExprEval JsonValue List

section

-- A build that checks its arithmetic stops with a panic where another one wraps around.
variable (overflowChecks : Bool)

/-- `i128::abs`. -/
def absI128 (value : Int) : Option Int :=
  if value = -2 ^ 127 then if overflowChecks then none else some value else some value.natAbs

def addU32 (a b : Nat) : Option Nat :=
  if a + b < 2 ^ 32 then some (a + b)
  else if overflowChecks then none else some ((a + b) % 2 ^ 32)

def checkedAdd (left right : ExactDecimal) : Option ExactDecimal :=
  let scale := max left.scale right.scale
  (rescaleDecimal left.value left.scale scale).bind fun l =>
    (rescaleDecimal right.value right.scale scale).bind fun r =>
      (i128 (l + r)).map fun value => ⟨value, scale⟩

/-- The outer `none` is a panic. -/
def checkedDivU64 (d : ExactDecimal) (divisor : Nat) : Option (Option ExactDecimal) :=
  if divisor = 0 then some none
  else
    match (pow10 6).bind fun factor => i128 (d.value * factor) with
    | none => some none
    | some scaled => (addU32 overflowChecks d.scale 6).map fun scale =>
      some (normalized (scaled.tdiv divisor) scale)

/-- The point goes in front of the last `scale` digits, and the zeros at the end are left out. -/
def decimalDigits (digits : List Char) (scale : Nat) : List Char :=
  if 0 < scale then
    let padded :=
      if digits.length ≤ scale then replicate (scale + 1 - digits.length) '0' ++ digits else digits
    let split := padded.length - scale
    let stripped := (padded.take split ++ '.' :: padded.drop split).rdropWhile (· = '0')
    if stripped.getLast? = some '.' then stripped.dropLast else stripped
  else digits

def decimalToJsonValue (value : Int) (scale : Nat) : Option Value :=
  if scale = 0 ∧ -2 ^ 63 ≤ value ∧ value < 2 ^ 63 then some (.ofInt value)
  else if scale = 0 ∧ 0 ≤ value ∧ value < 2 ^ 64 then some (.ofInt value)
  else (absI128 overflowChecks value).map fun magnitude =>
    let digits := decimalDigits (toString magnitude).toList scale
    .string (String.ofList (if value < 0 then '-' :: digits else digits))

def toJsonSum (d : ExactDecimal) : Option Value := decimalToJsonValue overflowChecks d.value d.scale

end

example : toJsonSum true ⟨-1250, 3⟩ = some (.string "-1.25") := by rfl
example : checkedDivU64 true ⟨-2, 0⟩ 3 = some (some ⟨-666666, 6⟩) := by decide

def rational (d : ExactDecimal) : ℚ := d.value / 10 ^ d.scale

/-- The value is an `i128` and the scale a `u32`. -/
structure Fits (d : ExactDecimal) : Prop where
  low : -2 ^ 127 ≤ d.value
  high : d.value < 2 ^ 127
  scale_lt : d.scale < 2 ^ 32

section

variable {left right d : ExactDecimal} {value out : Int} {fromScale toScale scale : Nat}

theorem i128_eq_some : i128 value = some out ↔ (-2 ^ 127 ≤ value ∧ value < 2 ^ 127) ∧ value = out := by
  by_cases h : -2 ^ 127 ≤ value ∧ value < 2 ^ 127
  · rw [i128, if_pos h]
    exact ⟨fun heq => ⟨h, Option.some.inj heq⟩, fun heq => congrArg some heq.2⟩
  · rw [i128, if_neg h]
    exact ⟨nofun, fun heq => absurd heq.1 h⟩

theorem pow10_eq {k : Nat} {p : Int} (h : pow10 k = some p) : p = 10 ^ k := by
  induction k generalizing p with
  | zero => exact (Option.some.inj h).symm
  | succ k ih =>
    obtain ⟨q, hq, h⟩ := Option.bind_eq_some_iff.mp h
    obtain ⟨-, rfl⟩ := i128_eq_some.mp h
    rw [ih hq, pow_succ]

theorem normalized_rational (value : Int) (scale : Nat) :
    rational (normalized value scale) = (value : ℚ) / 10 ^ scale := by
  induction scale generalizing value with
  | zero => rfl
  | succ scale ih =>
    rw [normalized]
    split
    · rename_i hdvd
      obtain ⟨v, rfl⟩ := Int.dvd_of_emod_eq_zero hdvd
      rw [ih, Int.mul_ediv_cancel_left v (by decide), pow_succ]
      push_cast
      field_simp
    · rfl

theorem normalized_le (value : Int) (scale : Nat) :
    (normalized value scale).value.natAbs ≤ value.natAbs ∧ (normalized value scale).scale ≤ scale := by
  induction scale generalizing value with
  | zero => exact ⟨le_rfl, le_rfl⟩
  | succ scale ih =>
    rw [normalized]
    split
    · have := ih (value / 10)
      omega
    · exact ⟨le_rfl, le_rfl⟩

theorem normalized_fits (hlow : -2 ^ 127 < value) (hhigh : value < 2 ^ 127) (hscale : scale < 2 ^ 32) :
    Fits (normalized value scale) := by
  have := normalized_le value scale
  exact ⟨by omega, by omega, by omega⟩

theorem rescaleDecimal_up (hle : fromScale ≤ toScale)
    (h : rescaleDecimal value fromScale toScale = some out) :
    out = value * 10 ^ (toScale - fromScale) := by
  unfold rescaleDecimal at h
  split at h
  · rename_i heq
    rw [← Option.some.inj h, heq]
    simp
  · rw [if_neg (not_lt.mpr hle)] at h
    obtain ⟨p, hp, h⟩ := Option.bind_eq_some_iff.mp h
    rw [← (i128_eq_some.mp h).2, pow10_eq hp]

theorem rescaleDecimal_rational (hle : fromScale ≤ toScale)
    (h : rescaleDecimal value fromScale toScale = some out) :
    (out : ℚ) / 10 ^ toScale = value / 10 ^ fromScale := by
  obtain ⟨k, rfl⟩ := Nat.exists_eq_add_of_le hle
  rw [rescaleDecimal_up hle h, Nat.add_sub_cancel_left, pow_add]
  push_cast
  field_simp

theorem checkedAdd_eq_some (h : checkedAdd left right = some d) :
    d.scale = max left.scale right.scale ∧ -2 ^ 127 ≤ d.value ∧ d.value < 2 ^ 127 ∧
      rational d = rational left + rational right := by
  obtain ⟨l, hl, h⟩ := Option.bind_eq_some_iff.mp h
  obtain ⟨r, hr, h⟩ := Option.bind_eq_some_iff.mp h
  obtain ⟨value, hvalue, rfl⟩ := Option.map_eq_some_iff.mp h
  obtain ⟨⟨hlow, hhigh⟩, rfl⟩ := i128_eq_some.mp hvalue
  refine ⟨rfl, hlow, hhigh, ?_⟩
  rw [rational, rational, rational, ← rescaleDecimal_rational (le_max_left ..) hl,
    ← rescaleDecimal_rational (le_max_right ..) hr, ← add_div]
  push_cast
  rfl

theorem checkedAdd_fits (hleft : left.scale < 2 ^ 32) (hright : right.scale < 2 ^ 32)
    (h : checkedAdd left right = some d) : Fits d := by
  obtain ⟨hscale, hlow, hhigh, -⟩ := checkedAdd_eq_some h
  exact ⟨hlow, hhigh, by omega⟩

def quotient (d : ExactDecimal) (n : Nat) : Int := (d.value * 10 ^ 6).tdiv n

variable {overflowChecks : Bool} {n : Nat}

theorem checkedDivU64_eq_some (h : checkedDivU64 overflowChecks left n = some (some d)) :
    0 < n ∧ (-2 ^ 127 < left.value * 10 ^ 6 ∧ left.value * 10 ^ 6 < 2 ^ 127) ∧
      ∃ scale, addU32 overflowChecks left.scale 6 = some scale ∧ d = normalized (quotient left n) scale := by
  have hpow : pow10 6 = some (10 ^ 6) := by decide
  unfold checkedDivU64 at h
  split at h
  · cases h
  · rename_i hn
    split at h
    · cases h
    · rename_i scaled hscaled
      obtain ⟨⟨hlow, hhigh⟩, rfl⟩ := i128_eq_some.mp hscaled
      obtain ⟨scale, hscale, h⟩ := Option.map_eq_some_iff.mp h
      exact ⟨Nat.pos_of_ne_zero hn, ⟨by omega, hhigh⟩, scale, hscale, (Option.some.inj h).symm⟩

theorem quotient_le (d : ExactDecimal) (n : Nat) : (quotient d n).natAbs ≤ (d.value * 10 ^ 6).natAbs := by
  rw [quotient, Int.natAbs_tdiv]
  exact Nat.div_le_self ..

theorem quotient_ne_zero_iff (d : ExactDecimal) (n : Nat) :
    quotient d n ≠ 0 ↔ 0 < n ∧ n ≤ (d.value * 10 ^ 6).natAbs := by
  rw [← Int.natAbs_ne_zero, quotient, Int.natAbs_tdiv, Int.natAbs_natCast, Nat.pos_iff_ne_zero]
  exact Nat.div_ne_zero_iff

section

variable (h : checkedDivU64 overflowChecks left n = some (some d))
include h

theorem checkedDivU64_fits : Fits d := by
  obtain ⟨-, ⟨hlow, hhigh⟩, scale, hscale, rfl⟩ := checkedDivU64_eq_some h
  have := quotient_le left n
  refine normalized_fits (by omega) (by omega) ?_
  unfold addU32 at hscale
  split at hscale
  · rename_i hlt
    rwa [← Option.some.inj hscale]
  · split at hscale
    · cases hscale
    · rw [← Option.some.inj hscale]
      exact Nat.mod_lt _ (by decide)

theorem checkedDivU64_ne_least : d.value ≠ -2 ^ 127 := by
  obtain ⟨-, ⟨hlow, hhigh⟩, scale, -, rfl⟩ := checkedDivU64_eq_some h
  have := quotient_le left n
  have := normalized_le (quotient left n) scale
  omega

end

theorem quotient_truncates (d : ExactDecimal) (hn : 0 < n) :
    TruncatesTo (rational d / n) ((quotient d n : ℚ) / 10 ^ (d.scale + 6)) (1 / 10 ^ (d.scale + 6)) := by
  have h := (truncatesTo_tdiv (d.value * 10 ^ 6) hn).div (show (0 : ℚ) < 10 ^ (d.scale + 6) by positivity)
  have hexact : rational d / n = ((d.value * 10 ^ 6 : Int) : ℚ) / n / 10 ^ (d.scale + 6) := by
    rw [rational, pow_add]
    field_simp
    norm_num
  rw [hexact]
  exact h

end

section

variable {whole frac digits : List Char} {negative : Bool} {d : ExactDecimal} {scale : Nat} {c : Char}

theorem digitsValue_eq (digits : List Char) : digitsValue digits = Nat.ofDigitChars 10 digits 0 :=
  Nat.ofDigitChars_eq_foldl.symm

theorem isAsciiDigit_ne (h : isAsciiDigit c = true) : c ≠ '.' ∧ c ≠ '-' := by
  constructor <;> rintro rfl <;> revert h <;> decide

theorem parseUnsignedDecimal_digits (hdigits : ∀ c ∈ whole ++ frac, isAsciiDigit c = true)
    (hwhole : whole ≠ [])
    (hfits : Nat.ofDigitChars 10 (whole ++ frac) 0 < 2 ^ 127) (hlen : frac.length < 2 ^ 32) :
    parseUnsignedDecimal negative (if frac = [] then whole else whole ++ '.' :: frac) =
      some (normalized (if negative then -(Nat.ofDigitChars 10 (whole ++ frac) 0 : Int)
        else Nat.ofDigitChars 10 (whole ++ frac) 0) frac.length) := by
  have hfront : ∀ c ∈ whole, decide (c ≠ '.') = true := fun c hc =>
    decide_eq_true (isAsciiDigit_ne (hdigits c (mem_append_left _ hc))).1
  have htake : (if frac = [] then whole else whole ++ '.' :: frac).takeWhile (· ≠ '.') = whole := by
    split
    · exact takeWhile_eq_self_iff.mpr hfront
    · rw [takeWhile_append_of_pos hfront]
      simp
  have hdrop : ((if frac = [] then whole else whole ++ '.' :: frac).dropWhile (· ≠ '.')).tail = frac := by
    split
    · rename_i hnil
      rw [dropWhile_eq_nil_iff.mpr hfront, hnil]
      rfl
    · rw [dropWhile_append_of_pos hfront]
      simp
  have hpoint : frac.contains '.' = false := by
    rw [contains_eq_mem, decide_eq_false_iff_not]
    exact fun hmem => (isAsciiDigit_ne (hdigits _ (mem_append_right _ hmem))).1 rfl
  have hwholeDigits : whole.all isAsciiDigit = true :=
    all_eq_true.mpr fun c hc => hdigits c (mem_append_left _ hc)
  have hfracDigits : frac.all isAsciiDigit = true :=
    all_eq_true.mpr fun c hc => hdigits c (mem_append_right _ hc)
  have hi128 : i128 (digitsValue (whole ++ frac) : Nat) =
      some ((Nat.ofDigitChars 10 (whole ++ frac) 0 : Nat) : Int) := by
    rw [digitsValue_eq]
    exact i128_eq_some.mpr ⟨⟨by omega, by omega⟩, rfl⟩
  simp only [parseUnsignedDecimal, htake, hdrop, hpoint, hwholeDigits, hfracDigits, hi128,
    isEmpty_eq_false_iff.mpr hwhole, Nat.mod_eq_of_lt hlen]
  rfl

theorem parseUnsignedDecimal_chars {text : List Char} (h : parseUnsignedDecimal negative text = some d)
    (hc : c ∈ text) : isAsciiDigit c = true ∨ c = '.' := by
  unfold parseUnsignedDecimal at h
  dsimp only at h
  split at h
  · cases h
  · rename_i hgood
    simp only [Bool.or_eq_true, Bool.not_eq_true', not_or, Bool.not_eq_false, all_eq_true] at hgood
    obtain ⟨⟨-, hwhole⟩, hfrac⟩ := hgood
    rw [← takeWhile_append_dropWhile (p := (· ≠ '.')) (l := text)] at hc
    rcases mem_append.mp hc with hc | hc
    · exact .inl (hwhole c hc)
    · cases hdrop : text.dropWhile (· ≠ '.') with
      | nil =>
        rw [hdrop] at hc
        cases hc
      | cons x rest =>
        rw [hdrop] at hc hfrac
        rcases mem_cons.mp hc with rfl | hc
        · have hhead := head_dropWhile_not (p := (· ≠ '.')) (l := text) (by
            rw [hdrop]
            exact cons_ne_nil _ _)
          simp only [hdrop, head_cons] at hhead
          exact .inr (by simpa using hhead)
        · exact .inl (hfrac c hc)

theorem decimalDigits_eq (hpoint : '.' ∉ digits) (hsome : digits ≠ []) (scale : Nat) :
    ∃ whole frac j k, decimalDigits digits scale = (if frac = [] then whole else whole ++ '.' :: frac) ∧
      whole ++ (frac ++ replicate k '0') = replicate j '0' ++ digits ∧
      frac.length + k = scale ∧ whole ≠ [] := by
  unfold decimalDigits
  split
  · rename_i hscale
    obtain ⟨j, hpadded, hlen⟩ : ∃ j, (if digits.length ≤ scale then
        replicate (scale + 1 - digits.length) '0' ++ digits else digits) = replicate j '0' ++ digits ∧
        scale < (replicate j '0' ++ digits).length := by
      split
      · exact ⟨_, rfl, by simp; omega⟩
      · exact ⟨0, rfl, by simp; omega⟩
    simp only [hpadded]
    generalize hp : replicate j '0' ++ digits = padded at *
    have hnopoint : '.' ∉ padded := by
      rw [← hp]
      simp [hpoint]
    obtain ⟨k, hk⟩ := exists_zeros (padded.drop (padded.length - scale))
    have hdropLength : (padded.drop (padded.length - scale)).length = scale := by
      rw [length_drop]
      omega
    refine ⟨padded.take (padded.length - scale),
      (padded.drop (padded.length - scale)).rdropWhile (· = '0'), j, k, ?_, ?_, ?_, ?_⟩
    · rw [rdropWhile_append_cons _ _ (by decide)]
      by_cases hnil : (padded.drop (padded.length - scale)).rdropWhile (· = '0') = []
      · rw [hnil, if_pos rfl, if_pos (by simp), dropLast_concat]
      · rw [if_neg hnil, if_neg]
        intro hlast
        rw [List.getLast?_append, List.getLast?_cons, Option.some_or, Option.some.injEq,
          List.getLast?_eq_some_getLast hnil, Option.getD_some] at hlast
        refine hnopoint (mem_of_mem_drop (i := padded.length - scale) ?_)
        rw [← hlast]
        exact (List.rdropWhile_prefix _ _).subset (getLast_mem hnil)
    · rw [← hk, take_append_drop, hp]
    · have hlengths := congrArg List.length hk
      rw [hdropLength, length_append, length_replicate] at hlengths
      exact hlengths.symm
    · rw [← length_pos_iff, length_take]
      omega
  · exact ⟨digits, [], 0, 0, by simp, by simp, by simp; omega, hsome⟩

end

section

variable {lib : TextLibrary} {overflowChecks negative : Bool} {d e : ExactDecimal} {digits : List Char}
  {v : Value} {scale : Nat}

theorem parseUnsignedDecimal_decimalDigits (negative : Bool)
    (hdigits : ∀ c ∈ digits, isAsciiDigit c = true) (hsome : digits ≠ [])
    (hfits : Nat.ofDigitChars 10 digits 0 < 2 ^ 127) (hscale : scale < 2 ^ 32) :
    ∃ e, parseUnsignedDecimal negative (decimalDigits digits scale) = some e ∧
      rational e = (if negative then -1 else 1) * (Nat.ofDigitChars 10 digits 0 / 10 ^ scale) := by
  have hpoint : '.' ∉ digits := fun hmem => (isAsciiDigit_ne (hdigits _ hmem)).1 rfl
  obtain ⟨whole, frac, j, k, hprinted, hlayout, hlength, hwhole⟩ := decimalDigits_eq hpoint hsome scale
  have hchars : ∀ c ∈ whole ++ frac, isAsciiDigit c = true := by
    intro c hc
    have hmem : c ∈ whole ++ (frac ++ replicate k '0') := by
      rw [← append_assoc]
      exact mem_append_left _ hc
    rw [hlayout, mem_append, mem_replicate] at hmem
    rcases hmem with ⟨-, rfl⟩ | hmem
    · decide
    · exact hdigits c hmem
  have hvalue : 10 ^ k * Nat.ofDigitChars 10 (whole ++ frac) 0 = Nat.ofDigitChars 10 digits 0 := by
    rw [← ofDigitChars_append_zeros, append_assoc, hlayout, ofDigitChars_zeros_append]
  have hle : Nat.ofDigitChars 10 (whole ++ frac) 0 ≤ Nat.ofDigitChars 10 digits 0 :=
    hvalue ▸ Nat.le_mul_of_pos_left _ (Nat.pos_of_ne_zero (by positivity))
  refine ⟨_, hprinted ▸ parseUnsignedDecimal_digits hchars hwhole (by omega) (by omega), ?_⟩
  rw [normalized_rational, ← hvalue, ← hlength, pow_add]
  cases negative
  · simp only [Bool.false_eq_true, if_false]
    push_cast
    field_simp
  · simp only [if_true]
    push_cast
    field_simp

theorem decimalDigits_head (hdigits : ∀ c ∈ digits, isAsciiDigit c = true) (hsome : digits ≠ [])
    (scale : Nat) :
    ∃ c rest, decimalDigits digits scale = c :: rest ∧ c ≠ '-' := by
  have hpoint : '.' ∉ digits := fun hmem => (isAsciiDigit_ne (hdigits _ hmem)).1 rfl
  obtain ⟨whole, frac, j, k, hprinted, hlayout, -, hwhole⟩ := decimalDigits_eq hpoint hsome scale
  obtain ⟨c, rest, rfl⟩ := exists_cons_of_ne_nil hwhole
  refine ⟨c, if frac = [] then rest else rest ++ '.' :: frac, ?_, ?_⟩
  · rw [hprinted]
    split <;> rfl
  · have hmem : c ∈ replicate j '0' ++ digits := hlayout ▸ mem_append_left _ mem_cons_self
    rw [mem_append, mem_replicate] at hmem
    rcases hmem with ⟨-, rfl⟩ | hmem
    · decide
    · exact (isAsciiDigit_ne (hdigits c hmem)).2

theorem parseDecimalStr_printed (negative : Bool) (scale : Nat)
    (hdigits : ∀ c ∈ digits, isAsciiDigit c = true) (hsome : digits ≠ []) :
    parseDecimalStr (String.ofList (if negative then '-' :: decimalDigits digits scale
      else decimalDigits digits scale)) = parseUnsignedDecimal negative (decimalDigits digits scale) := by
  rw [parseDecimalStr, String.toList_ofList]
  cases negative
  · obtain ⟨c, rest, heq, hc⟩ := decimalDigits_head hdigits hsome scale
    rw [if_neg (by decide), heq]
    split
    · rename_i hcons
      exact absurd (List.cons.inj hcons).1 hc
    · rfl
  · rfl

theorem toJsonSum_reads (hd : Fits d) (hmin : d.value ≠ -2 ^ 127) :
    ∃ v, toJsonSum overflowChecks d = some v ∧ ∃ e, parseDecimalValue lib v = some e ∧
      rational e = rational d := by
  unfold toJsonSum decimalToJsonValue
  by_cases hi64 : d.scale = 0 ∧ -2 ^ 63 ≤ d.value ∧ d.value < 2 ^ 63
  · rw [if_pos hi64]
    refine ⟨_, rfl, _, parseDecimalValue_ofInt lib _, ?_⟩
    rw [rational, rational, hi64.1]
  · rw [if_neg hi64]
    by_cases hu64 : d.scale = 0 ∧ 0 ≤ d.value ∧ d.value < 2 ^ 64
    · rw [if_pos hu64]
      refine ⟨_, rfl, _, parseDecimalValue_ofInt lib _, ?_⟩
      rw [rational, rational, hu64.1]
    · rw [if_neg hu64, absI128, if_neg hmin]
      refine ⟨_, rfl, ?_⟩
      have hlist : (toString (d.value.natAbs : Int)).toList = Nat.toDigits 10 d.value.natAbs :=
        Nat.toList_repr
      have hdigits : ∀ c ∈ Nat.toDigits 10 d.value.natAbs, isAsciiDigit c = true :=
        fun c hc => isAsciiDigit_of_mem hc
      have hvalue : Nat.ofDigitChars 10 (Nat.toDigits 10 d.value.natAbs) 0 = d.value.natAbs :=
        Nat.ofDigitChars_ten_toDigits
      have hlow := hd.low
      have hhigh := hd.high
      obtain ⟨e, hparse, hrational⟩ := parseUnsignedDecimal_decimalDigits (decide (d.value < 0))
        hdigits Nat.toDigits_ne_nil (by omega) hd.scale_lt
      refine ⟨e, ?_, ?_⟩
      · have hprinted := parseDecimalStr_printed (decide (d.value < 0)) d.scale hdigits
          Nat.toDigits_ne_nil
        simp only [decide_eq_true_eq] at hprinted
        simp only [parseDecimalValue, hlist]
        rw [hprinted, hparse]
      · rw [hrational, hvalue, rational]
        by_cases hneg : d.value < 0
        · rw [decide_eq_true hneg, if_pos rfl]
          rw [Nat.cast_natAbs, abs_of_neg hneg, Int.cast_neg]
          ring
        · rw [decide_eq_false hneg, if_neg (by decide), one_mul]
          rw [Nat.cast_natAbs, abs_of_nonneg (not_lt.mp hneg)]

theorem toJsonSum_least (lib : TextLibrary) (hmin : d.value = -2 ^ 127)
    (hv : toJsonSum overflowChecks d = some v) :
    overflowChecks = false ∧ parseDecimalValue lib v = none := by
  unfold toJsonSum decimalToJsonValue at hv
  rw [hmin, if_neg (fun h => absurd h.2.1 (by decide)), if_neg (fun h => absurd h.2.1 (by decide)), absI128,
    if_pos rfl] at hv
  cases overflowChecks
  · refine ⟨rfl, ?_⟩
    cases hv
    have hsign : '-' ∈ (toString (-2 ^ 127 : Int)).toList := by decide +kernel
    have hpoint : '.' ∉ (toString (-2 ^ 127 : Int)).toList := by decide +kernel
    obtain ⟨whole, frac, j, k, hprinted, hlayout, -, -⟩ :=
      decimalDigits_eq hpoint (ne_nil_of_mem hsign) d.scale
    have hmem : '-' ∈ decimalDigits (toString (-2 ^ 127 : Int)).toList d.scale := by
      have hparts : '-' ∈ whole ++ (frac ++ replicate k '0') :=
        hlayout ▸ mem_append_right _ hsign
      rw [hprinted]
      split
      · rename_i hnil
        simpa [hnil] using hparts
      · simpa using hparts
    have hneg : (-2 ^ 127 : Int) < 0 := by decide
    simp only [parseDecimalValue, parseDecimalStr, hneg, if_true, String.toList_ofList]
    by_contra hsome
    obtain ⟨e, he⟩ := Option.ne_none_iff_exists'.mp hsome
    exact absurd (parseUnsignedDecimal_chars he hmem) (by decide)
  · cases hv

end

section

variable {lib : TextLibrary} {overflowChecks negative : Bool} {d : ExactDecimal} {v : Value} {n : Nat}

/-- The integers of a JSON value are a `u64` or a negative `i64`. -/
def InRange : Value → Prop
  | .number (.posInt value) => value < 2 ^ 64
  | .number (.negInt value) => -2 ^ 63 ≤ value ∧ value < 0
  | _ => True

/-- The values that come from reading, adding and dividing. -/
inductive Reachable (overflowChecks : Bool) (lib : TextLibrary) : ExactDecimal → Prop
  | parsed {v : Value} {d : ExactDecimal} (hv : InRange v) (h : parseDecimalValue lib v = some d) :
      Reachable overflowChecks lib d
  | added {left right d : ExactDecimal} (hleft : Reachable overflowChecks lib left)
      (hright : Reachable overflowChecks lib right) (h : checkedAdd left right = some d) :
      Reachable overflowChecks lib d
  | divided {left d : ExactDecimal} {n : Nat} (hleft : Reachable overflowChecks lib left) (hn : n < 2 ^ 64)
      (h : checkedDivU64 overflowChecks left n = some (some d)) : Reachable overflowChecks lib d

theorem parseUnsignedDecimal_fits {text : List Char}
    (h : parseUnsignedDecimal negative text = some d) : Fits d := by
  unfold parseUnsignedDecimal at h
  dsimp only at h
  split at h
  · cases h
  · obtain ⟨value, hvalue, rfl⟩ := Option.map_eq_some_iff.mp h
    obtain ⟨⟨-, hhigh⟩, rfl⟩ := i128_eq_some.mp hvalue
    refine normalized_fits ?_ ?_ (Nat.mod_lt _ (by decide))
    · split <;> omega
    · split <;> omega

theorem parseDecimalStr_fits {text : String} (h : parseDecimalStr text = some d) : Fits d := by
  unfold parseDecimalStr at h
  split at h <;> exact parseUnsignedDecimal_fits h

theorem parseDecimalValue_fits (hv : InRange v) (h : parseDecimalValue lib v = some d) : Fits d := by
  unfold parseDecimalValue at h
  split at h
  · cases h
    have hlt : _ < 2 ^ 64 := hv
    exact ⟨by dsimp only; omega, by dsimp only; omega, by dsimp only; omega⟩
  · cases h
    obtain ⟨hlow, hhigh⟩ := hv
    exact ⟨by dsimp only; omega, by dsimp only; omega, by dsimp only; omega⟩
  · exact parseDecimalStr_fits h
  · exact parseDecimalStr_fits h
  · cases h

theorem Reachable.fits (hd : Reachable overflowChecks lib d) : Fits d := by
  induction hd with
  | parsed hv h => exact parseDecimalValue_fits hv h
  | added _ _ h ihleft ihright => exact checkedAdd_fits ihleft.scale_lt ihright.scale_lt h
  | divided _ _ h _ => exact checkedDivU64_fits h

def AddsExactly (left right : ExactDecimal) : Prop :=
  ∀ sum, checkedAdd left right = some sum → rational sum = rational left + rational right

/-- No build overflows, and the text is read as the same number. -/
structure PrintsExactly (overflowChecks : Bool) (lib : TextLibrary) (d : ExactDecimal) : Prop where
  no_overflow : (toJsonSum true d).isSome
  reads : ∃ v, toJsonSum overflowChecks d = some v ∧
    ∃ e, parseDecimalValue lib v = some e ∧ rational e = rational d

def DividesExactly (overflowChecks : Bool) (d : ExactDecimal) (n : Nat) : Prop :=
  ∀ q, checkedDivU64 overflowChecks d n = some (some q) →
    TruncatesTo (rational d / n) (rational q) (1 / 10 ^ (d.scale + 6))

/-- The scale of a quotient that is not zero does not fit, and the build does not notice. -/
structure ScaleWraps (overflowChecks : Bool) (d : ExactDecimal) (n : Nat) : Prop where
  unchecked : overflowChecks = false
  overflows : 2 ^ 32 ≤ d.scale + 6
  fits : (i128 (d.value * 10 ^ 6)).isSome
  not_zero : 0 < n ∧ n ≤ (d.value * 10 ^ 6).natAbs

theorem printsExactly_iff (hd : Fits d) : PrintsExactly overflowChecks lib d ↔ d.value ≠ -2 ^ 127 := by
  constructor
  · rintro ⟨hsome, -⟩ hmin
    obtain ⟨v, hv⟩ := Option.isSome_iff_exists.mp hsome
    exact absurd (toJsonSum_least lib hmin hv).1 (by decide)
  · intro hmin
    obtain ⟨v, hv, -⟩ := @toJsonSum_reads lib true d hd hmin
    exact ⟨by rw [hv]; rfl, toJsonSum_reads hd hmin⟩

section

variable (hd : d.scale < 2 ^ 32)
include hd

theorem ScaleWraps.far (h : ScaleWraps overflowChecks d n) :
    ∃ q, checkedDivU64 overflowChecks d n = some (some q) ∧
      1 / 10 ^ (d.scale + 6) ≤ |rational q - rational d / n| := by
  obtain ⟨rfl, hoverflows, hfits, hn, hle⟩ := h
  obtain ⟨scaled, hscaled⟩ := Option.isSome_iff_exists.mp hfits
  have hzero : quotient d n ≠ 0 := (quotient_ne_zero_iff d n).mpr ⟨hn, hle⟩
  have hpow : pow10 6 = some (10 ^ 6) := by decide
  have hrun : checkedDivU64 false d n =
      some (some (normalized (quotient d n) ((d.scale + 6) % 2 ^ 32))) := by
    rw [checkedDivU64, if_neg hn.ne', hpow, Option.bind_some, hscaled, addU32,
      if_neg (not_lt.mpr hoverflows), ← (i128_eq_some.mp hscaled).2]
    rfl
  refine ⟨_, hrun, ?_⟩
  have hexact := (quotient_truncates d hn).near
  rw [normalized_rational]
  obtain ⟨k, hk⟩ : ∃ k, d.scale + 6 = (d.scale + 6) % 2 ^ 32 + (k + 1) :=
    ⟨2 ^ 32 - 1, by omega⟩
  generalize (d.scale + 6) % 2 ^ 32 = s at *
  have hten : (10 : ℚ) * (1 / 10 ^ (d.scale + 6)) ≤ 1 / 10 ^ s := by
    have hone : (1 : ℚ) ≤ 10 ^ k := one_le_pow₀ (by norm_num)
    rw [hk, pow_add, pow_succ]
    field_simp
    exact hone
  have hlarge : (1 : ℚ) ≤ |(quotient d n : ℚ)| := by exact_mod_cast Int.one_le_abs hzero
  have hunit : (0 : ℚ) < 1 / 10 ^ (d.scale + 6) := by positivity
  -- the quotient with the right scale is as near to the exact one as it is far from the wrapped one
  have happart : (1 / 10 ^ s - 1 / 10 ^ (d.scale + 6)) ≤
      |(quotient d n : ℚ) / 10 ^ s - (quotient d n : ℚ) / 10 ^ (d.scale + 6)| := by
    have hdiff : (quotient d n : ℚ) / 10 ^ s - (quotient d n : ℚ) / 10 ^ (d.scale + 6) =
        quotient d n * (1 / 10 ^ s - 1 / 10 ^ (d.scale + 6)) := by ring
    have hpos : (0 : ℚ) ≤ 1 / 10 ^ s - 1 / 10 ^ (d.scale + 6) := by linarith
    rw [hdiff, abs_mul, abs_of_nonneg hpos]
    exact le_mul_of_one_le_left hpos hlarge
  have htriangle := abs_sub_le ((quotient d n : ℚ) / 10 ^ s) (rational d / n)
    ((quotient d n : ℚ) / 10 ^ (d.scale + 6))
  rw [abs_sub_comm (rational d / n)] at htriangle
  linarith

theorem ScaleWraps.not_divides (h : ScaleWraps overflowChecks d n) :
    ¬ DividesExactly overflowChecks d n := by
  obtain ⟨q, hq, hfar⟩ := h.far hd
  exact fun hdivides => absurd (hdivides q hq).near (not_lt.mpr hfar)

theorem dividesExactly_iff :
    DividesExactly overflowChecks d n ↔ ¬ ScaleWraps overflowChecks d n := by
  refine ⟨fun h hwraps => hwraps.not_divides hd h, fun h q hq => ?_⟩
  obtain ⟨hn, ⟨hlow, hhigh⟩, scale, hscale, rfl⟩ := checkedDivU64_eq_some hq
  have htruncates := quotient_truncates d hn
  rw [normalized_rational]
  by_cases hfits : d.scale + 6 < 2 ^ 32
  · rw [addU32, if_pos hfits] at hscale
    rw [← Option.some.inj hscale]
    exact htruncates
  · have hzero : quotient d n = 0 := by
      by_contra hzero
      refine h ⟨?_, not_lt.mp hfits, ?_, (quotient_ne_zero_iff d n).mp hzero⟩
      · by_contra hchecks
        rw [addU32, if_neg hfits, if_pos (by simpa using hchecks)] at hscale
        cases hscale
      · rw [i128_eq_some.mpr ⟨⟨hlow.le, hhigh⟩, rfl⟩]
        rfl
    rw [hzero] at htruncates ⊢
    simpa using htruncates

end

/-- Decimals add, print and divide exactly but for the least value and a scale that wraps around. -/
theorem decimals_exact_iff (left right : ExactDecimal) (hd : Reachable overflowChecks lib d) (n : Nat) :
    AddsExactly left right ∧ PrintsExactly overflowChecks lib d ∧ DividesExactly overflowChecks d n ↔
      d.value ≠ -2 ^ 127 ∧ ¬ ScaleWraps overflowChecks d n := by
  have hadds : AddsExactly left right := fun sum hsum => (checkedAdd_eq_some hsum).2.2.2
  rw [printsExactly_iff hd.fits, dividesExactly_iff hd.fits.scale_lt]
  exact and_iff_right hadds

def plainTexts : TextLibrary := ⟨id, id, fun _ => none, fun _ => "", fun _ => ""⟩

theorem decimals_exact_iff_mixed :
    AddsExactly ⟨1, 1⟩ ⟨-25, 1⟩ ∧ PrintsExactly true plainTexts ⟨-24, 1⟩ ∧ DividesExactly true ⟨-24, 1⟩ 7 ↔
      ((-24 : Int) ≠ -2 ^ 127 ∧ ¬ ScaleWraps true ⟨-24, 1⟩ 7) :=
  have hleft : parseDecimalValue plainTexts (.string "0.1") = some ⟨1, 1⟩ := by decide
  have hright : parseDecimalValue plainTexts (.string "-2.50") = some ⟨-25, 1⟩ := by decide
  decimals_exact_iff ⟨1, 1⟩ ⟨-25, 1⟩
    (.added (.parsed (v := .string _) trivial hleft) (.parsed (v := .string _) trivial hright) (by decide)) 7

/-- The sum of two read values can be the one whose absolute value does not fit. -/
theorem least_not_printed :
    ∃ left right, parseDecimalValue plainTexts (.string "-170141183460469231731687303715884105727")
      = some left ∧
      parseDecimalValue plainTexts (.ofInt (-1)) = some right ∧
      checkedAdd left right = some ⟨-2 ^ 127, 0⟩ ∧ Reachable true plainTexts ⟨-2 ^ 127, 0⟩ ∧
      toJsonSum true ⟨-2 ^ 127, 0⟩ = none ∧ ¬ PrintsExactly true plainTexts ⟨-2 ^ 127, 0⟩ := by
  have hleft : parseDecimalValue plainTexts (.string "-170141183460469231731687303715884105727") =
      some ⟨-2 ^ 127 + 1, 0⟩ := by decide +kernel
  have hright : parseDecimalValue plainTexts (.ofInt (-1)) = some ⟨-1, 0⟩ := by decide +kernel
  have hsum : checkedAdd ⟨-2 ^ 127 + 1, 0⟩ ⟨-1, 0⟩ = some ⟨-2 ^ 127, 0⟩ := by decide +kernel
  have hpanics : toJsonSum true ⟨-2 ^ 127, 0⟩ = none := by rfl
  have hrange : InRange (.ofInt (-1)) := ⟨by decide, by decide⟩
  refine ⟨_, _, hleft, hright, hsum, .added (.parsed (v := .string _) trivial hleft)
    (.parsed hrange hright) hsum, hpanics, ?_⟩
  rintro ⟨hsome, -⟩
  rw [hpanics] at hsome
  cases hsome

end

end CoveFormat.ExactDecimals
