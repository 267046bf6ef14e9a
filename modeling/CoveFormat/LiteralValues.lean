import CoveFormat.LoweredFilters
import CoveFormat.LookupKeys

namespace CoveFormat.LiteralValues

open ByteCodes Canonical CanonicalIdentity CoveTypes ExceptRules ExprLowering Floats JsonValue
  Kleene LikePatterns List LookupKeys LoweredFilters NumCodes Option
open MorselScan (NullPredicateKind CoveFilterUse)
open EncodedArrays (logicalTypeFixedWidth)

/-! Literals and the values that they stand for. -/

section

variable {T : Texts} {logical : CoveLogicalType} {literal : LowerLiteral}
  {v w : CanonicalValue T.toTextPredicates} {x y : Bytes}

theorem whole_inj {n m : Int} : whole n = whole m ↔ n = m := by
  rw [whole, whole, WithBot.coe_inj, WithTop.coe_inj]
  exact Int.mul_eq_mul_right_iff f64One_pos.ne'

/-- The columns beside which a text is not read as a number. -/
def IsText (logical : CoveLogicalType) : Prop := logical = .utf8 ∨ logical = .json ∨ logical = .uuid

theorem textNumber_point (h : ¬ IsText logical) {value : String} {n : Int}
    (hn : textNumber value = some n) :
    literalPoint logical (.utf8 value) = some (.number (whole n)) := by
  rw [literalPoint.eq_def]
  simp only
  split
  · exact absurd (.inl rfl) h
  · exact absurd (.inr (.inl rfl)) h
  · exact absurd (.inr (.inr rfl)) h
  · rw [hn]
    rfl

theorem textNumber_nonneg {value : String} {n : Int} (h : textNumber value = some n)
    (hsign : value.toList.head? ≠ some '-') : 0 ≤ n := by
  rw [textNumber] at h
  split at h
  · rename_i digits hdigits
    rw [hdigits] at hsign
    exact absurd rfl hsign
  · obtain ⟨m, -, rfl⟩ := map_eq_some_iff.mp h
    exact Int.natCast_nonneg m
  · obtain ⟨m, -, rfl⟩ := map_eq_some_iff.mp h
    exact Int.natCast_nonneg m

theorem signedLiteral_point {n : Int} (h : signedLiteral literal = .ok n) (htext : ¬ IsText logical) :
    literalPoint logical literal = some (.number (whole n)) := by
  cases literal with
  | int128 value | int64 value | uint64 value =>
    cases h
    rfl
  | utf8 value =>
    rw [signedLiteral] at h
    split at h
    · rename_i m hm
      split at h
      · cases h
        exact textNumber_point htext hm
      · cases h
    · cases h
  | _ => cases h

theorem unsignedLiteral_point {n : Nat} (h : unsignedLiteral literal = .ok n)
    (htext : ¬ IsText logical) : literalPoint logical literal = some (.number (whole n)) := by
  have hnonNegative : ∀ {m : Int}, nonNegative m = .ok n → whole m = whole n := by
    intro m hm
    rw [nonNegative] at hm
    split at hm
    · rename_i hle
      cases hm
      rw [Int.toNat_of_nonneg hle]
    · cases hm
  cases literal with
  | int128 value | int64 value => exact congrArg (fun n => some (Point.number n)) (hnonNegative h)
  | uint64 value =>
    cases h
    rfl
  | utf8 value =>
    rw [unsignedLiteral] at h
    split at h
    · rename_i m hm
      split at hm
      · cases hm
      · rename_i hsign
        split at h
        · cases h
          rw [textNumber_point htext hm, Int.toNat_of_nonneg (textNumber_nonneg hm hsign)]
        · cases h
    · cases h
  | _ => cases h

theorem inSigned_point {width : Nat} {text : String} {value : BitVec width} (hwidth : 0 < width)
    (h : inSigned width text literal = .ok value) (htext : ¬ IsText logical) :
    literalPoint logical literal = some (.number (whole value.toInt)) := by
  obtain ⟨n, hn, h⟩ := of_andThen h
  split at h
  · rename_i hrange
    cases h
    rw [signedLiteral_point hn htext, BitVec.toInt_ofInt_eq_self hwidth hrange.1 hrange.2]
  · cases h

theorem signedLiteral_range {n : Int} (h : signedLiteral literal = .ok n) :
    -2 ^ 127 ≤ n ∧ n < 2 ^ 127 := by
  cases literal with
  | int128 value =>
    cases h
    exact ⟨BitVec.le_toInt value, BitVec.toInt_lt⟩
  | int64 value =>
    cases h
    have hlow := value.le_toInt
    have hhigh := value.toInt_lt
    omega
  | uint64 value =>
    cases h
    have hlt := value.toNat_lt
    omega
  | utf8 value =>
    rw [signedLiteral] at h
    split at h
    · split at h
      · rename_i hrange
        cases h
        exact hrange
      · cases h
    · cases h
  | _ => cases h

theorem not_text (h : logical ≠ .utf8 ∧ logical ≠ .json ∧ logical ≠ .uuid) : ¬ IsText logical := by
  rintro (h' | h' | h')
  · exact h.1 h'
  · exact h.2.1 h'
  · exact h.2.2 h'

theorem signed_value {width : Nat} (htext : ¬ IsText logical) (h : (do
      let n ← signedLiteral literal
      .ok (some (CanonicalValue.int width n)) : Except CoveError _) = .ok (some v)) :
    literalPoint logical literal = valuePoint v := by
  obtain ⟨n, hn, h⟩ := of_andThen h
  cases h
  exact signedLiteral_point hn htext

theorem unsigned_value {width : Nat} (htext : ¬ IsText logical) (h : (do
      let n ← unsignedLiteral literal
      .ok (some (CanonicalValue.uint width n)) : Except CoveError _) = .ok (some v)) :
    literalPoint logical literal = valuePoint v := by
  obtain ⟨n, hn, h⟩ := of_andThen h
  cases h
  exact unsignedLiteral_point hn htext

theorem canonicalValue_point (h : canonicalValue T logical literal = .ok (some v))
    (hfloat : logical ≠ .float32) : literalPoint logical literal = valuePoint v := by
  rw [canonicalValue.eq_def] at h
  split at h
  case h_2 | h_3 | h_4 | h_7 | h_17 =>
    cases h
    rfl
  case h_5 =>
    obtain ⟨uuid, huuid, h⟩ := of_andThen h
    cases h
    rw [literalPoint, huuid]
    rfl
  case h_6 =>
    split at h
    · cases h
      rfl
    · cases h
  case h_8 | h_9 | h_10 | h_11 => exact signed_value (not_text (by decide)) h
  case h_12 | h_13 | h_14 | h_15 => exact unsigned_value (not_text (by decide)) h
  case h_16 => exact absurd rfl hfloat
  case h_18 | h_20 | h_21 | h_22 =>
    obtain ⟨value, hvalue, h⟩ := of_andThen h
    cases h
    exact inSigned_point (by decide) hvalue (not_text (by decide))
  case h_19 =>
    obtain ⟨n, hn, h⟩ := of_andThen h
    cases h
    have hrange := signedLiteral_range hn
    rw [signedLiteral_point hn (not_text (by decide)), valuePoint,
      BitVec.toInt_ofInt_eq_self (by decide) hrange.1 hrange.2]
  all_goals cases h

theorem bool_tag (value : Bool) :
    (CanonicalValue.bool value : CanonicalValue T.toTextPredicates).valueTag ∈ tagsOf .bool := by
  cases value
  · exact mem_cons_self
  · exact mem_cons_of_mem _ mem_cons_self

theorem canonicalValue_tag (h : canonicalValue T logical literal = .ok (some v)) :
    v.valueTag ∈ tagsOf logical := by
  rw [canonicalValue.eq_def] at h
  split at h
  case h_6 =>
    split at h
    · cases h
      exact mem_singleton_self _
    · cases h
  case h_7 =>
    cases h
    exact bool_tag _
  all_goals
    first
    | cases h
      exact mem_singleton_self _
    | obtain ⟨_, -, h⟩ := of_andThen h
      cases h
      exact mem_singleton_self _
    | cases h

theorem canonicalLiteral_key {c : FileCodeCanonicalLiteral}
    (h : canonicalLiteral T logical literal = .ok (some c)) :
    ∃ w, canonicalValue T logical literal = .ok (some w) ∧ encodeTagged w = .ok c.key := by
  obtain ⟨found, hfound, h⟩ := of_andThen h
  cases found with
  | none => cases h
  | some w =>
    obtain ⟨tagged, htagged, h⟩ := of_andThen h
    cases h
    obtain ⟨payload, hpayload, htagged⟩ := of_andThen htagged
    cases htagged
    refine ⟨w, hfound, ?_⟩
    rw [encodeTagged, withTag, hpayload]
    rfl

theorem canonicalLiteral_null (h : canonicalLiteral T logical literal = .ok none) :
    literal = .null := by
  obtain ⟨found, hfound, h⟩ := of_andThen h
  cases found with
  | some w =>
    obtain ⟨tagged, -, h⟩ := of_andThen h
    cases h
  | none =>
    rw [canonicalValue.eq_def] at hfound
    split at hfound
    · rfl
    all_goals
      first
      | cases hfound
      | obtain ⟨_, -, hfound⟩ := of_andThen hfound
        cases hfound
      | split at hfound <;> cases hfound

theorem key_eq_iff (hv : encodeTagged v = .ok x) (hw : encodeTagged w = .ok y) :
    x = y ↔ Same v w := by
  constructor
  · intro h
    exact ((payload_separates v).tagged w x y [] [] hv hw (by rw [h])).1
  · intro h
    exact (encodes_alike v).tagged h hv hw

theorem same_iff_point (htag : v.valueTag = w.valueTag) (hscalar : (valuePoint v).isSome)
    (hfloat : v.valueTag ≠ .float32Bits ∧ v.valueTag ≠ .float64Bits) :
    Same v w ↔ valuePoint v = valuePoint w := by
  constructor
  · intro h
    cases h with
    | refl | int | uint => rfl
    | list | struct | map => cases hscalar
  · intro h
    match v, w, htag with
    | .bool true, .bool true, _ | .bool false, .bool false, _ => exact .refl _
    | .int _ a, .int _ b, _ =>
      obtain rfl := whole_inj.mp (Point.number.inj (some.inj h))
      exact .int _ _ _
    | .uint _ a, .uint _ b, _ =>
      obtain rfl := Int.ofNat.inj (whole_inj.mp (Point.number.inj (some.inj h)))
      exact .uint _ _ _
    | .float32 a, .float32 b, _ => exact absurd rfl hfloat.1
    | .float64 a, .float64 b, _ => exact absurd rfl hfloat.2
    | .decimal64 a, .decimal64 b, _ | .decimal128 a, .decimal128 b, _ | .dateDays a, .dateDays b, _
    | .timestampMicros a, .timestampMicros b, _ | .timestampNanos a, .timestampNanos b, _ =>
      obtain rfl := BitVec.eq_of_toInt_eq (whole_inj.mp (Point.number.inj (some.inj h)))
      exact .refl _
    | .uuid a, .uuid b, _ =>
      obtain rfl := Subtype.ext (Point.bytes.inj (some.inj h))
      exact .refl _
    | .utf8 a, .utf8 b, _ | .json a, .json b, _ =>
      obtain rfl := Subtype.ext (Point.bytes.inj (some.inj h))
      exact .refl _
    | .bytes a, .bytes b, _ =>
      obtain rfl := Point.bytes.inj (some.inj h)
      exact .refl _

def SameKind : Point → Point → Prop
  | .number _, .number _ | .bytes _, .bytes _ | .bool _, .bool _ => True
  | _, _ => False

variable {a b : Point}

theorem compares_eq (h : SameKind a b) :
    compares .eq a b = Truth.ofBool (a = b) ∧ compares .notEq a b = Truth.ofBool (a ≠ b) := by
  match a, b, h with
  | .number a, .number b, _ | .bytes a, .bytes b, _ | .bool a, .bool b, _ =>
    constructor <;> by_cases hab : a = b <;> simp [compares, ordered, hab]

theorem sameKind_values (htag : v.valueTag = w.valueTag) (ha : valuePoint v = some a)
    (hb : valuePoint w = some b) : SameKind a b := by
  match v, w, htag with
  | .bool true, .bool true, _ | .bool false, .bool false, _ | .int _ _, .int _ _, _
  | .uint _ _, .uint _ _, _ | .decimal64 _, .decimal64 _, _ | .decimal128 _, .decimal128 _, _
  | .dateDays _, .dateDays _, _ | .timestampMicros _, .timestampMicros _, _
  | .timestampNanos _, .timestampNanos _, _ | .uuid _, .uuid _, _ | .utf8 _, .utf8 _, _
  | .json _, .json _, _ | .bytes _, .bytes _, _ =>
    cases ha
    cases hb
    trivial
  | .float32 _, .float32 _, _ | .float64 _, .float64 _, _ =>
    obtain ⟨_, -, rfl⟩ := map_eq_some_iff.mp ha
    obtain ⟨_, -, rfl⟩ := map_eq_some_iff.mp hb
    trivial

variable {bits : Nat}

theorem floatNumber_isSome (h : f64IsNan bits = false) : ∃ n, floatNumber bits = some n := by
  rw [floatNumber, h]
  split
  · contradiction
  · split <;> exact ⟨_, rfl⟩

theorem narrowed_lt (h : f64IsNan bits = false) : narrowed bits < 2 ^ 32 := by
  rw [narrowed, h]
  exact f32OfF64_lt bits

theorem encodeTagged_ok {payload : Bytes} (h : encode v = .ok payload) : ∃ x, encodeTagged v = .ok x := by
  rw [encodeTagged, withTag, h]
  exact ⟨_, rfl⟩

theorem float32_of_tag (h : v.valueTag = .float32Bits) : ∃ bits, v = .float32 bits := by
  cases v with
  | float32 bits => exact ⟨bits, rfl⟩
  | bool value => cases value <;> cases h
  | _ => cases h

theorem float64_of_tag (h : v.valueTag = .float64Bits) : ∃ bits, v = .float64 bits := by
  cases v with
  | float64 bits => exact ⟨bits, rfl⟩
  | bool value => cases value <;> cases h
  | _ => cases h

theorem float_of_tag (hv : v.valueTag ∈ tagsOf logical)
    (h : v.valueTag = .float32Bits ∨ v.valueTag = .float64Bits) :
    logical = .float32 ∨ logical = .float64 := by
  cases logical with
  | float32 => exact .inl rfl
  | float64 => exact .inr rfl
  | bool => rcases h with h | h <;> simp [tagsOf, h] at hv
  | _ => rcases h with h | h <;> cases h.symm.trans (mem_singleton.mp hv)

theorem bool_of_tag (h : v.valueTag = .boolFalse ∨ v.valueTag = .boolTrue) : ∃ b, v = .bool b := by
  cases v with
  | bool value => exact ⟨value, rfl⟩
  | _ => rcases h with h | h <;> cases h

theorem scalar_of_lowered (h : canonicalValue T logical literal = .ok (some w)) :
    logical ≠ .null ∧ logical ≠ .list ∧ logical ≠ .struct ∧ logical ≠ .map := by
  refine ⟨?_, ?_, ?_, ?_⟩ <;> rintro rfl <;> cases literal <;> cases h

section

variable (hv : v.valueTag ∈ tagsOf logical)
include hv

theorem tag_eq_of_mem (hw : w.valueTag ∈ tagsOf logical) (hbool : logical ≠ .bool) :
    v.valueTag = w.valueTag := by
  cases logical with
  | bool => exact absurd rfl hbool
  | _ => exact (mem_singleton.mp hv).trans (mem_singleton.mp hw).symm

theorem valuePoint_isSome
    (hscalar : logical ≠ .null ∧ logical ≠ .list ∧ logical ≠ .struct ∧ logical ≠ .map)
    (hfloat : v.valueTag = .float32Bits ∨ v.valueTag = .float64Bits → (valuePoint v).isSome) :
    (valuePoint v).isSome := by
  cases v with
  | float32 bits => exact hfloat (.inl rfl)
  | float64 bits => exact hfloat (.inr rfl)
  | null | list _ | struct _ | map _ =>
    cases logical with
    | null => exact absurd rfl hscalar.1
    | list => exact absurd rfl hscalar.2.1
    | struct => exact absurd rfl hscalar.2.2.1
    | map => exact absurd rfl hscalar.2.2.2
    | bool => rcases mem_cons.mp hv with h | h <;> simp [CanonicalValue.valueTag] at h
    | _ => cases mem_singleton.mp hv
  | _ => rfl

end

theorem compares_ofBool {c : Prop} [Decidable c] (h : SameKind a b) (hc : a = b ↔ c) :
    compares .eq a b = Truth.ofBool c := by
  rw [(compares_eq h).1, decide_eq_decide.mpr hc]

theorem same_float32_iff {a b : BitVec 32} :
    Same (.float32 a : CanonicalValue T.toTextPredicates) (.float32 b) ↔ a.toNat = b.toNat := by
  constructor
  · intro h
    cases h
    rfl
  · intro h
    obtain rfl := BitVec.eq_of_toNat_eq h
    exact .refl _

theorem same_float64_iff {a b : BitVec 64} :
    Same (.float64 a : CanonicalValue T.toTextPredicates) (.float64 b) ↔ a.toNat = b.toNat := by
  constructor
  · intro h
    cases h
    rfl
  · intro h
    obtain rfl := BitVec.eq_of_toNat_eq h
    exact .refl _

theorem same_bool_iff {a b : Bool} :
    Same (.bool a : CanonicalValue T.toTextPredicates) (.bool b) ↔ a = b := by
  constructor
  · intro h
    cases h
    rfl
  · rintro rfl
    exact .refl _

theorem comparison_canonical (ha : valuePoint v = some a)
    (hb : literalPoint logical literal = some b) (op : LowerOperator) :
    comparison logical (.canonical v) op literal = compares op a b := by
  rw [comparison, cellPoint, ha, hb]

theorem float_lowered (hlogical : logical = .float32 ∨ logical = .float64)
    (h : canonicalValue T logical literal = .ok (some w)) : ∃ bits, literal = .float64 bits ∧
      w = if logical = .float32 then .float32 (BitVec.ofNat 32 (narrowed bits.toNat))
        else .float64 bits.toBitVec := by
  rcases hlogical with rfl | rfl <;> cases literal with
  | float64 bits =>
    cases h
    exact ⟨bits, rfl, rfl⟩
  | _ => cases h

theorem bool_lowered (h : canonicalValue T .bool literal = .ok (some w)) :
    ∃ value, literal = .boolean value ∧ w = .bool value := by
  cases literal with
  | boolean value =>
    cases h
    exact ⟨value, rfl, rfl⟩
  | _ => cases h

section

variable {column : TableColumn} {c : FileCodeCanonicalLiteral}

theorem float_compares {bits : UInt64} {a b : Extended} (ha : valuePoint v = some (.number a))
    (hb : floatNumber bits.toNat = some b) (hkey : a = b ↔ x = c.key) :
    comparison logical (.canonical v) .eq (.float64 bits) = Truth.ofBool (x = c.key) := by
  have hpoint : literalPoint logical (.float64 bits) = some (.number b) := by
    rw [literalPoint, hb]
    rfl
  rw [comparison_canonical ha hpoint]
  exact compares_ofBool trivial ⟨fun h => hkey.mp (Point.number.inj h), fun h => congrArg _ (hkey.mpr h)⟩

theorem fileCode_compares (htag : v.valueTag ∈ tagsOf column.logical) (hencode : encodeTagged v = .ok x)
    (hpoint : v.valueTag = .float32Bits ∨ v.valueTag = .float64Bits → (valuePoint v).isSome)
    (hcolumn : column.physical = .fileCode) (hnan : NotNan literal)
    (hkeys : KeysAgree column (.canonical v) literal)
    (hc : canonicalLiteral T column.logical literal = .ok (some c)) :
    comparison column.logical (.canonical v) .eq literal = Truth.ofBool (x = c.key) := by
  obtain ⟨w, hw, hkey⟩ := canonicalLiteral_key hc
  have hwtag := canonicalValue_tag hw
  have hscalar := valuePoint_isSome htag (scalar_of_lowered hw) hpoint
  obtain ⟨a, ha⟩ := isSome_iff_exists.mp hscalar
  by_cases hbool : column.logical = .bool
  · rw [hbool] at htag hw ⊢
    obtain ⟨value, rfl, rfl⟩ := bool_lowered hw
    obtain ⟨p, rfl⟩ := bool_of_tag (by simpa [tagsOf] using htag)
    rw [comparison_canonical rfl rfl]
    refine compares_ofBool trivial ?_
    rw [key_eq_iff hencode hkey, same_bool_iff, Point.bool.injEq]
  by_cases hfloat : column.logical = .float32 ∨ column.logical = .float64
  · obtain ⟨bits, rfl, hlowered⟩ := float_lowered hfloat hw
    obtain ⟨b, hb⟩ := floatNumber_isSome (hnan bits rfl)
    have hagree := hkeys hcolumn bits rfl
    rcases hfloat with h32 | h64
    · obtain ⟨p, rfl⟩ := float32_of_tag (by simpa [h32, tagsOf] using htag)
      obtain ⟨n, hn, rfl⟩ := map_eq_some_iff.mp ha
      rw [h32] at hlowered hagree
      have hagree : floatNumber (f64OfF32 p.toNat) = floatNumber bits.toNat ↔
          p.toNat = narrowed bits.toNat := hagree
      rw [if_pos rfl] at hlowered
      subst hlowered
      refine float_compares ha hb ?_
      rw [key_eq_iff hencode hkey, same_float32_iff, BitVec.toNat_ofNat,
        Nat.mod_eq_of_lt (narrowed_lt (hnan bits rfl)), ← hagree, hn, hb, some.injEq]
    · obtain ⟨p, rfl⟩ := float64_of_tag (by simpa [h64, tagsOf] using htag)
      obtain ⟨n, hn, rfl⟩ := map_eq_some_iff.mp ha
      rw [h64] at hlowered hagree
      have hagree : floatNumber p.toNat = floatNumber bits.toNat ↔
          p.toNat = bits.toBitVec.toNat := hagree
      rw [if_neg (by decide)] at hlowered
      subst hlowered
      refine float_compares ha hb ?_
      rw [key_eq_iff hencode hkey, same_float64_iff, ← hagree, hn, hb, some.injEq]
  · have htags := tag_eq_of_mem htag hwtag hbool
    have hnot : v.valueTag ≠ .float32Bits ∧ v.valueTag ≠ .float64Bits :=
      ⟨fun h => hfloat (float_of_tag htag (.inl h)), fun h => hfloat (float_of_tag htag (.inr h))⟩
    have hl := canonicalValue_point hw fun h => hfloat (.inl h)
    have hsame := same_iff_point htags hscalar hnot
    obtain ⟨b, hb⟩ := isSome_iff_exists.mp
      (valuePoint_isSome hwtag (scalar_of_lowered hw) (by simp [← htags, hnot]))
    rw [comparison_canonical ha (hl.trans hb)]
    refine compares_ofBool (sameKind_values htags ha hb) ?_
    rw [key_eq_iff hencode hkey, hsame, ha, hb, some.injEq]

end

/-! Literals of numbers and of bytes. -/

theorem floatNumber_zeros : floatNumber 0 = floatNumber (2 ^ 63) := by decide +kernel

theorem normalized_number (literal : PredicateLiteral) :
    predicateNumber (PredicateLiteral.normalized literal) = predicateNumber literal := by
  cases literal with
  | float64 bits =>
    rw [PredicateLiteral.normalized]
    split
    · rename_i hzero
      rw [predicateNumber, predicateNumber]
      rcases zero_or_negative_zero bits.toNat_lt hzero with h | h
      · rw [h]
        rfl
      · rw [h]
        exact floatNumber_zeros
    · rfl
  | _ => rfl

theorem numericLiteral_point {p : PredicateLiteral} (h : numericLiteral literal = some p) :
    ∃ m, predicateNumber p = some m ∧ literalPoint logical literal = some (.number m) := by
  cases literal with
  | int128 value =>
    rw [numericLiteral] at h
    split at h
    · rename_i hrange
      cases h
      refine ⟨whole value.toInt, ?_, rfl⟩
      rw [predicateNumber, Int64.toInt_ofInt_of_le hrange.1 hrange.2]
    · cases h
  | int64 value | uint64 value =>
    cases h
    exact ⟨_, rfl, rfl⟩
  | float64 bits =>
    rw [numericLiteral] at h
    split at h
    · cases h
    · rename_i hnan
      cases h
      obtain ⟨m, hm⟩ := floatNumber_isSome (Bool.eq_false_iff.mpr hnan)
      refine ⟨m, (normalized_number _).trans hm, ?_⟩
      rw [literalPoint, hm]
      rfl
  | _ => cases h

theorem utf8Literal_point {value : Bytes} (h : utf8Literal literal = some value) :
    literalPoint .utf8 literal = some (.bytes value) := by
  cases literal with
  | utf8 text =>
    cases h
    rfl
  | _ => cases h

theorem signed_leNat_inj {a b : Bytes} (ha : a.length = 16) (hb : b.length = 16) :
    signed 128 (leNat a) = signed 128 (leNat b) ↔ a = b := by
  refine ⟨fun h => ?_, fun h => by rw [h]⟩
  have hlt : ∀ {bytes : Bytes}, bytes.length = 16 → leNat bytes < 2 ^ 128 := by
    intro bytes hlength
    have hlt := leNat_lt bytes
    rwa [hlength] at hlt
  have hnat : leNat a = leNat b := by rw [← unsigned_signed (hlt ha), ← unsigned_signed (hlt hb), h]
  rw [← leBytes_leNat a, ← leBytes_leNat b, ha, hb, hnat]

theorem bytes_compares {a b : Bytes} (ha : logicalTypeFixedWidth logical = some a.length)
    (hb : logicalTypeFixedWidth logical = some b.length) :
    compares .eq (bytesPoint logical a) (bytesPoint logical b) = Truth.ofBool (a = b) := by
  rw [bytesPoint, bytesPoint]
  split
  · rename_i hdecimal
    rw [hdecimal] at ha hb
    refine compares_ofBool trivial ?_
    rw [Point.number.injEq, whole_inj]
    exact signed_leNat_inj (some.inj ha).symm (some.inj hb).symm
  · exact compares_ofBool trivial (by rw [Point.bytes.injEq])

theorem fixedBytesLiteral_point {value : Bytes} (h : fixedBytesLiteral logical literal = some value) :
    literalPoint logical literal = some (bytesPoint logical value) ∧
      logicalTypeFixedWidth logical = some value.length := by
  obtain ⟨width, hwidth, h⟩ := bind_eq_some_iff.mp h
  obtain ⟨found, hfound, h⟩ := bind_eq_some_iff.mp h
  split at h
  · rename_i hlength
    obtain rfl := some.inj h
    refine ⟨?_, by rw [hwidth, hlength]⟩
    rw [fixedBytesValue.eq_def] at hfound
    split at hfound
    · obtain ⟨uuid, huuid, rfl⟩ := map_eq_some_iff.mp hfound
      rw [literalPoint, huuid]
      rfl
    · split at hfound
      · obtain rfl := some.inj hfound
        rfl
      · cases hfound
    · obtain rfl := some.inj hfound
      rename_i number _ _
      have hlt : number.toNat < 256 ^ 16 := number.isLt
      rw [literalPoint, bytesPoint, if_pos rfl, leNat_leBytes, signed, Nat.mod_eq_of_lt hlt,
        BitVec.ofNat_toNat, BitVec.setWidth_eq]
    · split at hfound
      · obtain rfl := some.inj hfound
        rfl
      · cases hfound
    · cases hfound
  · cases h

theorem compares_notEq (a b : Point) : compares .notEq a b = (compares .eq a b).not := by
  match a, b with
  | .number a, .number b | .bytes a, .bytes b | .bool a, .bool b =>
    by_cases h : a = b <;> simp [compares, ordered, h, Truth.ofBool, Truth.not]
  | .number _, .bytes _ | .number _, .bool _ | .bytes _, .number _ | .bytes _, .bool _
  | .bool _, .number _ | .bool _, .bytes _ => rfl

theorem comparison_notEq (cell : Cell T.toTextPredicates) :
    comparison logical cell .notEq literal = (comparison logical cell .eq literal).not := by
  rw [comparison, comparison]
  split
  · exact compares_notEq _ _
  · rfl

end

end CoveFormat.LiteralValues
