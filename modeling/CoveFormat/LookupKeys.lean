import CoveFormat.NumCodes

namespace CoveFormat.LookupKeys

open ByteCodes CoveTypes Floats JsonValue List NumCodes

variable {n : Int} {logical : CoveLogicalType} {value w : Nat}

theorem f64One_pos : 0 < f64One := Int.natCast_pos.mpr (Nat.two_pow_pos _)

/-- The float is the integer `n`. -/
def IsWhole (bits : Nat) (n : Int) : Prop :=
  f64IsFinite bits = true ∧ f64Units bits = n * f64One ∧ f64Compare (f64OfInt n) bits = some .eq

variable {low high : Int} {bits : Nat}

theorem f64ToIntExact_eq_some :
    f64ToIntExact low high bits = some n ↔ IsWhole bits n ∧ low ≤ n ∧ n < high := by
  rw [f64ToIntExact, IsWhole]
  by_cases hfinite : f64IsFinite bits = true
  · by_cases hwhole : f64Units bits % f64One = 0
    · have hvalue : f64Units bits / f64One * f64One = f64Units bits :=
        Int.ediv_mul_cancel (Int.dvd_of_emod_eq_zero hwhole)
      have hn : f64Units bits = n * f64One ↔ f64Units bits / f64One = n := by
        constructor
        · intro h
          rw [h, Int.mul_ediv_cancel _ f64One_pos.ne']
        · rintro rfl
          exact hvalue.symm
      have hlow : f64Units bits < low * f64One ↔ f64Units bits / f64One < low := by
        nth_rewrite 1 [← hvalue]
        exact Int.mul_lt_mul_right f64One_pos
      have hhigh : high * f64One ≤ f64Units bits ↔ high ≤ f64Units bits / f64One := by
        nth_rewrite 1 [← hvalue]
        exact Int.mul_le_mul_right f64One_pos
      simp only [hfinite, hwhole, hn, hlow, hhigh, Bool.not_true, bne_self_eq_false, Bool.false_or,
        Bool.or_eq_true, decide_eq_true_eq, true_and]
      split
      · constructor
        · intro h
          cases h
        · rintro ⟨⟨rfl, -⟩, hl, hh⟩
          omega
      · split
        · constructor
          · rintro ⟨⟩
            exact ⟨⟨rfl, by assumption⟩, by omega, by omega⟩
          · rintro ⟨⟨h, -⟩, -, -⟩
            rw [h]
        · constructor
          · intro h
            cases h
          · rintro ⟨⟨rfl, h⟩, -, -⟩
            contradiction
    · simp only [bne_iff_ne, ne_eq, hwhole, not_false_eq_true, Bool.or_eq_true, or_true, true_or,
        if_true, reduceCtorEq, false_iff]
      rintro ⟨⟨-, h, -⟩, -, -⟩
      exact hwhole (by rw [h, Int.mul_emod_left])
  · simp [hfinite]

variable {literal : Nat}

theorem compareNativeIntFloatLiteral_eq {value : Int} :
    compareNativeIntFloatLiteral low high value .eq literal = true ↔
      f64ToIntExact low high literal = some value := by
  rw [compareNativeIntFloatLiteral]
  by_cases hfinite : f64IsFinite literal = true
  · rw [hfinite]
    cases hexact : f64ToIntExact low high literal with
    | some n =>
      simp only [Bool.not_true, Bool.false_eq_true, if_false, compareNativeOrdered,
        decide_eq_true_eq, Option.some.injEq]
      exact eq_comm
    | none =>
      simp [belowAll, aboveAll, compareNativeIntegerToFractionalBounds]
  · have hnone : f64ToIntExact low high literal ≠ some value := by
      intro h
      exact hfinite (f64ToIntExact_eq_some.mp h).1.1
    simp [hfinite, hnone]

section

theorem typed_signed (h : signedWidth logical = some w) :
    typedNativeNumcodeValue logical value = some (.signed (signed w value)) := by
  cases logical <;> cases h <;> rfl

theorem typed_unsigned (h : unsignedWidth logical = some w) :
    typedNativeNumcodeValue logical value = some (.unsigned (value % 2 ^ w)) := by
  cases logical <;> cases h <;> rfl

theorem canonical_signed (h : signedWidth logical = some w) :
    canonicalNumcode logical value = unsigned 64 (signed w value) := by
  cases logical <;> cases h <;> rfl

theorem canonical_unsigned (h : unsignedWidth logical = some w) :
    canonicalNumcode logical value = value % 2 ^ w := by
  cases logical <;> cases h <;> rfl

theorem signedWidth_le (h : signedWidth logical = some w) : 0 < w ∧ w ≤ 64 := by
  cases logical <;> cases h <;> decide

theorem unsignedWidth_le (h : unsignedWidth logical = some w) : w ≤ 64 := by
  cases logical <;> cases h <;> decide

theorem integer_lookupKeys (h : signedWidth logical = some w ∨ unsignedWidth logical = some w)
    (literal : PredicateLiteral) :
    numericLookupKeys logical literal = (integerNumericLookupKey logical literal).toList := by
  rcases h with h | h <;> cases logical <;> cases h <;> rfl

theorem integerKey_signed (h : signedWidth logical = some w) (n : Int) : integerKey logical n =
      if -2 ^ (w - 1) ≤ n ∧ n < 2 ^ (w - 1) then some (unsigned 64 n) else none := by
  rw [integerKey, h]

theorem integerKey_unsigned (h : unsignedWidth logical = some w) (n : Int) :
    integerKey logical n = if 0 ≤ n ∧ n < 2 ^ w then some n.toNat else none := by
  cases logical <;> cases h <;> rfl

theorem signed_bounds (w n : Nat) : -2 ^ (w - 1) ≤ signed w n ∧ signed w n < 2 ^ (w - 1) :=
  ⟨BitVec.le_toInt _, BitVec.toInt_lt⟩

theorem wide_bounds (hw : w ≤ 64) (h : -2 ^ (w - 1) ≤ n ∧ n < 2 ^ (w - 1)) :
    -2 ^ 63 ≤ n ∧ n < 2 ^ 63 := by
  have hle : (2 : Int) ^ (w - 1) ≤ 2 ^ 63 := by
    exact_mod_cast Nat.pow_le_pow_right Nat.two_pos (show w - 1 ≤ 63 by omega)
  omega

variable {k : Nat}

theorem integerKey_inj {m : Int} (hn : integerKey logical n = some k)
    (hm : integerKey logical m = some k) : n = m := by
  cases hs : signedWidth logical with
  | some w =>
    rw [integerKey_signed hs, Option.ite_none_right_eq_some] at hn hm
    have hn' := wide_bounds (signedWidth_le hs).2 hn.1
    have hm' := wide_bounds (signedWidth_le hs).2 hm.1
    rw [← signed_unsigned (w := 64) (by decide) hn'.1 hn'.2, Option.some.inj hn.2,
      ← Option.some.inj hm.2, signed_unsigned (by decide) hm'.1 hm'.2]
  | none =>
    cases hu : unsignedWidth logical with
    | some w =>
      rw [integerKey_unsigned hu, Option.ite_none_right_eq_some] at hn hm
      have hnat := Option.some.inj (hn.2.trans hm.2.symm)
      omega
    | none =>
      rw [integerKey, hs, hu] at hn
      cases hn

theorem integerKey_canonical_signed (h : signedWidth logical = some w) :
    integerKey logical (signed w value) = some (canonicalNumcode logical value) := by
  rw [integerKey_signed h, if_pos (signed_bounds w value), canonical_signed h]

theorem integerKey_canonical_unsigned (h : unsignedWidth logical = some w) :
    integerKey logical (value % 2 ^ w : Nat) = some (canonicalNumcode logical value) := by
  have hlt : ((value % 2 ^ w : Nat) : Int) < 2 ^ w := by
    exact_mod_cast Nat.mod_lt _ (Nat.two_pow_pos w)
  rw [integerKey_unsigned h, if_pos ⟨Int.natCast_nonneg _, hlt⟩, canonical_unsigned h,
    Int.toNat_natCast]

theorem mem_integerKey {v : Int} (hv : integerKey logical v = some k) :
    k ∈ (integerKey logical n).toList ↔ v = n := by
  rw [Option.mem_toList]
  constructor
  · exact integerKey_inj hv
  · rintro rfl
    exact hv

end

theorem f64ToI64Exact_iff :
    f64ToI64Exact bits = some n ↔ IsWhole bits n ∧ -2 ^ 63 ≤ n ∧ n < 2 ^ 63 :=
  f64ToIntExact_eq_some

theorem f64ToU64Exact_iff : f64ToU64Exact bits = some n ↔ IsWhole bits n ∧ 0 ≤ n ∧ n < 2 ^ 64 :=
  f64ToIntExact_eq_some

theorem mem_floatKey {v : Int} {k : Nat} (hv : integerKey logical v = some k)
    (hrange : -2 ^ 63 ≤ v ∧ v < 2 ^ 64) :
    k ∈ (((f64ToI64Exact bits).bind (integerKey logical)).or
      ((f64ToU64Exact bits).bind (integerKey logical))).toList ↔ IsWhole bits v := by
  rw [Option.mem_toList, Option.or_eq_some_iff, Option.bind_eq_some_iff, Option.bind_eq_some_iff,
    Option.bind_eq_none_iff]
  constructor
  · rintro (⟨n, hn, hk⟩ | ⟨-, n, hn, hk⟩)
    · rw [integerKey_inj hv hk]
      exact (f64ToI64Exact_iff.mp hn).1
    · rw [integerKey_inj hv hk]
      exact (f64ToU64Exact_iff.mp hn).1
  · intro hwhole
    by_cases hsmall : v < 2 ^ 63
    · exact .inl ⟨v, f64ToI64Exact_iff.mpr ⟨hwhole, hrange.1, hsmall⟩, hv⟩
    · refine .inr ⟨fun n hn => ?_, v, f64ToU64Exact_iff.mpr ⟨hwhole, by omega, hrange.2⟩, hv⟩
      obtain ⟨⟨-, hunits, -⟩, -, hlt⟩ := f64ToI64Exact_iff.mp hn
      have hsame : n * f64One = v * f64One := hunits.symm.trans hwhole.2.1
      have heq := Int.eq_of_mul_eq_mul_right f64One_pos.ne' hsame
      omega

theorem signed_lookup (h : signedWidth logical = some w) (value : Nat) (literal : PredicateLiteral) :
    canonicalNumcode logical value ∈ numericLookupKeys logical literal ↔
      compareNativeNumcodeValue logical value .eq literal = some true := by
  have hcode : integerKey logical (signed w value) = some (canonicalNumcode logical value) :=
    integerKey_canonical_signed h
  have hrange := wide_bounds (signedWidth_le h).2 (signed_bounds w value)
  rw [integer_lookupKeys (.inl h), compareNativeNumcodeValue, typed_signed h, Option.map_some,
    Option.some.injEq]
  cases literal with
  | int64 n =>
    exact (mem_integerKey hcode).trans decide_eq_true_iff.symm
  | uint64 n =>
    refine (mem_integerKey hcode).trans ?_
    simp only [compareNativeTypedNumericValue, compareNativeSignedNumericValue,
      compareNativeSignedUnsigned, aboveAll, compareNativeOrdered]
    split
    · simp only [Bool.false_eq_true, iff_false]
      omega
    · exact decide_eq_true_iff.symm
  | float64 bits =>
    refine (mem_floatKey hcode ⟨hrange.1, by omega⟩).trans ?_
    refine Iff.trans ?_ compareNativeIntFloatLiteral_eq.symm
    rw [f64ToIntExact_eq_some]
    exact (and_iff_left hrange).symm

theorem unsigned_lookup (h : unsignedWidth logical = some w) (value : Nat)
    (literal : PredicateLiteral) :
    canonicalNumcode logical value ∈ numericLookupKeys logical literal ↔
      compareNativeNumcodeValue logical value .eq literal = some true := by
  have hcode : integerKey logical (value % 2 ^ w : Nat) = some (canonicalNumcode logical value) :=
    integerKey_canonical_unsigned h
  have hlt : value % 2 ^ w < 2 ^ 64 :=
    Nat.lt_of_lt_of_le (Nat.mod_lt _ (Nat.two_pow_pos w))
      (Nat.pow_le_pow_right Nat.two_pos (unsignedWidth_le h))
  rw [integer_lookupKeys (.inr h), compareNativeNumcodeValue, typed_unsigned h, Option.map_some,
    Option.some.injEq]
  cases literal with
  | int64 n =>
    refine (mem_integerKey hcode).trans ?_
    simp only [compareNativeTypedNumericValue, compareNativeUnsignedNumericValue, belowAll,
      compareNativeOrdered]
    split
    · simp only [Bool.false_eq_true, iff_false]
      omega
    · exact decide_eq_true_iff.symm
  | uint64 n =>
    exact (mem_integerKey hcode).trans decide_eq_true_iff.symm
  | float64 bits =>
    have hrange : (0 : Int) ≤ (value % 2 ^ w : Nat) ∧ ((value % 2 ^ w : Nat) : Int) < 2 ^ 64 := by
      omega
    refine (mem_floatKey hcode ⟨by omega, hrange.2⟩).trans ?_
    refine Iff.trans ?_ compareNativeIntFloatLiteral_eq.symm
    rw [f64ToIntExact_eq_some]
    exact (and_iff_left hrange).symm

variable {lhs rhs : Nat}

theorem f64Compare_eq_iff : f64Compare lhs rhs = some .eq ↔
    (f64IsNan lhs = false ∧ f64IsNan rhs = false) ∧ f64Key lhs = f64Key rhs := by
  rw [f64Compare]
  split
  · rename_i h
    simp only [reduceCtorEq, false_iff, not_and]
    intro hnan
    simp [hnan] at h
  · rename_i h
    rw [Bool.not_eq_true, Bool.or_eq_false_iff] at h
    simp [h, Std.LawfulEqCmp.compare_eq_iff_eq]

theorem f64Key_eq_iff (hl : lhs < 2 ^ 64) (hr : rhs < 2 ^ 64) :
    f64Key lhs = f64Key rhs ↔ lhs = rhs ∨ f64Magnitude lhs = 0 ∧ f64Magnitude rhs = 0 := by
  rw [f64Key, f64Key, f64Magnitude, f64Magnitude]
  split <;> split <;> omega

theorem f64Units_one : f64Units (f64OfNat 1) = f64One := by
  have hmagnitude : f64Magnitude (f64OfNat 1) = 2 ^ 52 + 1022 * 2 ^ 52 := by decide
  have hunits : decodeUnits 52 (f64Magnitude (f64OfNat 1)) = 2 ^ f64OneLog := by
    have hexponent : 52 + 1022 = f64OneLog := rfl
    rw [hmagnitude, decodeUnits_normal (Nat.le_refl _) (by decide), ← Nat.pow_add 2 52 1022,
      hexponent]
  have hpositive : f64IsNegative (f64OfNat 1) = false := by decide
  rw [f64Units, hpositive, hunits, if_neg Bool.false_ne_true, f64One]

theorem f64OfInt_natCast (n : Nat) : f64OfInt n = f64OfNat n := by
  rw [f64OfInt, if_neg (Int.not_lt.mpr (Int.natCast_nonneg n)), Int.natAbs_natCast]

theorem isWhole_of_small {n : Nat} (hn : n = 0 ∨ n = 1) (hbits : bits < 2 ^ 64) :
    IsWhole bits n ↔ f64Compare bits (f64OfNat n) = some .eq := by
  constructor
  · rintro ⟨-, -, hcompare⟩
    rw [f64Compare_swap, ← f64OfInt_natCast, hcompare]
    rfl
  · intro h
    obtain ⟨-, hkey⟩ := f64Compare_eq_iff.mp h
    rcases hn with rfl | rfl
    · rw [f64Key_eq_iff hbits (by decide)] at hkey
      have hmagnitude : f64Magnitude bits = 0 := hkey.elim (fun e => e ▸ rfl) And.left
      have hcases : bits = 0 ∨ bits = 2 ^ 63 := by
        rw [f64Magnitude] at hmagnitude
        omega
      rw [IsWhole, Int.natCast_zero, Int.zero_mul]
      rcases hcases with rfl | rfl <;> exact ⟨by decide, by decide, by decide⟩
    · rw [f64Key_eq_iff hbits (by decide)] at hkey
      have hone : bits = f64OfNat 1 := by
        rcases hkey with h | ⟨-, h⟩
        · exact h
        · exact absurd h (by decide)
      subst hone
      rw [IsWhole, f64Units_one, Int.natCast_one, Int.one_mul]
      exact ⟨by decide, rfl, by decide⟩

theorem bool_lookup (value : Nat) (literal : PredicateLiteral) :
    canonicalNumcode .bool value ∈ numericLookupKeys .bool literal ↔
      compareNativeNumcodeValue .bool value .eq literal = some true := by
  by_cases hbool : value = 0 ∨ value = 1
  · have htyped : typedNativeNumcodeValue .bool value = some (.unsigned value) := by
      rcases hbool with rfl | rfl <;> rfl
    rw [compareNativeNumcodeValue, htyped, Option.map_some, Option.some.injEq]
    cases literal with
    | int64 n =>
      have h0 : n = 0 ↔ n.toInt = 0 := Int64.toInt_inj.symm
      have h1 : n = 1 ↔ n.toInt = 1 := Int64.toInt_inj.symm
      simp only [canonicalNumcode, signedWidth, unsignedWidth, numericLookupKeys,
        boolNumericLookupKey, h0, h1, compareNativeTypedNumericValue,
        compareNativeUnsignedNumericValue, belowAll, compareNativeOrdered]
      split
      · split <;> (simp; omega)
      · split <;> split <;> simp <;> omega
    | uint64 n =>
      have h0 : n = 0 ↔ n.toNat = 0 := UInt64.toNat_inj.symm
      have h1 : n = 1 ↔ n.toNat = 1 := UInt64.toNat_inj.symm
      simp only [canonicalNumcode, signedWidth, unsignedWidth, numericLookupKeys,
        boolNumericLookupKey, h0, h1, compareNativeTypedNumericValue,
        compareNativeUnsignedNumericValue, compareNativeOrdered]
      split
      · simp
        omega
      · split
        · simp
          omega
        · simp
          omega
    | float64 bits =>
      have hwhole : compareNativeTypedNumericValue (.unsigned value) .eq (.float64 bits) = true ↔
          IsWhole bits.toNat value := by
        refine compareNativeIntFloatLiteral_eq.trans ?_
        rw [f64ToIntExact_eq_some]
        exact and_iff_left ⟨by omega, by omega⟩
      have hne : ∀ {n m : Nat}, f64Compare bits.toNat (f64OfNat n) = some .eq →
          f64Compare bits.toNat (f64OfNat m) = some .eq → f64Key (f64OfNat n) = f64Key (f64OfNat m) := by
        intro n m hn hm
        exact (f64Compare_eq_iff.mp hn).2.symm.trans (f64Compare_eq_iff.mp hm).2
      rw [hwhole, isWhole_of_small hbool bits.toNat_lt]
      simp only [canonicalNumcode, signedWidth, unsignedWidth, numericLookupKeys,
        boolNumericLookupKey]
      split
      · rename_i h0
        rcases hbool with rfl | rfl
        · simp [h0]
        · have h1 : f64Compare bits.toNat (f64OfNat 1) ≠ some .eq := by
            intro h1
            exact absurd (hne h0 h1) (by decide)
          simp [h1]
      · split
        · rename_i h0 h1
          rcases hbool with rfl | rfl
          · simp [h0]
          · simp [h1]
        · rename_i h0 h1
          rcases hbool with rfl | rfl
          · simp [h0]
          · simp [h1]
  · rw [not_or] at hbool
    have htyped : typedNativeNumcodeValue .bool value = none := by
      simp [typedNativeNumcodeValue, hbool]
    have hkeys : ∀ key ∈ (boolNumericLookupKey literal).toList, key = 0 ∨ key = 1 := by
      intro key h
      rw [Option.mem_toList] at h
      cases literal <;> simp only [boolNumericLookupKey] at h <;> split at h <;> simp_all
    rw [compareNativeNumcodeValue, htyped]
    simp only [Option.map_none, reduceCtorEq, iff_false]
    intro h
    exact absurd (hkeys value h) (by omega)

theorem compareNativeFloats_eq {left right : Nat} :
    compareNativeFloats left .eq right = true ↔ f64Compare left right = some .eq := by
  rw [compareNativeFloats]
  split <;> rename_i h <;> simp [h]

theorem f64OfNat_lt {n : Nat} (h : n < 2 ^ 64) : f64OfNat n < 2 ^ 63 := by
  rw [f64OfNat]
  split
  · decide
  · rename_i hzero
    have hlog : Nat.log2 n < 64 := (Nat.log2_lt hzero).mpr h
    have htop : n < 2 ^ (Nat.log2 n + 1) := Nat.lt_log2_self
    have hmantissa : ∀ m, m ≤ 2 ^ 53 → (Nat.log2 n + 1023) * 2 ^ 52 + (m - 2 ^ 52) < 2 ^ 63 := by
      intro m hm
      omega
    apply hmantissa
    split
    · rename_i hsmall
      have hexponent : Nat.log2 n + 1 + (52 - Nat.log2 n) = 53 := by omega
      rw [← hexponent, Nat.pow_add]
      exact Nat.mul_le_mul_right _ htop.le
    · rename_i hlarge
      have hexponent : 53 + (Nat.log2 n - 52) = Nat.log2 n + 1 := by omega
      have hquotient : n / 2 ^ (Nat.log2 n - 52) < 2 ^ 53 := by
        rwa [Nat.div_lt_iff_lt_mul (Nat.two_pow_pos _), ← Nat.pow_add, hexponent]
      dsimp only
      split <;> omega

variable {original : Nat}

theorem predicateLiteralAsF64_lt {literal : PredicateLiteral}
    (h : predicateLiteralAsF64 literal = some original) : original < 2 ^ 64 := by
  cases literal with
  | int64 n =>
    have hbound := n.toInt_lt
    have hbound' := n.le_toInt
    have hmagnitude : f64OfNat n.toInt.natAbs < 2 ^ 63 := f64OfNat_lt (by omega)
    rw [predicateLiteralAsF64, Option.some.injEq, f64OfInt] at h
    split at h <;> omega
  | uint64 n =>
    have hmagnitude := f64OfNat_lt n.toNat_lt
    rw [predicateLiteralAsF64, Option.some.injEq] at h
    omega
  | float64 bits =>
    rw [predicateLiteralAsF64, Option.ite_none_left_eq_some, Option.some.injEq] at h
    exact h.2 ▸ bits.toNat_lt

theorem f64IsFinite_iff : f64IsFinite bits = true ↔ bits % 2 ^ 63 < 0x7ff0000000000000 :=
  decide_eq_true_iff

theorem f64IsInfinite_iff : f64IsInfinite bits = true ↔ bits % 2 ^ 63 = 0x7ff0000000000000 :=
  beq_iff_eq

theorem f64IsNan_eq_false : f64IsNan bits = false ↔ ¬ 0x7ff0000000000000 < bits % 2 ^ 63 :=
  decide_eq_false_iff_not

theorem f64IsNan_of_finite (h : f64IsFinite bits = true) : f64IsNan bits = false := by
  rw [f64IsFinite_iff] at h
  rw [f64IsNan_eq_false]
  omega

theorem f64_finite_or_infinite (h : f64IsNan bits = false) :
    f64IsFinite bits = true ∨ f64IsInfinite bits = true := by
  rw [f64IsNan_eq_false] at h
  rw [f64IsFinite_iff, f64IsInfinite_iff]
  omega

theorem float64_compare : compareNativeFloats
    (if f64IsNan value then f64Nan else value) .eq literal = true ↔
      f64Compare value literal = some .eq := by
  rw [compareNativeFloats_eq]
  split
  · rename_i hnan
    simp [f64Compare_eq_iff, hnan, show f64IsNan f64Nan = true by decide]
  · rfl

theorem float64_lookup (hvalue : value < 2 ^ 64) (literal : PredicateLiteral) :
    (numericLookupKeys .float64 literal ≠ [] → (value ∈ numericLookupKeys .float64 literal ↔
        compareNativeNumcodeValue .float64 value .eq literal = some true)) ∧
    (numericLookupKeys .float64 literal = [] →
      compareNativeNumcodeValue .float64 value .eq literal = some true →
        f64IsInfinite value = true) := by
  rw [compareNativeNumcodeValue, typedNativeNumcodeValue, Option.map_some, Option.some.injEq]
  cases horiginal : predicateLiteralAsF64 literal with
  | none => simp [numericLookupKeys, horiginal, compareNativeTypedNumericValue]
  | some original =>
    have hlt := predicateLiteralAsF64_lt horiginal
    simp only [numericLookupKeys, horiginal, compareNativeTypedNumericValue, float64_compare]
    by_cases hfinite : f64IsFinite original = true
    · have hnan := f64IsNan_of_finite hfinite
      have hiff : value ∈ (if f64Magnitude original = 0 then [0, 2 ^ 63] else [original]) ↔
          f64Compare value original = some .eq := by
        rw [f64Compare_eq_iff, f64Key_eq_iff hvalue hlt]
        by_cases hzero : f64Magnitude original = 0
        · rw [if_pos hzero]
          simp only [f64IsNan_eq_false, f64Magnitude, mem_cons, not_mem_nil,
            or_false] at hzero hnan ⊢
          omega
        · rw [if_neg hzero, mem_singleton]
          constructor
          · rintro rfl
            exact ⟨⟨hnan, hnan⟩, .inl rfl⟩
          · rintro ⟨-, h | h⟩
            · exact h
            · exact absurd h.2 hzero
      refine ⟨fun _ => by simpa [hfinite] using hiff, fun h => ?_⟩
      simp only [hfinite, Bool.not_true, Bool.false_eq_true, if_false] at h
      split at h <;> cases h
    · refine ⟨fun h => by simp [hfinite] at h, fun _ h => ?_⟩
      obtain ⟨⟨hleft, hright⟩, hkey⟩ := f64Compare_eq_iff.mp h
      have hinfinite := (f64_finite_or_infinite hright).resolve_left hfinite
      rcases (f64Key_eq_iff hvalue hlt).mp hkey with rfl | ⟨-, hzero⟩
      · exact hinfinite
      · rw [f64IsInfinite, hzero] at hinfinite
        exact absurd hinfinite (by decide)

theorem f32IsFinite_iff : f32IsFinite bits = true ↔ bits % 2 ^ 31 < 0x7f800000 :=
  decide_eq_true_iff

theorem f64OfF32_lt : f64OfF32 bits < 2 ^ 64 := by
  by_cases hfinite : f32IsFinite bits = true
  · have hmagnitude := (widened_magnitude (f32IsFinite_iff.mp hfinite)).1
    rw [f64Infinity] at hmagnitude
    rw [f64OfF32_finite hfinite]
    split <;> omega
  · have hlarge : ¬ bits % 2 ^ 31 < f32Infinity := fun h => hfinite (f32IsFinite_iff.mpr h)
    rw [f64OfF32, if_neg hlarge]
    dsimp only [f64Infinity, f32Infinity]
    split <;> omega

/-- The keys of a float literal on a `float32` column. -/
def float32Keys (original : Nat) : List Nat :=
  if !f32IsFinite (f32OfF64 original) ||
      f64Compare (f64OfF32 (f32OfF64 original)) original ≠ some .eq then []
  else if f32OfF64 original % 2 ^ 31 = 0 then [0, 2 ^ 31]
  else [f32OfF64 original]

theorem zero_or_negative_zero (hbits : bits < 2 ^ 64) (h : f64Magnitude bits = 0) :
    bits = 0 ∨ bits = 2 ^ 63 := by
  rw [f64Magnitude] at h
  omega

theorem f32OfF64_lt (bits : Nat) : f32OfF64 bits < 2 ^ 32 := by
  rw [f32OfF64]
  have hinfinity : f32Infinity < 2 ^ 31 := by decide
  split <;> split <;> omega

theorem f64OfF32_zero : f64OfF32 0 = 0 := by decide +kernel

theorem f64OfF32_negative_zero : f64OfF32 (2 ^ 31) = 2 ^ 63 := by decide +kernel

theorem f32OfF64_zero : f32OfF64 0 = 0 := by decide +kernel

theorem f32OfF64_negative_zero : f32OfF64 (2 ^ 63) = 2 ^ 31 := by decide +kernel

variable {code : Nat}

theorem f64OfF32_zeros (h : code = 0 ∨ code = 2 ^ 31) :
    f64OfF32 code = 0 ∨ f64OfF32 code = 2 ^ 63 := by
  rcases h with rfl | rfl
  · exact .inl f64OfF32_zero
  · exact .inr f64OfF32_negative_zero

theorem mem_float32Keys (hcode : code < 2 ^ 32) (horiginal : original < 2 ^ 64)
    (hfinite : f32IsFinite code = true) (h : f64Compare (f64OfF32 code) original = some .eq) :
    code ∈ float32Keys original := by
  obtain ⟨hnan, hkey⟩ := f64Compare_eq_iff.mp h
  have hround := f32OfF64_f64OfF32 hcode hfinite
  rcases (f64Key_eq_iff f64OfF32_lt horiginal).mp hkey with heq | ⟨hwide, hzero⟩
  · rw [← heq] at h
    simp only [float32Keys, ← heq, hround, hfinite, h, Bool.not_true, ne_eq, not_true_eq_false,
      decide_false, Bool.or_false, Bool.false_eq_true, if_false]
    split
    · rename_i hzero
      simp only [mem_cons, not_mem_nil, or_false]
      omega
    · exact mem_singleton_self _
  · have hkeys : float32Keys original = [0, 2 ^ 31] := by
      rcases zero_or_negative_zero horiginal hzero with rfl | rfl <;> decide +kernel
    have hzeros : code = 0 ∨ code = 2 ^ 31 := by
      rcases zero_or_negative_zero f64OfF32_lt hwide with hw | hw
      · rw [hw] at hround
        exact .inl (hround.symm.trans f32OfF64_zero)
      · rw [hw] at hround
        exact .inr (hround.symm.trans f32OfF64_negative_zero)
    rw [hkeys]
    simpa using hzeros

theorem of_mem_float32Keys (h : code ∈ float32Keys original) :
    f32IsFinite code = true ∧ f64Compare (f64OfF32 code) original = some .eq := by
  rw [float32Keys, mem_ite_nil_left] at h
  obtain ⟨hcond, hmem⟩ := h
  simp only [ne_eq, Bool.or_eq_true, Bool.not_eq_true', decide_eq_true_eq, not_or, not_not,
    Bool.not_eq_false] at hcond
  obtain ⟨hfinite, hcompare⟩ := hcond
  split at hmem
  · -- both zeros are posted codes of a zero literal
    obtain ⟨⟨-, hright⟩, hkey⟩ := f64Compare_eq_iff.mp hcompare
    have hcode : code = 0 ∨ code = 2 ^ 31 := by simpa using hmem
    have hkeys : ∀ bits, bits = 0 ∨ bits = 2 ^ 63 → f64IsNan bits = false ∧ f64Key bits = 0 := by
      rintro bits (rfl | rfl) <;> exact ⟨by decide, by decide⟩
    have hround : f32OfF64 original = 0 ∨ f32OfF64 original = 2 ^ 31 := by
      have hlt := f32OfF64_lt original
      omega
    obtain ⟨hleft, hzeroKey⟩ := hkeys _ (f64OfF32_zeros hcode)
    refine ⟨?_, f64Compare_eq_iff.mpr ⟨⟨hleft, hright⟩, ?_⟩⟩
    · rcases hcode with rfl | rfl <;> decide
    · rw [hzeroKey, ← hkey, (hkeys _ (f64OfF32_zeros hround)).2]
  · rw [mem_singleton] at hmem
    exact hmem ▸ ⟨hfinite, hcompare⟩

theorem float32_compare : compareNativeFloats
    (if f32IsNan code then f64Nan else f64OfF32 code) .eq literal = true ↔
      f32IsNan code = false ∧ f64Compare (f64OfF32 code) literal = some .eq := by
  rw [compareNativeFloats_eq]
  split
  · rename_i hnan
    simp [f64Compare_eq_iff, hnan, show f64IsNan f64Nan = true by decide]
  · rename_i hnan
    simp [hnan]

theorem f32_finite_or_infinite (h : f32IsNan bits = false) :
    f32IsFinite bits = true ∨ f32IsInfinite bits = true := by
  have hle : ¬ f32Infinity < bits % 2 ^ 31 := decide_eq_false_iff_not.mp h
  have heq : f32IsInfinite bits = true ↔ bits % 2 ^ 31 = f32Infinity := beq_iff_eq
  rw [f32IsFinite_iff, heq]
  rw [f32Infinity] at hle ⊢
  omega

theorem float32Keys_of_infinite (horiginal : original < 2 ^ 64)
    (hinfinite : f32IsInfinite code = true) (h : f64Compare (f64OfF32 code) original = some .eq) :
    float32Keys original = [] := by
  have hcode : code % 2 ^ 31 = f32Infinity := beq_iff_eq.mp hinfinite
  have hlarge : ¬ code % 2 ^ 31 < f32Infinity := by omega
  have hwide : f64OfF32 code = f64Infinity ∨ f64OfF32 code = 2 ^ 63 + f64Infinity := by
    rw [f64OfF32, if_neg hlarge, hcode, Nat.sub_self, Nat.zero_mul]
    split
    · exact .inr rfl
    · exact .inl (Nat.zero_add _)
  obtain ⟨-, hkey⟩ := f64Compare_eq_iff.mp h
  have heq : f64OfF32 code = original := by
    rcases (f64Key_eq_iff f64OfF32_lt horiginal).mp hkey with heq | ⟨hzero, -⟩
    · exact heq
    · rcases hwide with hw | hw <;> rw [hw] at hzero <;> exact absurd hzero (by decide)
  rw [heq] at hwide
  rcases hwide with rfl | rfl <;> decide +kernel

theorem float32_lookup (value : Nat) (literal : PredicateLiteral) :
    (numericLookupKeys .float32 literal ≠ [] →
      (value % 2 ^ 32 ∈ numericLookupKeys .float32 literal ↔
        compareNativeNumcodeValue .float32 value .eq literal = some true)) ∧
    (numericLookupKeys .float32 literal = [] →
      compareNativeNumcodeValue .float32 value .eq literal = some true →
        f32IsInfinite value = true) := by
  rw [compareNativeNumcodeValue, typedNativeNumcodeValue, Option.map_some, Option.some.injEq]
  have hcode : value % 2 ^ 32 < 2 ^ 32 := Nat.mod_lt _ (by decide)
  have hsame : f32IsInfinite value = f32IsInfinite (value % 2 ^ 32) := by
    rw [f32IsInfinite, f32IsInfinite, Nat.mod_mod_of_dvd _ (by decide)]
  rw [hsame]
  cases horiginal : predicateLiteralAsF64 literal with
  | none => simp [numericLookupKeys, horiginal, compareNativeTypedNumericValue]
  | some original =>
    have hlt := predicateLiteralAsF64_lt horiginal
    have hkeys : numericLookupKeys .float32 literal = float32Keys original := by
      simp only [numericLookupKeys, horiginal]
      rfl
    simp only [hkeys, compareNativeTypedNumericValue, horiginal, float32_compare]
    constructor
    · intro hsome
      constructor
      · intro hmem
        obtain ⟨hfinite, hcompare⟩ := of_mem_float32Keys hmem
        refine ⟨?_, hcompare⟩
        rw [f32IsFinite_iff] at hfinite
        exact decide_eq_false_iff_not.mpr (by rw [f32Infinity]; omega)
      · rintro ⟨hnan, hcompare⟩
        rcases f32_finite_or_infinite hnan with hfinite | hinfinite
        · exact mem_float32Keys hcode hlt hfinite hcompare
        · exact absurd (float32Keys_of_infinite hlt hinfinite hcompare) hsome
    · rintro hnone ⟨hnan, hcompare⟩
      refine (f32_finite_or_infinite hnan).resolve_left fun hfinite => ?_
      have hmem := mem_float32Keys hcode hlt hfinite hcompare
      rw [hnone] at hmem
      cases hmem

/-- Where a literal has lookup keys, they hold the canonical codes of exactly the numbers equal to
it; where it has none, only an infinite number equals it. -/
def LookupAgrees (logical : CoveLogicalType) (value : Nat) (literal : PredicateLiteral) : Prop :=
  (numericLookupKeys logical literal ≠ [] →
    (canonicalNumcode logical value ∈ numericLookupKeys logical literal ↔
      compareNativeNumcodeValue logical value .eq literal = some true)) ∧
  (numericLookupKeys logical literal = [] →
    compareNativeNumcodeValue logical value .eq literal = some true →
      numcodeIsInfinite logical value = true)

theorem LookupAgrees.of_iff {literal : PredicateLiteral}
    (h : canonicalNumcode logical value ∈ numericLookupKeys logical literal ↔
      compareNativeNumcodeValue logical value .eq literal = some true) :
    LookupAgrees logical value literal := by
  refine ⟨fun _ => h, fun hnone htrue => ?_⟩
  have hmem := h.mpr htrue
  rw [hnone] at hmem
  cases hmem

theorem integerNumericLookupKey_none (hsigned : signedWidth logical = none)
    (hunsigned : unsignedWidth logical = none) (literal : PredicateLiteral) :
      integerNumericLookupKey logical literal = none := by
  have hkey : ∀ n, integerKey logical n = none := by
    intro n
    rw [integerKey, hsigned, hunsigned]
  cases literal with
  | int64 n | uint64 n => exact hkey _
  | float64 bits =>
    have hbind : ∀ n : Option Int, n.bind (integerKey logical) = none := by
      intro n
      rw [Option.bind_eq_none_iff]
      exact fun m _ => hkey m
    simp only [integerNumericLookupKey, signedLiteralLookupKey, unsignedLiteralLookupKey, hbind,
      Option.or_none]

theorem lookupAgrees (logical : CoveLogicalType) (hvalue : value < 2 ^ 64)
    (literal : PredicateLiteral) : LookupAgrees logical value literal := by
  cases hsigned : signedWidth logical with
  | some w => exact .of_iff (signed_lookup hsigned value literal)
  | none =>
    cases hunsigned : unsignedWidth logical with
    | some w => exact .of_iff (unsigned_lookup hunsigned value literal)
    | none =>
      have hnone := integerNumericLookupKey_none hsigned hunsigned literal
      have hunnumbered : numericLookupKeys logical literal =
          (integerNumericLookupKey logical literal).toList →
          typedNativeNumcodeValue logical value = none → LookupAgrees logical value literal := by
        intro hkeys htyped
        rw [hnone] at hkeys
        refine ⟨fun h => absurd hkeys h, fun _ htrue => ?_⟩
        rw [compareNativeNumcodeValue, htyped] at htrue
        cases htrue
      cases logical
      case bool => exact .of_iff (bool_lookup value literal)
      case float32 => exact float32_lookup value literal
      case float64 => exact float64_lookup hvalue literal
      all_goals first
        | exact absurd hsigned (by decide)
        | exact absurd hunsigned (by decide)
        | exact hunnumbered rfl rfl

theorem infinite_not_key (h : numcodeIsInfinite logical value = true) (literal : PredicateLiteral) :
    canonicalNumcode logical value ∉ numericLookupKeys logical literal := by
  intro hmem
  cases logical
  case float32 =>
    have hkeys : canonicalNumcode .float32 value = value % 2 ^ 32 := rfl
    rw [hkeys, numericLookupKeys] at hmem
    cases horiginal : predicateLiteralAsF64 literal with
    | none => simp [horiginal] at hmem
    | some original =>
      rw [horiginal] at hmem
      change value % 2 ^ 32 ∈ float32Keys original at hmem
      have hfinite := f32IsFinite_iff.mp (of_mem_float32Keys hmem).1
      have hinfinite : value % 2 ^ 31 = 0x7f800000 := beq_iff_eq.mp h
      omega
  case float64 =>
    have hkeys : canonicalNumcode .float64 value = value := rfl
    have hinfinite := f64IsInfinite_iff.mp h
    rw [hkeys, numericLookupKeys] at hmem
    cases horiginal : predicateLiteralAsF64 literal with
    | none => simp [horiginal] at hmem
    | some original =>
      rw [horiginal] at hmem
      by_cases hfinite : f64IsFinite original = true
      · simp only [hfinite, Bool.not_true, Bool.false_eq_true, if_false] at hmem
        rw [f64IsFinite_iff] at hfinite
        split at hmem <;> simp only [mem_cons, not_mem_nil, or_false] at hmem <;> omega
      · simp [hfinite] at hmem
  all_goals cases h

variable {key : Nat}

theorem mem_foldl_insert (added keys : List Nat) :
    key ∈ added.foldl (fun keys key => if key ∈ keys then keys else keys ++ [key]) keys ↔
      key ∈ keys ∨ key ∈ added := by
  induction added generalizing keys with
  | nil => simp
  | cons k added ih =>
    rw [foldl_cons, ih, mem_cons]
    split
    · rename_i hk
      constructor
      · rintro (h | h)
        · exact .inl h
        · exact .inr (.inr h)
      · rintro (h | rfl | h)
        · exact .inl h
        · exact .inl hk
        · exact .inr h
    · rw [mem_append, mem_singleton, or_assoc]

theorem mem_numericInLookupKeys {literals : List PredicateLiteral} :
    key ∈ numericInLookupKeys logical literals ↔
      ∃ literal ∈ literals, key ∈ numericLookupKeys logical literal := by
  have hfold : ∀ keys : List Nat, key ∈ literals.foldl (fun keys literal =>
      (numericLookupKeys logical literal).foldl
        (fun keys key => if key ∈ keys then keys else keys ++ [key]) keys) keys ↔
      key ∈ keys ∨ ∃ literal ∈ literals, key ∈ numericLookupKeys logical literal := by
    induction literals with
    | nil => simp
    | cons literal literals ih =>
      intro keys
      rw [foldl_cons, ih, mem_foldl_insert, or_assoc]
      simp only [mem_cons, exists_eq_or_imp]
  rw [numericInLookupKeys, hfold]
  simp

end CoveFormat.LookupKeys
