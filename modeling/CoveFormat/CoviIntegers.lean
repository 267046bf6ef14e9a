import CoveFormat.CoviAnswers

namespace CoveFormat.CoviIntegers

open ByteCodes Canonical CanonicalValidator CoviAnswers CoviBuilds CoviComparators CoviKeys
  ExceptRules MetadataAggregates Wire

variable {value other : Int}

section

variable (t : IntegerType)

/-- The least number of a type of the given width. -/
def lowOf (width : Nat) : Int := if t.isSigned then -2 ^ (8 * width - 1) else 0

/-- The number behind the largest of a type of the given width. -/
def highOf (width : Nat) : Int := if t.isSigned then 2 ^ (8 * width - 1) else 2 ^ (8 * width)

/-- The numbers of the type. -/
def Fits (value : Int) : Prop := lowOf t t.width ≤ value ∧ value < highOf t t.width

/-- The numbers of the type of eight bytes, in which sums are stored. -/
def FitsSum (value : Int) : Prop := lowOf t 8 ≤ value ∧ value < highOf t 8

instance (value : Int) : Decidable (Fits t value) := inferInstanceAs (Decidable (_ ∧ _))

def integerTag : ValueTag := if t.isSigned then .int64 else .uint64

def integerPayload (value : Int) : Bytes := leBytes 8 (unsigned 64 value)

def keyOf (value : Int) : Bytes := taggedKey (integerTag t).code (integerPayload value)

def payloadNumber (payload : Bytes) : Int :=
  if t.isSigned then signed 64 (leNat payload) else (leNat payload : Nat)

variable {t}

theorem Fits.sum (h : Fits t value) : FitsSum t value := by
  obtain ⟨hl, hh⟩ := h
  cases t <;> simp only [lowOf, highOf, IntegerType.isSigned, IntegerType.width, FitsSum] at hl hh ⊢ <;>
    norm_num at hl hh ⊢ <;> omega

theorem fitsSum_signed (hs : t.isSigned = true) : FitsSum t value ↔ -2 ^ 63 ≤ value ∧ value < 2 ^ 63 := by
  rw [FitsSum, lowOf, highOf, if_pos hs, if_pos hs]

theorem fitsSum_unsigned (hs : t.isSigned = false) : FitsSum t value ↔ 0 ≤ value ∧ value < 2 ^ 64 := by
  rw [FitsSum, lowOf, highOf, hs, if_neg Bool.false_ne_true, if_neg Bool.false_ne_true]

theorem payloadNumber_signed (hs : t.isSigned = true) (payload : Bytes) :
    payloadNumber t payload = signed 64 (leNat payload) := if_pos hs

theorem payloadNumber_unsigned (hs : t.isSigned = false) (payload : Bytes) :
    payloadNumber t payload = (leNat payload : Nat) := by
  rw [payloadNumber, hs, if_neg Bool.false_ne_true]

theorem integerPayload_length : (integerPayload value).length = 8 := leBytes_length 8 _

theorem leNat_integerPayload (value : Int) : leNat (integerPayload value) = unsigned 64 value := by
  rw [integerPayload, leNat_leBytes]
  exact Nat.mod_eq_of_lt (unsigned_lt 64 value)

theorem unsigned_of_nonneg (h0 : 0 ≤ value) (h : value < 2 ^ 64) : unsigned 64 value = value.toNat := by
  exact congrArg Int.toNat (Int.emod_eq_of_lt h0 h)

theorem payloadNumber_integerPayload (h : FitsSum t value) :
    payloadNumber t (integerPayload value) = value := by
  cases hs : t.isSigned
  · obtain ⟨hl, hh⟩ := (fitsSum_unsigned hs).mp h
    rw [payloadNumber_unsigned hs, leNat_integerPayload, unsigned_of_nonneg hl hh, Int.toNat_of_nonneg hl]
  · obtain ⟨hl, hh⟩ := (fitsSum_signed hs).mp h
    rw [payloadNumber_signed hs, leNat_integerPayload]
    exact signed_unsigned (by decide) hl hh

theorem integerKey_of_fits (h : Fits t value) : integerKey t value = .ok (keyOf t value) := by
  have hw : t.width = 1 ∨ t.width = 2 ∨ t.width = 4 ∨ t.width = 8 := by cases t <;> decide
  obtain ⟨hl, hh⟩ := h
  rw [lowOf] at hl
  rw [highOf] at hh
  rw [integerKey, keyOf, integerTag]
  cases hs : t.isSigned
  · rw [hs] at hl hh
    have hl' : 0 ≤ value := hl
    have hbig : value < 2 ^ 64 := by
      have hsum := (show Fits t value from ⟨by rw [lowOf, hs]; exact hl, by rw [highOf, hs]; exact hh⟩).sum.2
      rwa [highOf, hs] at hsum
    have hfits : value.toNat ≤ 2 ^ (8 * t.width) - 1 := by
      have hlt : value < 2 ^ (8 * t.width) := hh
      have hlt' : value.toNat < 2 ^ (8 * t.width) := by
        rw [Int.toNat_lt hl']
        exact_mod_cast hlt
      omega
    have hmod : value.toNat % 2 ^ 64 = unsigned 64 value := by
      rw [unsigned_of_nonneg hl' hbig]
      refine Nat.mod_eq_of_lt ?_
      rw [Int.toNat_lt hl']
      exact_mod_cast hbig
    rw [if_neg (by decide), if_neg (by decide), encodeU64Width, if_pos hw, if_pos hfits, hmod]
    rfl
  · rw [hs] at hl hh
    rw [if_pos rfl, if_pos rfl, encodeI64Width, if_pos hw, if_pos ⟨hl, Int.le_sub_one_of_lt hh⟩]
    rfl

theorem ofNumcode_fits (t : IntegerType) (code : Nat) : Fits t (t.ofNumcode code) := by
  rw [Fits, lowOf, highOf, IntegerType.ofNumcode]
  cases hs : t.isSigned
  · simp only [Bool.false_eq_true, if_false]
    have hlt : code % 2 ^ (8 * t.width) < 2 ^ (8 * t.width) := Nat.mod_lt _ (by positivity)
    exact ⟨Int.natCast_nonneg _, by exact_mod_cast hlt⟩
  · exact ⟨BitVec.le_toInt _, BitVec.toInt_lt⟩

end

section

variable {t : IntegerType}

section

variable (tag : ValueTag)

theorem decodeTag (payload : Bytes) :
    decodeU64Leb128 (taggedKey tag.code payload) = .ok (tag.code, (varint tag.code).length) := by
  rw [taggedKey, encodeU64Leb128_eq_varint]
  exact decodeU64Leb128_varint ((code_lt tag).trans (by decide)) payload

theorem drop_taggedKey (payload : Bytes) :
    (taggedKey tag.code payload).drop (varint tag.code).length = payload := by
  rw [taggedKey, encodeU64Leb128_eq_varint, List.drop_left]

theorem taggedKeyPayload_taggedKey (payload : Bytes) :
    taggedKeyPayload (taggedKey tag.code payload) = .ok (tag, payload) := by
  have hsmall : ¬ 2 ^ 16 ≤ tag.code := not_le.mpr ((code_lt tag).trans (by decide))
  rw [taggedKeyPayload, decodeTag]
  refine andThen_ok rfl ?_
  refine rejectIf_andThen hsmall ?_
  refine andThen_ok (okOrBadCovi_ok_iff.mpr (fromU16_code tag)) ?_
  rw [drop_taggedKey]

theorem splitCanonicalKey_taggedKey (payload : Bytes) :
    splitCanonicalKey (taggedKey tag.code payload) = .ok (tag, payload) := by
  have hsmall : ¬ 2 ^ 16 ≤ tag.code := not_le.mpr ((code_lt tag).trans (by decide))
  rw [splitCanonicalKey, decodeTag]
  refine andThen_ok rfl ?_
  refine rejectIf_andThen hsmall ?_
  rw [fromU16_code, drop_taggedKey]

end

theorem payloadFromKey_keyOf : payloadFromKey (integerTag t) (keyOf t value) =
    .ok (leNat (integerPayload value)) := by
  rw [payloadFromKey, keyOf, taggedKeyPayload_taggedKey]
  refine andThen_ok rfl (rejectIf_andThen ?_ rfl)
  rintro (h | h)
  · exact h rfl
  · exact h integerPayload_length

theorem keyOf_injective (hv : Fits t value) (ho : Fits t other) (h : keyOf t value = keyOf t other) :
    value = other := by
  have hsame : taggedKeyPayload (keyOf t value) = taggedKeyPayload (keyOf t other) := congrArg _ h
  rw [keyOf, keyOf, taggedKeyPayload_taggedKey, taggedKeyPayload_taggedKey] at hsame
  have hpayload := (Prod.mk.inj (Except.ok.inj hsame)).2
  rw [← payloadNumber_integerPayload hv.sum, hpayload, payloadNumber_integerPayload ho.sum]

theorem keyOf_length : (keyOf t value).length < 2 ^ 32 := by
  have hsmall : (integerTag t).code < 128 := (code_lt _).trans (by decide)
  rw [keyOf, taggedKey, List.length_append, integerPayload_length, encodeU64Leb128_eq_varint,
    varint_small hsmall, List.length_singleton]
  decide

theorem integerTag_cases (t : IntegerType) : integerTag t = .int64 ∨ integerTag t = .uint64 := by
  rw [integerTag]
  cases t.isSigned
  · exact .inr rfl
  · exact .inl rfl

theorem parse_keyOf (P : TextPredicates) (t : IntegerType) (value : Int) :
    ∃ x, parseCanonicalComparable P (keyOf t value) = .ok x := by
  have hlength : (integerPayload value).length = 8 := integerPayload_length
  have hvalid : validateCanonicalPayload P (integerTag t) (integerPayload value) = .ok () := by
    rcases integerTag_cases t with htag | htag <;>
      simp [htag, validateCanonicalPayload, validatePayloadInner, validateMinWidth, hlength, Except.bind]
  have hvalue : ∃ v, comparableOf (integerTag t) (integerPayload value) = .ok v := by
    rcases integerTag_cases t with htag | htag
    · rw [htag, comparableOf, fixedPayload, if_pos hlength]
      exact ⟨_, rfl⟩
    · rw [htag, comparableOf, fixedPayload, if_pos hlength]
      exact ⟨_, rfl⟩
  obtain ⟨v, hv⟩ := hvalue
  exact ⟨(integerTag t, v), parseCanonicalComparable_ok_iff.mpr
    ⟨_, splitCanonicalKey_taggedKey _ _, hvalid, hv⟩⟩

theorem exists_compare_keyOf (P : TextPredicates) (value other : Int) :
    ∃ ordering, compareKeyBytesForOrder P (CoviComparatorKindV2.code .canonicalOrdering) (some t.logical)
      ⟨none, none⟩ (keyOf t value) (keyOf t other) = .ok ordering := by
  obtain ⟨x, hx⟩ := parse_keyOf P t value
  obtain ⟨y, hy⟩ := parse_keyOf P t other
  have hprimary : compareKeyBytesPrimaryOrder P (CoviComparatorKindV2.code .canonicalOrdering)
      (some t.logical) ⟨none, none⟩ (keyOf t value) (keyOf t other) =
        .ok (orderingOf (placeOf x) (placeOf y)) := compareCanonicalOrderingKey_ok hx hy
  rw [compareKeyBytesForOrder, hprimary]
  by_cases heq : orderingOf (placeOf x) (placeOf y) = .eq
  · exact ⟨_, if_pos heq⟩
  · exact ⟨_, if_neg heq⟩

theorem canonicalPayload_keyOf (t : IntegerType) (value : Int) :
    canonicalPayloadForMinMaxAnswer t (keyOf t value) = .ok (integerPayload value) := by
  rw [canonicalPayloadForMinMaxAnswer, keyOf, taggedKeyPayload_taggedKey]
  refine andThen_ok rfl (rejectIf_andThen ?_ rfl)
  rw [valueTagMatchesLogical, integerTag, decide_eq_true rfl]
  decide

end

end CoveFormat.CoviIntegers
