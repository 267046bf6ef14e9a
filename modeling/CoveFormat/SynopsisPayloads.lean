import CoveFormat.AggregateSynopses

namespace CoveFormat.SynopsisPayloads

open ByteCodes CanonicalValidator ExceptRules FixedFields AggregateSynopses List
open Canonical (ValueTag TextPredicates fromU16_code code_lt)

variable {P : TextPredicates}

theorem cursorBytes_append {xs : Bytes} {len : Nat} (h : xs.length = len) (rest : Bytes) :
    cursorBytes len (xs ++ rest) = .ok (xs, rest) := by
  subst h
  refine rejectIf_andThen (by simp) ?_
  rw [take_left, drop_left]

theorem cursorUint_leBytes {w n : Nat} (h : n < 256 ^ w) (rest : Bytes) :
    cursorUint w (leBytes w n ++ rest) = .ok (n, rest) := by
  refine andThen_ok (cursorBytes_append (leBytes_length w n) rest) ?_
  rw [leNat_leBytes, Nat.mod_eq_of_lt h]

theorem cursorMany_append {α β : Type} {item : Bytes → Except CoveError (β × Bytes)}
    {encode : α → Bytes} {value : α → β} {as : List α}
    (h : ∀ a ∈ as, ∀ rest, item (encode a ++ rest) = .ok (value a, rest)) (rest : Bytes) :
    cursorMany item as.length (as.flatMap encode ++ rest) = .ok (as.map value, rest) := by
  induction as with
  | nil => rfl
  | cons a as ih =>
    have hfirst := h a mem_cons_self (as.flatMap encode ++ rest)
    have hrest := ih fun b hb => h b (.tail _ hb)
    rw [flatMap_cons, append_assoc]
    exact andThen_ok hfirst (andThen_ok hrest rfl)

theorem cursorValue_append {value : Bytes} (h : value.length < 2 ^ 32) (rest : Bytes) :
    cursorValue (leBytes 4 value.length ++ value ++ rest) = .ok (value, rest) := by
  exact andThen_ok (cursorUint_leBytes h _) (cursorBytes_append rfl rest)

section

def CanonicalTagged (P : TextPredicates) (value : TaggedCanonicalValue) : Prop :=
  validateCanonicalPayload P value.valueTag value.payload = .ok ()

theorem code_lt_absent (tag : ValueTag) : tag.code < 256 ^ 2 ∧ tag.code ≠ absentValueTag := by
  have h := code_lt tag
  rw [absentValueTag]
  omega

variable {value : TaggedCanonicalValue}

theorem parseOptionalTagged_some (h : CanonicalTagged P value)
    (hlen : value.payload.length < 2 ^ 32) (rest : Bytes) :
    parseOptionalTagged P (encodeTagged value ++ rest) = .ok (some value, rest) := by
  obtain ⟨hcode, habsent⟩ := code_lt_absent value.valueTag
  have hbytes : encodeTagged value ++ rest = leBytes 2 value.valueTag.code ++
      (leBytes 4 value.payload.length ++ (value.payload ++ rest)) := by
    simp [encodeTagged, FixedFields.encodeFields]
  refine andThen_ok (cursorUint_leBytes hcode _) (andThen_ok (cursorUint_leBytes hlen _) ?_)
  rw [if_neg habsent]
  exact andThen_ok (orBadIndex_ok_iff.mpr (fromU16_code _))
    (andThen_ok (cursorBytes_append rfl rest) (andThen_ok h rfl))

theorem parseOptionalTagged_encode {value : Option TaggedCanonicalValue}
    (h : ∀ v, value = some v → CanonicalTagged P v ∧ v.payload.length < 2 ^ 32) (rest : Bytes) :
    parseOptionalTagged P (encodeOptionalTagged value ++ rest) = .ok (value, rest) := by
  cases value with
  | some v =>
    obtain ⟨hv, hlen⟩ := h v rfl
    exact parseOptionalTagged_some hv hlen rest
  | none =>
    have hbytes : encodeOptionalTagged none ++ rest = leBytes 2 absentValueTag ++
        (leBytes 4 0 ++ rest) := by
      simp [encodeOptionalTagged, FixedFields.encodeFields]
    refine andThen_ok (cursorUint_leBytes (by decide) _) (andThen_ok (cursorUint_leBytes (by decide) _) ?_)
    exact unless_andThen rfl rfl

theorem parseTagged_encode (h : CanonicalTagged P value) (hlen : value.payload.length < 2 ^ 32)
    (rest : Bytes) : parseTagged P (encodeTagged value ++ rest) = .ok (value, rest) :=
  andThen_ok (parseOptionalTagged_some h hlen rest) (andThen_ok (orBadIndex_ok_iff.mpr rfl) rfl)

theorem parseSingleTaggedPayload_encode (h : CanonicalTagged P value)
    (hlen : value.payload.length < 2 ^ 32) :
    parseSingleTaggedPayload P (encodeTagged value) = .ok value := by
  have hread := parseTagged_encode h hlen []
  rw [append_nil] at hread
  exact andThen_ok hread (unless_andThen rfl rfl)

def encodeBucket (bucket : HistogramBucket) : Bytes :=
  FixedFields.encodeFields [(8, bucket.key.toNat), (8, bucket.count.toNat)]

theorem parseBuckets_encode {buckets : List HistogramBucket} (h : buckets.length < 2 ^ 32) :
    parseBuckets (encodeBuckets buckets) (UInt32.ofNat buckets.length) = .ok buckets := by
  have hcount : (UInt32.ofNat buckets.length).toNat = buckets.length :=
    UInt32.toNat_ofNat_of_lt' h
  have hflat : encodeBuckets buckets = (buckets.map encodeBucket).flatten :=
    flatMap_def ..
  have hsize : ∀ chunk ∈ buckets.map encodeBucket, chunk.length = 16 := by
    intro chunk hchunk
    obtain ⟨bucket, -, rfl⟩ := mem_map.mp hchunk
    exact encodeFields_length _
  have hlen := length_flatten_eq hsize
  have hchunks := chunksExact_flatten hsize
  rw [length_map] at hlen hchunks
  rw [parseBuckets, hcount, hflat, hlen]
  refine unless_andThen rfl ?_
  rw [hchunks, map_map, Except.ok.injEq]
  refine (map_congr_left fun bucket _ => ?_).trans (map_id _)
  have hkey : readU64 (encodeBucket bucket ++ []) 0 = bucket.key := readU64_field 0 rfl rfl []
  have hvalue : readU64 (encodeBucket bucket ++ []) 8 = bucket.count := readU64_field 1 rfl rfl []
  rw [append_nil] at hkey hvalue
  rw [Function.comp_apply, hkey, hvalue]
  rfl

end

section

variable {crc32c : Bytes → UInt32}

/-- The tagged values of a payload are canonical. -/
def CanonicalPayload (P : TextPredicates) : AggregatePayloadV2 → Prop
  | .minMax min max => ∀ v, min = some v ∨ max = some v → CanonicalTagged P v
  | .sum _ sum | .sumAndCount _ _ sum => CanonicalTagged P sum
  | _ => True

theorem encodePayloadWithHeader_length (kind : SynopsisKind) (flags : UInt16)
    (itemCount aux0 aux1 : UInt32) (data : Bytes) :
    (encodePayloadWithHeader crc32c kind flags itemCount aux0 aux1 data).length =
      aggregatePayloadHeaderLen + data.length := by
  rw [encodePayloadWithHeader, length_append, length_append, encodeFields_length,
    leBytes_length]
  rfl

theorem encodeTagged_length (value : TaggedCanonicalValue) :
    (encodeTagged value).length = 6 + value.payload.length := by
  rw [encodeTagged, length_append, encodeFields_length]
  rfl

theorem payload_le_encodeOptionalTagged {value : Option TaggedCanonicalValue}
    {v : TaggedCanonicalValue} (h : value = some v) :
    v.payload.length ≤ (encodeOptionalTagged value).length := by
  subst h
  rw [encodeOptionalTagged, encodeTagged_length]
  omega

theorem encodeBuckets_length (buckets : List HistogramBucket) :
    (encodeBuckets buckets).length = buckets.length * 16 := by
  have hwidth : ∀ bucket : HistogramBucket, (encodeBucket bucket).length = 16 := fun bucket =>
    encodeFields_length _
  induction buckets with
  | nil => rfl
  | cons bucket buckets ih =>
    have hcons : encodeBuckets (bucket :: buckets) = encodeBucket bucket ++ encodeBuckets buckets :=
      flatMap_cons
    rw [hcons, length_append, hwidth, ih, length_cons]
    omega

@[simp] theorem fromU32_toU32 (policy : NumericAggregateOverflowPolicy) :
    NumericAggregateOverflowPolicy.fromU32 policy.toU32 = some policy := by
  cases policy <;> rfl

def encodeOffset (offset : UInt32) : Bytes := leBytes 4 offset.toNat

def encodeValue (value : Bytes) : Bytes := leBytes 4 value.length ++ value

def quantileData (valueTag : ValueTag) (levelOffsets : List UInt32) (values : List Bytes) : Bytes :=
  FixedFields.encodeFields [(2, valueTag.code), (2, 0), (4, levelOffsets.length)] ++
    levelOffsets.flatMap encodeOffset ++ values.flatMap encodeValue

def kindOf : AggregatePayloadV2 → SynopsisKind
  | .none => .count
  | .minMax .. => .minMax
  | .sum .. => .sum
  | .sumAndCount .. => .sumAndCount
  | .boolTrueFalseCounts .. => .boolTrueFalseCounts
  | .fileCodeHistogram .. => .fileCodeHistogram
  | .numCodeHistogram .. => .numCodeHistogram
  | .distinctSketch .. => .distinctSketch
  | .quantileSketch .. => .quantileSketch
  | .topK .. => .topK

variable {entry stored : AggregateEntry} {payload : AggregatePayloadV2}

theorem validatePayload_ok (h : validatePayload P entry payload = .ok ()) :
    entry.nullCount ≤ entry.rowCount ∧ entry.synopsisKind = kindOf payload := by
  obtain ⟨hcounts, h⟩ := of_reject h
  refine ⟨UInt32.not_lt.mp hcounts, ?_⟩
  split at h
  case h_11 => cases h
  all_goals assumption

theorem parsePayload_of_data {kind : SynopsisKind} {itemCount aux0 : UInt32} {data : Bytes}
    (hkind : kind = stored.synopsisKind) (hlen : data.length < 2 ^ 32)
    (hdata : ∀ dataLen checksum,
      parsePayloadData P ⟨kind, 0, itemCount, aux0, 0, dataLen, checksum⟩ data = .ok payload)
    (hvalid : validatePayload P stored payload = .ok ()) :
    parsePayload P crc32c stored (encodePayloadWithHeader crc32c kind 0 itemCount aux0 0 data) =
      .ok payload := by
  refine andThen_ok (parsePayloadHeader_encode _ _ _ _ _ hlen)
    (unless_andThen hkind (andThen_ok (hdata _ _) ?_))
  exact andThen_ok hvalid rfl

variable {α : Type} {encode : α → Bytes} {as : List α}

theorem flatMap_length_ge {n : Nat} (h : ∀ a ∈ as, n ≤ (encode a).length) :
    as.length * n ≤ (as.flatMap encode).length := by
  induction as with
  | nil => simp
  | cons a as ih =>
    have hfirst := h a mem_cons_self
    have hrest := ih fun b hb => h b (.tail _ hb)
    rw [flatMap_cons, length_append, length_cons, Nat.succ_mul]
    omega

theorem length_le_flatMap {a : α} (h : a ∈ as) :
    (encode a).length ≤ (as.flatMap encode).length := by
  obtain ⟨before, after, rfl⟩ := append_of_mem h
  rw [flatMap_append, flatMap_cons, length_append, length_append]
  omega

theorem parse_quantileData {k : UInt32} {valueTag : ValueTag} {levelOffsets : List UInt32}
    {values : List Bytes} (hlevels : 2 ≤ levelOffsets.length)
    (hlen : (quantileData valueTag levelOffsets values).length < 2 ^ 32)
    (dataLen checksum : UInt32) :
    parsePayloadData P ⟨.quantileSketch, 0, UInt32.ofNat values.length, k, 0, dataLen, checksum⟩
        (quantileData valueTag levelOffsets values) =
      .ok (.quantileSketch k valueTag levelOffsets values) := by
  have hbytes : quantileData valueTag levelOffsets values = leBytes 2 valueTag.code ++ (leBytes 2 0 ++
      (leBytes 4 levelOffsets.length ++
        (levelOffsets.flatMap encodeOffset ++ values.flatMap encodeValue))) := by
    simp [quantileData, FixedFields.encodeFields]
  have hoffsets : levelOffsets.length * 4 ≤ (levelOffsets.flatMap encodeOffset).length :=
    flatMap_length_ge fun offset _ => (leBytes_length 4 _).ge
  have hsize : ∀ value, (encodeValue value).length = 4 + value.length := by
    intro value
    rw [encodeValue, length_append, leBytes_length]
  have hvalues : values.length * 4 ≤ (values.flatMap encodeValue).length :=
    flatMap_length_ge fun value _ => by rw [hsize]; omega
  rw [hbytes] at hlen ⊢
  simp only [length_append, leBytes_length] at hlen
  have hshort : ∀ value ∈ values, value.length < 2 ^ 32 := by
    intro value hv
    have hle : (encodeValue value).length ≤ (values.flatMap encodeValue).length :=
      length_le_flatMap hv
    rw [hsize] at hle
    omega
  have hcount : (UInt32.ofNat values.length).toNat = values.length :=
    UInt32.toNat_ofNat_of_lt' (show values.length < 2 ^ 32 by omega)
  have hreadOffsets : cursorMany (cursorUint 4) levelOffsets.length
      (levelOffsets.flatMap encodeOffset ++ values.flatMap encodeValue) =
      .ok (levelOffsets.map UInt32.toNat, values.flatMap encodeValue) :=
    cursorMany_append (fun offset _ rest => cursorUint_leBytes offset.toNat_lt rest) _
  have hreadValues : cursorMany cursorValue (UInt32.ofNat values.length).toNat
      (values.flatMap encodeValue ++ []) = .ok (values.map id, []) := by
    rw [hcount]
    exact cursorMany_append (fun value hv rest => cursorValue_append (hshort value hv) rest) []
  rw [append_nil, map_id] at hreadValues
  refine andThen_ok (cursorUint_leBytes (code_lt_absent valueTag).1 _)
    (andThen_ok (orBadIndex_ok_iff.mpr (fromU16_code _)) (andThen_ok (cursorUint_leBytes (by decide) _)
    (unless_andThen rfl (andThen_ok (cursorUint_leBytes (by omega) _) (rejectIf_andThen (by omega)
    (andThen_ok hreadOffsets (andThen_ok hreadValues (unless_andThen rfl ?_))))))))
  simp [Function.comp_def]

theorem levels_of_valid {k : UInt32} {valueTag : ValueTag} {levelOffsets : List UInt32}
    {values : List Bytes} (hkind : stored.synopsisKind = .quantileSketch)
    (h : validatePayload P stored (.quantileSketch k valueTag levelOffsets values) = .ok ()) :
    2 ≤ levelOffsets.length := by
  replace h := rest_ok h
  simp only [hkind] at h
  replace h := rest_ok h
  obtain ⟨hlevels, -⟩ := of_check h
  have hlevels := of_rejectIf hlevels
  omega

theorem parsePayload_encode (hne : payload ≠ .none) (hkind : entry.synopsisKind = kindOf payload)
    (hstored : stored.synopsisKind = kindOf payload) (hcanonical : CanonicalPayload P payload)
    (hlen : (encodePayload crc32c entry payload).length < 2 ^ 32)
    (hvalid : validatePayload P stored payload = .ok ()) :
    parsePayload P crc32c stored (encodePayload crc32c entry payload) = .ok payload := by
  have hparse {itemCount aux0 : UInt32} {data : Bytes}
      (hbytes : encodePayload crc32c entry payload =
        encodePayloadWithHeader crc32c entry.synopsisKind 0 itemCount aux0 0 data)
      (hdata : data.length < 2 ^ 32 → ∀ dataLen checksum,
        parsePayloadData P ⟨kindOf payload, 0, itemCount, aux0, 0, dataLen, checksum⟩ data = .ok payload) :
      parsePayload P crc32c stored (encodePayload crc32c entry payload) = .ok payload := by
    rw [hbytes, encodePayloadWithHeader_length] at hlen
    rw [hbytes, hkind]
    exact parsePayload_of_data hstored.symm (by omega) (hdata (by omega)) hvalid
  cases payload with
  | none => exact absurd rfl hne
  | minMax min max =>
    refine hparse rfl fun hlen dataLen checksum => ?_
    rw [length_append] at hlen
    have hmin : ∀ v, min = some v → CanonicalTagged P v ∧ v.payload.length < 2 ^ 32 := by
      intro v hv
      have hle := payload_le_encodeOptionalTagged hv
      exact ⟨hcanonical v (.inl hv), by omega⟩
    have hmax : ∀ v, max = some v → CanonicalTagged P v ∧ v.payload.length < 2 ^ 32 := by
      intro v hv
      have hle := payload_le_encodeOptionalTagged hv
      exact ⟨hcanonical v (.inr hv), by omega⟩
    have hlast := parseOptionalTagged_encode hmax []
    rw [append_nil] at hlast
    exact unless_andThen rfl (andThen_ok (parseOptionalTagged_encode hmin _) (andThen_ok hlast rfl))
  | sum policy sum =>
    refine hparse rfl fun hlen dataLen checksum => ?_
    rw [encodeTagged_length] at hlen
    have hsum := parseSingleTaggedPayload_encode hcanonical (by omega)
    exact andThen_ok (orBadIndex_ok_iff.mpr (fromU32_toU32 policy)) (andThen_ok hsum rfl)
  | sumAndCount policy count sum =>
    refine hparse rfl fun hlen dataLen checksum => ?_
    rw [length_append, encodeTagged_length] at hlen
    have hsum := parseTagged_encode hcanonical (by omega) []
    rw [append_nil] at hsum
    refine andThen_ok (cursorUint_leBytes count.toNat_lt _)
      (andThen_ok (orBadIndex_ok_iff.mpr (fromU32_toU32 policy))
      (andThen_ok hsum ?_))
    rw [UInt64.ofNat_toNat]
  | boolTrueFalseCounts trueCount falseCount =>
    have hbytes : leBytes 8 trueCount.toNat ++ leBytes 8 falseCount.toNat =
        FixedFields.encodeFields [(8, trueCount.toNat), (8, falseCount.toNat)] ++ [] := by
      simp [FixedFields.encodeFields]
    refine hparse rfl fun _ dataLen checksum => rejectIf_andThen (by simp) ?_
    rw [hbytes]
    exact congrArg Except.ok (congrArg₂ AggregatePayloadV2.boolTrueFalseCounts
      (readU64_field 0 rfl rfl []) (readU64_field 1 rfl rfl []))
  | fileCodeHistogram buckets | numCodeHistogram buckets | topK k buckets =>
    refine hparse rfl fun hlen dataLen checksum => ?_
    rw [encodeBuckets_length] at hlen
    exact andThen_ok (parseBuckets_encode (by omega)) rfl
  | distinctSketch precision registers =>
    have hprecision : precision.toUInt32.toNat = precision.toNat := UInt8.toNat_toUInt32 precision
    refine hparse rfl fun hlen dataLen checksum => rejectIf_andThen ?_
      (unless_andThen (UInt32.toNat_ofNat_of_lt' hlen) ?_)
    · change ¬ 256 ≤ precision.toUInt32.toNat
      exact not_le.mpr precision.toNat_lt
    · change Except.ok (AggregatePayloadV2.distinctSketch (UInt8.ofNat precision.toUInt32.toNat) _) = _
      rw [hprecision, UInt8.ofNat_toNat]
  | quantileSketch k valueTag levelOffsets values =>
    exact hparse rfl (parse_quantileData (levels_of_valid hstored hvalid))

end

end CoveFormat.SynopsisPayloads
