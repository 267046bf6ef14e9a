import CoveFormat.AggregateSynopses
import CoveFormat.CanonicalIdentity

namespace CoveFormat.DistinctSketches

open ByteCodes ExceptRules FixedFields AggregateSynopses AggregateSynopsis List
open Canonical (TextPredicates)
open CanonicalIdentity (asciiText)

def leadingZeros (x : UInt64) : Nat := if x = 0 then 64 else 63 - x.toNat.log2

section

variable (precision : UInt8)

def hllIndex (hash : UInt64) : Nat := hash.toNat >>> (64 - precision.toNat)

def hllRank (hash : UInt64) : Nat :=
  min (leadingZeros (hash <<< UInt64.ofNat precision.toNat) + 1) 64

def hllStep (registers : Bytes) (hash : UInt64) : Bytes :=
  registers.modify (hllIndex precision hash) (max (UInt8.ofNat (hllRank precision hash)))

def hllRegistersFromHashes (hashes : List UInt64) : Except CoveError Bytes := do
  validateHllPrecision precision
  .ok (hashes.foldl (hllStep precision) (replicate (1 <<< precision.toNat) 0))

end

section

variable {p : UInt8} {hash : UInt64} {hashes : List UInt64} {registers : Bytes}

theorem precision_toNat (hp : 4 ≤ p ∧ p ≤ 18) : 4 ≤ p.toNat ∧ p.toNat ≤ 18 :=
  ⟨UInt8.le_iff_toNat_le.mp hp.1, UInt8.le_iff_toNat_le.mp hp.2⟩

theorem hllIndex_lt (hp : 4 ≤ p ∧ p ≤ 18) (hash : UInt64) : hllIndex p hash < 2 ^ p.toNat := by
  obtain ⟨-, hle⟩ := precision_toNat hp
  have hhash := hash.toNat_lt
  rw [hllIndex, Nat.shiftRight_eq_div_pow, Nat.div_lt_iff_lt_mul (Nat.two_pow_pos _), ← pow_add]
  rwa [Nat.add_sub_cancel' (by omega)]

theorem hllRank_le (p : UInt8) (hash : UInt64) : hllRank p hash ≤ 64 := Nat.min_le_right _ _

theorem suffix_toNat (hp : 4 ≤ p ∧ p ≤ 18) (hash : UInt64) :
    (hash <<< UInt64.ofNat p.toNat).toNat = hash.toNat % 2 ^ (64 - p.toNat) * 2 ^ p.toNat := by
  obtain ⟨-, hle⟩ := precision_toNat hp
  have hshift : (UInt64.ofNat p.toNat).toNat % 64 = p.toNat := by
    rw [UInt64.toNat_ofNat']
    omega
  have hpow : 2 ^ 64 = 2 ^ (64 - p.toNat) * 2 ^ p.toNat := by
    rw [← pow_add, Nat.sub_add_cancel (by omega)]
  rw [UInt64.toNat_shiftLeft, hshift, Nat.shiftLeft_eq, hpow, Nat.mul_mod_mul_right]

theorem hllRank_le_max_iff (hp : 4 ≤ p ∧ p ≤ 18) (hash : UInt64) :
    hllRank p hash ≤ 64 - p.toNat + 1 ↔ hash.toNat % 2 ^ (64 - p.toNat) ≠ 0 := by
  obtain ⟨hge, hle⟩ := precision_toNat hp
  have hsuffix := suffix_toNat hp hash
  by_cases hzero : hash.toNat % 2 ^ (64 - p.toNat) = 0
  · have hnone : hash <<< UInt64.ofNat p.toNat = 0 := by
      apply UInt64.toNat_inj.mp
      rw [hsuffix, hzero, Nat.zero_mul]
      rfl
    rw [hllRank, leadingZeros, if_pos hnone]
    omega
  · have hsome : hash <<< UInt64.ofNat p.toNat ≠ 0 := by
      intro hnone
      rw [hnone] at hsuffix
      rcases Nat.mul_eq_zero.mp hsuffix.symm with h | h
      · exact hzero h
      · exact absurd h (Nat.two_pow_pos _).ne'
    have hpos : 2 ^ p.toNat ≤ (hash <<< UInt64.ofNat p.toNat).toNat := by
      rw [hsuffix]
      exact Nat.le_mul_of_pos_left _ (Nat.pos_of_ne_zero hzero)
    have hlog : p.toNat ≤ (hash <<< UInt64.ofNat p.toNat).toNat.log2 := by
      rw [Nat.le_log2 (by have := Nat.two_pow_pos p.toNat; omega)]
      exact hpos
    rw [hllRank, leadingZeros, if_neg hsome]
    omega

theorem rank_toNat (p : UInt8) (hash : UInt64) :
    (UInt8.ofNat (hllRank p hash)).toNat = hllRank p hash :=
  toNat_ofNat_of_lt (by have := hllRank_le p hash; omega)

theorem hllStep_bounded {bound : Nat} (hi : hllIndex p hash < registers.length) :
    (∀ r ∈ hllStep p registers hash, r.toNat ≤ bound) ↔
      (∀ r ∈ registers, r.toNat ≤ bound) ∧ hllRank p hash ≤ bound := by
  have hmax (a b : UInt8) : (max a b).toNat ≤ bound ↔ a.toNat ≤ bound ∧ b.toNat ≤ bound := by
    rcases le_total a b with h | h
    · rw [max_eq_right h]
      exact ⟨fun hb => ⟨(UInt8.le_iff_toNat_le.mp h).trans hb, hb⟩, And.right⟩
    · rw [max_eq_left h]
      exact ⟨fun ha => ⟨ha, (UInt8.le_iff_toNat_le.mp h).trans ha⟩, And.left⟩
  simp only [forall_mem_iff_getElem, hllStep, length_modify, getElem_modify]
  constructor
  · intro h
    have hrank := h _ hi
    rw [if_pos rfl, hmax, rank_toNat] at hrank
    refine ⟨fun i hlt => ?_, hrank.1⟩
    have hbound := h i hlt
    split at hbound
    · exact ((hmax _ _).mp hbound).2
    · exact hbound
  · rintro ⟨h, hrank⟩ i hlt
    split
    · rw [hmax, rank_toNat]
      exact ⟨hrank, h i hlt⟩
    · exact h i hlt

theorem foldl_hllStep_length (hashes : List UInt64) (registers : Bytes) :
    (hashes.foldl (hllStep p) registers).length = registers.length := by
  induction hashes generalizing registers with
  | nil => rfl
  | cons hash hashes ih => rw [foldl_cons, ih, hllStep, length_modify]

theorem foldl_hllStep_bounded {bound : Nat} (hp : 4 ≤ p ∧ p ≤ 18)
    (hlen : registers.length = 2 ^ p.toNat) :
    (∀ r ∈ hashes.foldl (hllStep p) registers, r.toNat ≤ bound) ↔
      (∀ r ∈ registers, r.toNat ≤ bound) ∧ ∀ hash ∈ hashes, hllRank p hash ≤ bound := by
  induction hashes generalizing registers with
  | nil => simp
  | cons hash hashes ih =>
    have hi : hllIndex p hash < registers.length := hlen ▸ hllIndex_lt hp hash
    have hstep : (hllStep p registers hash).length = 2 ^ p.toNat :=
      (length_modify ..).trans hlen
    rw [foldl_cons, ih hstep, hllStep_bounded hi, forall_mem_cons, and_assoc]

theorem validateHll_ok_iff : validateHll p registers = .ok () ↔
    (4 ≤ p ∧ p ≤ 18) ∧ registers.length = 1 <<< p.toNat ∧
      ∀ r ∈ registers, r.toNat ≤ 64 - p.toNat + 1 := by
  simp only [validateHll, validateHllPrecision, andThen_eq_ok_iff, rejectIf_eq_ok_iff, not_not,
    exists_const, ne_eq]

theorem validateHll_iff (hp : 4 ≤ p ∧ p ≤ 18) (hashes : List UInt64) :
    ∃ registers, hllRegistersFromHashes p hashes = .ok registers ∧ registers.length = 2 ^ p.toNat ∧
      (validateHll p registers = .ok () ↔
        ∀ hash ∈ hashes, hash.toNat % 2 ^ (64 - p.toNat) ≠ 0) := by
  have hprecision : validateHllPrecision p = .ok () := rejectIf_ok (not_not.mpr hp)
  have hshift : 1 <<< p.toNat = 2 ^ p.toNat := by rw [Nat.shiftLeft_eq, Nat.one_mul]
  set zeros : Bytes := replicate (1 <<< p.toNat) 0 with hzeros
  have hzerosLen : zeros.length = 2 ^ p.toNat := by rw [hzeros, length_replicate, hshift]
  have hlen : (hashes.foldl (hllStep p) zeros).length = 2 ^ p.toNat :=
    (foldl_hllStep_length hashes zeros).trans hzerosLen
  have hstart : ∀ r ∈ zeros, r.toNat ≤ 64 - p.toNat + 1 := by
    intro r hr
    rw [eq_of_mem_replicate hr]
    exact Nat.zero_le _
  refine ⟨_, andThen_ok hprecision rfl, hlen, ?_⟩
  rw [validateHll_ok_iff, foldl_hllStep_bounded hp hzerosLen]
  simp only [hllRank_le_max_iff hp]
  constructor
  · exact fun h => h.2.2.2
  · exact fun h => ⟨hp, hlen.trans hshift.symm, hstart, h⟩

variable {P : TextPredicates} {crc32c : Bytes → UInt32} {entry : AggregateEntry}
  {payload : AggregatePayloadV2} {encoded : Bytes}

abbrev placedEntry (entry : AggregateEntry) (encoded : Bytes) : AggregateEntry :=
  placed entry aggregateSynopsisEntryLen encoded

def storedEntry (crc32c : Bytes → UInt32) (entry : AggregateEntry) (encoded : Bytes) :
    AggregateEntry :=
  { placedEntry entry encoded with checksum := (placedEntry entry encoded).checksumOf crc32c }

def singleBytes (crc32c : Bytes → UInt32) (entry : AggregateEntry) (encoded : Bytes) : Bytes :=
  (placedEntry entry encoded).serialize crc32c ++ encoded

theorem serialize_single (hencoded : encodePayload crc32c entry payload = encoded) :
    serialize crc32c ⟨[entry], [payload]⟩ = singleBytes crc32c entry encoded := by
  rw [serialize, if_neg (cons_ne_nil _ _)]
  simp only [zip_cons_cons, zip_nil_left, serializeParts, hencoded, append_nil,
    length_singleton, Nat.one_mul, singleBytes]

theorem singleBytes_length (crc32c : Bytes → UInt32) (entry : AggregateEntry) (encoded : Bytes) :
    (singleBytes crc32c entry encoded).length = aggregateSynopsisEntryLen + encoded.length := by
  rw [singleBytes, length_append, AggregateEntry.serialize_length]

theorem storedEntry_eq (hne : encoded ≠ []) : storedEntry crc32c entry encoded = { entry with
      payloadOffset := UInt64.ofNat aggregateSynopsisEntryLen
      payloadLength := UInt64.ofNat encoded.length
      checksum := (placedEntry entry encoded).checksumOf crc32c } := by
  rw [storedEntry, placedEntry, placed, if_neg hne]

theorem storedEntry_offset (hne : encoded ≠ []) :
    (storedEntry crc32c entry encoded).payloadOffset.toNat = aggregateSynopsisEntryLen := by
  rw [storedEntry_eq hne]
  rfl

theorem storedEntry_length (hne : encoded ≠ []) (hlen : encoded.length < 2 ^ 63) :
    (storedEntry crc32c entry encoded).payloadLength.toNat = encoded.length := by
  rw [storedEntry_eq hne, UInt64.toNat_ofNat']
  exact Nat.mod_eq_of_lt (by omega)

theorem storedEntry_nonempty (hne : encoded ≠ []) (hlen : encoded.length < 2 ^ 63) :
    (storedEntry crc32c entry encoded).payloadLength ≠ 0 := by
  intro h
  have hlength := @storedEntry_length crc32c entry _ hne hlen
  rw [h] at hlength
  exact hne (length_eq_zero_iff.mp hlength.symm)

section

variable (hne : encoded ≠ [])
include hne

theorem entriesAt_single (hnulls : entry.nullCount ≤ entry.rowCount) :
    entriesAt crc32c (singleBytes crc32c entry encoded) 1 =
      .ok [storedEntry crc32c entry encoded] := by
  have hplaced : (placedEntry entry encoded).nullCount ≤ (placedEntry entry encoded).rowCount := by
    rwa [placedEntry, placed, if_neg hne]
  have hparse := @AggregateEntry.parse_serialize crc32c _ hplaced []
  refine mapM_of_forall₂ (.cons ?_ .nil)
  exact hparse

theorem fits_single (hlen : encoded.length < 2 ^ 63) :
    fits (singleBytes crc32c entry encoded) 1 [storedEntry crc32c entry encoded] = true := by
  have hsome := @storedEntry_nonempty crc32c entry _ hne hlen
  simp only [fits, filter_cons, hsome, decide_true, ne_eq, not_false_eq_true, if_true,
    filter_nil, map_cons, map_nil, storedEntry_offset hne,
    storedEntry_length hne hlen, singleBytes_length, Nat.one_mul, all_cons, all_nil,
    Bool.and_true, Bool.and_eq_true, decide_eq_true_eq, le_refl, cons_ne_nil, if_false,
    aggregateSynopsisEntryLen]
  exact ⟨rfl, by omega⟩

theorem inferEntryCount_single (hlen : encoded.length < 2 ^ 63)
    (hnulls : entry.nullCount ≤ entry.rowCount) :
    inferEntryCount crc32c (singleBytes crc32c entry encoded) = .ok 1 := by
  obtain ⟨k, hk⟩ : ∃ k,
      (singleBytes crc32c entry encoded).length / aggregateSynopsisEntryLen = k + 1 :=
    Nat.exists_eq_succ_of_ne_zero (by rw [singleBytes_length, aggregateSynopsisEntryLen]; omega)
  rw [inferEntryCount, hk, List.range'_succ, inferFrom, entriesAt_single hne hnulls]
  simp only [fits_single hne hlen, if_true]

end

theorem parse_single (hencoded : encodePayload crc32c entry payload = encoded) (hne : encoded ≠ [])
    (hlen : encoded.length < 2 ^ 63) (hnulls : entry.nullCount ≤ entry.rowCount)
    (hpayload : parsePayload P crc32c (storedEntry crc32c entry encoded) encoded = .ok payload)
    (hvalid : validatePayload P (storedEntry crc32c entry encoded) payload = .ok ()) :
    AggregateSynopsis.parse P crc32c (serialize crc32c ⟨[entry], [payload]⟩) =
      .ok ⟨[storedEntry crc32c entry encoded], [payload]⟩ := by
  have hall := singleBytes_length crc32c entry encoded
  have hregion : checkedRegion (singleBytes crc32c entry encoded) aggregateSynopsisEntryLen
      encoded.length = .ok encoded := by
    refine checkedRegion_ok_iff.mpr ⟨?_, hall.ge, ?_⟩
    · rw [aggregateSynopsisEntryLen]
      omega
    · rw [singleBytes, drop_left' (AggregateEntry.serialize_length _), take_length]
  have hstored : payloadAt P crc32c (singleBytes crc32c entry encoded)
      (1 * aggregateSynopsisEntryLen) (storedEntry crc32c entry encoded) = .ok payload := by
    rw [payloadAt, if_neg (storedEntry_nonempty hne hlen), storedEntry_offset hne,
      storedEntry_length hne hlen, hregion]
    refine andThen_eq_ok_iff.mpr ⟨(), rejectIf_ok (by omega), ?_⟩
    exact andThen_eq_ok_iff.mpr ⟨encoded, rfl, mapError_eq_ok_iff.mpr hpayload⟩
  rw [serialize_single hencoded, AggregateSynopsis.parse, rejectIf, if_neg (by omega)]
  refine andThen_eq_ok_iff.mpr ⟨(), rfl, andThen_eq_ok_iff.mpr
    ⟨1, inferEntryCount_single hne hlen hnulls, andThen_eq_ok_iff.mpr ⟨_,
      entriesAt_single hne hnulls, andThen_eq_ok_iff.mpr ⟨[payload], ?_, ?_⟩⟩⟩⟩
  · exact mapM_of_forall₂ (.cons hstored .nil)
  · refine andThen_eq_ok_iff.mpr ⟨(), ?_, rfl⟩
    exact andThen_eq_ok_iff.mpr ⟨(), rfl, checkAll_eq_ok_iff.mpr (forall_mem_singleton.mpr hvalid)⟩

end

section

variable {P : TextPredicates} {crc32c : Bytes → UInt32} {entry : AggregateEntry} {p : UInt8}
  {registers : Bytes}

theorem encode_distinctSketch (hkind : entry.synopsisKind = .distinctSketch) :
    encodePayload crc32c entry (.distinctSketch p registers) =
      encodePayloadWithHeader crc32c .distinctSketch 0 (UInt32.ofNat registers.length) p.toUInt32 0
        registers := by
  rw [encodePayload, hkind]

theorem validatePayload_distinctSketch (hkind : entry.synopsisKind = .distinctSketch)
    (hacc : entry.accuracy = .approximate) (hnulls : entry.nullCount ≤ entry.rowCount) :
    validatePayload P entry (.distinctSketch p registers) = validateHll p registers := by
  rw [validatePayload, rejectIf, if_neg (UInt32.not_lt.mpr hnulls), hkind]
  simp only [hacc, rejectIf, ne_eq, not_true_eq_false, if_false]
  rfl

theorem parsePayload_distinctSketch (hkind : entry.synopsisKind = .distinctSketch)
    (hlen : registers.length < 2 ^ 32)
    (hvalid : validatePayload P entry (.distinctSketch p registers) = .ok ()) :
    parsePayload P crc32c entry (encodePayloadWithHeader crc32c .distinctSketch 0
      (UInt32.ofNat registers.length) p.toUInt32 0 registers) = .ok (.distinctSketch p registers) := by
  have hp : p.toUInt32.toNat = p.toNat := UInt8.toNat_toUInt32 p
  have hsmall : ¬ 256 ≤ p.toNat := not_le.mpr p.toNat_lt
  have hitems : (UInt32.ofNat registers.length).toNat = registers.length :=
    UInt32.toNat_ofNat_of_lt' hlen
  rw [parsePayload, parsePayloadHeader_encode _ _ _ _ _ hlen]
  refine andThen_eq_ok_iff.mpr ⟨_, rfl, andThen_eq_ok_iff.mpr ⟨(), ?_, ?_⟩⟩
  · exact rejectIf_ok (not_not.mpr hkind.symm)
  · refine andThen_eq_ok_iff.mpr ⟨.distinctSketch p registers, ?_, andThen_eq_ok_iff.mpr ⟨(), hvalid, rfl⟩⟩
    simp only [parsePayloadData, rejectIf, hp, if_neg hsmall, hitems, ne_eq, not_true_eq_false,
      if_false, UInt8.ofNat_toNat]
    rfl

/-- The library's sketch of some hashes is accepted, stored and read back exactly when none of
them is without bits below its index. -/
theorem distinct_sketch_accepted_iff (P : TextPredicates) (crc32c : Bytes → UInt32)
    (hp : 4 ≤ p ∧ p ≤ 18) (hashes : List UInt64) (hkind : entry.synopsisKind = .distinctSketch)
    (hacc : entry.accuracy = .approximate) (hnulls : entry.nullCount ≤ entry.rowCount) :
    (∃ registers, hllRegistersFromHashes p hashes = .ok registers ∧
      validateHll p registers = .ok () ∧
      ∃ s, fromParts P [entry] [.distinctSketch p registers] = .ok s ∧
        ∃ t, AggregateSynopsis.parse P crc32c (serialize crc32c s) = .ok t ∧
          t.payloads = s.payloads ∧
          t.entries.map AggregateEntry.identity = s.entries.map AggregateEntry.identity) ↔
    ∀ hash ∈ hashes, hash.toNat % 2 ^ (64 - p.toNat) ≠ 0 := by
  obtain ⟨registers, hbuild, hlen, hiff⟩ := validateHll_iff hp hashes
  constructor
  · rintro ⟨registers', hbuild', hvalid, -⟩
    obtain rfl := Except.ok.inj (hbuild.symm.trans hbuild')
    exact hiff.mp hvalid
  · intro hcond
    have hvalid := hiff.mpr hcond
    have hshort : registers.length < 2 ^ 32 := by
      have := Nat.pow_le_pow_right (n := 2) (by decide) (precision_toNat hp).2
      omega
    set encoded := encodePayloadWithHeader crc32c .distinctSketch 0 (UInt32.ofNat registers.length)
      p.toUInt32 0 registers with hencoded
    have hsize : encoded.length = aggregatePayloadHeaderLen + registers.length := by
      rw [hencoded, encodePayloadWithHeader, length_append, length_append,
        encodeFields_length, leBytes_length]
      rfl
    have hne : encoded ≠ [] := by
      intro h
      rw [h, length_nil, aggregatePayloadHeaderLen] at hsize
      omega
    have hentry := @validatePayload_distinctSketch P entry p registers hkind hacc hnulls
    have hstored := @storedEntry_eq crc32c entry _ hne
    have hstoredValid : validatePayload P (storedEntry crc32c entry encoded)
        (.distinctSketch p registers) = .ok () := by
      rw [hstored]
      exact (validatePayload_distinctSketch hkind hacc hnulls).trans hvalid
    refine ⟨registers, hbuild, hvalid, ⟨[entry], [.distinctSketch p registers]⟩, ?_,
      ⟨[storedEntry crc32c entry encoded], [.distinctSketch p registers]⟩, ?_, rfl, ?_⟩
    · refine andThen_eq_ok_iff.mpr ⟨(), ?_, rfl⟩
      exact andThen_eq_ok_iff.mpr ⟨(), rfl, checkAll_eq_ok_iff.mpr
        (forall_mem_singleton.mpr (hentry.trans hvalid))⟩
    · have hbound : encoded.length < 2 ^ 63 := by
        rw [hsize, aggregatePayloadHeaderLen]
        omega
      refine parse_single (encode_distinctSketch hkind) hne hbound hnulls ?_ hstoredValid
      refine parsePayload_distinctSketch ?_ hshort hstoredValid
      rw [hstored]
      exact hkind
    · rw [hstored]
      rfl

def sketchEntry : AggregateEntry :=
  ⟨1, 2, 0, 3, .distinctSketch, 0, .approximate, 0, 10, 0, 0, 0, 0⟩

theorem distinct_sketch_accepted_iff_five :
    (∃ registers, hllRegistersFromHashes 4 [5] = .ok registers ∧ validateHll 4 registers = .ok () ∧
      ∃ s, fromParts asciiText [sketchEntry] [.distinctSketch 4 registers] = .ok s ∧
        ∃ t, AggregateSynopsis.parse asciiText castagnoli (serialize castagnoli s) = .ok t ∧
          t.payloads = s.payloads ∧
          t.entries.map AggregateEntry.identity = s.entries.map AggregateEntry.identity) ↔
    ∀ hash ∈ ([5] : List UInt64), hash.toNat % 2 ^ (64 - (4 : UInt8).toNat) ≠ 0 :=
  distinct_sketch_accepted_iff asciiText castagnoli (by decide) [5] rfl rfl
    (by decide : sketchEntry.nullCount ≤ sketchEntry.rowCount)

/-- The hash 0 gives a rank that the validator refuses. -/
theorem zero_hash_refused : ∃ registers, hllRegistersFromHashes 4 [0] = .ok registers ∧
    validateHll 4 registers = .error .badIndex := by
  refine ⟨_, rfl, ?_⟩
  decide +kernel

end

end CoveFormat.DistinctSketches
