import CoveFormat.FixedFields
import Mathlib.Data.Nat.Digits.Lemmas

namespace CoveFormat.BitPacked

open ByteCodes ExceptRules FixedFields List

variable {p : BitPackedPayload}

theorem leNat_append (xs ys : Bytes) : leNat (xs ++ ys) = leNat xs + 256 ^ xs.length * leNat ys := by
  induction xs with
  | nil => simp [leNat]
  | cons b xs ih =>
    rw [cons_append, leNat, leNat, ih, length_cons, pow_succ']
    ring

theorem leNat_take (bs : Bytes) (k : Nat) : leNat (bs.take k) = leNat bs % 256 ^ k := by
  by_cases h : k ≤ bs.length
  · have hlt := leNat_lt (bs.take k)
    rw [length_take, min_eq_left h] at hlt
    conv_rhs => rw [← take_append_drop k bs, leNat_append, length_take, min_eq_left h]
    rw [Nat.add_mul_mod_self_left, Nat.mod_eq_of_lt hlt]
  · have hlt : leNat bs < 256 ^ k :=
      (leNat_lt bs).trans_le (Nat.pow_le_pow_right (by decide) (le_of_not_ge h))
    rw [take_of_length_le (le_of_not_ge h), Nat.mod_eq_of_lt hlt]

theorem leNat_drop (bs : Bytes) (k : Nat) : leNat (bs.drop k) = leNat bs / 256 ^ k := by
  have hsplit := leNat_append (bs.take k) (bs.drop k)
  by_cases h : k ≤ bs.length
  · rw [take_append_drop, length_take, min_eq_left h, leNat_take] at hsplit
    rw [hsplit, Nat.add_mul_div_left _ _ (by positivity), Nat.div_eq_of_lt (Nat.mod_lt _ (by positivity)),
      Nat.zero_add]
  · have hlt : leNat bs < 256 ^ k :=
      (leNat_lt bs).trans_le (Nat.pow_le_pow_right (by decide) (le_of_not_ge h))
    rw [drop_of_length_le (le_of_not_ge h), Nat.div_eq_of_lt hlt]
    rfl

theorem readUint_eq (w : Nat) (bs : Bytes) (offset : Nat) :
    readUint w bs offset = leNat bs / 256 ^ offset % 256 ^ w := by
  rw [readUint, leNat_take, leNat_drop]

theorem leBytes_take {j k : Nat} (h : j ≤ k) (n : Nat) : (leBytes k n).take j = leBytes j n := by
  induction j generalizing k n with
  | zero => rfl
  | succ j ih =>
    obtain ⟨k, rfl⟩ : ∃ m, k = m + 1 := ⟨k - 1, by omega⟩
    rw [leBytes, leBytes, take_succ_cons, ih (by omega)]

structure BitPackedPayload where
  bitsPerValue : UInt8
  rowCount : UInt32
  bits : Bytes

namespace BitPackedPayload

def parse (bytes : Bytes) : Except CoveError BitPackedPayload := do
  rejectIf (bytes.length < 9) .bufferTooShort
  let bpv := readU8 bytes 0
  rejectIf (¬ (1 ≤ bpv ∧ bpv ≤ 63)) .pageCorrupt
  let rowCount := readU32 bytes 1
  let byteLen := (readU32 bytes 5).toNat
  rejectIf (bytes.length < 9 + byteLen) .bufferTooShort
  let needBits := rowCount.toNat * bpv.toNat
  let needBytes := (needBits + 7) / 8
  rejectIf (byteLen < needBytes) .pageCorrupt
  .ok ⟨bpv, rowCount, (bytes.drop 9).take byteLen⟩

def fields (p : BitPackedPayload) : Fields :=
  [(1, p.bitsPerValue.toNat), (4, p.rowCount.toNat), (4, (UInt32.ofNat p.bits.length).toNat)]

def encode (p : BitPackedPayload) : Bytes := encodeFields p.fields ++ p.bits

/-- The 16-byte window at the position, clipped at the end of the buffer, with the value or-ed in
and written back. -/
def writeValue (bits : Bytes) (bitPos : Nat) (value : Nat) : Bytes :=
  let byteOff := bitPos / 8
  let bitOff := bitPos % 8
  let avail := min (bits.length - byteOff) 16
  let word := readUint 16 bits byteOff ||| value <<< bitOff
  bits.take byteOff ++ (leBytes 16 word).take avail ++ bits.drop (byteOff + avail)

def packFrom (w : Nat) (bits : Bytes) (bitPos : Nat) : List UInt64 → Except CoveError Bytes
  | [] => .ok bits
  | v :: values => do
      -- bits outside the mask
      rejectIf (v.toNat >>> w ≠ 0) .pageCorrupt
      packFrom w (writeValue bits bitPos (v.toNat &&& (2 ^ w - 1))) (bitPos + w) values

def pack (values : List UInt64) (bitsPerValue : UInt8) : Except CoveError BitPackedPayload := do
  rejectIf (¬ (1 ≤ bitsPerValue ∧ bitsPerValue ≤ 63)) .pageCorrupt
  let w := bitsPerValue.toNat
  let totalBits := values.length * w
  let bits ← packFrom w (replicate ((totalBits + 7) / 8) 0) 0 values
  .ok ⟨bitsPerValue, UInt32.ofNat values.length, bits⟩

/-- One value of the bit stream, out of a window of the given number of bytes. -/
def readValue (window : Nat) (p : BitPackedPayload) (r : Nat) : Int :=
  let w := p.bitsPerValue.toNat
  let bitPos := r * w
  signed 64 (readUint window p.bits (bitPos / 8) >>> (bitPos % 8) &&& (2 ^ w - 1))

def canonicalDecode (p : BitPackedPayload) : Except CoveError (List Int) :=
  (range p.rowCount.toNat).mapM fun r => do
    rejectIf (p.bits.length ≤ r * p.bitsPerValue.toNat / 8) .pageCorrupt
    let value := readValue 16 p r
    rejectIf (2 ^ 64 ≤ (r + 1) * p.bitsPerValue.toNat) .arithOverflow
    .ok value

def fastDecode (p : BitPackedPayload) : Except CoveError (List Int) :=
  if 32 < p.bitsPerValue.toNat then canonicalDecode p
  else .ok ((range p.rowCount.toNat).map (readValue 8 p))

theorem pow_byte (k : Nat) : 256 ^ k = 2 ^ (8 * k) := by
  rw [pow_mul]
  norm_num

theorem writeValue_length (bits : Bytes) (bitPos value : Nat) :
    (writeValue bits bitPos value).length = bits.length := by
  simp only [writeValue, length_append, length_take, length_drop, leBytes_length]
  omega

variable {bits : Bytes} {bitPos w : Nat}

theorem leNat_writeValue {value : Nat} (hbits : leNat bits < 2 ^ bitPos) (hvalue : value < 2 ^ w)
    (hw : w ≤ 63) (hend : bitPos + w ≤ 8 * bits.length) :
    leNat (writeValue bits bitPos value) = leNat bits + 2 ^ bitPos * value := by
  set o := bitPos / 8 with ho
  set b := bitPos % 8 with hb
  set avail := min (bits.length - o) 16 with havail
  have hpos : 2 ^ bitPos = 256 ^ o * 2 ^ b := by
    rw [pow_byte, ← pow_add]
    congr 1
    omega
  have hhigh : leNat bits / 256 ^ o < 2 ^ b :=
    Nat.div_lt_of_lt_mul (hpos ▸ hbits)
  have hroom : b + w ≤ 8 * avail := by omega
  have hb16 : 2 ^ b ≤ 256 ^ 16 := by
    rw [pow_byte]
    exact Nat.pow_le_pow_right (by decide) (by omega)
  have hread : readUint 16 bits o = leNat bits / 256 ^ o := by
    rw [readUint_eq, Nat.mod_eq_of_lt (hhigh.trans_le hb16)]
  have hword : readUint 16 bits o ||| value <<< b = leNat bits / 256 ^ o + 2 ^ b * value := by
    rw [hread, Nat.or_comm, ← Nat.shiftLeft_add_eq_or_of_lt hhigh, Nat.shiftLeft_eq, mul_comm,
      Nat.add_comm]
  have hlt : leNat bits / 256 ^ o + 2 ^ b * value < 256 ^ avail := by
    have hsum : leNat bits / 256 ^ o + 2 ^ b * value < 2 ^ b * 2 ^ w := by nlinarith
    rw [← pow_add] at hsum
    rw [pow_byte avail]
    exact hsum.trans_le (Nat.pow_le_pow_right (by decide) hroom)
  have hrest : leNat bits / 256 ^ (o + avail) = 0 := by
    rw [pow_add, ← Nat.div_div_eq_div_mul]
    exact Nat.div_eq_of_lt (by omega)
  have htake : (bits.take o).length = o := by
    rw [length_take]
    omega
  have hmid : ((leBytes 16 (leNat bits / 256 ^ o + 2 ^ b * value)).take avail).length = avail := by
    rw [length_take, leBytes_length]
    omega
  rw [writeValue, ← ho, ← hb, ← havail, hword, append_assoc, leNat_append, leNat_append,
    htake, hmid, leNat_drop, hrest, leNat_take, leBytes_take (by omega), leNat_leBytes,
    Nat.mod_eq_of_lt hlt, hpos]
  conv_rhs => rw [← Nat.mod_add_div (leNat bits) (256 ^ o)]
  ring

theorem width_bits {v : UInt64} (hv : v.toNat < 2 ^ w) :
    v.toNat >>> w = 0 ∧ v.toNat &&& (2 ^ w - 1) = v.toNat :=
  ⟨by rw [Nat.shiftRight_eq_div_pow, Nat.div_eq_of_lt hv],
    by rw [Nat.and_two_pow_sub_one_eq_mod, Nat.mod_eq_of_lt hv]⟩

theorem packFrom_ok (hw : w ≤ 63) {values : List UInt64} (hvalues : ∀ v ∈ values, v.toNat < 2 ^ w)
    (hbits : leNat bits < 2 ^ bitPos) (hend : bitPos + values.length * w ≤ 8 * bits.length) :
    ∃ packed, packFrom w bits bitPos values = .ok packed ∧ packed.length = bits.length ∧
      leNat packed = leNat bits + 2 ^ bitPos * Nat.ofDigits (2 ^ w) (values.map UInt64.toNat) := by
  induction values generalizing bits bitPos with
  | nil => exact ⟨bits, rfl, rfl, by simp⟩
  | cons v values ih =>
    have hv := hvalues v mem_cons_self
    rw [length_cons, Nat.succ_mul] at hend
    have hwrite := leNat_writeValue hbits hv hw (by omega)
    have hbits' : leNat (writeValue bits bitPos v.toNat) < 2 ^ (bitPos + w) := by
      rw [hwrite, pow_add]
      nlinarith
    obtain ⟨packed, hpacked, hlen, hnum⟩ := ih (fun a ha => hvalues a (.tail _ ha)) hbits'
      (by rw [writeValue_length]; omega)
    refine ⟨packed, ?_, hlen.trans (writeValue_length bits bitPos v.toNat), ?_⟩
    · rw [packFrom, rejectIf, if_neg (not_not.mpr (width_bits hv).1), (width_bits hv).2]
      exact hpacked
    · rw [hnum, hwrite, map_cons, Nat.ofDigits_cons, pow_add]
      ring

/-- A payload whose buffer holds all its values. -/
structure Packed (p : BitPackedPayload) : Prop where
  width_pos : 1 ≤ p.bitsPerValue
  width_le : p.bitsPerValue ≤ 63
  covers : (p.rowCount.toNat * p.bitsPerValue.toNat + 7) / 8 ≤ p.bits.length

theorem parse_packed {bytes : Bytes} (h : parse bytes = .ok p) : Packed p := by
  replace h := rest_ok h
  obtain ⟨hw, h⟩ := of_check h
  obtain ⟨hlen, h⟩ := of_check h
  obtain ⟨hneed, h⟩ := of_check h
  cases h
  have hw := not_not.mp (of_rejectIf hw)
  refine ⟨hw.1, hw.2, ?_⟩
  have hlen := of_rejectIf hlen
  have hneed := of_rejectIf hneed
  simp only [length_take, length_drop]
  omega

theorem Packed.width_toNat (h : Packed p) : 1 ≤ p.bitsPerValue.toNat ∧ p.bitsPerValue.toNat ≤ 63 :=
  ⟨UInt8.le_iff_toNat_le.mp h.width_pos, UInt8.le_iff_toNat_le.mp h.width_le⟩

theorem readValue_eq (p : BitPackedPayload) (window r : Nat)
    (h : r * p.bitsPerValue.toNat % 8 + p.bitsPerValue.toNat ≤ 8 * window) :
    readValue window p r =
      signed 64 (leNat p.bits / (2 ^ p.bitsPerValue.toNat) ^ r % 2 ^ p.bitsPerValue.toNat) := by
  set w := p.bitsPerValue.toNat with hw
  have hpos : (2 ^ w) ^ r = 256 ^ (r * w / 8) * 2 ^ (r * w % 8) := by
    rw [pow_byte, ← pow_add, ← pow_mul]
    congr 1
    rw [Nat.mul_comm w r]
    omega
  rw [readValue, ← hw]
  congr 1
  rw [Nat.and_two_pow_sub_one_eq_mod, Nat.shiftRight_eq_div_pow, readUint_eq, hpos,
    ← Nat.div_div_eq_div_mul, pow_byte window]
  apply Nat.eq_of_testBit_eq
  intro i
  simp only [Nat.testBit_mod_two_pow, Nat.testBit_div_two_pow]
  by_cases hi : i < w
  · have hin : i + r * w % 8 < 8 * window := by omega
    simp [hi, hin]
  · simp [hi]

theorem canonicalDecode_eq (h : Packed p) :
    canonicalDecode p = .ok ((List.range p.rowCount.toNat).map (readValue 16 p)) := by
  obtain ⟨hpos, hle⟩ := h.width_toNat
  have hrows := p.rowCount.toNat_lt
  rw [canonicalDecode, mapM_eq_ok_iff, forall₂_map_right_iff, forall₂_same]
  intro r hr
  have hr : r < p.rowCount.toNat := mem_range.mp hr
  have hlast : (r + 1) * p.bitsPerValue.toNat ≤ p.rowCount.toNat * p.bitsPerValue.toNat :=
    Nat.mul_le_mul_right _ hr
  have hin : ¬ p.bits.length ≤ r * p.bitsPerValue.toNat / 8 := by
    have hcovers := h.covers
    rw [Nat.succ_mul] at hlast
    omega
  have hfits : ¬ 2 ^ 64 ≤ (r + 1) * p.bitsPerValue.toNat := by
    have hmax : p.rowCount.toNat * p.bitsPerValue.toNat ≤ 2 ^ 32 * 63 :=
      Nat.mul_le_mul hrows.le hle
    omega
  rw [rejectIf, if_neg hin, rejectIf, if_neg hfits]
  rfl

theorem decoders_agree (h : Packed p) : fastDecode p = canonicalDecode p := by
  rw [fastDecode]
  split
  · rfl
  · rename_i hw
    rw [canonicalDecode_eq h]
    congr 1
    refine map_congr_left fun r _ => ?_
    rw [readValue_eq p 8 r (by omega), readValue_eq p 16 r (by omega)]

theorem signed_of_lt {n : Nat} (h : n < 2 ^ 63) : signed 64 n = n := by
  have hn : (BitVec.ofNat 64 n).toNat = n := by
    rw [BitVec.toNat_ofNat]
    omega
  rw [signed, BitVec.toInt_eq_toNat_of_lt (by omega), hn]

theorem digit_eq {b : Nat} (hb : 0 < b) {digits : List Nat} (hdigits : ∀ d ∈ digits, d < b)
    {r : Nat} (hr : r < digits.length) : Nat.ofDigits b digits / b ^ r % b = digits[r] := by
  rw [Nat.ofDigits_div_pow_eq_ofDigits_drop r hb digits hdigits,
    drop_eq_getElem_cons hr, Nat.ofDigits_cons, Nat.add_mul_mod_self_left,
    Nat.mod_eq_of_lt (hdigits _ (getElem_mem hr))]

/-- What packing builds. -/
structure PackedFrom (w : UInt8) (values : List UInt64) (p : BitPackedPayload) : Prop where
  bitsPerValue : p.bitsPerValue = w
  rowCount : p.rowCount.toNat = values.length
  length : p.bits.length = (values.length * w.toNat + 7) / 8
  number : leNat p.bits = Nat.ofDigits (2 ^ w.toNat) (values.map UInt64.toNat)

section

variable {w : UInt8} {values : List UInt64}

theorem pack_ok (hw : 1 ≤ w ∧ w ≤ 63) (hn : values.length < 2 ^ 32)
    (hv : ∀ v ∈ values, v.toNat < 2 ^ w.toNat) :
    ∃ p, pack values w = .ok p ∧ PackedFrom w values p := by
  have hzero (k : Nat) : leNat (replicate k 0) = 0 := by
    induction k with
    | zero => rfl
    | succ k ih => rw [replicate_succ, leNat, ih]; rfl
  obtain ⟨bits, hbits, hlen, hnum⟩ := packFrom_ok (UInt8.le_iff_toNat_le.mp hw.2) hv
    (show leNat (replicate ((values.length * w.toNat + 7) / 8) 0) < 2 ^ 0 by
      rw [hzero]; decide) (by rw [length_replicate]; omega)
  refine ⟨⟨w, UInt32.ofNat values.length, bits⟩, ?_, rfl, ?_, ?_, ?_⟩
  · simp only [pack, rejectIf, if_neg (not_not.mpr hw)]
    exact andThen_ok rfl (andThen_ok hbits rfl)
  · exact UInt32.toNat_ofNat_of_lt' hn
  · rw [hlen, length_replicate]
  · rw [hnum, hzero, pow_zero, Nat.one_mul, Nat.zero_add]

variable (h : PackedFrom w values p)
include h

theorem PackedFrom.packed (hw : 1 ≤ w ∧ w ≤ 63) : Packed p :=
  ⟨h.bitsPerValue ▸ hw.1, h.bitsPerValue ▸ hw.2, by rw [h.rowCount, h.bitsPerValue, h.length]⟩

theorem PackedFrom.decode (hw : 1 ≤ w ∧ w ≤ 63) (hv : ∀ v ∈ values, v.toNat < 2 ^ w.toNat) :
    canonicalDecode p = .ok (values.map fun v => (v.toNat : Int)) := by
  have hle : w.toNat ≤ 63 := UInt8.le_iff_toNat_le.mp hw.2
  rw [canonicalDecode_eq (h.packed hw), h.rowCount]
  congr 1
  refine ext_getElem (by simp) fun r hr _ => ?_
  have hr : r < values.length := by simpa using hr
  have hlt := hv values[r] (getElem_mem hr)
  have hdigit := @digit_eq (2 ^ w.toNat) (by positivity) (values.map UInt64.toNat)
    (by simpa using hv) r (by simpa using hr)
  rw [getElem_map] at hdigit
  rw [getElem_map, getElem_map, getElem_range,
    readValue_eq p 16 r (by rw [h.bitsPerValue]; omega), h.bitsPerValue, h.number, hdigit]
  exact signed_of_lt (hlt.trans_le (Nat.pow_le_pow_right (by decide) hle))

theorem PackedFrom.parse_encode_iff (hw : 1 ≤ w ∧ w ≤ 63) :
    parse (encode p) = .ok p ↔ (values.length * w.toNat + 7) / 8 < 2 ^ 32 := by
  have hbpv : readU8 (encode p) 0 = p.bitsPerValue := @readU8_field p.fields _ 0 _ rfl rfl _
  have hrows : readU32 (encode p) 1 = p.rowCount := @readU32_field p.fields _ 1 _ rfl rfl _
  have hbytes : readU32 (encode p) 5 = UInt32.ofNat p.bits.length :=
    @readU32_field p.fields _ 2 _ rfl rfl _
  have hlen : (encode p).length = 9 + p.bits.length := by
    rw [encode, length_append, encodeFields_length]
    rfl
  have hwidth := h.packed hw
  constructor
  · intro hparse
    iterate 3 replace hparse := rest_ok hparse
    obtain ⟨hneed, -⟩ := of_check hparse
    have hneed := of_rejectIf hneed
    rw [hbpv, hrows, hbytes, h.rowCount, h.bitsPerValue, h.length] at hneed
    have hlt := UInt32.toNat_lt (UInt32.ofNat ((values.length * w.toNat + 7) / 8))
    omega
  · intro hsmall
    have hbyteLen : (UInt32.ofNat p.bits.length).toNat = p.bits.length :=
      UInt32.toNat_ofNat_of_lt' (h.length ▸ hsmall)
    have hrest : ((encode p).drop 9).take p.bits.length = p.bits := by
      have hdrop : (encode p).drop 9 = p.bits := drop_left' (encodeFields_length p.fields)
      rw [hdrop, take_length]
    simp only [parse, hbpv, hrows, hbytes, hbyteLen, hrest]
    have hcovers := hwidth.covers
    rw [rejectIf, if_neg (by omega), rejectIf, if_neg (not_not.mpr ⟨hwidth.1, hwidth.2⟩), rejectIf,
      if_neg (by omega), rejectIf, if_neg (by omega)]
    rfl

end

/-- Bit packing gives every list of values back exactly when their packed length fits the
32-bit length field; the decoders agree on all that is accepted. -/
theorem bit_packing_iff {w : UInt8} {values : List UInt64} (hw : 1 ≤ w ∧ w ≤ 63)
    (hn : values.length < 2 ^ 32) (hv : ∀ v ∈ values, v.toNat < 2 ^ w.toNat) :
    ((∃ p, pack values w = .ok p ∧ parse (encode p) = .ok p ∧
        canonicalDecode p = .ok (values.map fun v => (v.toNat : Int)) ∧
        fastDecode p = .ok (values.map fun v => (v.toNat : Int))) ∧
      ∀ bytes p, parse bytes = .ok p →
        ∃ decoded, canonicalDecode p = .ok decoded ∧ fastDecode p = .ok decoded) ↔
    (values.length * w.toNat + 7) / 8 < 2 ^ 32 := by
  obtain ⟨p, hpack, hfrom⟩ := pack_ok hw hn hv
  constructor
  · rintro ⟨⟨q, hq, hparse, -⟩, -⟩
    obtain rfl := Except.ok.inj (hpack.symm.trans hq)
    exact (hfrom.parse_encode_iff hw).mp hparse
  · intro hsmall
    have hdecode := hfrom.decode hw hv
    refine ⟨⟨p, hpack, (hfrom.parse_encode_iff hw).mpr hsmall, hdecode, ?_⟩, ?_⟩
    · rw [decoders_agree (hfrom.packed hw), hdecode]
    · intro bytes p hparse
      refine ⟨_, canonicalDecode_eq (parse_packed hparse), ?_⟩
      rw [decoders_agree (parse_packed hparse), canonicalDecode_eq (parse_packed hparse)]

theorem bit_packing_iff_three : ((∃ p, pack [5, 0, 7] 3 = .ok p ∧ parse (encode p) = .ok p ∧
        canonicalDecode p = .ok [5, 0, 7] ∧ fastDecode p = .ok [5, 0, 7]) ∧
      ∀ bytes p, parse bytes = .ok p →
        ∃ decoded, canonicalDecode p = .ok decoded ∧ fastDecode p = .ok decoded) ↔
    (3 * 3 + 7) / 8 < 2 ^ 32 :=
  @bit_packing_iff 3 [5, 0, 7] (by decide) (by decide) (by simp)

/-- The packed zeros take `2 ^ 32` bytes, and their length is written as 0. -/
theorem packed_length_wraps :
    ∃ p, pack (List.replicate (2 ^ 30) 0) 32 = .ok p ∧ parse (encode p) ≠ .ok p := by
  have hlen : (replicate (2 ^ 30) (0 : UInt64)).length = 2 ^ 30 := length_replicate
  obtain ⟨p, hpack, hfrom⟩ := @pack_ok 32 (replicate (2 ^ 30) 0) (by decide)
    (by rw [hlen]; decide) fun v hv => by rw [eq_of_mem_replicate hv]; decide
  refine ⟨p, hpack, fun hparse => ?_⟩
  have hsmall := (hfrom.parse_encode_iff (by decide)).mp hparse
  rw [hlen] at hsmall
  exact absurd hsmall (by decide)

end BitPackedPayload

end CoveFormat.BitPacked
