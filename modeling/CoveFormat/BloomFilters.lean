import CoveFormat.ExactSets

namespace CoveFormat.BloomFilters

open ByteCodes ExceptRules FixedFields List ProbeFilters

inductive BloomGranularity
  | segment
  | morsel

inductive BloomHashDomain
  | fileCode
  | numCode
  | canonicalValueHash

inductive BloomAlgorithm
  | splitBlock

def BloomGranularity.toU8 : BloomGranularity → UInt8
  | .segment => 0
  | .morsel => 1

def BloomGranularity.fromU8 (value : UInt8) : Option BloomGranularity :=
  if value = 0 then some .segment else if value = 1 then some .morsel else none

def BloomHashDomain.toU8 : BloomHashDomain → UInt8
  | .fileCode => 0
  | .numCode => 1
  | .canonicalValueHash => 2

def BloomHashDomain.fromU8 (value : UInt8) : Option BloomHashDomain :=
  if value = 0 then some .fileCode
  else if value = 1 then some .numCode
  else if value = 2 then some .canonicalValueHash
  else none

def BloomAlgorithm.toU8 : BloomAlgorithm → UInt8
  | .splitBlock => 0

def BloomAlgorithm.fromU8 (value : UInt8) : Option BloomAlgorithm :=
  if value = 0 then some .splitBlock else none

@[simp] theorem BloomGranularity.fromU8_toU8 (g : BloomGranularity) : fromU8 g.toU8 = some g := by
  cases g <;> rfl

@[simp] theorem BloomHashDomain.fromU8_toU8 (d : BloomHashDomain) : fromU8 d.toU8 = some d := by
  cases d <;> rfl

@[simp] theorem BloomAlgorithm.fromU8_toU8 (a : BloomAlgorithm) : fromU8 a.toU8 = some a := by
  cases a
  rfl

structure BloomIndexHeaderV1 where
  (tableId columnId : UInt32)
  granularity : BloomGranularity
  hashDomain : BloomHashDomain
  algorithm : BloomAlgorithm
  flags : UInt8
  (targetFprPpm filterCount : UInt32)
  (dataOffset dataLength : UInt64)
  checksum : UInt32

def bloomIndexHeaderLen : Nat := 40

namespace BloomIndexHeaderV1

def fields (h : BloomIndexHeaderV1) : Fields :=
  [(4, h.tableId.toNat), (4, h.columnId.toNat), (1, h.granularity.toU8.toNat),
    (1, h.hashDomain.toU8.toNat), (1, h.algorithm.toU8.toNat), (1, h.flags.toNat),
    (4, h.targetFprPpm.toNat), (4, h.filterCount.toNat), (8, h.dataOffset.toNat),
    (8, h.dataLength.toNat)]

theorem widths_fields (h : BloomIndexHeaderV1) :
    h.fields.map Prod.fst = [4, 4, 1, 1, 1, 1, 4, 4, 8, 8] := rfl

theorem fields_width (h : BloomIndexHeaderV1) : width h.fields = 36 := by
  rfl

def serialize (crc32c : Bytes → UInt32) (h : BloomIndexHeaderV1) : Bytes :=
  encodeChecksummed crc32c h.fields

def parse (crc32c : Bytes → UInt32) (bytes : Bytes) : Except CoveError BloomIndexHeaderV1 := do
  rejectIf (bytes.length < bloomIndexHeaderLen) .bufferTooShort
  let bytes := bytes.take bloomIndexHeaderLen
  let checksum ← verifyChecksumField crc32c bytes 36
  let granularity ← orBadIndex (BloomGranularity.fromU8 (readU8 bytes 8))
  let hashDomain ← orBadIndex (BloomHashDomain.fromU8 (readU8 bytes 9))
  let algorithm ← orBadIndex (BloomAlgorithm.fromU8 (readU8 bytes 10))
  .ok {
    tableId := readU32 bytes 0
    columnId := readU32 bytes 4
    granularity := granularity
    hashDomain := hashDomain
    algorithm := algorithm
    flags := readU8 bytes 11
    targetFprPpm := readU32 bytes 12
    filterCount := readU32 bytes 16
    dataOffset := readU64 bytes 20
    dataLength := readU64 bytes 28
    checksum := checksum }

variable {crc32c : Bytes → UInt32}

@[simp] theorem serialize_length (h : BloomIndexHeaderV1) :
    (serialize crc32c h).length = bloomIndexHeaderLen := by
  rfl

def checksumOf (crc32c : Bytes → UInt32) (h : BloomIndexHeaderV1) : UInt32 :=
  crc32c (encodeFields h.fields ++ replicate 4 0)

theorem parse_serialize (h : BloomIndexHeaderV1) (rest : Bytes) :
    parse crc32c (serialize crc32c h ++ rest) = .ok { h with checksum := checksumOf crc32c h } := by
  have htake : (serialize crc32c h ++ rest).take bloomIndexHeaderLen =
      encodeChecksummed crc32c h.fields :=
    take_left' (serialize_length h)
  have hlen : ¬ (serialize crc32c h ++ rest).length < bloomIndexHeaderLen := by simp
  have hcrc := @verifyChecksumField_encode crc32c _ _ (fields_width h)
  have hoffsets := width_take (widths_fields h)
  have hgranularity : readU8 (encodeChecksummed crc32c h.fields) 8 = h.granularity.toU8 :=
    readU8_field 2 rfl (hoffsets 2) _
  have hdomain : readU8 (encodeChecksummed crc32c h.fields) 9 = h.hashDomain.toU8 :=
    readU8_field 3 rfl (hoffsets 3) _
  have halgorithm : readU8 (encodeChecksummed crc32c h.fields) 10 = h.algorithm.toU8 :=
    readU8_field 4 rfl (hoffsets 4) _
  have htable : readU32 (encodeChecksummed crc32c h.fields) 0 = h.tableId :=
    readU32_field 0 rfl (hoffsets 0) _
  have hcolumn : readU32 (encodeChecksummed crc32c h.fields) 4 = h.columnId :=
    readU32_field 1 rfl (hoffsets 1) _
  have hflags : readU8 (encodeChecksummed crc32c h.fields) 11 = h.flags :=
    readU8_field 5 rfl (hoffsets 5) _
  have hfpr : readU32 (encodeChecksummed crc32c h.fields) 12 = h.targetFprPpm :=
    readU32_field 6 rfl (hoffsets 6) _
  have hcount : readU32 (encodeChecksummed crc32c h.fields) 16 = h.filterCount :=
    readU32_field 7 rfl (hoffsets 7) _
  have hoffset : readU64 (encodeChecksummed crc32c h.fields) 20 = h.dataOffset :=
    readU64_field 8 rfl (hoffsets 8) _
  have hlength : readU64 (encodeChecksummed crc32c h.fields) 28 = h.dataLength :=
    readU64_field 9 rfl (hoffsets 9) _
  simp only [parse, rejectIf, if_neg hlen, htake, hcrc, hgranularity, hdomain, halgorithm, htable,
    hcolumn, hflags, hfpr, hcount, hoffset, hlength, BloomGranularity.fromU8_toU8,
    BloomHashDomain.fromU8_toU8, BloomAlgorithm.fromU8_toU8]
  rfl

end BloomIndexHeaderV1

structure BloomFilterIndex where
  header : BloomIndexHeaderV1
  hashCount : UInt8
  bits : Bytes

def fnv1a64 (bytes : Bytes) (seed : UInt64) : UInt64 :=
  bytes.foldl (fun h b => (h ^^^ b.toUInt64) * 0x100000001b3) (0xcbf29ce484222325 ^^^ seed)

def baseHashes (value : Bytes) : UInt64 × UInt64 := (fnv1a64 value 0, fnv1a64 value 0xdeadbeef)

def doubleHash (h1 h2 : UInt64) (i : Nat) : UInt64 := h1 + UInt64.ofNat i * h2

namespace BloomFilterIndex

variable (crc32c : Bytes → UInt32)

def nbits (f : BloomFilterIndex) : UInt64 := UInt64.ofNat f.bits.length * 8

/-- The `i`-th bit that a value is looked up at. -/
def probe (f : BloomFilterIndex) (value : Bytes) (i : Nat) : Nat :=
  (doubleHash (baseHashes value).1 (baseHashes value).2 i % f.nbits).toNat

def insert (f : BloomFilterIndex) (value : Bytes) : BloomFilterIndex :=
  if f.nbits = 0 then f
  else { f with bits := ((range f.hashCount.toNat).map (f.probe value)).foldl setBit f.bits }

def mightContain (f : BloomFilterIndex) (value : Bytes) : Bool :=
  if f.nbits = 0 then false
  else (range f.hashCount.toNat).all fun i => bitAt f.bits (f.probe value i)

def parse (bytes : Bytes) : Except CoveError BloomFilterIndex := do
  let header ← BloomIndexHeaderV1.parse crc32c bytes
  let bits ← checkedRegion bytes header.dataOffset.toNat header.dataLength.toNat
  rejectIf (header.filterCount = 0 ∨ bits = []) .badIndex
  .ok ⟨header, 7, bits⟩

def storedHeader (f : BloomFilterIndex) : BloomIndexHeaderV1 :=
  { f.header with
    dataOffset := UInt64.ofNat bloomIndexHeaderLen
    dataLength := UInt64.ofNat f.bits.length }

def serialize (f : BloomFilterIndex) : Bytes :=
  f.storedHeader.serialize crc32c ++ f.bits

def insertAll (f : BloomFilterIndex) (values : List Bytes) : BloomFilterIndex :=
  values.foldl insert f

variable {crc32c} {f : BloomFilterIndex}

def probes (f : BloomFilterIndex) (value : Bytes) : Set Nat :=
  {k | ∃ i < f.hashCount.toNat, f.probe value i = k}

theorem probe_lt (hn : f.nbits ≠ 0) (value : Bytes) (i : Nat) :
    f.probe value i / 8 < f.bits.length := by
  have hpos : 0 < f.nbits.toNat := Nat.pos_of_ne_zero fun h => hn (UInt64.toNat_inj.mp h)
  have hlt : f.probe value i < f.nbits.toNat := by
    exact Nat.mod_lt _ hpos
  have hle : f.nbits.toNat ≤ f.bits.length * 8 := by
    exact (Nat.mod_le _ _).trans (Nat.mul_le_mul_right 8 (Nat.mod_le _ _))
  omega

theorem mightContain_iff (hn : f.nbits ≠ 0) (value : Bytes) :
    f.mightContain value = true ↔ MightContain f.probes (bitSet f.bits) value := by
  rw [mightContain, if_neg hn, all_eq_true]
  constructor
  · rintro h k ⟨i, hi, rfl⟩
    exact h i (mem_range.mpr hi)
  · intro h i hi
    exact h ⟨i, mem_range.mp hi, rfl⟩

/-- What one insert leaves as it was. -/
structure SameShape (f g : BloomFilterIndex) : Prop where
  header : g.header = f.header
  hashCount : g.hashCount = f.hashCount
  length : g.bits.length = f.bits.length

variable {g : BloomFilterIndex}

section

variable (h : SameShape f g)
include h

theorem SameShape.nbits : g.nbits = f.nbits := by
  rw [BloomFilterIndex.nbits, BloomFilterIndex.nbits, h.length]

theorem SameShape.probe (value : Bytes) (i : Nat) : g.probe value i = f.probe value i := by
  rw [BloomFilterIndex.probe, BloomFilterIndex.probe, h.nbits]

theorem SameShape.probes : g.probes = f.probes := by
  funext value
  simp only [BloomFilterIndex.probes, h.probe, h.hashCount]

end

theorem insert_sameShape (f : BloomFilterIndex) (value : Bytes) : SameShape f (f.insert value) := by
  rw [insert]
  split
  · exact ⟨rfl, rfl, rfl⟩
  · exact ⟨rfl, rfl, foldl_setBit_length _ _⟩

theorem insert_bitSet (hn : f.nbits ≠ 0) (value : Bytes) :
    bitSet (f.insert value).bits = ProbeFilters.insert f.probes (bitSet f.bits) value := by
  have hin : ∀ k ∈ (List.range f.hashCount.toNat).map (f.probe value), k / 8 < f.bits.length := by
    intro k hk
    obtain ⟨i, -, rfl⟩ := mem_map.mp hk
    exact probe_lt hn value i
  rw [insert, if_neg hn, bitSet_foldl_setBit hin, ProbeFilters.insert]
  ext k
  simp [probes]

theorem insertAll_sameShape (f : BloomFilterIndex) (values : List Bytes) :
    SameShape f (f.insertAll values) := by
  induction values generalizing f with
  | nil => exact ⟨rfl, rfl, rfl⟩
  | cons value values ih =>
    have hstep := insert_sameShape f value
    have hrest := ih (f.insert value)
    exact ⟨hrest.header.trans hstep.header, hrest.hashCount.trans hstep.hashCount,
      hrest.length.trans hstep.length⟩

theorem insertAll_bitSet (hn : f.nbits ≠ 0) (values : List Bytes) :
    bitSet (f.insertAll values).bits =
      values.foldl (ProbeFilters.insert f.probes) (bitSet f.bits) := by
  rw [insertAll]
  induction values generalizing f with
  | nil => rfl
  | cons value values ih =>
    have hstep := insert_sameShape f value
    rw [foldl_cons, foldl_cons, ih (hstep.nbits ▸ hn), hstep.probes, insert_bitSet hn]

theorem mightContain_insertAll (hn : f.nbits ≠ 0) {values : List Bytes} {value : Bytes}
    (hv : value ∈ values) : (f.insertAll values).mightContain value = true := by
  have hshape := insertAll_sameShape f values
  rw [mightContain_iff (hshape.nbits ▸ hn), hshape.probes, insertAll_bitSet hn]
  exact mightContain_foldl hv _

def reloaded (crc32c : Bytes → UInt32) (f : BloomFilterIndex) : BloomFilterIndex :=
  ⟨{ f.storedHeader with checksum := f.storedHeader.checksumOf crc32c }, 7, f.bits⟩

theorem parse_serialize (hlen : f.bits.length < 2 ^ 63) (hbits : f.bits ≠ [])
    (hcount : f.header.filterCount ≠ 0) :
    parse crc32c (serialize crc32c f) = .ok (reloaded crc32c f) := by
  have hoffset : f.storedHeader.dataOffset.toNat = (f.storedHeader.serialize crc32c).length := by
    rfl
  have hlength : f.storedHeader.dataLength.toNat = f.bits.length := by
    rw [storedHeader, UInt64.toNat_ofNat', Nat.mod_eq_of_lt (by omega)]
  have hregion : checkedRegion (serialize crc32c f) f.storedHeader.dataOffset.toNat
      f.storedHeader.dataLength.toNat = .ok f.bits := by
    refine checkedRegion_ok_iff.mpr ⟨?_, ?_, ?_⟩
    · rw [hoffset, hlength, BloomIndexHeaderV1.serialize_length, bloomIndexHeaderLen]
      omega
    · rw [hoffset, hlength, serialize, length_append]
    · rw [hoffset, hlength, serialize, drop_left, take_length]
  have hkeep : ¬ (f.storedHeader.filterCount = 0 ∨ f.bits = []) := by
    rintro (h | h)
    · exact hcount h
    · exact hbits h
  rw [parse, serialize, BloomIndexHeaderV1.parse_serialize]
  exact andThen_ok rfl (andThen_ok hregion (rejectIf_andThen hkeep rfl))

theorem reloaded_probe (f : BloomFilterIndex) (values : List Bytes) (value : Bytes) (i : Nat) :
    (reloaded crc32c (f.insertAll values)).probe value i = f.probe value i :=
  (insertAll_sameShape f values).probe value i

theorem reloaded_mightContain_iff (hn : f.nbits ≠ 0) (values : List Bytes) (value : Bytes) :
    (reloaded crc32c (f.insertAll values)).mightContain value = true ↔
      ∀ i < 7, bitAt f.bits (f.probe value i) = true ∨
        ∃ w ∈ values, ∃ j < f.hashCount.toNat, f.probe w j = f.probe value i := by
  have hn' : (reloaded crc32c (f.insertAll values)).nbits ≠ 0 :=
    (insertAll_sameShape f values).nbits ▸ hn
  have hbits : bitSet (reloaded crc32c (f.insertAll values)).bits =
      values.foldl (ProbeFilters.insert f.probes) (bitSet f.bits) :=
    insertAll_bitSet hn values
  rw [mightContain_iff hn', hbits, mightContain_foldl_iff]
  constructor
  · exact fun h i hi => h _ ⟨i, hi, reloaded_probe f values value i⟩
  · rintro h k ⟨i, hi, rfl⟩
    rw [reloaded_probe]
    exact h i hi

/-- Every inserted value is found, before and after storage, exactly when the positions probed
only after storage were marked at first or belong to an inserted value. -/
theorem bloom_stored_iff (crc32c : Bytes → UInt32) (f : BloomFilterIndex) (values : List Bytes)
    (hlen : f.bits.length < 2 ^ 63) (hbits : f.bits ≠ []) (hcount : f.header.filterCount ≠ 0) :
    ((∀ v ∈ values, (f.insertAll values).mightContain v = true) ∧
      ∃ g, parse crc32c (serialize crc32c (f.insertAll values)) = .ok g ∧
        ∀ v ∈ values, g.mightContain v = true) ↔
    ∀ v ∈ values, f.nbits ≠ 0 ∧ ∀ i, f.hashCount.toNat ≤ i → i < 7 →
      bitAt f.bits (f.probe v i) = true ∨
        ∃ w ∈ values, ∃ j < f.hashCount.toNat, f.probe w j = f.probe v i := by
  have hshape := insertAll_sameShape f values
  have hbits' : (f.insertAll values).bits ≠ [] := by
    rwa [← length_pos_iff, hshape.length, length_pos_iff]
  have hstored := @parse_serialize crc32c (f.insertAll values) (hshape.length ▸ hlen) hbits'
    (hshape.header ▸ hcount)
  by_cases hn : f.nbits = 0
  · -- no bit can be addressed: nothing is inserted and nothing is found
    have hnone (v : Bytes) : (f.insertAll values).mightContain v ≠ true := by
      rw [mightContain, if_pos (hshape.nbits.trans hn)]
      exact Bool.false_ne_true
    constructor
    · exact fun h v hv => absurd (h.1 v hv) (hnone v)
    · intro h
      obtain rfl : values = [] := eq_nil_iff_forall_not_mem.mpr fun v hv => (h v hv).1 hn
      exact ⟨forall_mem_nil _, _, hstored, forall_mem_nil _⟩
  · constructor
    · rintro ⟨-, g, hg, hfound⟩ v hv
      obtain rfl := Except.ok.inj (hstored.symm.trans hg)
      exact ⟨hn, fun i _ hi => (reloaded_mightContain_iff hn values v).mp (hfound v hv) i hi⟩
    · intro h
      refine ⟨fun v hv => mightContain_insertAll hn hv, _, hstored, fun v hv => ?_⟩
      refine (reloaded_mightContain_iff hn values v).mpr fun i hi => ?_
      by_cases hij : i < f.hashCount.toNat
      · exact .inr ⟨v, hv, i, hij, rfl⟩
      · exact (h v hv).2 i (not_lt.mp hij) hi

def fourProbes : BloomFilterIndex :=
  ⟨⟨1, 0, .morsel, .canonicalValueHash, .splitBlock, 0, 10000, 1, 40, 32, 0⟩, 4,
    replicate 32 0⟩

def alice : Bytes := [97, 108, 105, 99, 101]

/-- `alice` is lost in storage. -/
theorem alice_lost : ∃ g,
    parse castagnoli (serialize castagnoli (fourProbes.insertAll [alice])) = .ok g ∧
      g.mightContain alice = false := by
  have hrun : (parse castagnoli (serialize castagnoli
      (fourProbes.insertAll [alice]))).toOption.any (fun g => !g.mightContain alice) = true := by
    decide +kernel
  obtain ⟨g, hg, hrun⟩ := (Option.any_eq_true _ _).mp hrun
  exact ⟨g, toOption_eq_some_iff.mp hg, Bool.not_eq_true' _ |>.mp hrun⟩

def sevenProbes : BloomFilterIndex := { fourProbes with hashCount := 7 }

def bob : Bytes := [98, 111, 98]

theorem bloom_stored_iff_two :
    (∀ v ∈ [alice, bob], (sevenProbes.insertAll [alice, bob]).mightContain v = true) ∧
      ∃ g, parse castagnoli (serialize castagnoli (sevenProbes.insertAll [alice, bob])) = .ok g ∧
        ∀ v ∈ [alice, bob], g.mightContain v = true :=
  (bloom_stored_iff castagnoli sevenProbes [alice, bob] (by decide +kernel) (by decide)
    (by decide)).mpr fun _ _ => ⟨by decide, fun _ hge hlt => absurd hlt (not_lt.mpr hge)⟩

/-- Neither the order of the values nor how often one is put in changes the filter. -/
theorem insertAll_congr (f : BloomFilterIndex) {values values' : List Bytes}
    (h : ∀ v, v ∈ values ↔ v ∈ values') :
    f.insertAll values = f.insertAll values' := by
  have hshape := insertAll_sameShape f values
  have hshape' := insertAll_sameShape f values'
  have hbits : (f.insertAll values).bits = (f.insertAll values').bits := by
    by_cases hn : f.nbits = 0
    · have hsame (values : List Bytes) : f.insertAll values = f := by
        rw [insertAll]
        exact foldl_fixed' (f := insert) (fun value => if_pos hn) values
      rw [hsame, hsame]
    · refine bits_ext (hshape.length.trans hshape'.length.symm) ?_
      rw [insertAll_bitSet hn, insertAll_bitSet hn, foldl_insert, foldl_insert]
      simp only [h]
  have heta (g : BloomFilterIndex) : g = ⟨g.header, g.hashCount, g.bits⟩ := rfl
  rw [heta (f.insertAll values), heta (f.insertAll values'), hbits, hshape.header, hshape'.header,
    hshape.hashCount, hshape'.hashCount]

theorem insertAll_congr_twice : fourProbes.insertAll [alice, alice] = fourProbes.insertAll [alice] :=
  insertAll_congr fourProbes (by simp)

end BloomFilterIndex

end CoveFormat.BloomFilters
