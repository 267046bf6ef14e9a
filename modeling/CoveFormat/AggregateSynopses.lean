import CoveFormat.CanonicalValidator
import CoveFormat.FixedFields
import Mathlib.Data.FinEnum

namespace CoveFormat.AggregateSynopses

open ByteCodes CanonicalValidator ExceptRules FixedFields List
open Canonical (ValueTag TextPredicates)

variable (P : TextPredicates)

inductive SynopsisKind
  | count
  | minMax
  | sum
  | sumAndCount
  | boolTrueFalseCounts
  | fileCodeHistogram
  | numCodeHistogram
  | distinctSketch
  | quantileSketch
  | topK
  deriving DecidableEq

namespace SynopsisKind

def toU8 : SynopsisKind → UInt8
  | count => 0
  | minMax => 1
  | sum => 2
  | sumAndCount => 3
  | boolTrueFalseCounts => 4
  | fileCodeHistogram => 5
  | numCodeHistogram => 6
  | distinctSketch => 7
  | quantileSketch => 8
  | topK => 9

def fromU8 (v : UInt8) : Option SynopsisKind :=
  [count, minMax, sum, sumAndCount, boolTrueFalseCounts, fileCodeHistogram, numCodeHistogram,
    distinctSketch, quantileSketch, topK][v.toNat]?

@[simp] theorem fromU8_toU8 (kind : SynopsisKind) : fromU8 kind.toU8 = some kind := by
  cases kind <;> rfl

end SynopsisKind

inductive SynopsisAccuracy
  | exact
  | approximate
  deriving DecidableEq

def SynopsisAccuracy.toU8 : SynopsisAccuracy → UInt8
  | .exact => 0
  | .approximate => 1

def SynopsisAccuracy.fromU8 (value : UInt8) : Option SynopsisAccuracy :=
  if value = 0 then some .exact else if value = 1 then some .approximate else none

@[simp] theorem SynopsisAccuracy.fromU8_toU8 (accuracy : SynopsisAccuracy) :
    fromU8 accuracy.toU8 = some accuracy := by
  cases accuracy <;> rfl

inductive NumericAggregateOverflowPolicy
  | checkedExact
  | saturating
  | wrapping
  | decimalWidened
  deriving DecidableEq

def NumericAggregateOverflowPolicy.toU32 : NumericAggregateOverflowPolicy → UInt32
  | .checkedExact => 0
  | .saturating => 1
  | .wrapping => 2
  | .decimalWidened => 3

def NumericAggregateOverflowPolicy.fromU32 (value : UInt32) :
    Option NumericAggregateOverflowPolicy :=
  if value = 0 then some .checkedExact
  else if value = 1 then some .saturating
  else if value = 2 then some .wrapping
  else if value = 3 then some .decimalWidened
  else none

structure TaggedCanonicalValue where
  valueTag : ValueTag
  payload : Bytes
  deriving DecidableEq

structure HistogramBucket where
  (key count : UInt64)
  deriving DecidableEq

inductive AggregatePayloadV2
  | none
  | minMax (min max : Option TaggedCanonicalValue)
  | sum (overflowPolicy : NumericAggregateOverflowPolicy) (sum : TaggedCanonicalValue)
  | sumAndCount (overflowPolicy : NumericAggregateOverflowPolicy) (nonNullCount : UInt64)
      (sum : TaggedCanonicalValue)
  | boolTrueFalseCounts (trueCount falseCount : UInt64)
  | fileCodeHistogram (buckets : List HistogramBucket)
  | numCodeHistogram (buckets : List HistogramBucket)
  | distinctSketch (precision : UInt8) (registers : Bytes)
  | quantileSketch (k : UInt32) (valueTag : ValueTag) (levelOffsets : List UInt32)
      (values : List Bytes)
  | topK (k : UInt32) (entries : List HistogramBucket)
  deriving DecidableEq

structure AggregateEntry where
  (tableId segmentId morselId columnId : UInt32)
  synopsisKind : SynopsisKind
  keyKind : UInt8
  accuracy : SynopsisAccuracy
  flags : UInt8
  (rowCount nullCount : UInt32)
  (payloadOffset payloadLength : UInt64)
  checksum : UInt32
  deriving DecidableEq

def aggregateSynopsisEntryLen : Nat := 48

namespace AggregateEntry

section

variable (e : AggregateEntry)

def fields : Fields :=
  [(4, e.tableId.toNat), (4, e.segmentId.toNat), (4, e.morselId.toNat), (4, e.columnId.toNat),
    (1, e.synopsisKind.toU8.toNat), (1, e.keyKind.toNat), (1, e.accuracy.toU8.toNat),
    (1, e.flags.toNat), (4, e.rowCount.toNat), (4, e.nullCount.toNat), (8, e.payloadOffset.toNat),
    (8, e.payloadLength.toNat)]

theorem widths_fields :
    e.fields.map Prod.fst = [4, 4, 4, 4, 1, 1, 1, 1, 4, 4, 8, 8] := rfl

theorem fields_width : width e.fields = 44 := by
  rfl

end

def serialize (crc32c : Bytes → UInt32) (e : AggregateEntry) : Bytes :=
  encodeChecksummed crc32c e.fields

def parse (crc32c : Bytes → UInt32) (bytes : Bytes) : Except CoveError AggregateEntry := do
  rejectIf (bytes.length < aggregateSynopsisEntryLen) .bufferTooShort
  let bytes := bytes.take aggregateSynopsisEntryLen
  let checksum ← verifyChecksumField crc32c bytes 44
  let synopsisKind ← orBadIndex (SynopsisKind.fromU8 (readU8 bytes 16))
  let accuracy ← orBadIndex (SynopsisAccuracy.fromU8 (readU8 bytes 18))
  rejectIf (readU32 bytes 20 < readU32 bytes 24) .badIndex
  .ok {
    tableId := readU32 bytes 0
    segmentId := readU32 bytes 4
    morselId := readU32 bytes 8
    columnId := readU32 bytes 12
    synopsisKind := synopsisKind
    keyKind := readU8 bytes 17
    accuracy := accuracy
    flags := readU8 bytes 19
    rowCount := readU32 bytes 20
    nullCount := readU32 bytes 24
    payloadOffset := readU64 bytes 28
    payloadLength := readU64 bytes 36
    checksum := checksum }

def checksumOf (crc32c : Bytes → UInt32) (e : AggregateEntry) : UInt32 :=
  crc32c (encodeFields e.fields ++ replicate 4 0)

variable {crc32c : Bytes → UInt32}

@[simp] theorem serialize_length (e : AggregateEntry) :
    (serialize crc32c e).length = aggregateSynopsisEntryLen := by
  rfl

theorem parse_serialize {e : AggregateEntry} (h : e.nullCount ≤ e.rowCount) (rest : Bytes) :
    parse crc32c (serialize crc32c e ++ rest) = .ok { e with checksum := checksumOf crc32c e } := by
  have htake : (serialize crc32c e ++ rest).take aggregateSynopsisEntryLen =
      encodeChecksummed crc32c e.fields :=
    take_left' (serialize_length e)
  have hlen : ¬ (serialize crc32c e ++ rest).length < aggregateSynopsisEntryLen := by simp
  have hcrc := @verifyChecksumField_encode crc32c _ _ (fields_width e)
  set bytes := encodeChecksummed crc32c e.fields with hbytes
  have hoffsets := width_take (widths_fields e)
  have hkind : readU8 bytes 16 = e.synopsisKind.toU8 := readU8_field 4 rfl (hoffsets 4) _
  have hkey : readU8 bytes 17 = e.keyKind := readU8_field 5 rfl (hoffsets 5) _
  have haccuracy : readU8 bytes 18 = e.accuracy.toU8 := readU8_field 6 rfl (hoffsets 6) _
  have hflags : readU8 bytes 19 = e.flags := readU8_field 7 rfl (hoffsets 7) _
  have htable : readU32 bytes 0 = e.tableId := readU32_field 0 rfl (hoffsets 0) _
  have hsegment : readU32 bytes 4 = e.segmentId := readU32_field 1 rfl (hoffsets 1) _
  have hmorsel : readU32 bytes 8 = e.morselId := readU32_field 2 rfl (hoffsets 2) _
  have hcolumn : readU32 bytes 12 = e.columnId := readU32_field 3 rfl (hoffsets 3) _
  have hrows : readU32 bytes 20 = e.rowCount := readU32_field 8 rfl (hoffsets 8) _
  have hnulls : readU32 bytes 24 = e.nullCount := readU32_field 9 rfl (hoffsets 9) _
  have hoffset : readU64 bytes 28 = e.payloadOffset := readU64_field 10 rfl (hoffsets 10) _
  have hlength : readU64 bytes 36 = e.payloadLength := readU64_field 11 rfl (hoffsets 11) _
  simp only [parse, rejectIf, if_neg hlen, htake, hcrc, hkind, haccuracy, hkey, hflags, htable,
    hsegment, hmorsel, hcolumn, hrows, hnulls, hoffset, hlength, SynopsisKind.fromU8_toU8,
    SynopsisAccuracy.fromU8_toU8, if_neg (UInt32.not_lt.mpr h)]
  rfl

def identity (e : AggregateEntry) : AggregateEntry :=
  { e with payloadOffset := 0, payloadLength := 0, checksum := 0 }

end AggregateEntry

/-! Checks. -/

def validateNumericSumTag : ValueTag → Except CoveError Unit
  | .int64 | .uint64 | .decimal64 | .decimal128 | .float32Bits | .float64Bits => .ok ()
  | _ => .error .badIndex

def histogramTotal : Option UInt64 → Nat → List HistogramBucket → Except CoveError Nat
  | _, total, [] => .ok total
  | previousKey, total, bucket :: buckets => do
      rejectIf (bucket.count = 0 ∨ previousKey.any (bucket.key ≤ ·)) .badIndex
      rejectIf (2 ^ 64 ≤ total + bucket.count.toNat) .arithOverflow
      histogramTotal (some bucket.key) (total + bucket.count.toNat) buckets

def validateHistogram (buckets : List HistogramBucket) (accuracy : SynopsisAccuracy)
    (nonNullCount : Nat) : Except CoveError Unit := do
  let total ← histogramTotal none 0 buckets
  rejectIf (accuracy = .exact ∧ total ≠ nonNullCount) .badIndex

def validateTopk (entries : List HistogramBucket) : Except CoveError Unit := do
  checkAll (fun entry => rejectIf (entry.count = 0) .badIndex) entries
  checkPairs (fun prev entry => rejectIf
    (¬ (entry.count < prev.count ∨ prev.count = entry.count ∧ prev.key < entry.key)) .badIndex)
    entries

def validateHllPrecision (precision : UInt8) : Except CoveError Unit :=
  rejectIf (¬ (4 ≤ precision ∧ precision ≤ 18)) .badIndex

def validateHll (precision : UInt8) (registers : Bytes) : Except CoveError Unit := do
  validateHllPrecision precision
  rejectIf (registers.length ≠ 1 <<< precision.toNat) .badIndex
  let maxRank := 64 - precision.toNat + 1
  rejectIf (¬ ∀ rank ∈ registers, rank.toNat ≤ maxRank) .badIndex

def validateKll (k : UInt32) (valueTag : ValueTag) (levelOffsets : List UInt32)
    (values : List Bytes) : Except CoveError Unit := do
  rejectIf (k < 8 ∨ levelOffsets.length < 2) .badIndex
  checkPairs (fun previous offset => rejectIf (offset < previous) .badIndex) (0 :: levelOffsets)
  checkAll (fun offset => rejectIf (values.length < offset.toNat) .badIndex) levelOffsets
  rejectIf ((levelOffsets.getLast?.getD 0).toNat ≠ values.length) .badIndex
  checkAll (validateCanonicalPayload P valueTag) values

def validatePayload (entry : AggregateEntry) (payload : AggregatePayloadV2) :
    Except CoveError Unit := do
  rejectIf (entry.rowCount < entry.nullCount) .arithOverflow
  let nonNullCount := entry.rowCount.toNat - entry.nullCount.toNat
  match entry.synopsisKind, payload with
  | .count, .none => .ok ()
  | .minMax, .minMax min max => do
      rejectIf (entry.accuracy ≠ .exact) .badIndex
      rejectIf (¬ (min.isSome = decide (nonNullCount ≠ 0) ∧
        max.isSome = decide (nonNullCount ≠ 0))) .badIndex
  | .sum, .sum _ sum => do
      rejectIf (entry.accuracy ≠ .exact) .badIndex
      validateNumericSumTag sum.valueTag
  | .sumAndCount, .sumAndCount _ declared sum => do
      rejectIf (entry.accuracy ≠ .exact ∨ declared.toNat ≠ nonNullCount) .badIndex
      validateNumericSumTag sum.valueTag
  | .boolTrueFalseCounts, .boolTrueFalseCounts trueCount falseCount => do
      rejectIf (entry.accuracy ≠ .exact) .badIndex
      rejectIf (2 ^ 64 ≤ trueCount.toNat + falseCount.toNat) .arithOverflow
      rejectIf (trueCount.toNat + falseCount.toNat ≠ nonNullCount) .badIndex
  | .fileCodeHistogram, .fileCodeHistogram buckets | .numCodeHistogram, .numCodeHistogram buckets =>
    validateHistogram buckets entry.accuracy nonNullCount
  | .distinctSketch, .distinctSketch precision registers => do
      rejectIf (entry.accuracy ≠ .approximate) .badIndex
      validateHll precision registers
  | .quantileSketch, .quantileSketch k valueTag levelOffsets values => do
      rejectIf (entry.accuracy ≠ .approximate) .badIndex
      validateKll P k valueTag levelOffsets values
  | .topK, .topK k entries => do
      rejectIf (k = 0 ∨ k.toNat < entries.length) .badIndex
      validateTopk entries
  | _, _ => .error .badIndex

/-! Payload bytes. -/

def aggregatePayloadHeaderLen : Nat := 28

def aggregatePayloadMagic : Bytes := [65, 71, 83, 50]

def aggregatePayloadVersion : UInt8 := 1

def absentValueTag : Nat := 2 ^ 16 - 1

structure AggregatePayloadHeader where
  kind : SynopsisKind
  flags : UInt16
  (itemCount aux0 aux1 dataLen checksum : UInt32)

def encodeTagged (value : TaggedCanonicalValue) : Bytes :=
  FixedFields.encodeFields [(2, value.valueTag.code), (4, value.payload.length)] ++ value.payload

def encodeOptionalTagged : Option TaggedCanonicalValue → Bytes
  | some value => encodeTagged value
  | none => FixedFields.encodeFields [(2, absentValueTag), (4, 0)]

def encodeBuckets (buckets : List HistogramBucket) : Bytes :=
  buckets.flatMap fun bucket =>
    FixedFields.encodeFields [(8, bucket.key.toNat), (8, bucket.count.toNat)]

section

variable (crc32c : Bytes → UInt32)

def payloadFields (kind : SynopsisKind) (flags : UInt16) (itemCount aux0 aux1 : UInt32)
    (data : Bytes) : Fields :=
  [(4, leNat aggregatePayloadMagic), (1, kind.toU8.toNat), (1, aggregatePayloadVersion.toNat),
    (2, flags.toNat), (4, itemCount.toNat), (4, aux0.toNat), (4, aux1.toNat),
    (4, (UInt32.ofNat data.length).toNat)]

def encodePayloadWithHeader (kind : SynopsisKind) (flags : UInt16) (itemCount aux0 aux1 : UInt32)
    (data : Bytes) : Bytes :=
  let head := FixedFields.encodeFields (payloadFields kind flags itemCount aux0 aux1 data)
  head ++ leBytes 4 (crc32c (head ++ replicate 4 0 ++ data)).toNat ++ data

def encodePayload (entry : AggregateEntry) : AggregatePayloadV2 → Bytes
  | .none => []
  | .minMax min max =>
    encodePayloadWithHeader crc32c entry.synopsisKind 0 2 0 0
      (encodeOptionalTagged min ++ encodeOptionalTagged max)
  | .sum overflowPolicy sum =>
    encodePayloadWithHeader crc32c entry.synopsisKind 0 1 overflowPolicy.toU32 0 (encodeTagged sum)
  | .sumAndCount overflowPolicy nonNullCount sum =>
    encodePayloadWithHeader crc32c entry.synopsisKind 0 1 overflowPolicy.toU32 0
      (leBytes 8 nonNullCount.toNat ++ encodeTagged sum)
  | .boolTrueFalseCounts trueCount falseCount =>
    encodePayloadWithHeader crc32c entry.synopsisKind 0 2 0 0
      (leBytes 8 trueCount.toNat ++ leBytes 8 falseCount.toNat)
  | .fileCodeHistogram buckets | .numCodeHistogram buckets =>
    encodePayloadWithHeader crc32c entry.synopsisKind 0 (UInt32.ofNat buckets.length) 0 0
      (encodeBuckets buckets)
  | .distinctSketch precision registers =>
    encodePayloadWithHeader crc32c entry.synopsisKind 0 (UInt32.ofNat registers.length)
      precision.toUInt32 0 registers
  | .quantileSketch k valueTag levelOffsets values =>
    encodePayloadWithHeader crc32c entry.synopsisKind 0 (UInt32.ofNat values.length) k 0
      (FixedFields.encodeFields [(2, valueTag.code), (2, 0), (4, levelOffsets.length)] ++
        levelOffsets.flatMap (fun offset => leBytes 4 offset.toNat) ++
        values.flatMap fun value => leBytes 4 value.length ++ value)
  | .topK k entries =>
    encodePayloadWithHeader crc32c entry.synopsisKind 0 (UInt32.ofNat entries.length) k 0
      (encodeBuckets entries)

end

/-! Reading payloads; a cursor is the bytes that are left. -/

def cursorBytes (len : Nat) (cursor : Bytes) : Except CoveError (Bytes × Bytes) := do
  rejectIf (cursor.length < len) .offsetRange
  .ok (cursor.take len, cursor.drop len)

def cursorUint (width : Nat) (cursor : Bytes) : Except CoveError (Nat × Bytes) := do
  let read ← cursorBytes width cursor
  .ok (leNat read.1, read.2)

/-- A loop that reads the given number of items. -/
def cursorMany {α : Type} (item : Bytes → Except CoveError (α × Bytes)) :
    Nat → Bytes → Except CoveError (List α × Bytes)
  | 0, cursor => .ok ([], cursor)
  | count + 1, cursor => do
      let first ← item cursor
      let rest ← cursorMany item count first.2
      .ok (first.1 :: rest.1, rest.2)

def cursorValue (cursor : Bytes) : Except CoveError (Bytes × Bytes) := do
  let len ← cursorUint 4 cursor
  cursorBytes len.1 len.2

section

variable (crc32c : Bytes → UInt32)

def parseOptionalTagged (cursor : Bytes) :
    Except CoveError (Option TaggedCanonicalValue × Bytes) := do
  let rawTag ← cursorUint 2 cursor
  let len ← cursorUint 4 rawTag.2
  if rawTag.1 = absentValueTag then do
    rejectIf (len.1 ≠ 0) .badIndex
    .ok (none, len.2)
  else do
    let valueTag ← orBadIndex (ValueTag.fromU16 rawTag.1)
    let payload ← cursorBytes len.1 len.2
    validateCanonicalPayload P valueTag payload.1
    .ok (some ⟨valueTag, payload.1⟩, payload.2)

def parseTagged (cursor : Bytes) : Except CoveError (TaggedCanonicalValue × Bytes) := do
  let read ← parseOptionalTagged P cursor
  let value ← orBadIndex read.1
  .ok (value, read.2)

def parseSingleTaggedPayload (data : Bytes) : Except CoveError TaggedCanonicalValue := do
  let read ← parseTagged P data
  rejectIf (read.2 ≠ []) .badIndex
  .ok read.1

def parseBuckets (data : Bytes) (itemCount : UInt32) : Except CoveError (List HistogramBucket) := do
  rejectIf (data.length ≠ itemCount.toNat * 16) .badIndex
  .ok ((chunksExact 16 itemCount.toNat data).map fun chunk => ⟨readU64 chunk 0, readU64 chunk 8⟩)

def parsePayloadHeader (bytes : Bytes) : Except CoveError (AggregatePayloadHeader × Bytes) := do
  rejectIf (bytes.length < aggregatePayloadHeaderLen) .bufferTooShort
  rejectIf (bytes.take 4 ≠ aggregatePayloadMagic) .badIndex
  rejectIf (readU8 bytes 5 ≠ aggregatePayloadVersion) .badVersion
  let kind ← orBadIndex (SynopsisKind.fromU8 (readU8 bytes 4))
  let dataLen := readU32 bytes 20
  let checksum := readU32 bytes 24
  rejectIf (aggregatePayloadHeaderLen + dataLen.toNat ≠ bytes.length) .badIndex
  rejectIf (crc32c (withoutChecksum bytes 24) ≠ checksum) .checksumMismatch
  .ok ({
    kind := kind
    flags := readU16 bytes 6
    itemCount := readU32 bytes 8
    aux0 := readU32 bytes 12
    aux1 := readU32 bytes 16
    dataLen := dataLen
    checksum := checksum }, bytes.drop aggregatePayloadHeaderLen)

variable {crc32c}

def payloadChecksum (crc32c : Bytes → UInt32) (fields : Fields) (data : Bytes) : UInt32 :=
  crc32c (FixedFields.encodeFields fields ++ replicate 4 0 ++ data)

theorem parsePayloadHeader_encode (kind : SynopsisKind) (flags : UInt16)
    (itemCount aux0 aux1 : UInt32) {data : Bytes} (h : data.length < 2 ^ 32) :
    parsePayloadHeader crc32c (encodePayloadWithHeader crc32c kind flags itemCount aux0 aux1 data) =
      .ok (⟨kind, flags, itemCount, aux0, aux1, UInt32.ofNat data.length,
        payloadChecksum crc32c (payloadFields kind flags itemCount aux0 aux1 data) data⟩, data) := by
  set fields := payloadFields kind flags itemCount aux0 aux1 data with hfields
  set crc := payloadChecksum crc32c fields data with hcrc
  set bytes := encodePayloadWithHeader crc32c kind flags itemCount aux0 aux1 data with hbytes
  have hwidth : (FixedFields.encodeFields fields).length = 24 := encodeFields_length fields
  have hall : bytes = FixedFields.encodeFields (fields ++ [(4, crc.toNat)]) ++ data := by
    rfl
  have hlen : bytes.length = aggregatePayloadHeaderLen + data.length := by
    rw [hall, length_append, encodeFields_length]
    rfl
  have hmagic : bytes.take 4 = aggregatePayloadMagic := by
    rw [hall, hfields, payloadFields, cons_append, encodeFields_cons, append_assoc,
      take_left' (leBytes_length 4 _)]
    decide
  have hkind : readU8 bytes 4 = kind.toU8 := hall ▸ readU8_field 1 rfl rfl data
  have hversion : readU8 bytes 5 = aggregatePayloadVersion := hall ▸ readU8_field 2 rfl rfl data
  have hflags : readU16 bytes 6 = flags := hall ▸ readU16_field 3 rfl rfl data
  have hitems : readU32 bytes 8 = itemCount := hall ▸ readU32_field 4 rfl rfl data
  have haux0 : readU32 bytes 12 = aux0 := hall ▸ readU32_field 5 rfl rfl data
  have haux1 : readU32 bytes 16 = aux1 := hall ▸ readU32_field 6 rfl rfl data
  have hdata : readU32 bytes 20 = UInt32.ofNat data.length := hall ▸ readU32_field 7 rfl rfl data
  have hcheck : readU32 bytes 24 = crc := hall ▸ readU32_field 8 rfl rfl data
  have hzero : crc32c (withoutChecksum bytes 24) = crc := by
    have hhead : bytes = FixedFields.encodeFields fields ++ (leBytes 4 crc.toNat ++ data) := by
      rfl
    have hfour : (FixedFields.encodeFields fields ++ leBytes 4 crc.toNat).length = 24 + 4 := by
      rw [length_append, hwidth, leBytes_length]
    rw [withoutChecksum, hhead, take_left' hwidth, ← append_assoc,
      drop_left' hfour, hcrc, payloadChecksum]
  have hsize : (UInt32.ofNat data.length).toNat = data.length := UInt32.toNat_ofNat_of_lt' h
  have hrest : bytes.drop aggregatePayloadHeaderLen = data := by
    rw [hall]
    exact drop_left' (encodeFields_length _)
  simp only [parsePayloadHeader, hmagic, hkind, hversion, hflags, hitems, haux0, haux1, hdata,
    hcheck, hzero, hsize, hrest, SynopsisKind.fromU8_toU8]
  rw [rejectIf, if_neg (by omega), rejectIf, if_neg (not_not.mpr rfl), rejectIf,
    if_neg (not_not.mpr rfl), rejectIf, if_neg (by omega), rejectIf, if_neg (not_not.mpr rfl)]
  rfl

variable (crc32c)

def parsePayloadData (header : AggregatePayloadHeader) (data : Bytes) :
    Except CoveError AggregatePayloadV2 :=
  match header.kind with
  | .count => .error .badIndex
  | .minMax => do
      rejectIf (header.itemCount ≠ 2) .badIndex
      let min ← parseOptionalTagged P data
      let max ← parseOptionalTagged P min.2
      .ok (.minMax min.1 max.1)
  | .sum => do
      let overflowPolicy ← orBadIndex (NumericAggregateOverflowPolicy.fromU32 header.aux0)
      let sum ← parseSingleTaggedPayload P data
      .ok (.sum overflowPolicy sum)
  | .sumAndCount => do
      let nonNullCount ← cursorUint 8 data
      let overflowPolicy ← orBadIndex (NumericAggregateOverflowPolicy.fromU32 header.aux0)
      let sum ← parseTagged P nonNullCount.2
      .ok (.sumAndCount overflowPolicy (UInt64.ofNat nonNullCount.1) sum.1)
  | .boolTrueFalseCounts => do
      rejectIf (data.length ≠ 16 ∨ header.itemCount ≠ 2) .badIndex
      .ok (.boolTrueFalseCounts (readU64 data 0) (readU64 data 8))
  | .fileCodeHistogram => do
      let buckets ← parseBuckets data header.itemCount
      .ok (.fileCodeHistogram buckets)
  | .numCodeHistogram => do
      let buckets ← parseBuckets data header.itemCount
      .ok (.numCodeHistogram buckets)
  | .distinctSketch => do
      rejectIf (256 ≤ header.aux0.toNat) .badIndex
      rejectIf (header.itemCount.toNat ≠ data.length) .badIndex
      .ok (.distinctSketch (UInt8.ofNat header.aux0.toNat) data)
  | .quantileSketch => do
      let valueTagRaw ← cursorUint 2 data
      let valueTag ← orBadIndex (ValueTag.fromU16 valueTagRaw.1)
      let reserved ← cursorUint 2 valueTagRaw.2
      rejectIf (reserved.1 ≠ 0) .badIndex
      let levelCount ← cursorUint 4 reserved.2
      rejectIf (levelCount.1 < 2) .badIndex
      let levelOffsets ← cursorMany (cursorUint 4) levelCount.1 levelCount.2
      let values ← cursorMany cursorValue header.itemCount.toNat levelOffsets.2
      rejectIf (values.2 ≠ []) .badIndex
      .ok (.quantileSketch header.aux0 valueTag (levelOffsets.1.map UInt32.ofNat) values.1)
  | .topK => do
      let entries ← parseBuckets data header.itemCount
      .ok (.topK header.aux0 entries)

def parsePayload (entry : AggregateEntry) (bytes : Bytes) : Except CoveError AggregatePayloadV2 := do
  let read ← parsePayloadHeader crc32c bytes
  rejectIf (read.1.kind ≠ entry.synopsisKind) .badIndex
  let payload ← parsePayloadData P read.1 read.2
  validatePayload P entry payload
  .ok payload

end

/-! Sections of entries and payloads. -/

structure AggregateSynopsis where
  entries : List AggregateEntry
  payloads : List AggregatePayloadV2
  deriving DecidableEq

namespace AggregateSynopsis

variable (crc32c : Bytes → UInt32)

def validate (s : AggregateSynopsis) : Except CoveError Unit :=
  if s.payloads = [] then checkAll (fun entry => validatePayload P entry .none) s.entries
  else do
    rejectIf (s.entries.length ≠ s.payloads.length) .badIndex
    checkAll (fun p => validatePayload P p.1 p.2) (s.entries.zip s.payloads)

def fromParts (entries : List AggregateEntry) (payloads : List AggregatePayloadV2) :
    Except CoveError AggregateSynopsis := do
  validate P ⟨entries, payloads⟩
  .ok ⟨entries, payloads⟩

def placed (entry : AggregateEntry) (offset : Nat) (encodedPayload : Bytes) : AggregateEntry :=
  if encodedPayload = [] then { entry with payloadOffset := 0, payloadLength := 0 }
  else { entry with
    payloadOffset := UInt64.ofNat offset
    payloadLength := UInt64.ofNat encodedPayload.length }

/-- Entry bytes and payload bytes, from the given payload position on. -/
def serializeParts (offset : Nat) : List (AggregateEntry × AggregatePayloadV2) → Bytes × Bytes
  | [] => ([], [])
  | (entry, payload) :: parts =>
    let encodedPayload := encodePayload crc32c entry payload
    let rest := serializeParts (offset + encodedPayload.length) parts
    ((placed entry offset encodedPayload).serialize crc32c ++ rest.1, encodedPayload ++ rest.2)

def serialize (s : AggregateSynopsis) : Bytes :=
  if s.payloads = [] then s.entries.flatMap (AggregateEntry.serialize crc32c)
  else
    let parts := serializeParts crc32c (s.entries.length * aggregateSynopsisEntryLen)
      (s.entries.zip s.payloads)
    parts.1 ++ parts.2

def entriesAt (bytes : Bytes) (entryCount : Nat) : Except CoveError (List AggregateEntry) :=
  (range entryCount).mapM fun index =>
    AggregateEntry.parse crc32c
      ((bytes.drop (index * aggregateSynopsisEntryLen)).take aggregateSynopsisEntryLen)

def fits (bytes : Bytes) (entryCount : Nat) (entries : List AggregateEntry) : Bool :=
  let tableLen := entryCount * aggregateSynopsisEntryLen
  let withPayload := entries.filter (·.payloadLength ≠ 0)
  if withPayload = [] then tableLen == bytes.length
  else (withPayload.map (·.payloadOffset.toNat)).min? == some tableLen &&
    withPayload.all fun entry =>
      entry.payloadOffset.toNat + entry.payloadLength.toNat < 2 ^ 64 &&
        tableLen ≤ entry.payloadOffset.toNat &&
        entry.payloadOffset.toNat + entry.payloadLength.toNat ≤ bytes.length

/-- The first entry count whose table fits, and else the first error of a table. -/
def inferFrom (bytes : Bytes) : Option CoveError → List Nat → Except CoveError Nat
  | firstParseError, [] => .error (firstParseError.getD .badIndex)
  | firstParseError, entryCount :: counts =>
    match entriesAt crc32c bytes entryCount with
    | .error err => inferFrom bytes (some (firstParseError.getD err)) counts
    | .ok entries =>
      if fits bytes entryCount entries then .ok entryCount
      else inferFrom bytes firstParseError counts

variable (bytes : Bytes)

def inferEntryCount : Except CoveError Nat :=
  inferFrom crc32c bytes none (List.range' 1 (bytes.length / aggregateSynopsisEntryLen))

def payloadAt (tableLen : Nat) (entry : AggregateEntry) : Except CoveError AggregatePayloadV2 :=
  if entry.payloadLength = 0 then .ok .none
  else do
    rejectIf (entry.payloadOffset.toNat < tableLen) .badIndex
    let region ← (checkedRegion bytes entry.payloadOffset.toNat entry.payloadLength.toNat).mapError
      fun _ => .badIndex
    (parsePayload P crc32c entry region).mapError fun _ => .badIndex

def parse : Except CoveError AggregateSynopsis := do
  rejectIf (bytes.length < aggregateSynopsisEntryLen) .bufferTooShort
  let entryCount ← inferEntryCount crc32c bytes
  let entries ← entriesAt crc32c bytes entryCount
  let payloads ← entries.mapM
    (payloadAt P crc32c bytes (entryCount * aggregateSynopsisEntryLen))
  validate P ⟨entries, payloads⟩
  .ok ⟨entries, payloads⟩

end AggregateSynopsis

end CoveFormat.AggregateSynopses
