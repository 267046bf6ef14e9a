import CoveFormat.EncodedArrays

namespace CoveFormat.LogicalPages

open ByteCodes CheckedArith ExceptRules FixedFields PagePayloads TakeReaders ValidityBitmaps
  EncodedArrays List Option Except
open CoveTypes (CoveLogicalType CovePhysicalKind)

variable {rows : List (Option Bytes)} {a : EncodedArray} {chunks : List Bytes} {bytes : Bytes}

/-- The logical rows of a page: null, or the bytes of the value. -/
structure LogicalPage where
  values : List (Option Bytes)
  deriving DecidableEq

def fixedWidthForLogicalType : CoveLogicalType → Except CoveError Nat
  | .bool | .int8 | .uint8 => .ok 1
  | .int16 | .uint16 => .ok 2
  | .int32 | .uint32 | .float32 | .dateDays => .ok 4
  | .int64 | .uint64 | .float64 | .decimal64 | .timestampMicros | .timestampNanos => .ok 8
  | .decimal128 | .uuid => .ok 16
  | _ => .error .badCodecExtension

def fallbackEncodingKind : CovePhysicalKind → CoveEncodingKind
  | .fileCode => .fileCode
  | .numCode => .numCode
  | .boolean | .fixedBytes => .plainFixed
  | .varBytes => .varBytes
  | .list | .struct | .map => .canonical

section

variable (logical : CoveLogicalType) (physical : CovePhysicalKind) (dictionaryLen : Option UInt32)

/-- The bytes that `append_null_placeholder` appends. -/
def nullPlaceholder : Except CoveError Bytes :=
  match physical with
  | .boolean => .ok [0]
  | .numCode => .ok (putU64 0)
  | .fileCode => .ok (putU32 0)
  | .fixedBytes => do
      let width ← fixedWidthForLogicalType logical
      .ok (replicate width 0)
  | .varBytes => .ok (putU32 0)
  | .list | .struct | .map => .error .badCodecExtension

/-- The bytes that `append_non_null_value` appends. -/
def nonNullValue (bytes : Bytes) : Except CoveError Bytes :=
  match physical with
  | .boolean =>
    match bytes with
    | [byte] => if 1 < byte then .error .badCodecExtension else .ok [byte]
    | _ => .error .badCodecExtension
  | .numCode => do
      rejectIf (bytes.length ≠ 8) .badCodecExtension
      .ok bytes
  | .fileCode => do
      rejectIf (bytes.length ≠ 4) .badCodecExtension
      rejectIf (∃ len ∈ dictionaryLen, len ≤ UInt32.ofNat (leNat bytes)) .badFileCode
      .ok bytes
  | .fixedBytes => do
      let expected ← fixedWidthForLogicalType logical
      rejectIf (bytes.length ≠ expected) .badCodecExtension
      .ok bytes
  | .varBytes => do
      rejectIf (2 ^ 32 ≤ bytes.length) .arithOverflow
      .ok (putU32 (UInt32.ofNat bytes.length) ++ bytes)
  | .list | .struct | .map => .error .badCodecExtension

def rowBytes : Option Bytes → Except CoveError Bytes
  | none => nullPlaceholder logical physical
  | some bytes => nonNullValue logical physical dictionaryLen bytes

/-- What the loop over the rows has written. -/
structure WrittenRows where
  nullBitmap : Bytes
  nullCount : Nat
  values : Bytes

/-- `null_bitmap[index >> 3] |= 1 << (index & 7)`. -/
def setBit (bitmap : Bytes) (index : Nat) : Bytes :=
  bitmap.modify (index / 8) fun byte => byte ||| 1 <<< UInt8.ofNat (index % 8)

def appendRows : Nat → List (Option Bytes) → WrittenRows → Except CoveError WrittenRows
  | _, [], written => .ok written
  | index, none :: rows, written => do
      let placeholder ← rowBytes logical physical dictionaryLen none
      appendRows (index + 1) rows ⟨setBit written.nullBitmap index, written.nullCount + 1,
        written.values ++ placeholder⟩
  | index, some bytes :: rows, written => do
      let value ← rowBytes logical physical dictionaryLen (some bytes)
      appendRows (index + 1) rows { written with values := written.values ++ value }

-- The CRC32C of the checksum package.
variable (crc32c : Bytes → UInt32)

def logicalPageToColumnPayload (page : LogicalPage) : Except CoveError ColumnPagePayloadV1 := do
  rejectIf (2 ^ 32 ≤ page.values.length) .arithOverflow
  let written ← appendRows logical physical dictionaryLen 0 page.values
    ⟨replicate ((page.values.length + 7) / 8) 0, 0, []⟩
  let bytes ← ColumnPagePayloadV1.buildSingleNode crc32c (UInt32.ofNat page.values.length)
    (fallbackEncodingKind physical) logical physical
    (if written.nullCount ≠ 0 then some written.nullBitmap else none) written.values
  ColumnPagePayloadV1.parse crc32c bytes

end

section

variable (lib : TransformDecoders) (dictionaryLen : Option UInt32)

def toLogicalRow : CoveArrayValue → Except CoveError (Option Bytes)
  | .null => .ok none
  | .bytes bytes | .ownedBytes bytes => .ok (some bytes)
  | .varint value => .ok (some (putU64 value))
  | .int64 value => .ok (some (putI64 value))
  | .fileCode value => do
      rejectIf (∃ len ∈ dictionaryLen, len ≤ value) .badFileCode
      .ok (some (putU32 value))
  | .dictValue _ => .error .badCodecExtension
  | .numCode value => .ok (some (putU64 value))
  | .boolean value | .validityBit value => .ok (some [if value then 1 else 0])

def encodedArray (root : CoveEncodingNodeV1) (rowCount : UInt32) (nullBitmap : Option Bytes)
    (values : Bytes) : EncodedArray where
  logical := root.logicalType
  physical := root.physicalKind
  rowCount := rowCount.toUInt64
  encoding := root.encodingKind
  validity := nullBitmap.map fun bitmap => ⟨bitmap, rowCount.toUInt64⟩
  data := values
  dictionary := none

def columnPayloadToLogicalPage (payload : ColumnPagePayloadV1) (rowCount : UInt32) :
    Except CoveError LogicalPage := do
  let root ← payload.rootNode
  let nullBitmap ← payload.bufferBytes .nullBitmap
  let values ← payload.bufferBytes .values
  let decoded ← (encodedArray root rowCount nullBitmap (values.getD [])).decodeAllRows lib
  let rows ← decoded.mapM (toLogicalRow dictionaryLen)
  .ok ⟨rows⟩

variable {lib dictionaryLen}

theorem columnPayloadToLogicalPage_length {payload : ColumnPagePayloadV1} {rowCount : UInt32}
    {page : LogicalPage}
    (h : columnPayloadToLogicalPage lib dictionaryLen payload rowCount = .ok page) :
    page.values.length = rowCount.toNat := by
  obtain ⟨root, -, h⟩ := of_andThen h
  obtain ⟨nullBitmap, -, h⟩ := of_andThen h
  obtain ⟨values, -, h⟩ := of_andThen h
  obtain ⟨decoded, hdecoded, h⟩ := of_andThen h
  obtain ⟨rows, hrows, h⟩ := of_andThen h
  rw [← ok.inj h, EncodedArray.length_of_mapM hrows,
    EncodedArray.decodeAllRows_length hdecoded]
  rfl

end

@[simp] theorem setBit_length (bitmap : Bytes) (index : Nat) :
    (setBit bitmap index).length = bitmap.length := by
  simp [setBit]

theorem toNat_shifted_one : ∀ r < 8, (1 <<< UInt8.ofNat r : UInt8).toNat = 2 ^ r := by decide

theorem testBit_setBit {bitmap : Bytes} {index i : Nat} (hi : i < 8 * bitmap.length) :
    (leNat (setBit bitmap index)).testBit i = ((leNat bitmap).testBit i || decide (index = i)) := by
  have hbyte : bitmap[i / 8]? = some bitmap[i / 8] := List.getElem?_eq_getElem (by omega)
  by_cases hindex : index / 8 = i / 8
  · have hset : (setBit bitmap index)[i / 8]? =
        some (bitmap[i / 8] ||| 1 <<< UInt8.ofNat (index % 8)) := by
      rw [setBit, List.getElem?_modify, hbyte, hindex]
      simp
    rw [testBit_leNat hset, testBit_leNat hbyte, UInt8.toNat_or, Nat.testBit_or,
      toNat_shifted_one _ (Nat.mod_lt index (by decide)), Nat.testBit_two_pow]
    congr 1
    rw [decide_eq_decide]
    omega
  · have hset : (setBit bitmap index)[i / 8]? = some bitmap[i / 8] := by
      rw [setBit, List.getElem?_modify, hbyte]
      simp [hindex]
    have hne : index ≠ i := fun h => hindex (by rw [h])
    rw [testBit_leNat hset, testBit_leNat hbyte, decide_eq_false hne, Bool.or_false]

section

variable {logical : CoveLogicalType} {physical : CovePhysicalKind} {dictionaryLen : Option UInt32}
  {written out : WrittenRows} {index : Nat}

/-- What the loop writes for the rows, from the given index on. -/
structure Appended (logical : CoveLogicalType) (physical : CovePhysicalKind)
    (dictionaryLen : Option UInt32) (index : Nat) (rows : List (Option Bytes))
    (written out : WrittenRows) (chunks : List Bytes) : Prop where
  encoded : Forall₂ (fun row chunk => rowBytes logical physical dictionaryLen row = .ok chunk)
    rows chunks
  values : out.values = written.values ++ chunks.flatten
  nullCount : out.nullCount = written.nullCount + rows.countP Option.isNone
  bitmapLength : out.nullBitmap.length = written.nullBitmap.length
  bits : ∀ i < 8 * written.nullBitmap.length, (leNat out.nullBitmap).testBit i =
    ((leNat written.nullBitmap).testBit i || decide (index ≤ i ∧ rows[i - index]? = some none))

variable {row : Option Bytes} {i : Nat}

theorem null_from_iff :
    (index ≤ i ∧ (row :: rows)[i - index]? = some none) ↔
      (index = i ∧ row = none) ∨ (index + 1 ≤ i ∧ rows[i - (index + 1)]? = some none) := by
  constructor
  · rintro ⟨hi, hrow⟩
    rcases Nat.eq_or_lt_of_le hi with rfl | hlt
    · rw [Nat.sub_self, List.getElem?_cons_zero, some.injEq] at hrow
      exact .inl ⟨rfl, hrow⟩
    · rw [show i - index = i - (index + 1) + 1 by omega, List.getElem?_cons_succ] at hrow
      exact .inr ⟨hlt, hrow⟩
  · rintro (⟨rfl, rfl⟩ | ⟨hlt, hrow⟩)
    · simp
    · rw [show i - index = i - (index + 1) + 1 by omega, List.getElem?_cons_succ]
      exact ⟨by omega, hrow⟩

theorem appendRows_ok (h : appendRows logical physical dictionaryLen index rows written = .ok out) :
    ∃ chunks, Appended logical physical dictionaryLen index rows written out chunks := by
  induction rows generalizing index written with
  | nil =>
    cases h
    exact ⟨[], .nil, by simp, by simp, rfl, by simp⟩
  | cons row rows ih =>
    cases row with
    | none =>
      obtain ⟨chunk, hchunk, h⟩ := of_andThen h
      obtain ⟨chunks, hrows⟩ := ih h
      refine ⟨chunk :: chunks, .cons hchunk hrows.encoded, ?_, ?_, ?_, fun i hi => ?_⟩
      · rw [hrows.values, flatten_cons, append_assoc]
      · rw [hrows.nullCount, countP_cons_of_pos rfl]
        dsimp only
        omega
      · rw [hrows.bitmapLength, setBit_length]
      · rw [hrows.bits i (by rwa [setBit_length]), testBit_setBit hi, Bool.or_assoc]
        congr 1
        rw [← Bool.decide_or, decide_eq_decide, null_from_iff]
        simp
    | some bytes =>
      obtain ⟨chunk, hchunk, h⟩ := of_andThen h
      obtain ⟨chunks, hrows⟩ := ih h
      refine ⟨chunk :: chunks, .cons hchunk hrows.encoded, ?_, ?_, ?_, fun i hi => ?_⟩
      · rw [hrows.values, flatten_cons, append_assoc]
      · rw [hrows.nullCount, countP_cons_of_neg (by simp)]
      · rw [hrows.bitmapLength]
      · rw [hrows.bits i hi]
        congr 1
        rw [decide_eq_decide, null_from_iff]
        simp

/-- The array has the rows for its rows, as far as nulls go. -/
structure ShowsNulls (a : EncodedArray) (rows : List (Option Bytes)) : Prop where
  rowCount : a.rowCount.toNat = rows.length
  isNull : ∀ i (hi : i < rows.length), a.isNull i = .ok rows[i].isNone

theorem showsNulls_of_appended (hcount : a.rowCount.toNat = rows.length)
    (hrows : Appended logical physical dictionaryLen 0 rows
      ⟨replicate ((rows.length + 7) / 8) 0, 0, []⟩ out chunks)
    (hvalidity : a.validity = (if out.nullCount ≠ 0 then some out.nullBitmap else none).map
      fun bitmap => ⟨bitmap, a.rowCount⟩) : ShowsNulls a rows := by
  refine ⟨hcount, fun i hi => ?_⟩
  have hmax := a.rowCount.toNat_lt
  have hrow : ¬ a.rowCount.toNat ≤ i := by omega
  refine rejectIf_andThen hrow ?_
  have hnull := hrows.nullCount
  rw [Nat.zero_add] at hnull
  by_cases hzero : out.nullCount = 0
  · have hnone := countP_eq_zero.mp (hnull.symm.trans hzero) rows[i] (getElem_mem hi)
    rw [hvalidity, if_neg (not_not.mpr hzero), Bool.eq_false_iff.mpr hnone]
    rfl
  · have hlen := hrows.bitmapLength
    rw [length_replicate] at hlen
    have hrow64 : (UInt64.ofNat i).toNat = i :=
      UInt64.toNat_ofNat_of_lt' (show _ < 2 ^ 64 by omega)
    have hlt : UInt64.ofNat i < a.rowCount := by
      rw [UInt64.lt_iff_toNat_lt, hrow64]
      omega
    rw [hvalidity, if_pos hzero]
    change ValidityBitmap.isNull ⟨out.nullBitmap, a.rowCount⟩ (UInt64.ofNat i) = _
    rw [ValidityBitmap.isNull_of_lt hlt (by rw [hrow64, hlen]; omega), hrow64,
      hrows.bits i (by rw [length_replicate]; omega)]
    have hzeros := leNat_append_zeros [] ((rows.length + 7) / 8)
    rw [nil_append] at hzeros
    rw [hzeros, leNat, Nat.zero_testBit, Bool.false_or, Nat.sub_zero, List.getElem?_eq_getElem hi]
    cases rows[i] <;> simp

variable {width : Nat}

theorem rowSlice_chunk (hdata : a.data = chunks.flatten)
    (hwidth : ∀ chunk ∈ chunks, chunk.length = width) (hlt : a.data.length < 2 ^ 64)
    (hi : i < chunks.length) : a.rowSlice i width = .ok chunks[i] := by
  have hsplit : chunks = chunks.take i ++ chunks[i] :: chunks.drop (i + 1) := by
    rw [getElem_cons_drop, take_append_drop]
  have hfront : (chunks.take i).flatten.length = i * width := by
    rw [length_flatten_eq fun chunk hc => hwidth chunk (mem_of_mem_take hc),
      length_take_of_le hi.le]
  have hsize := hwidth chunks[i] (getElem_mem hi)
  have hbytes : a.data =
      (chunks.take i).flatten ++ (chunks[i] ++ (chunks.drop (i + 1)).flatten) := by
    rw [hdata, ← flatten_cons, ← flatten_append, ← hsplit]
  have htotal := congrArg List.length hbytes
  rw [length_append, length_append, hfront, hsize] at htotal
  refine rejectIf_andThen (by omega) ?_
  refine checkedRegion_ok_iff.mpr ⟨by omega, by omega, ?_⟩
  rw [hbytes, ← hfront, drop_left, take_left' hsize]

def storedWidth (logical : CoveLogicalType) : CovePhysicalKind → Option Nat
  | .boolean => some 1
  | .numCode => some 8
  | .fileCode => some 4
  | .fixedBytes => logicalTypeFixedWidth logical
  | _ => none

theorem fixedWidth_ok_iff : fixedWidthForLogicalType logical = .ok width ↔
    logicalTypeFixedWidth logical = some width := by
  cases logical <;> simp [fixedWidthForLogicalType, logicalTypeFixedWidth]

variable {chunk : Bytes}

theorem nonNullValue_ok (hvar : physical ≠ .varBytes)
    (h : nonNullValue logical physical dictionaryLen bytes = .ok chunk) :
    chunk = bytes ∧ storedWidth logical physical = some bytes.length := by
  cases physical with
  | boolean =>
    match bytes, h with
    | [], h => cases h
    | [byte], h =>
      change (if 1 < byte then Except.error CoveError.badCodecExtension else ok [byte]) =
        ok chunk at h
      split at h
      · cases h
      · exact ⟨(ok.inj h).symm, rfl⟩
    | _ :: _ :: _, h => cases h
  | numCode =>
    obtain ⟨hlen, h⟩ := of_check h
    rw [not_not.mp (of_rejectIf hlen)]
    exact ⟨(ok.inj h).symm, rfl⟩
  | fileCode =>
    obtain ⟨hlen, h⟩ := of_check h
    replace h := rest_ok h
    rw [not_not.mp (of_rejectIf hlen)]
    exact ⟨(ok.inj h).symm, rfl⟩
  | fixedBytes =>
    obtain ⟨width, hwidth, h⟩ := of_andThen h
    obtain ⟨hlen, h⟩ := of_check h
    rw [not_not.mp (of_rejectIf hlen)]
    exact ⟨(ok.inj h).symm, fixedWidth_ok_iff.mp hwidth⟩
  | varBytes => exact absurd rfl hvar
  | list | struct | map => cases h

section

variable (hwidth : storedWidth logical physical = some width)
include hwidth

theorem nullPlaceholder_length (h : nullPlaceholder logical physical = .ok chunk) : chunk.length = width := by
  cases physical with
  | boolean | numCode | fileCode =>
    cases h
    cases hwidth
    simp
  | fixedBytes =>
    obtain ⟨w, hw, h⟩ := of_andThen h
    rw [← ok.inj h, length_replicate]
    exact some.inj ((fixedWidth_ok_iff.mp hw).symm.trans hwidth)
  | varBytes | list | struct | map => cases hwidth

theorem rowBytes_length (h : rowBytes logical physical dictionaryLen row = .ok chunk) :
    chunk.length = width := by
  have hvar : physical ≠ .varBytes := by
    rintro rfl
    cases hwidth
  cases row with
  | none => exact nullPlaceholder_length hwidth h
  | some bytes =>
    obtain ⟨rfl, hstored⟩ := nonNullValue_ok hvar h
    exact some.inj (hstored.symm.trans hwidth)

end

theorem rowSlice_value (hvar : physical ≠ .varBytes)
    (hencoded : Forall₂ (fun row chunk => rowBytes logical physical dictionaryLen row = .ok chunk)
      rows chunks)
    (hdata : a.data = chunks.flatten) (hlt : a.data.length < 2 ^ 64) (hi : i < rows.length)
    (hrow : rows[i] = some bytes) :
    storedWidth logical physical = some bytes.length ∧ a.rowSlice i bytes.length = .ok bytes := by
  obtain ⟨hlength, hrows⟩ := forall₂_iff_get.mp hencoded
  have hchunk : rowBytes logical physical dictionaryLen rows[i] = .ok chunks[i] :=
    hrows i hi (by omega)
  rw [hrow] at hchunk
  obtain ⟨hsame, hstored⟩ := nonNullValue_ok hvar hchunk
  subst hsame
  refine ⟨hstored, rowSlice_chunk hdata (fun chunk hc => ?_) hlt (by omega)⟩
  obtain ⟨row, -, hrowc⟩ := forall₂_mem_left hencoded.flip hc
  exact rowBytes_length hstored hrowc

end

section

variable {logical : CoveLogicalType} {physical : CovePhysicalKind} {dictionaryLen : Option UInt32}
  {lib : TransformDecoders}

/-- The decoded values stand for the rows. -/
def DecodesTo (dictionaryLen : Option UInt32) (decoded : Except CoveError (List CoveArrayValue))
    (rows : List (Option Bytes)) : Prop :=
  ∃ values, decoded = .ok values ∧ values.mapM (toLogicalRow dictionaryLen) = .ok rows

theorem nullOr_ok {row : Nat} {absent : Bool} {value : Except CoveError CoveArrayValue}
    (h : a.isNull row = .ok absent) :
    a.nullOr row value = if absent then .ok .null else value := by
  rw [EncodedArray.nullOr, h]
  rfl

theorem collectRows_decodesTo {decodeRow : Nat → Except CoveError CoveArrayValue}
    (hnulls : ShowsNulls a rows)
    (hrows : ∀ i (hi : i < rows.length), ∀ bytes, rows[i] = some bytes →
      ∃ value, decodeRow i = .ok value ∧ toLogicalRow dictionaryLen value = .ok (some bytes)) :
    DecodesTo dictionaryLen (a.collectRows decodeRow) rows := by
  have hall : Forall₂ (fun i row => ∃ value, a.nullOr i (decodeRow i) = .ok value ∧
      toLogicalRow dictionaryLen value = .ok row) (List.range a.rowCount.toNat) rows := by
    refine forall₂_iff_get.mpr ⟨by rw [length_range, hnulls.rowCount], ?_⟩
    intro i hi hlt
    rw [get_eq_getElem, get_eq_getElem, getElem_range, nullOr_ok (hnulls.isNull i hlt)]
    cases hrow : rows[i] with
    | none => exact ⟨.null, rfl, rfl⟩
    | some bytes => exact hrows i hlt bytes hrow
  have hexists : ∀ i ∈ List.range a.rowCount.toNat, ∃ value, a.nullOr i (decodeRow i) = .ok value := by
    intro i hi
    obtain ⟨-, -, value, hvalue, -⟩ := forall₂_mem_left hall hi
    exact ⟨value, hvalue⟩
  obtain ⟨values, hvalues⟩ := exists_mapM hexists
  exact ⟨values, hvalues, (mapM_mapM_eq_ok_iff hvalues).mpr hall⟩

theorem ofNat_leNat_u32 (h : bytes.length = 4) : putU32 (UInt32.ofNat (leNat bytes)) = bytes := by
  have hlt := leNat_lt bytes
  rw [h] at hlt
  rw [putU32, UInt32.toNat_ofNat_of_lt' (show _ < 2 ^ 32 by omega), ← h, leBytes_leNat]

theorem ofNat_leNat_u64 (h : bytes.length = 8) : putU64 (UInt64.ofNat (leNat bytes)) = bytes := by
  have hlt := leNat_lt bytes
  rw [h] at hlt
  rw [putU64, UInt64.toNat_ofNat_of_lt' (show _ < 2 ^ 64 by omega), ← h, leBytes_leNat]

theorem plainFixed_decodesTo (hvar : physical ≠ .varBytes) (hnulls : ShowsNulls a rows)
    (hencoded : Forall₂
      (fun row chunk => rowBytes logical physical dictionaryLen row = .ok chunk) rows chunks)
    (hdata : a.data = chunks.flatten) (hlt : a.data.length < 2 ^ 64)
    (hencoding : a.encoding = .plainFixed)
    (hwidth : ∀ width, storedWidth logical physical = some width →
      logicalTypeFixedWidth a.logical = some width) :
    DecodesTo dictionaryLen (a.decodeAllRows lib) rows := by
  rw [EncodedArray.decodeAllRows, hencoding]
  refine collectRows_decodesTo hnulls fun i hi bytes hrow => ⟨.bytes bytes, ?_, rfl⟩
  obtain ⟨hstored, hslice⟩ := rowSlice_value hvar hencoded hdata hlt hi hrow
  rw [EncodedArray.decodePresentRow, hencoding]
  simp only [hwidth _ hstored, hslice]
  rfl

theorem numCode_decodesTo (hnulls : ShowsNulls a rows) (hencoded : Forall₂
      (fun row chunk => rowBytes logical .numCode dictionaryLen row = .ok chunk) rows chunks)
    (hdata : a.data = chunks.flatten) (hlt : a.data.length < 2 ^ 64)
    (hencoding : a.encoding = .numCode) : DecodesTo dictionaryLen (a.decodeAllRows lib) rows := by
  rw [EncodedArray.decodeAllRows, hencoding]
  refine collectRows_decodesTo hnulls fun i hi bytes hrow =>
    ⟨.numCode (UInt64.ofNat (leNat bytes)), ?_, ?_⟩
  all_goals
    obtain ⟨hstored, hslice⟩ := rowSlice_value (by decide) hencoded hdata hlt hi hrow
    have hlen : bytes.length = 8 := (some.inj hstored).symm
  · rw [hlen] at hslice
    rw [EncodedArray.decodePresentRow, hencoding]
    simp only [hslice]
    rfl
  · rw [toLogicalRow, ofNat_leNat_u64 hlen]

theorem fileCode_decodesTo (hnulls : ShowsNulls a rows) (hencoded : Forall₂
      (fun row chunk => rowBytes logical .fileCode dictionaryLen row = .ok chunk) rows chunks)
    (hdata : a.data = chunks.flatten) (hlt : a.data.length < 2 ^ 64)
    (hencoding : a.encoding = .fileCode) (hdictionary : a.dictionary = none) :
    DecodesTo dictionaryLen (a.decodeAllRows lib) rows := by
  rw [EncodedArray.decodeAllRows, hencoding]
  refine collectRows_decodesTo hnulls fun i hi bytes hrow =>
    ⟨.fileCode (UInt32.ofNat (leNat bytes)), ?_, ?_⟩
  all_goals
    obtain ⟨hstored, hslice⟩ := rowSlice_value (by decide) hencoded hdata hlt hi hrow
    have hlen : bytes.length = 4 := (some.inj hstored).symm
  · rw [hlen] at hslice
    rw [EncodedArray.decodePresentRow, hencoding]
    simp only [hslice]
    change a.valueFromFileCode _ = _
    rw [EncodedArray.valueFromFileCode, hdictionary]
  · obtain ⟨chunk, -, hchunk⟩ := forall₂_mem_left hencoded (getElem_mem hi)
    rw [hrow] at hchunk
    replace hchunk := rest_ok hchunk
    obtain ⟨hcode, -⟩ := of_check hchunk
    rw [toLogicalRow, ofNat_leNat_u32 hlen]
    exact andThen_ok hcode rfl

theorem checkedRegion_append {data front rest : Bytes} {offset width : Nat}
    (hdata : data = front ++ (bytes ++ rest)) (hoffset : front.length = offset)
    (hwidth : bytes.length = width) (hlt : data.length < 2 ^ 64) :
    checkedRegion data offset width = .ok bytes := by
  have htotal := congrArg List.length hdata
  rw [length_append, length_append] at htotal
  refine checkedRegion_ok_iff.mpr ⟨by omega, by omega, ?_⟩
  rw [hdata, ← hoffset, drop_left, take_left' hwidth]

theorem varBytes_chunk {row : Option Bytes} {chunk : Bytes}
    (h : rowBytes logical .varBytes dictionaryLen row = .ok chunk) :
    (row.getD []).length < 2 ^ 32 ∧
      chunk = putU32 (UInt32.ofNat (row.getD []).length) ++ row.getD [] := by
  cases row with
  | none =>
    rw [← ok.inj h]
    exact ⟨by decide, rfl⟩
  | some bytes =>
    obtain ⟨hlen, h⟩ := of_reject h
    rw [← ok.inj h]
    exact ⟨not_le.mp hlen, rfl⟩

theorem varBytesRows_decodesTo {front : Bytes} {index pos : Nat}
    (hnulls : ∀ i (hi : i < rows.length), a.isNull (index + i) = .ok rows[i].isNone)
    (hencoded : Forall₂
      (fun row chunk => rowBytes logical .varBytes dictionaryLen row = .ok chunk) rows chunks)
    (hdata : a.data = front ++ chunks.flatten) (hpos : front.length = pos)
    (hlt : a.data.length < 2 ^ 64) :
    DecodesTo dictionaryLen (a.varBytesRows rows.length index pos) rows := by
  induction hencoded generalizing front index pos with
  | nil => exact ⟨[], rfl, rfl⟩
  | @cons row chunk rows chunks hchunk _ ih =>
    obtain ⟨hlen, rfl⟩ := varBytes_chunk hchunk
    have hnull : a.isNull index = .ok row.isNone := hnulls 0 (by simp)
    rw [flatten_cons, append_assoc] at hdata
    have htotal := congrArg List.length hdata
    simp only [length_append, putU32_length] at htotal
    have hsize := checkedRegion_append hdata hpos (putU32_length _) hlt
    have hvalue : checkedRegion a.data (pos + 4) (row.getD []).length = .ok (row.getD []) :=
      checkedRegion_append (hdata.trans (append_assoc ..).symm) (by simp [hpos]) rfl hlt
    have hread : leNat (putU32 (UInt32.ofNat (row.getD []).length)) = (row.getD []).length := by
      rw [putU32, leNat_leBytes, UInt32.toNat_ofNat_of_lt' (show _ < 2 ^ 32 from hlen),
        Nat.mod_eq_of_lt (by omega)]
    have hrest : DecodesTo dictionaryLen
        (a.varBytesRows rows.length (index + 1) (pos + 4 + (row.getD []).length)) rows := by
      refine @ih (front ++ (putU32 (UInt32.ofNat (row.getD []).length) ++ row.getD [])) _ _ ?_ ?_ ?_
      · intro i hi
        have hnext := hnulls (i + 1) (by simpa using hi)
        rwa [Nat.add_assoc, Nat.add_comm 1 i]
      · rw [hdata]
        simp
      · simp [hpos]
        omega
    obtain ⟨values, hvalues, hrows⟩ := hrest
    have hstep : a.varBytesRows (row :: rows).length index pos =
        .ok ((if row.isNone then .null else .bytes (row.getD [])) :: values) := by
      rw [length_cons, EncodedArray.varBytesRows, hsize]
      refine andThen_ok rfl ?_
      rw [hread]
      refine andThen_ok (checkedAdd_ok_iff.mpr ⟨by omega, rfl⟩) ?_
      refine andThen_ok hvalue ?_
      refine andThen_ok (checkedAdd_ok_iff.mpr ⟨by omega, rfl⟩) ?_
      rw [nullOr_ok hnull]
      refine andThen_eq_ok_iff.mpr ⟨if row.isNone then .null else .bytes (row.getD []), ?_, ?_⟩
      · cases row <;> rfl
      · exact andThen_ok hvalues rfl
    refine ⟨_, hstep, ?_⟩
    rw [mapM_cons, hrows]
    cases row <;> rfl

/-- The columns whose values are read the way they are written. Values of the container kinds are
not written at all, so only the kinds of empty pages are left of those. -/
def Readable (logical : CoveLogicalType) : CovePhysicalKind → Prop
  | .boolean => logicalTypeFixedWidth logical = some 1
  | .list | .struct | .map => logical ≠ .list ∧ logical ≠ .struct ∧ logical ≠ .map
  | _ => True

theorem rows_of_container (hcontainer : fallbackEncodingKind physical = .canonical)
    (hencoded : Forall₂
      (fun row chunk => rowBytes logical physical dictionaryLen row = .ok chunk) rows chunks) :
    rows = [] := by
  cases hencoded with
  | nil => rfl
  | @cons row chunk rows chunks hchunk _ =>
    cases physical with
    | list | struct | map => cases row <;> cases hchunk
    | boolean | fixedBytes | numCode | fileCode | varBytes => cases hcontainer

theorem canonical_decodesTo (hrows : a.rowCount.toNat = 0) (hencoding : a.encoding = .canonical)
    (hlogical : a.logical ≠ .list ∧ a.logical ≠ .struct ∧ a.logical ≠ .map) :
    DecodesTo dictionaryLen (a.decodeAllRows lib) [] := by
  refine ⟨[], ?_, rfl⟩
  obtain ⟨hlist, hstruct, hmap⟩ := hlogical
  rw [EncodedArray.decodeAllRows, hencoding]
  change a.canonicalRows lib = .ok []
  cases hl : a.logical <;>
    simp only [EncodedArray.canonicalRows, EncodedArray.collectRows, hl, hrows,
      logicalTypeFixedWidth]
  case list => exact absurd hl hlist
  case struct => exact absurd hl hstruct
  case map => exact absurd hl hmap
  all_goals rfl

variable {crc32c : Bytes → UInt32} {page : LogicalPage} {p : ColumnPagePayloadV1}

theorem decodeAllRows_decodesTo (hreadable : Readable logical physical) (hnulls : ShowsNulls a rows)
    (hencoded : Forall₂
      (fun row chunk => rowBytes logical physical dictionaryLen row = .ok chunk) rows chunks)
    (hdata : a.data = chunks.flatten) (hlt : a.data.length < 2 ^ 64) (hlogical : a.logical = logical)
    (hencoding : a.encoding = fallbackEncodingKind physical) (hdictionary : a.dictionary = none) :
    DecodesTo dictionaryLen (a.decodeAllRows lib) rows := by
  subst hlogical
  cases physical with
  | boolean =>
    refine plainFixed_decodesTo (by decide) hnulls hencoded hdata hlt hencoding fun width hw => ?_
    rw [← some.inj hw]
    exact hreadable
  | fixedBytes =>
    exact plainFixed_decodesTo (by decide) hnulls hencoded hdata hlt hencoding fun _ hw => hw
  | numCode => exact numCode_decodesTo hnulls hencoded hdata hlt hencoding
  | fileCode => exact fileCode_decodesTo hnulls hencoded hdata hlt hencoding hdictionary
  | varBytes =>
    rw [EncodedArray.decodeAllRows, hencoding]
    change DecodesTo dictionaryLen (a.varBytesRows a.rowCount.toNat 0 0) rows
    rw [hnulls.rowCount]
    refine @varBytesRows_decodesTo _ _ _ _ _ [] 0 0 (fun i hi => ?_) hencoded hdata rfl hlt
    rw [Nat.zero_add]
    exact hnulls.isNull i hi
  | list | struct | map =>
    obtain rfl := rows_of_container rfl hencoded
    exact canonical_decodesTo hnulls.rowCount hencoding hreadable

theorem logicalPage_roundTrip (lib : TransformDecoders) (hreadable : Readable logical physical)
    (h : logicalPageToColumnPayload logical physical dictionaryLen crc32c page = .ok p) :
    p.header.rowCount = UInt32.ofNat page.values.length ∧
      columnPayloadToLogicalPage lib dictionaryLen p p.header.rowCount = .ok page := by
  obtain ⟨hlen, h⟩ := of_reject h
  obtain ⟨written, hwritten, h⟩ := of_andThen h
  obtain ⟨bytes, hbuild, h⟩ := of_andThen h
  obtain ⟨chunks, happended⟩ := appendRows_ok hwritten
  obtain ⟨hrowCount, ⟨count, hroot⟩, hbitmap, hvalues, hlt⟩ :=
    ColumnPagePayloadV1.buildSingleNode_read hbuild h
  have hcount : (UInt32.ofNat page.values.length).toUInt64.toNat = page.values.length := by
    rw [UInt32.toNat_toUInt64]
    exact UInt32.toNat_ofNat_of_lt' (not_le.mp hlen)
  have hdata : ((if written.values.isEmpty then none else some written.values).getD []) =
      chunks.flatten := by
    rw [← nil_append chunks.flatten, ← happended.values]
    cases written.values <;> rfl
  have hdecodes : DecodesTo dictionaryLen ((encodedArray (ColumnPagePayloadV1.singleNode
      (UInt32.ofNat page.values.length) (fallbackEncodingKind physical) logical physical count)
      (UInt32.ofNat page.values.length)
      (if written.nullCount ≠ 0 then some written.nullBitmap else none)
      ((if written.values.isEmpty then none else some written.values).getD [])).decodeAllRows lib)
      page.values := by
    refine decodeAllRows_decodesTo hreadable (showsNulls_of_appended hcount happended rfl)
      happended.encoded hdata ?_ rfl rfl rfl
    change ((if written.values.isEmpty then none else some written.values).getD []).length < _
    rwa [hdata, ← nil_append chunks.flatten, ← happended.values]
  obtain ⟨decoded, hdecoded, hrows⟩ := hdecodes
  refine ⟨hrowCount, ?_⟩
  rw [columnPayloadToLogicalPage, hroot, hbitmap, hvalues, hrowCount]
  refine andThen_ok rfl ?_
  refine andThen_ok rfl ?_
  refine andThen_ok rfl ?_
  refine andThen_ok hdecoded ?_
  exact andThen_ok hrows rfl

end

end CoveFormat.LogicalPages
