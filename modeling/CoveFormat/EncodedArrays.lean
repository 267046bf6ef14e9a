import CoveFormat.DictionarySections
import CoveFormat.OffsetWalks
import CoveFormat.PagePayloads
import CoveFormat.ValidityBitmaps

namespace CoveFormat.EncodedArrays

open ByteCodes CheckedArith Except ExceptRules FixedFields List OffsetWalks PagePayloads
  ValidityBitmaps Wire
open CoveTypes (CoveLogicalType CovePhysicalKind)
open DictionarySections (DictionaryValue FileDictionary)

/-- The text of an encoding kind in an error message. -/
def encodingKindName : CoveEncodingKind → String
  | .canonical => "Canonical"
  | .validity => "Validity"
  | .constant => "Constant"
  | .fileCode => "FileCode"
  | .numCode => "NumCode"
  | .localCodebook => "LocalCodebook"
  | .rle => "Rle"
  | .runEnd => "RunEnd"
  | .bitPacked => "BitPacked"
  | .delta => "Delta"
  | .frameOfReference => "FrameOfReference"
  | .patchedBase => "PatchedBase"
  | .sparse => "Sparse"
  | .sequence => "Sequence"
  | .plainFixed => "PlainFixed"
  | .plainVarint => "PlainVarint"
  | .varBytes => "VarBytes"
  | .lz4Block => "Lz4Block"
  | .zstdBlock => "ZstdBlock"
  | .registeredEncoding => "RegisteredEncoding"

/-- The text of a logical type without a fixed width in an error message. -/
def logicalTypeName : CoveLogicalType → String
  | .null => "Null"
  | .utf8 => "Utf8"
  | .binary => "Binary"
  | .json => "Json"
  | .list => "List"
  | .struct => "Struct"
  | .map => "Map"
  | _ => ""

def logicalTypeFixedWidth : CoveLogicalType → Option Nat
  | .bool | .int8 | .uint8 => some 1
  | .int16 | .uint16 => some 2
  | .int32 | .uint32 | .float32 | .dateDays => some 4
  | .int64 | .uint64 | .float64 | .decimal64 | .timestampMicros | .timestampNanos => some 8
  | .decimal128 | .uuid => some 16
  | _ => none

/-- A decoded value of one row. -/
inductive CoveArrayValue
  | null
  | bytes (bytes : Bytes)
  | ownedBytes (bytes : Bytes)
  | varint (value : UInt64)
  | int64 (value : Int64)
  | fileCode (code : UInt32)
  | dictValue (value : DictionaryValue)
  | numCode (code : UInt64)
  | boolean (value : Bool)
  | validityBit (value : Bool)
  deriving DecidableEq

inductive LocalCodebookValue
  | fileCode (code : UInt32)
  | numCode (code : UInt64)
  | boolean (value : Bool)
  | varBytes (bytes : Bytes)

/-- The decoders of the transform encodings: `cascade` parses the payload of an integer encoding
and decodes it, `codebook` does so for a local codebook. -/
structure TransformDecoders where
  cascade : CoveEncodingKind → Bytes → Except CoveError (List Int64)
  codebook : Bytes → Except CoveError (List LocalCodebookValue)

structure EncodedArray where
  logical : CoveLogicalType
  physical : CovePhysicalKind
  rowCount : UInt64
  encoding : CoveEncodingKind
  validity : Option ValidityBitmap
  data : Bytes
  dictionary : Option FileDictionary

structure ConstantPayload where
  value : Int64
  rowCount : UInt64

def ConstantPayload.parse (bytes : Bytes) : Except CoveError ConstantPayload := do
  rejectIf (bytes.length < 16) .bufferTooShort
  let value := (readU64 bytes 0).toInt64
  let rowCount := readU64 bytes 8
  rejectIf (2 ^ 32 - 1 < rowCount.toNat) .pageCorrupt
  .ok ⟨value, rowCount⟩

namespace EncodedArray

variable (a : EncodedArray)

def isNull (row : Nat) : Except CoveError Bool := do
  rejectIf (a.rowCount.toNat ≤ row) .offsetRange
  match a.validity with
  | some bm => bm.isNull (UInt64.ofNat row)
  | none => .ok false

/-- `if self.is_null(row)? { Null } else { value }`. -/
def nullOr (row : Nat) (value : Except CoveError CoveArrayValue) :
    Except CoveError CoveArrayValue := do
  let absent ← a.isNull row
  if absent then .ok .null else value

def valueFromFileCode (code : UInt32) : Except CoveError CoveArrayValue :=
  match a.dictionary with
  | some dict => do
      let value ← dict.decodeValue code
      .ok (.dictValue value)
  | none => .ok (.fileCode code)

def valueFromI64 (value : Int64) : Except CoveError CoveArrayValue :=
  match a.physical with
  | .fileCode =>
    if 0 ≤ value.toInt ∧ value.toInt < 2 ^ 32 then
      a.valueFromFileCode (UInt32.ofNat value.toInt.toNat)
    else .error .pageCorrupt
  | .numCode =>
    if 0 ≤ value.toInt then .ok (.numCode value.toUInt64) else .error .pageCorrupt
  | .boolean =>
    if value = 0 then .ok (.boolean false)
    else if value = 1 then .ok (.boolean true)
    else .error .pageCorrupt
  | _ => .ok (.int64 value)

def valueFromConstantPayload (payload : ConstantPayload) : Except CoveError CoveArrayValue :=
  if a.physical = .numCode then do
    let code := payload.value.toUInt64
    rejectIf (a.logical = .bool ∧ code ≠ 0 ∧ code ≠ 1) .pageCorrupt
    .ok (.numCode code)
  else a.valueFromI64 payload.value

def valueFromLocalCodebook : LocalCodebookValue → Except CoveError CoveArrayValue
  | .fileCode code => a.valueFromFileCode code
  | .numCode code => .ok (.numCode code)
  | .boolean value => .ok (.boolean value)
  | .varBytes bytes => .ok (.ownedBytes bytes)

def rowSlice (row width : Nat) : Except CoveError Bytes := do
  rejectIf (2 ^ 64 ≤ row * width) .arithOverflow
  checkedRegion a.data (row * width) width

def valueFrom {α : Type} (decode : α → Except CoveError CoveArrayValue) (row : Nat)
    (values : List α) : Except CoveError CoveArrayValue := do
  rejectIf (values.length ≠ a.rowCount.toNat) .pageCorrupt
  match values[row]? with
  | none => .error .pageCorrupt
  | some value => decode value

def nextVarint (pos : Nat) : Except CoveError Nat := do
  rejectIf (a.data.length ≤ pos) .offsetRange
  let read ← decodeU64Leb128 (a.data.drop pos)
  checkedAdd pos read.2

def varintAt (pos : Nat) : Except CoveError CoveArrayValue := do
  rejectIf (a.data.length ≤ pos) .offsetRange
  let read ← decodeU64Leb128 (a.data.drop pos)
  .ok (.varint (UInt64.ofNat read.1))

def nextVarBytes (pos : Nat) : Except CoveError Nat := do
  let prefixBytes ← checkedRegion a.data pos 4
  let dataStart ← checkedAdd pos 4
  let next ← checkedAdd dataStart (leNat prefixBytes)
  rejectIf (a.data.length < next) .offsetRange
  .ok next

def varBytesAt (pos : Nat) : Except CoveError CoveArrayValue := do
  let prefixBytes ← checkedRegion a.data pos 4
  let dataStart ← checkedAdd pos 4
  let slice ← checkedRegion a.data dataStart (leNat prefixBytes)
  .ok (.bytes slice)

def nextLengthPrefixed (pos : Nat) : Except CoveError Nat := do
  let read ← decodeU64Leb128 (a.data.drop pos)
  let dataStart ← checkedAdd pos read.2
  let next ← checkedAdd dataStart read.1
  rejectIf (a.data.length < next) .offsetRange
  .ok next

def lengthPrefixedAt (pos : Nat) : Except CoveError CoveArrayValue := do
  let read ← decodeU64Leb128 (a.data.drop pos)
  let dataStart ← checkedAdd pos read.2
  let slice ← checkedRegion a.data dataStart read.1
  .ok (.bytes slice)

def decodeCanonicalLengthPrefixedRow (row : Nat) : Except CoveError CoveArrayValue := do
  let pos ← skip a.nextLengthPrefixed row 0
  a.lengthPrefixedAt pos

def decodeCanonicalRow (row : Nat) : Except CoveError CoveArrayValue :=
  match a.logical with
  | .null => .ok .null
  | .bool => .error (.unsupportedEncoding
      "Canonical Bool rows are tag-only and need an explicit value-tag stream")
  | .utf8 | .binary | .json => a.decodeCanonicalLengthPrefixedRow row
  | logical =>
    match logicalTypeFixedWidth logical with
    | none => .error (.unsupportedEncoding
        ("Canonical row decode unsupported for " ++ logicalTypeName logical))
    | some width => do
        let bytes ← a.rowSlice row width
        .ok (.bytes bytes)

def decodePresentRow (lib : TransformDecoders) (row : Nat) : Except CoveError CoveArrayValue :=
  match a.encoding with
  | .validity =>
    match a.data[row / 8]? with
    | none => .error .offsetRange
    | some byte => .ok (.validityBit (byte >>> UInt8.ofNat (row % 8) &&& 1 == 1))
  | .constant => do
      let payload ← ConstantPayload.parse a.data
      rejectIf (payload.rowCount ≠ a.rowCount) .pageCorrupt
      a.valueFromConstantPayload payload
  | .fileCode => do
      let bytes ← a.rowSlice row 4
      a.valueFromFileCode (UInt32.ofNat (leNat bytes))
  | .numCode => do
      let bytes ← a.rowSlice row 8
      .ok (.numCode (UInt64.ofNat (leNat bytes)))
  | .plainFixed =>
    match logicalTypeFixedWidth a.logical with
    | none => .error (.unsupportedEncoding
        ("PlainFixed encoding requires fixed-width logical type, got " ++ logicalTypeName a.logical))
    | some width => do
        let bytes ← a.rowSlice row width
        .ok (.bytes bytes)
  | .plainVarint => do
      let pos ← skip a.nextVarint row 0
      a.varintAt pos
  | .varBytes => do
      let pos ← skip a.nextVarBytes row 0
      a.varBytesAt pos
  | .localCodebook => do
      let values ← lib.codebook a.data
      a.valueFrom a.valueFromLocalCodebook row values
  | .rle | .runEnd | .bitPacked | .delta | .frameOfReference | .patchedBase | .sparse => do
      let values ← lib.cascade a.encoding a.data
      a.valueFrom a.valueFromI64 row values
  | .canonical => a.decodeCanonicalRow row
  | .sequence | .lz4Block | .zstdBlock | .registeredEncoding =>
    .error (.unsupportedEncoding (encodingKindName a.encoding))

def decodeRow (lib : TransformDecoders) (row : Nat) : Except CoveError CoveArrayValue := do
  rejectIf (a.rowCount.toNat ≤ row) .offsetRange
  a.nullOr row (a.decodePresentRow lib row)

def collectRows (decodeRow : Nat → Except CoveError CoveArrayValue) :
    Except CoveError (List CoveArrayValue) :=
  (range a.rowCount.toNat).mapM fun row => a.nullOr row (decodeRow row)

def valuesFrom {α : Type} (decode : α → Except CoveError CoveArrayValue) (values : List α) :
    Except CoveError (List CoveArrayValue) := do
  rejectIf (values.length ≠ a.rowCount.toNat) .pageCorrupt
  values.zipIdx.mapM fun p => a.nullOr p.2 (decode p.1)

def plainVarintRows : Nat → Nat → Nat → Except CoveError (List CoveArrayValue)
  | 0, _, _ => .ok []
  | count + 1, row, pos => do
      rejectIf (a.data.length ≤ pos) .offsetRange
      let read ← decodeU64Leb128 (a.data.drop pos)
      let next ← checkedAdd pos read.2
      let value ← a.nullOr row (.ok (.varint (UInt64.ofNat read.1)))
      let values ← plainVarintRows count (row + 1) next
      .ok (value :: values)

def varBytesRows : Nat → Nat → Nat → Except CoveError (List CoveArrayValue)
  | 0, _, _ => .ok []
  | count + 1, row, pos => do
      let prefixBytes ← checkedRegion a.data pos 4
      let len := leNat prefixBytes
      let dataStart ← checkedAdd pos 4
      let slice ← checkedRegion a.data dataStart len
      let next ← checkedAdd dataStart len
      let value ← a.nullOr row (.ok (.bytes slice))
      let values ← varBytesRows count (row + 1) next
      .ok (value :: values)

def canonicalLengthPrefixedRows : Nat → Nat → Nat → Except CoveError (List CoveArrayValue)
  | 0, _, _ => .ok []
  | count + 1, row, pos => do
      let read ← decodeU64Leb128 (a.data.drop pos)
      let dataStart ← checkedAdd pos read.2
      let slice ← checkedRegion a.data dataStart read.1
      let next ← checkedAdd dataStart read.1
      let value ← a.nullOr row (.ok (.bytes slice))
      let values ← canonicalLengthPrefixedRows count (row + 1) next
      .ok (value :: values)

def canonicalRows (lib : TransformDecoders) : Except CoveError (List CoveArrayValue) :=
  match a.logical with
  | .null => .ok (replicate a.rowCount.toNat .null)
  | .bool => a.collectRows (a.decodePresentRow lib)
  | .utf8 | .binary | .json => a.canonicalLengthPrefixedRows a.rowCount.toNat 0 0
  | logical =>
    match logicalTypeFixedWidth logical with
    | none => .error (.unsupportedEncoding
        ("Canonical row decode unsupported for " ++ logicalTypeName logical))
    | some width => (range a.rowCount.toNat).mapM fun row => do
        let bytes ← a.rowSlice row width
        a.nullOr row (.ok (.bytes bytes))

def decodeAllRows (lib : TransformDecoders) : Except CoveError (List CoveArrayValue) :=
  match a.encoding with
  | .localCodebook => do
      let values ← lib.codebook a.data
      a.valuesFrom a.valueFromLocalCodebook values
  | .rle | .runEnd | .bitPacked | .delta | .frameOfReference | .patchedBase | .sparse => do
      let values ← lib.cascade a.encoding a.data
      a.valuesFrom a.valueFromI64 values
  | .plainVarint => a.plainVarintRows a.rowCount.toNat 0 0
  | .varBytes => a.varBytesRows a.rowCount.toNat 0 0
  | .canonical => a.canonicalRows lib
  | _ => a.collectRows (a.decodePresentRow lib)

section

variable {a} {lib : TransformDecoders} {vs : List CoveArrayValue}

variable {α : Type}

theorem length_of_mapM {β : Type} {f : α → Except CoveError β} {as : List α} {bs : List β}
    (h : as.mapM f = .ok bs) : bs.length = as.length :=
  (forall₂_of_mapM h).length_eq.symm

theorem collectRows_length {decodeRow : Nat → Except CoveError CoveArrayValue}
    (h : a.collectRows decodeRow = .ok vs) : vs.length = a.rowCount.toNat :=
  (length_of_mapM h).trans length_range

theorem valuesFrom_length {decode : α → Except CoveError CoveArrayValue} {values : List α}
    (h : a.valuesFrom decode values = .ok vs) : vs.length = a.rowCount.toNat := by
  obtain ⟨hlen, h⟩ := of_reject h
  rw [length_of_mapM h, length_zipIdx]
  exact not_not.mp hlen

theorem plainVarintRows_reads : ReadsRecords a.nextVarint a.varintAt
    (fun row value => a.nullOr row (.ok value)) a.plainVarintRows where
  zero := fun _ _ => rfl
  succ_ok_iff := fun count row pos kept => by
    constructor
    · intro h
      obtain ⟨hpos, h⟩ := of_check h
      obtain ⟨read, hread, h⟩ := of_andThen h
      obtain ⟨after, hafter, h⟩ := of_andThen h
      obtain ⟨value, hvalue, h⟩ := of_andThen h
      obtain ⟨rest, hrest, h⟩ := of_andThen h
      refine ⟨after, _, value, rest, ?_, ?_, hvalue, hrest, ok.inj h⟩
      · exact andThen_ok hpos (andThen_ok hread hafter)
      · exact andThen_ok hpos (andThen_ok hread rfl)
    · rintro ⟨after, x, value, rest, hnext, hx, hvalue, hrest, rfl⟩
      obtain ⟨hpos, hnext⟩ := of_check hnext
      obtain ⟨read, hread, hafter⟩ := of_andThen hnext
      replace hx := rest_ok hx
      obtain ⟨read', hread', hx⟩ := of_andThen hx
      obtain rfl := ok.inj (hread.symm.trans hread')
      cases hx
      refine andThen_ok hpos (andThen_ok hread ?_)
      refine andThen_ok hafter (andThen_ok hvalue ?_)
      exact andThen_ok hrest rfl

variable {pos next : Nat}

theorem nextVarBytes_ok_iff : a.nextVarBytes pos = .ok next ↔
    ∃ raw, checkedRegion a.data pos 4 = .ok raw ∧ next = pos + 4 + leNat raw ∧ next < 2 ^ 64 ∧
      next ≤ a.data.length := by
  simp only [nextVarBytes, andThen_eq_ok_iff, checkedAdd_ok_iff, rejectIf_eq_ok_iff, not_lt,
    ok.injEq]
  constructor
  · rintro ⟨raw, hraw, dataStart, ⟨-, rfl⟩, next, ⟨hlt, rfl⟩, ⟨⟩, hle, rfl⟩
    exact ⟨raw, hraw, rfl, hlt, hle⟩
  · rintro ⟨raw, hraw, rfl, hlt, hle⟩
    exact ⟨raw, hraw, _, ⟨by omega, rfl⟩, _, ⟨hlt, rfl⟩, (), hle, rfl⟩

variable {value : CoveArrayValue}

theorem varBytesAt_ok_iff : a.varBytesAt pos = .ok value ↔
    ∃ raw, checkedRegion a.data pos 4 = .ok raw ∧
      ∃ slice, checkedRegion a.data (pos + 4) (leNat raw) = .ok slice ∧ .bytes slice = value := by
  simp only [varBytesAt, andThen_eq_ok_iff, checkedAdd_ok_iff, ok.injEq]
  constructor
  · rintro ⟨raw, hraw, dataStart, ⟨-, rfl⟩, hslice⟩
    exact ⟨raw, hraw, hslice⟩
  · rintro ⟨raw, hraw, hslice⟩
    exact ⟨raw, hraw, _, ⟨(checkedRegion_ok_iff.mp hraw).1, rfl⟩, hslice⟩

theorem varBytesRows_reads : ReadsRecords a.nextVarBytes a.varBytesAt
    (fun row value => a.nullOr row (.ok value)) a.varBytesRows where
  zero := fun _ _ => rfl
  succ_ok_iff := fun count row pos kept => by
    constructor
    · intro h
      obtain ⟨raw, hraw, h⟩ := of_andThen h
      obtain ⟨-, h⟩ := of_checkedAdd h
      obtain ⟨slice, hslice, h⟩ := of_andThen h
      obtain ⟨hlt, h⟩ := of_checkedAdd h
      obtain ⟨value, hvalue, h⟩ := of_andThen h
      obtain ⟨rest, hrest, h⟩ := of_andThen h
      refine ⟨_, .bytes slice, value, rest, ?_, ?_, hvalue, hrest, ok.inj h⟩
      · exact nextVarBytes_ok_iff.mpr ⟨raw, hraw, rfl, hlt, (checkedRegion_ok_iff.mp hslice).2.1⟩
      · exact varBytesAt_ok_iff.mpr ⟨raw, hraw, slice, hslice, rfl⟩
    · rintro ⟨after, x, value, rest, hnext, hx, hvalue, hrest, rfl⟩
      obtain ⟨raw, hraw, rfl, hlt, -⟩ := nextVarBytes_ok_iff.mp hnext
      obtain ⟨raw', hraw', slice, hslice, rfl⟩ := varBytesAt_ok_iff.mp hx
      obtain rfl := ok.inj (hraw.symm.trans hraw')
      refine andThen_ok hraw ?_
      refine andThen_ok (checkedAdd_ok_iff.mpr ⟨by omega, rfl⟩) ?_
      refine andThen_ok hslice ?_
      refine andThen_ok (checkedAdd_ok_iff.mpr ⟨hlt, rfl⟩) ?_
      exact andThen_ok hvalue (andThen_ok hrest rfl)

theorem nextLengthPrefixed_ok_iff : a.nextLengthPrefixed pos = .ok next ↔
    ∃ read, decodeU64Leb128 (a.data.drop pos) = .ok read ∧ next = pos + read.2 + read.1 ∧
      next < 2 ^ 64 ∧ next ≤ a.data.length := by
  simp only [nextLengthPrefixed, andThen_eq_ok_iff, checkedAdd_ok_iff, rejectIf_eq_ok_iff, not_lt,
    ok.injEq]
  constructor
  · rintro ⟨read, hread, dataStart, ⟨-, rfl⟩, next, ⟨hlt, rfl⟩, ⟨⟩, hle, rfl⟩
    exact ⟨read, hread, rfl, hlt, hle⟩
  · rintro ⟨read, hread, rfl, hlt, hle⟩
    exact ⟨read, hread, _, ⟨by omega, rfl⟩, _, ⟨hlt, rfl⟩, (), hle, rfl⟩

theorem lengthPrefixedAt_ok_iff :
    a.lengthPrefixedAt pos = .ok value ↔ ∃ read, decodeU64Leb128 (a.data.drop pos) = .ok read ∧
        ∃ slice, checkedRegion a.data (pos + read.2) read.1 = .ok slice ∧ .bytes slice = value := by
  simp only [lengthPrefixedAt, andThen_eq_ok_iff, checkedAdd_ok_iff, ok.injEq]
  constructor
  · rintro ⟨read, hread, dataStart, ⟨-, rfl⟩, hslice⟩
    exact ⟨read, hread, hslice⟩
  · rintro ⟨read, hread, slice, hslice, rfl⟩
    have hlt := (checkedRegion_ok_iff.mp hslice).1
    exact ⟨read, hread, _, ⟨by omega, rfl⟩, slice, hslice, rfl⟩

theorem canonicalLengthPrefixedRows_reads : ReadsRecords a.nextLengthPrefixed a.lengthPrefixedAt
    (fun row value => a.nullOr row (.ok value)) a.canonicalLengthPrefixedRows where
  zero := fun _ _ => rfl
  succ_ok_iff := fun count row pos kept => by
    constructor
    · intro h
      obtain ⟨read, hread, h⟩ := of_andThen h
      obtain ⟨-, h⟩ := of_checkedAdd h
      obtain ⟨slice, hslice, h⟩ := of_andThen h
      obtain ⟨hlt, h⟩ := of_checkedAdd h
      obtain ⟨value, hvalue, h⟩ := of_andThen h
      obtain ⟨rest, hrest, h⟩ := of_andThen h
      refine ⟨_, .bytes slice, value, rest, ?_, ?_, hvalue, hrest, ok.inj h⟩
      · exact nextLengthPrefixed_ok_iff.mpr
          ⟨read, hread, rfl, hlt, (checkedRegion_ok_iff.mp hslice).2.1⟩
      · exact lengthPrefixedAt_ok_iff.mpr ⟨read, hread, slice, hslice, rfl⟩
    · rintro ⟨after, x, value, rest, hnext, hx, hvalue, hrest, rfl⟩
      obtain ⟨read, hread, rfl, hlt, -⟩ := nextLengthPrefixed_ok_iff.mp hnext
      obtain ⟨read', hread', slice, hslice, rfl⟩ := lengthPrefixedAt_ok_iff.mp hx
      obtain rfl := ok.inj (hread.symm.trans hread')
      refine andThen_ok hread ?_
      refine andThen_ok (checkedAdd_ok_iff.mpr ⟨by omega, rfl⟩) ?_
      refine andThen_ok hslice ?_
      refine andThen_ok (checkedAdd_ok_iff.mpr ⟨hlt, rfl⟩) ?_
      exact andThen_ok hvalue (andThen_ok hrest rfl)

theorem canonicalRows_length (h : a.canonicalRows lib = .ok vs) : vs.length = a.rowCount.toNat := by
  unfold canonicalRows at h
  split at h
  case h_1 => rw [← ok.inj h, length_replicate]
  case h_2 => exact collectRows_length h
  case h_3 | h_4 | h_5 => exact canonicalLengthPrefixedRows_reads.length h
  case h_6 =>
    split at h
    · cases h
    · exact (length_of_mapM h).trans length_range

theorem decodeAllRows_length (h : a.decodeAllRows lib = .ok vs) : vs.length = a.rowCount.toNat := by
  unfold decodeAllRows at h
  split at h
  case h_1 =>
    obtain ⟨values, -, h⟩ := of_andThen h
    exact valuesFrom_length h
  case h_9 => exact plainVarintRows_reads.length h
  case h_10 => exact varBytesRows_reads.length h
  case h_11 => exact canonicalRows_length h
  case h_12 => exact collectRows_length h
  all_goals
    obtain ⟨values, -, h⟩ := of_andThen h
    exact valuesFrom_length h

end

end EncodedArray

end CoveFormat.EncodedArrays
