import CoveFormat.LogicalPages

namespace CoveFormat.RegisteredPages

open ByteCodes CheckedArith ExceptRules FixedFields PagePayloads TakeReaders EncodedArrays
  LogicalPages Except List
open CoveTypes (CoveLogicalType CovePhysicalKind)

inductive CodecSpecificationStatusV2
  | candidate
  | provisionalRegistered
  | stableRegistered
  | deprecated
  | vendorPrivate
  deriving DecidableEq

structure CodecExtensionDescriptorV2 where
  codecId : UInt32
  (nameSpace name : String)
  (versionMajor versionMinor codecFamily : UInt16)
  (logicalTypeMask physicalKindMask : UInt64)
  specificationStatus : CodecSpecificationStatusV2
  specDigest : Bytes

structure RegisteredEncodingEnvelopeV2 where
  codecId : UInt32
  (codecVersionMajor codecVersionMinor : UInt16)
  (logicalLen nonNullCount paramsOffset paramsLength : UInt32)
  (encodedPayloadOffset encodedPayloadLength fallbackPayloadOffset fallbackPayloadLength : UInt64)
  decodedUncompressedLength : UInt64
  (flags checksum : UInt32)

/-- What `decode_registered_page` of a resolver does. -/
abbrev RegisteredCodecResolver :=
  CodecExtensionDescriptorV2 → RegisteredEncodingEnvelopeV2 → Bytes → Except CoveError LogicalPage

structure RegisteredPageMaterialization where
  payload : ColumnPagePayloadV1
  usedFallback : Bool

namespace RegisteredEncodingEnvelopeV2

def len : Nat := 72

section

variable (e : RegisteredEncodingEnvelopeV2)

def validate : Except CoveError Unit := do
  rejectIf (e.flags ≠ 0) .badCodecExtension
  rejectIf (e.logicalLen < e.nonNullCount) .badCodecExtension
  rejectIf ((e.fallbackPayloadOffset == 0) ≠ (e.fallbackPayloadLength == 0)) .badCodecExtension
  let _ ← checkedAdd e.paramsOffset.toNat e.paramsLength.toNat
  let _ ← checkedAdd e.encodedPayloadOffset.toNat e.encodedPayloadLength.toNat
  if e.fallbackPayloadLength ≠ 0 then do
    let _ ← checkedAdd e.fallbackPayloadOffset.toNat e.fallbackPayloadLength.toNat
    .ok ()
  else .ok ()

def body : Bytes :=
  [putU32 e.codecId, putU16 e.codecVersionMajor, putU16 e.codecVersionMinor, putU32 e.logicalLen,
    putU32 e.nonNullCount, putU32 e.paramsOffset, putU32 e.paramsLength,
    putU64 e.encodedPayloadOffset, putU64 e.encodedPayloadLength, putU64 e.fallbackPayloadOffset,
    putU64 e.fallbackPayloadLength, putU64 e.decodedUncompressedLength, putU32 e.flags].flatten

end

def read : Reader RegisteredEncodingEnvelopeV2 := do
  let codecId ← takeU32
  let codecVersionMajor ← takeU16
  let codecVersionMinor ← takeU16
  let logicalLen ← takeU32
  let nonNullCount ← takeU32
  let paramsOffset ← takeU32
  let paramsLength ← takeU32
  let encodedPayloadOffset ← takeU64
  let encodedPayloadLength ← takeU64
  let fallbackPayloadOffset ← takeU64
  let fallbackPayloadLength ← takeU64
  let decodedUncompressedLength ← takeU64
  let flags ← takeU32
  let checksum ← takeU32
  return ⟨codecId, codecVersionMajor, codecVersionMinor, logicalLen, nonNullCount, paramsOffset,
    paramsLength, encodedPayloadOffset, encodedPayloadLength, fallbackPayloadOffset,
    fallbackPayloadLength, decodedUncompressedLength, flags, checksum⟩

-- The CRC32C of the checksum package.
variable (crc32c : Bytes → UInt32)

def serialize (e : RegisteredEncodingEnvelopeV2) : Except CoveError Bytes := do
  e.validate
  .ok (sealBytes crc32c e.body)

def parse (bytes : Bytes) : Except CoveError RegisteredEncodingEnvelopeV2 := do
  rejectIf (bytes.length < len) .bufferTooShort
  let bytes := bytes.take len
  let envelope ← read.run' bytes
  rejectIf (crc32c (withoutChecksum bytes 68) ≠ envelope.checksum) .checksumMismatch
  envelope.validate
  .ok envelope

end RegisteredEncodingEnvelopeV2

section

inductive StableRegisteredCodec
  | fsstUtf8
  | alpFloat
  | fastLanesInteger
  deriving DecidableEq

namespace StableRegisteredCodec

def all : List StableRegisteredCodec := [fsstUtf8, alpFloat, fastLanesInteger]

def descriptorIdentity : StableRegisteredCodec → String × String × UInt16 × UInt16
  | fsstUtf8 => ("org.coveformat.codec", "fsst-utf8", 2, 0)
  | alpFloat => ("org.coveformat.codec", "alp-float", 2, 0)
  | fastLanesInteger => ("org.coveformat.codec", "fastlanes-integer", 2, 0)

def codecFamily : StableRegisteredCodec → UInt16
  | fsstUtf8 => 0
  | alpFloat => 1
  | fastLanesInteger => 2

def logicalTypeBit (logical : CoveLogicalType) : UInt64 := 1 <<< (logicalTypeCode logical).toUInt64

def physicalKindBit (physical : CovePhysicalKind) : UInt64 :=
  1 <<< (physicalKindCode physical).toUInt64

def logicalTypeMask (types : List CoveLogicalType) : UInt64 :=
  types.foldl (fun mask logical => mask ||| logicalTypeBit logical) 0

def physicalKindMask (kinds : List CovePhysicalKind) : UInt64 :=
  kinds.foldl (fun mask physical => mask ||| physicalKindBit physical) 0

def supportedTypeMasks : StableRegisteredCodec → UInt64 × UInt64
  | fsstUtf8 => (logicalTypeMask [.utf8], physicalKindMask [.varBytes])
  | alpFloat => (logicalTypeMask [.float32, .float64], physicalKindMask [.numCode])
  | fastLanesInteger =>
    (logicalTypeMask [.int8, .int16, .int32, .int64, .uint8, .uint16, .uint32, .uint64,
      .decimal64, .decimal128, .dateDays, .timestampMicros, .timestampNanos],
    physicalKindMask [.numCode])

def supportsPage (codec : StableRegisteredCodec) (logical : CoveLogicalType)
    (physical : CovePhysicalKind) : Bool :=
  codec.supportedTypeMasks.1 &&& logicalTypeBit logical ≠ 0 ∧
    codec.supportedTypeMasks.2 &&& physicalKindBit physical ≠ 0

def expectedMagic : StableRegisteredCodec → Bytes
  | fsstUtf8 => [67, 70, 83, 50]
  | alpFloat => [67, 65, 70, 50]
  | fastLanesInteger => [67, 70, 73, 50]

def specDigest : StableRegisteredCodec → String
  | fsstUtf8 => "COVE-FSST-UTF8-V2-SPEC-DIGEST"
  | alpFloat => "COVE-ALP-FLOAT-V2-SPEC-DIGEST"
  | fastLanesInteger => "COVE-FASTLANES-I-V2-SPEC-DIGEST"

end StableRegisteredCodec

open StableRegisteredCodec

def asciiBytes (text : String) : Bytes := text.toList.map fun c => UInt8.ofNat c.toNat

def rowBetween (nullBitmap payload : Bytes) (index start finish : Nat) :
    Except CoveError (Option Bytes) := do
  rejectIf (finish < start ∨ payload.length < finish) .badCodecExtension
  let byte := nullBitmap.getD (index / 8) 0
  if byte &&& 1 <<< UInt8.ofNat (index % 8) ≠ 0 then .ok none
  else .ok (some ((payload.drop start).take (finish - start)))

def decodeRowBytes (expectedMagic bytes : Bytes) : Except CoveError LogicalPage := do
  rejectIf (bytes.length < 16 ∨ bytes.take 4 ≠ expectedMagic) .badCodecExtension
  let rowCount := (readU32 bytes 4).toNat
  let nullBitmapLen := (readU32 bytes 8).toNat
  let offsetsLen := (readU32 bytes 12).toNat
  rejectIf (nullBitmapLen ≠ (rowCount + 7) / 8 ∨ offsetsLen ≠ (rowCount + 1) * 4)
    .badCodecExtension
  let offsetsStart := 16 + nullBitmapLen
  let payloadStart := offsetsStart + offsetsLen
  rejectIf (bytes.length < payloadStart) .bufferTooShort
  let nullBitmap := (bytes.take offsetsStart).drop 16
  let offsets := (range (rowCount + 1)).map fun i =>
    (readU32 bytes (offsetsStart + 4 * i)).toNat
  rejectIf (offsets.head? ≠ some 0) .badCodecExtension
  let payload := bytes.drop payloadStart
  let values ← (range rowCount).mapM fun index =>
    rowBetween nullBitmap payload index (offsets.getD index 0) (offsets.getD (index + 1) 0)
  rejectIf (offsets.getLast? ≠ some payload.length) .badCodecExtension
  rejectIf (rowCount % 8 ≠ 0 ∧
    ∃ last ∈ nullBitmap.getLast?, last.toNat / 2 ^ (rowCount % 8) ≠ 0) .badCodecExtension
  .ok ⟨values⟩

-- Whether bytes are UTF-8.
variable (isUtf8 : Bytes → Bool)

def StableRegisteredCodec.decode (codec : StableRegisteredCodec) (payload : Bytes) :
    Except CoveError LogicalPage := do
  let page ← decodeRowBytes codec.expectedMagic payload
  rejectIf (codec = .fsstUtf8 ∧ ∃ value ∈ page.values.reduceOption, ¬ isUtf8 value)
    .badCodecExtension
  .ok page

def stableCodecForDescriptor (d : CodecExtensionDescriptorV2) (e : RegisteredEncodingEnvelopeV2) :
    Option StableRegisteredCodec :=
  StableRegisteredCodec.all.find? fun codec =>
    d.codecId = e.codecId ∧ d.versionMajor = e.codecVersionMajor ∧
    d.versionMinor = e.codecVersionMinor ∧
    (d.nameSpace, d.name, d.versionMajor, d.versionMinor) = codec.descriptorIdentity ∧
    d.codecFamily = codec.codecFamily ∧ d.specificationStatus = .stableRegistered ∧
    d.specDigest = asciiBytes codec.specDigest

def stableRegisteredCodecResolver : RegisteredCodecResolver := fun d e encodedPayload => do
  let codec ← orError .codecUnsupported (stableCodecForDescriptor d e)
  codec.decode isUtf8 encodedPayload

variable (d : CodecExtensionDescriptorV2)

def stableCodecForDescriptorIdentity : Option StableRegisteredCodec :=
  StableRegisteredCodec.all.find? fun codec =>
    (d.nameSpace, d.name, d.versionMajor, d.versionMinor) = codec.descriptorIdentity

def validateDescriptorSupportsPage (logical : CoveLogicalType) (physical : CovePhysicalKind) :
    Except CoveError Unit := do
  rejectIf (d.logicalTypeMask &&& logicalTypeBit logical = 0 ∨
    d.physicalKindMask &&& physicalKindBit physical = 0) .badCodecExtension
  rejectIf (d.specificationStatus = .stableRegistered ∧
    ∃ codec ∈ stableCodecForDescriptorIdentity d, ¬ codec.supportsPage logical physical)
    .badCodecExtension

end

section

-- The decoders of the transform encodings and the CRC32C of the checksum package.
variable (lib : TransformDecoders) (crc32c : Bytes → UInt32)

def registeredEnvelopeFromRoot (payload : ColumnPagePayloadV1) :
    Except CoveError RegisteredEncodingEnvelopeV2 := do
  let root ← payload.rootNode
  rejectIf (root.paramsLength.toNat ≠ RegisteredEncodingEnvelopeV2.len) .badCodecExtension
  let params ← checkedRegion payload.data root.paramsOffset.toNat root.paramsLength.toNat
  let envelope ← RegisteredEncodingEnvelopeV2.parse crc32c params
  rejectIf (envelope.paramsOffset ≠ root.paramsOffset ∨ envelope.paramsLength ≠ root.paramsLength)
    .badCodecExtension
  .ok envelope

def validateEnvelopeAgainstPage (envelope : RegisteredEncodingEnvelopeV2)
    (page : ColumnPageIndexEntryV1) : Except CoveError Unit :=
  rejectIf (envelope.logicalLen ≠ page.rowCount ∨ envelope.nonNullCount ≠ page.nonNullCount)
    .badCodecExtension

def envelopeRange (payload : ColumnPagePayloadV1) (offset length : UInt64) :
    Except CoveError Bytes :=
  checkedRegion payload.data offset.toNat length.toNat

def parseFallbackPayload (registered : ColumnPagePayloadV1)
    (envelope : RegisteredEncodingEnvelopeV2) (page : ColumnPageIndexEntryV1)
    (logical : CoveLogicalType) (physical : CovePhysicalKind) :
    Except CoveError ColumnPagePayloadV1 := do
  let bytes ← envelopeRange registered envelope.fallbackPayloadOffset
    envelope.fallbackPayloadLength
  let fallback ← ColumnPagePayloadV1.parse crc32c bytes
  let root ← fallback.rootNode
  rejectIf (root.encodingKind = .registeredEncoding ∨ root.logicalType ≠ logical ∨
    root.physicalKind ≠ physical ∨ root.logicalLen ≠ page.rowCount) .badCodecExtension
  .ok fallback

def fallbackOf (payload : ColumnPagePayloadV1) (envelope : RegisteredEncodingEnvelopeV2)
    (page : ColumnPageIndexEntryV1) (logical : CoveLogicalType) (physical : CovePhysicalKind)
    (dictionaryLen : Option UInt32) :
    Except CoveError (Option (ColumnPagePayloadV1 × LogicalPage)) :=
  if envelope.fallbackPayloadLength = 0 then .ok none
  else do
    let fallback ← parseFallbackPayload crc32c payload envelope page logical physical
    let fallbackLogical ← columnPayloadToLogicalPage lib dictionaryLen fallback page.rowCount
    .ok (some (fallback, fallbackLogical))

def useFallback (fallback : Option (ColumnPagePayloadV1 × LogicalPage)) :
    Except CoveError RegisteredPageMaterialization :=
  match fallback with
  | some f => .ok ⟨f.1, true⟩
  | none => .error .codecUnsupported

def decodeOrFallback (logical : CoveLogicalType) (physical : CovePhysicalKind)
    (descriptors : List CodecExtensionDescriptorV2) (resolver : RegisteredCodecResolver)
    (dictionaryLen : Option UInt32) (envelope : RegisteredEncodingEnvelopeV2)
    (encodedPayload : Bytes) (fallback : Option (ColumnPagePayloadV1 × LogicalPage)) :
    Except CoveError RegisteredPageMaterialization :=
  match descriptors.find? fun d => d.codecId = envelope.codecId ∧
      d.versionMajor = envelope.codecVersionMajor ∧
      d.versionMinor = envelope.codecVersionMinor with
  | none => useFallback fallback
  | some descriptor => do
      validateDescriptorSupportsPage descriptor logical physical
      match resolver descriptor envelope encodedPayload with
      | .ok decoded => do
          let materialized ← logicalPageToColumnPayload logical physical dictionaryLen crc32c
            decoded
          rejectIf (∃ f ∈ fallback, decoded ≠ f.2) .badCodecExtension
          .ok ⟨materialized, false⟩
      | .error .codecUnsupported => useFallback fallback
      | .error _ => .error .badCodecExtension

def materializeRegisteredPagePayload (payload : ColumnPagePayloadV1) (page : ColumnPageIndexEntryV1)
    (logical : CoveLogicalType) (physical : CovePhysicalKind)
    (descriptors : List CodecExtensionDescriptorV2) (resolver : RegisteredCodecResolver)
    (dictionaryLen : Option UInt32) : Except CoveError (Option RegisteredPageMaterialization) := do
  let root ← payload.rootNode
  if root.encodingKind ≠ .registeredEncoding then .ok none
  else do
    rejectIf (root.logicalType ≠ logical ∨ root.physicalKind ≠ physical ∨
      root.logicalLen ≠ page.rowCount ∨
      page.encodingRoot ≠ (encodingKindCode .registeredEncoding).toUInt32) .pageCorrupt
    let envelope ← registeredEnvelopeFromRoot crc32c payload
    validateEnvelopeAgainstPage envelope page
    let encodedPayload ← envelopeRange payload envelope.encodedPayloadOffset
      envelope.encodedPayloadLength
    let fallback ← fallbackOf lib crc32c payload envelope page logical physical dictionaryLen
    let materialized ← decodeOrFallback crc32c logical physical descriptors resolver dictionaryLen
      envelope encodedPayload fallback
    .ok (some materialized)

end

section

variable {lib : TransformDecoders} {crc32c : Bytes → UInt32} {payload : ColumnPagePayloadV1}
  {page : ColumnPageIndexEntryV1} {logical : CoveLogicalType} {physical : CovePhysicalKind}
  {descriptors : List CodecExtensionDescriptorV2} {resolver : RegisteredCodecResolver}
  {dictionaryLen : Option UInt32} {envelope : RegisteredEncodingEnvelopeV2}
  {encodedPayload : Bytes} {fallback : Option (ColumnPagePayloadV1 × LogicalPage)}
  {m : RegisteredPageMaterialization}

/-- Where the rows of a materialized page come from. -/
inductive Source (resolver : RegisteredCodecResolver) (descriptors : List CodecExtensionDescriptorV2)
    (envelope : RegisteredEncodingEnvelopeV2) (encodedPayload : Bytes)
    (fallback : Option (ColumnPagePayloadV1 × LogicalPage)) (write : LogicalPage →
      Except CoveError ColumnPagePayloadV1) : RegisteredPageMaterialization → Prop
  | fallback {f : ColumnPagePayloadV1 × LogicalPage} : fallback = some f →
      Source resolver descriptors envelope encodedPayload fallback write ⟨f.1, true⟩
  | decoded {descriptor : CodecExtensionDescriptorV2} {rows : LogicalPage}
      {written : ColumnPagePayloadV1} : descriptor ∈ descriptors →
      resolver descriptor envelope encodedPayload = .ok rows → write rows = .ok written →
      (∀ f ∈ fallback, f.2 = rows) →
      Source resolver descriptors envelope encodedPayload fallback write ⟨written, false⟩

theorem useFallback_ok (h : useFallback fallback = .ok m) : ∃ f, fallback = some f ∧ m = ⟨f.1, true⟩ := by
  cases fallback with
  | none => cases h
  | some f => exact ⟨f, rfl, (ok.inj h).symm⟩

theorem decodeOrFallback_ok (h : decodeOrFallback crc32c logical physical descriptors resolver
    dictionaryLen envelope encodedPayload fallback = .ok m) :
    Source resolver descriptors envelope encodedPayload fallback
      (logicalPageToColumnPayload logical physical dictionaryLen crc32c) m := by
  unfold decodeOrFallback at h
  split at h
  · obtain ⟨f, hf, rfl⟩ := useFallback_ok h
    exact .fallback hf
  · rename_i descriptor hfind
    replace h := rest_ok h
    split at h
    · rename_i decoded hdecoded
      obtain ⟨written, hwritten, h⟩ := of_andThen h
      obtain ⟨hsame, h⟩ := of_reject h
      rw [← ok.inj h]
      refine .decoded (mem_of_find?_eq_some hfind) hdecoded hwritten fun f hf => ?_
      by_contra hne
      exact hsame ⟨f, hf, Ne.symm hne⟩
    · obtain ⟨f, hf, rfl⟩ := useFallback_ok h
      exact .fallback hf
    · cases h

theorem fallbackOf_ok (h : fallbackOf lib crc32c payload envelope page logical physical
    dictionaryLen = .ok fallback) :
    (envelope.fallbackPayloadLength = 0 ∧ fallback = none) ∨
      ∃ f, envelope.fallbackPayloadLength ≠ 0 ∧ fallback = some f ∧
        parseFallbackPayload crc32c payload envelope page logical physical = .ok f.1 ∧
        columnPayloadToLogicalPage lib dictionaryLen f.1 page.rowCount = .ok f.2 := by
  unfold fallbackOf at h
  split at h
  · rename_i hzero
    exact .inl ⟨hzero, (ok.inj h).symm⟩
  · obtain ⟨f, hf, h⟩ := of_andThen h
    obtain ⟨rows, hrows, h⟩ := of_andThen h
    exact .inr ⟨(f, rows), ‹_›, (ok.inj h).symm, hf, hrows⟩

theorem materialize_ok (h : materializeRegisteredPagePayload lib crc32c payload page logical
    physical descriptors resolver dictionaryLen = .ok (some m)) :
    ∃ envelope encodedPayload fallback, registeredEnvelopeFromRoot crc32c payload = .ok envelope ∧
      envelopeRange payload envelope.encodedPayloadOffset envelope.encodedPayloadLength =
        .ok encodedPayload ∧
      fallbackOf lib crc32c payload envelope page logical physical dictionaryLen = .ok fallback ∧
      Source resolver descriptors envelope encodedPayload fallback
        (logicalPageToColumnPayload logical physical dictionaryLen crc32c) m := by
  obtain ⟨root, -, h⟩ := of_andThen h
  split at h
  · cases h
  replace h := rest_ok h
  obtain ⟨envelope, henvelope, h⟩ := of_andThen h
  replace h := rest_ok h
  obtain ⟨encodedPayload, hencoded, h⟩ := of_andThen h
  obtain ⟨fallback, hfallback, h⟩ := of_andThen h
  obtain ⟨m', hm, h⟩ := of_andThen h
  cases h
  exact ⟨envelope, encodedPayload, fallback, henvelope, hencoded, hfallback, decodeOrFallback_ok hm⟩

/-- A materialized page has the rows of its fallback, whether or not the codec decoded it. Without
a fallback it has the rows that the resolver returned. -/
theorem registered_page_agrees (hreadable : m.usedFallback = true ∨ Readable logical physical)
    (h : materializeRegisteredPagePayload lib crc32c payload page logical physical descriptors
      resolver dictionaryLen = .ok (some m)) :
    ∃ envelope, registeredEnvelopeFromRoot crc32c payload = .ok envelope ∧
      (envelope.fallbackPayloadLength ≠ 0 → ∃ fallback rows,
        parseFallbackPayload crc32c payload envelope page logical physical = .ok fallback ∧
        columnPayloadToLogicalPage lib dictionaryLen fallback page.rowCount = .ok rows ∧
        columnPayloadToLogicalPage lib dictionaryLen m.payload page.rowCount = .ok rows) ∧
      (envelope.fallbackPayloadLength = 0 → ∃ descriptor ∈ descriptors, ∃ encodedPayload rows,
        envelopeRange payload envelope.encodedPayloadOffset envelope.encodedPayloadLength =
          .ok encodedPayload ∧
        resolver descriptor envelope encodedPayload = .ok rows ∧
        columnPayloadToLogicalPage lib dictionaryLen m.payload m.payload.header.rowCount =
          .ok rows) := by
  obtain ⟨envelope, encodedPayload, fallback, henvelope, hencoded, hfallback, hsource⟩ :=
    materialize_ok h
  refine ⟨envelope, henvelope, ?_⟩
  rcases fallbackOf_ok hfallback with ⟨hzero, rfl⟩ | ⟨f, hlen, rfl, hparse, hrows⟩
  · refine ⟨fun hlen => absurd hzero hlen, fun _ => ?_⟩
    cases hsource with
    | fallback hf => cases hf
    | decoded hmem hresolved hwritten _ =>
      have hread := logicalPage_roundTrip lib (hreadable.resolve_left Bool.false_ne_true) hwritten
      exact ⟨_, hmem, encodedPayload, _, hencoded, hresolved, hread.2⟩
  · refine ⟨fun _ => ⟨f.1, f.2, hparse, hrows, ?_⟩, fun hzero => absurd hzero hlen⟩
    cases hsource with
    | fallback hf =>
      cases hf
      exact hrows
    | decoded hmem hresolved hwritten hsame =>
      obtain rfl := hsame f rfl
      have hread := logicalPage_roundTrip lib (hreadable.resolve_left Bool.false_ne_true) hwritten
      have hcount := columnPayloadToLogicalPage_length hrows
      rw [hread.1, hcount, UInt32.ofNat_toNat] at hread
      exact hread.2

end

/-- `build_registered_single_node`, for sizes that fit their fields. -/
def buildRegisteredSingleNode (crc32c : Bytes → UInt32) (rowCount nonNullCount : UInt32)
    (logical : CoveLogicalType) (physical : CovePhysicalKind) (codecId : UInt32)
    (codecVersionMajor codecVersionMinor : UInt16) (encodedPayload : Bytes)
    (fallbackPayload : Option Bytes) : Except CoveError Bytes := do
  rejectIf (rowCount < nonNullCount) .badCodecExtension
  let envelopeOffset :=
    columnPagePayloadHeaderLen + coveEncodingNodeLen + pageBufferDescriptorLen
  let encodedOffset := envelopeOffset + RegisteredEncodingEnvelopeV2.len
  let fallbackOffset := if fallbackPayload.isSome then encodedOffset + encodedPayload.length else 0
  let envelope : RegisteredEncodingEnvelopeV2 := ⟨codecId, codecVersionMajor, codecVersionMinor,
    rowCount, nonNullCount, UInt32.ofNat envelopeOffset,
    UInt32.ofNat RegisteredEncodingEnvelopeV2.len, UInt64.ofNat encodedOffset,
    UInt64.ofNat encodedPayload.length, UInt64.ofNat fallbackOffset,
    UInt64.ofNat (fallbackPayload.getD []).length, 0, 0, 0⟩
  let sealed ← envelope.serialize crc32c
  let registered := sealed ++ encodedPayload ++ fallbackPayload.getD []
  let node := { ColumnPagePayloadV1.singleNode rowCount .registeredEncoding logical physical 1 with
    paramsOffset := UInt32.ofNat envelopeOffset
    paramsLength := UInt32.ofNat RegisteredEncodingEnvelopeV2.len }
  let descriptor : PageBufferDescriptorV1 := ⟨0, .other, 0, UInt64.ofNat envelopeOffset,
    UInt64.ofNat registered.length, crc32c registered, 0⟩
  let out := (ColumnPagePayloadV1.singleNodeHeader rowCount 1).serialize ++ node.serialize ++
    descriptor.serialize ++ registered
  let _ ← ColumnPagePayloadV1.parse crc32c out
  .ok out

def noTransforms : TransformDecoders where
  cascade _ _ := .error .pageCorrupt
  codebook _ := .error .pageCorrupt

def registeredPage (rowCount nonNullCount : UInt32) (logical : CoveLogicalType)
    (physical : CovePhysicalKind) (codecVersionMajor : UInt16) (encodedPayload : Bytes)
    (fallback : Except CoveError Bytes) : Except CoveError ColumnPagePayloadV1 := do
  let fallbackBytes ← fallback
  let bytes ← buildRegisteredSingleNode castagnoli rowCount nonNullCount logical physical 1
    codecVersionMajor 0 encodedPayload (some fallbackBytes)
  ColumnPagePayloadV1.parse castagnoli bytes

def registeredEntry (rowCount nonNullCount : UInt32) : ColumnPageIndexEntryV1 :=
  ⟨0, rowCount, nonNullCount, rowCount - nonNullCount, 19, 0, 0, 0, 0, 0, 0⟩

def materializesTo (page : ColumnPageIndexEntryV1) (logical : CoveLogicalType)
    (physical : CovePhysicalKind) (descriptor : CodecExtensionDescriptorV2)
    (resolver : RegisteredCodecResolver) (built : Except CoveError ColumnPagePayloadV1)
    (test : RegisteredPageMaterialization → Bool) : Except CoveError Bool := do
  let payload ← built
  let envelope ← registeredEnvelopeFromRoot castagnoli payload
  let materialized ← materializeRegisteredPagePayload noTransforms castagnoli payload page logical
    physical [descriptor] resolver none
  .ok (envelope.fallbackPayloadLength != 0 && materialized.any test)

theorem materializesTo_true {page : ColumnPageIndexEntryV1} {logical : CoveLogicalType}
    {physical : CovePhysicalKind} {descriptor : CodecExtensionDescriptorV2}
    {resolver : RegisteredCodecResolver} {built : Except CoveError ColumnPagePayloadV1}
    {test : RegisteredPageMaterialization → Bool}
    (h : materializesTo page logical physical descriptor resolver built test = .ok true) :
    ∃ payload m envelope, registeredEnvelopeFromRoot castagnoli payload = .ok envelope ∧
      envelope.fallbackPayloadLength ≠ 0 ∧ materializeRegisteredPagePayload noTransforms castagnoli
        payload page logical physical [descriptor] resolver none = .ok (some m) ∧ test m = true := by
  obtain ⟨payload, -, h⟩ := of_andThen h
  obtain ⟨envelope, henvelope, h⟩ := of_andThen h
  obtain ⟨materialized, hm, h⟩ := of_andThen h
  obtain ⟨hlen, htest⟩ := Bool.and_eq_true_iff.mp (ok.inj h)
  cases materialized with
  | none => cases htest
  | some m => exact ⟨payload, m, envelope, henvelope, by simpa using hlen, hm, htest⟩

def encodedTextRows : Bytes :=
  [67, 70, 83, 50] ++ putU32 3 ++ putU32 1 ++ putU32 16 ++ [2] ++
    putU32 0 ++ putU32 2 ++ putU32 2 ++ putU32 3 ++ [97, 98, 99]

def fsstDescriptor : CodecExtensionDescriptorV2 :=
  ⟨1, "org.coveformat.codec", "fsst-utf8", 2, 0, 0, StableRegisteredCodec.logicalTypeMask [.utf8],
    StableRegisteredCodec.physicalKindMask [.varBytes], .stableRegistered,
    asciiBytes "COVE-FSST-UTF8-V2-SPEC-DIGEST"⟩

/-- The text rows are the same from the codec and from the fallback. -/
theorem text_page_agrees : ∃ payload m envelope fallback rows,
    materializeRegisteredPagePayload noTransforms castagnoli payload (registeredEntry 3 2) .utf8 .varBytes
      [fsstDescriptor] (stableRegisteredCodecResolver fun _ => true) none = .ok (some m) ∧
    m.usedFallback = false ∧
    parseFallbackPayload castagnoli payload envelope (registeredEntry 3 2) .utf8 .varBytes = .ok fallback ∧
    columnPayloadToLogicalPage noTransforms none fallback 3 = .ok rows ∧
    columnPayloadToLogicalPage noTransforms none m.payload 3 = .ok rows := by
  have hrun : materializesTo (registeredEntry 3 2) .utf8 .varBytes fsstDescriptor
      (stableRegisteredCodecResolver fun _ => true)
      (registeredPage 3 2 .utf8 .varBytes 2 encodedTextRows
        (ColumnPagePayloadV1.buildSingleNode castagnoli 3 .varBytes .utf8 .varBytes (some [2])
          (putU32 2 ++ [97, 98] ++ putU32 0 ++ putU32 1 ++ [99])))
      (fun m => m.usedFallback = false) = .ok true := by decide +kernel
  obtain ⟨payload, m, envelope, henvelope, hlen, hm, hused⟩ := materializesTo_true hrun
  have hreadable : Readable .utf8 .varBytes := trivial
  obtain ⟨envelope', henvelope', hagrees, -⟩ := registered_page_agrees (.inr hreadable) hm
  obtain rfl := ok.inj (henvelope.symm.trans henvelope')
  obtain ⟨fallback, rows, hparse, hrows, hsame⟩ := hagrees hlen
  exact ⟨payload, m, envelope, fallback, rows, hm, of_decide_eq_true hused, hparse, hrows, hsame⟩

def vendorDescriptor : CodecExtensionDescriptorV2 :=
  ⟨1, "vendor", "bits", 1, 0, 4, 0xffffffffffffffff, 0xffffffffffffffff, .vendorPrivate, []⟩

def oneBitRow : LogicalPage := ⟨[some [1], none, none, none]⟩

/-- Booleans of a wider logical type are written in one byte and read in more. -/
theorem wide_boolean_differs : ∃ payload m envelope fallback,
    registeredEnvelopeFromRoot castagnoli payload = .ok envelope ∧
    envelope.fallbackPayloadLength ≠ 0 ∧
    materializeRegisteredPagePayload noTransforms castagnoli payload (registeredEntry 4 1) .int32 .boolean
      [vendorDescriptor] (fun _ _ _ => .ok oneBitRow) none = .ok (some m) ∧
    parseFallbackPayload castagnoli payload envelope (registeredEntry 4 1) .int32 .boolean = .ok fallback ∧
    columnPayloadToLogicalPage noTransforms none fallback 4 = .ok oneBitRow ∧
    columnPayloadToLogicalPage noTransforms none m.payload 4 =
      .ok ⟨[some [1, 0, 0, 0], none, none, none]⟩ := by
  have hrun : materializesTo (registeredEntry 4 1) .int32 .boolean vendorDescriptor
      (fun _ _ _ => .ok oneBitRow)
      (registeredPage 4 1 .int32 .boolean 1 []
        (ColumnPagePayloadV1.buildSingleNode castagnoli 4 .validity .int32 .boolean (some [14]) [1]))
      (fun m => ¬ m.usedFallback ∧ columnPayloadToLogicalPage noTransforms none m.payload 4 =
        .ok ⟨[some [1, 0, 0, 0], none, none, none]⟩) = .ok true := by decide +kernel
  obtain ⟨payload, m, envelope, henvelope, hlen, hm, htest⟩ := materializesTo_true hrun
  obtain ⟨hused, hread⟩ := of_decide_eq_true htest
  obtain ⟨envelope', encodedPayload, found, henvelope', -, hfound, hsource⟩ := materialize_ok hm
  obtain rfl := ok.inj (henvelope.symm.trans henvelope')
  rcases fallbackOf_ok hfound with ⟨hzero, -⟩ | ⟨f, -, rfl, hparse, hrows⟩
  · exact absurd hzero hlen
  cases hsource with
  | fallback => exact absurd rfl hused
  | decoded _ hresolved _ hsame =>
    cases hresolved
    rw [hsame f rfl] at hrows
    exact ⟨payload, _, envelope, f.1, henvelope, hlen, hm, hparse, hrows, hread⟩

end CoveFormat.RegisteredPages
