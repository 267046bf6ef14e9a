import CoveFormat.CanonicalValidator
import CoveFormat.TakeReaders

namespace CoveFormat.DictionarySections

open ByteCodes Canonical CanonicalValidator CheckedArith ExceptRules FixedFields TakeReaders
open List hiding Vector

variable {e : FileDictionaryIndexEntryV1}

inductive StorageClass
  | inline
  | payload
  | redacted

def StorageClass.fromU8 (v : UInt8) : Option StorageClass :=
  [StorageClass.inline, .payload, .redacted][v.toNat]?

inductive DictionaryValue
  | rawBytes (bytes : Bytes)
  | redactedPresent
  deriving DecidableEq

def dictHeaderSize : Nat := 44
def dictIndexEntrySize : Nat := 48

structure FileDictionaryHeaderV1 where
  (entryCount flags : UInt32)
  (indexEntryLen valueHashAlgorithm : UInt16)
  payloadLength : UInt64
  reserved : Vector UInt8 24

structure FileDictionaryIndexEntryV1 where
  valueTag : UInt16
  (storageClass flags inlineLen : UInt8)
  reserved0 : Vector UInt8 3
  inlineData : Vector UInt8 16
  payloadOffset : UInt64
  payloadLength : UInt32
  canonicalHash64 : UInt64
  reserved1 : UInt32
  inline_le : inlineLen.toNat ≤ 16

namespace FileDictionaryHeaderV1

def serialize (h : FileDictionaryHeaderV1) : Bytes :=
  [putU32 h.entryCount, putU32 h.flags, putU16 h.indexEntryLen, putU16 h.valueHashAlgorithm,
    putU64 h.payloadLength, h.reserved.toList].flatten

def read : Reader FileDictionaryHeaderV1 := do
  let entryCount ← takeU32
  let flags ← takeU32
  let indexEntryLen ← takeU16
  refuseIf (indexEntryLen.toNat ≠ dictIndexEntrySize) (.badSection
    ("index_entry_len is " ++ toString indexEntryLen.toNat ++ ", expected 48"))
  let valueHashAlgorithm ← takeU16
  refuseIf (2 < valueHashAlgorithm.toNat) (.badSection
    ("unknown value_hash_algorithm " ++ toString valueHashAlgorithm.toNat))
  let payloadLength ← takeU64
  let reserved ← takeArray 24
  refuseIf (reserved ≠ Vector.replicate 24 0) .reservedNotZero
  return ⟨entryCount, flags, indexEntryLen, valueHashAlgorithm, payloadLength, reserved⟩

def parse (bytes : Bytes) : Except CoveError FileDictionaryHeaderV1 := do
  rejectIf (bytes.length < dictHeaderSize) .bufferTooShort
  let bytes := bytes.take dictHeaderSize
  read.run' bytes

variable {h : FileDictionaryHeaderV1}

@[simp] theorem serialize_length : h.serialize.length = dictHeaderSize := by
  simp [serialize, dictHeaderSize]

theorem parse_serialize (hlen : h.indexEntryLen.toNat = dictIndexEntrySize)
    (halgorithm : h.valueHashAlgorithm.toNat ≤ 2) (hreserved : h.reserved = Vector.replicate 24 0) :
    parse h.serialize = .ok h := by
  have hshort : ¬ h.serialize.length < dictHeaderSize := by simp
  rw [parse, rejectIf, if_neg hshort, take_of_length_le serialize_length.le]
  refine run'_eq_ok_iff.mpr ⟨[], ?_⟩
  rw [serialize, read]
  simp only [flatten_cons, flatten_nil, run_takeArray, run_takeU16, run_takeU32,
    run_takeU64, run_refuseIf, andThen_eq_ok_iff, rejectIf_eq_ok_iff, exists_const,
    run_pure_ok_iff, not_not, not_lt]
  exact ⟨hlen, halgorithm, hreserved, trivial⟩

end FileDictionaryHeaderV1

namespace FileDictionaryIndexEntryV1

def serialize (e : FileDictionaryIndexEntryV1) : Bytes :=
  [putU16 e.valueTag, putU8 e.storageClass, putU8 e.flags, putU8 e.inlineLen, e.reserved0.toList,
    e.inlineData.toList, putU64 e.payloadOffset, putU32 e.payloadLength, putU64 e.canonicalHash64,
    putU32 e.reserved1].flatten

def read : Reader FileDictionaryIndexEntryV1 := do
  let valueTag ← takeU16
  let storageClass ← takeU8
  let flags ← takeU8
  let inlineLen ← takeU8
  let reserved0 ← takeArray 3
  refuseIf (reserved0 ≠ Vector.replicate 3 0) .reservedNotZero
  let inlineData ← takeArray 16
  let payloadOffset ← takeU64
  let payloadLength ← takeU32
  let canonicalHash64 ← takeU64
  let reserved1 ← takeU32
  refuseIf (reserved1 ≠ 0) .reservedNotZero
  refuseIf (ValueTag.fromU16 valueTag.toNat = none) (.badSection
    ("unknown value_tag " ++ toString valueTag.toNat ++ " in dictionary index entry"))
  refuseIf (StorageClass.fromU8 storageClass = none) (.badSection
    ("unknown storage_class " ++ toString storageClass.toNat ++ " in dictionary index entry"))
  if h : inlineLen.toNat ≤ 16 then
    return ⟨valueTag, storageClass, flags, inlineLen, reserved0, inlineData, payloadOffset,
      payloadLength, canonicalHash64, reserved1, h⟩
  else StateT.lift (.error (.badSection
    ("inline_len " ++ toString inlineLen.toNat ++ " exceeds inline_data capacity (16)")))

def parse (bytes : Bytes) : Except CoveError FileDictionaryIndexEntryV1 := do
  rejectIf (bytes.length < dictIndexEntrySize) .bufferTooShort
  let bytes := bytes.take dictIndexEntrySize
  read.run' bytes

def validatePayloadBounds (e : FileDictionaryIndexEntryV1) (payloadTotalLen : Nat) :
    Except CoveError Unit := do
  let finish ← checkedAdd e.payloadOffset.toNat e.payloadLength.toNat
  rejectIf (payloadTotalLen < finish) .offsetRange

@[simp] theorem serialize_length : e.serialize.length = dictIndexEntrySize := by
  simp [serialize, dictIndexEntrySize]

theorem parse_serialize (hreserved0 : e.reserved0 = Vector.replicate 3 0)
    (hreserved1 : e.reserved1 = 0) (htag : ValueTag.fromU16 e.valueTag.toNat ≠ none)
    (hclass : StorageClass.fromU8 e.storageClass ≠ none) : parse e.serialize = .ok e := by
  have hshort : ¬ e.serialize.length < dictIndexEntrySize := by simp
  rw [parse, rejectIf, if_neg hshort, take_of_length_le serialize_length.le]
  refine run'_eq_ok_iff.mpr ⟨[], ?_⟩
  rw [serialize, read]
  simp only [flatten_cons, flatten_nil, run_takeArray, run_takeU8, run_takeU16,
    run_takeU32, run_takeU64, run_refuseIf, andThen_eq_ok_iff, rejectIf_eq_ok_iff, exists_const,
    not_not]
  refine ⟨hreserved0, hreserved1, htag, hclass, ?_⟩
  rw [dif_pos e.inline_le]
  rfl

end FileDictionaryIndexEntryV1

section

-- The UTF-8 and the JSON test of the standard and the JSON library.
variable (P : TextPredicates)

def valueTagOf (e : FileDictionaryIndexEntryV1) : Except CoveError ValueTag :=
  match ValueTag.fromU16 e.valueTag.toNat with
  | some tag => .ok tag
  | none => .error (.badSection "invalid value tag")

/-- `validate_dictionary_entry` behind the bounds of the payload. -/
def validateStorage (e : FileDictionaryIndexEntryV1) (payloadSection : Bytes) :
    Except CoveError Unit :=
  match StorageClass.fromU8 e.storageClass with
  | none => .error (.badSection "invalid storage class")
  | some .inline => do
      rejectIf (e.payloadLength ≠ 0) (.badSection "inline storage must not use payload bytes")
      let tag ← valueTagOf e
      validateCanonicalPayload P tag (e.inlineData.toList.take e.inlineLen.toNat)
  | some .payload => do
      rejectIf (e.inlineLen ≠ 0) (.badSection "payload storage must not use inline bytes")
      let bytes ← checkedRegion payloadSection e.payloadOffset.toNat e.payloadLength.toNat
      let tag ← valueTagOf e
      validateCanonicalPayload P tag bytes
  | some .redacted =>
    rejectIf (ValueTag.fromU16 e.valueTag.toNat = some .null)
      (.badSection "redacted value must not be null")

def validateDictionaryEntry (e : FileDictionaryIndexEntryV1) (payloadSection : Bytes)
    (payloadTotalLen : Nat) : Except CoveError Unit := do
  e.validatePayloadBounds payloadTotalLen
  validateStorage P e payloadSection

end

/-- The codes `0..count`. -/
def fileCodes (count : UInt32) : List UInt32 := (range count.toNat).map UInt32.ofNat

structure FileDictionaryView where
  header : FileDictionaryHeaderV1
  (indexSection payloadSection : Bytes)

namespace FileDictionaryView

def parse (indexSection payloadSection : Bytes) : Except CoveError FileDictionaryView := do
  rejectIf (indexSection.length < dictHeaderSize) .bufferTooShort
  let header ← FileDictionaryHeaderV1.parse (indexSection.take dictHeaderSize)
  rejectIf (indexSection.length ≠
    dictHeaderSize + header.entryCount.toNat * header.indexEntryLen.toNat)
    (.badSection "dictionary index section length mismatch")
  rejectIf (payloadSection.length ≠ header.payloadLength.toNat)
    (.badSection "dictionary payload section length mismatch")
  .ok ⟨header, indexSection, payloadSection⟩

def getEntry (v : FileDictionaryView) (fileCode : UInt32) :
    Except CoveError FileDictionaryIndexEntryV1 := do
  rejectIf (v.header.entryCount ≤ fileCode) .badFileCode
  FileDictionaryIndexEntryV1.parse
    ((v.indexSection.drop (dictHeaderSize + fileCode.toNat * dictIndexEntrySize)).take
      dictIndexEntrySize)

def validateAll (P : TextPredicates) (v : FileDictionaryView) : Except CoveError Unit :=
  checkAll (fun fileCode => do
    let entry ← v.getEntry fileCode
    validateDictionaryEntry P entry v.payloadSection v.header.payloadLength.toNat)
    (fileCodes v.header.entryCount)

end FileDictionaryView

structure FileDictionary where
  header : FileDictionaryHeaderV1
  entries : List FileDictionaryIndexEntryV1
  payload : Bytes

namespace FileDictionary

def parse (P : TextPredicates) (indexSection payloadSection : Bytes) :
    Except CoveError FileDictionary := do
  let view ← FileDictionaryView.parse indexSection payloadSection
  view.validateAll P
  let entries ← (fileCodes view.header.entryCount).mapM view.getEntry
  .ok ⟨view.header, entries, payloadSection⟩

def getEntry (dict : FileDictionary) (fileCode : UInt32) :
    Except CoveError FileDictionaryIndexEntryV1 :=
  match dict.entries[fileCode.toNat]? with
  | some entry => .ok entry
  | none => .error .badFileCode

def decodeDictionaryEntry (entry : FileDictionaryIndexEntryV1) (payloadSection : Bytes) :
    Except CoveError DictionaryValue :=
  match StorageClass.fromU8 entry.storageClass with
  | none => .error (.badSection "invalid storage class")
  | some .redacted => .ok .redactedPresent
  | some .inline => .ok (.rawBytes (entry.inlineData.toList.take entry.inlineLen.toNat))
  | some .payload => do
      let payload ← checkedRegion payloadSection entry.payloadOffset.toNat entry.payloadLength.toNat
      .ok (.rawBytes payload)

def decodeValue (dict : FileDictionary) (fileCode : UInt32) : Except CoveError DictionaryValue := do
  let entry ← dict.getEntry fileCode
  decodeDictionaryEntry entry dict.payload

end FileDictionary

section

variable {P : TextPredicates} {header : FileDictionaryHeaderV1}
  {entries : List FileDictionaryIndexEntryV1} {payload : Bytes}

def indexBytes (header : FileDictionaryHeaderV1) (entries : List FileDictionaryIndexEntryV1) :
    Bytes :=
  header.serialize ++ entries.flatMap FileDictionaryIndexEntryV1.serialize

theorem entry_slice (before : Bytes) {i : Nat} (he : entries[i]? = some e) :
    ((before ++ entries.flatMap FileDictionaryIndexEntryV1.serialize).drop
      (before.length + i * dictIndexEntrySize)).take dictIndexEntrySize = e.serialize := by
  have hlen (entry : FileDictionaryIndexEntryV1) : entry.serialize.length = dictIndexEntrySize :=
    FileDictionaryIndexEntryV1.serialize_length
  have hentry := slice_flatMap_const hlen he []
  rwa [append_nil, ← drop_length_add_append] at hentry

/-- What the sections ask of a header. -/
structure HeaderFits (header : FileDictionaryHeaderV1) : Prop where
  indexEntryLen : header.indexEntryLen.toNat = dictIndexEntrySize
  algorithm : header.valueHashAlgorithm.toNat ≤ 2
  reserved : header.reserved = Vector.replicate 24 0

/-- What the sections ask of an entry. -/
structure EntryFits (P : TextPredicates) (payload : Bytes) (e : FileDictionaryIndexEntryV1) :
    Prop where
  reserved0 : e.reserved0 = Vector.replicate 3 0
  reserved1 : e.reserved1 = 0
  tag : ValueTag.fromU16 e.valueTag.toNat ≠ none
  storageClass : StorageClass.fromU8 e.storageClass ≠ none
  valid : validateDictionaryEntry P e payload payload.length = .ok ()

theorem view_getEntry {i : Nat} {fileCode : UInt32} (hcode : fileCode.toNat = i)
    (hlt : fileCode < header.entryCount) (he : entries[i]? = some e) (hfits : EntryFits P payload e) :
    FileDictionaryView.getEntry ⟨header, indexBytes header entries, payload⟩ fileCode = .ok e := by
  have hslice := entry_slice header.serialize he
  rw [FileDictionaryHeaderV1.serialize_length] at hslice
  refine rejectIf_andThen (UInt32.not_le.mpr hlt) ?_
  rw [hcode, indexBytes, hslice]
  exact FileDictionaryIndexEntryV1.parse_serialize hfits.reserved0 hfits.reserved1 hfits.tag
    hfits.storageClass

theorem parse_indexBytes (hheader : HeaderFits header)
    (hcount : header.entryCount.toNat = entries.length)
    (hpayload : header.payloadLength.toNat = payload.length)
    (hentries : ∀ e ∈ entries, EntryFits P payload e) :
    FileDictionary.parse P (indexBytes header entries) payload = .ok ⟨header, entries, payload⟩ := by
  have hlen : (indexBytes header entries).length =
      dictHeaderSize + entries.length * dictIndexEntrySize := by
    rw [indexBytes, length_append, FileDictionaryHeaderV1.serialize_length,
      length_flatMap_const fun _ => FileDictionaryIndexEntryV1.serialize_length]
  have hview : FileDictionaryView.parse (indexBytes header entries) payload =
      .ok ⟨header, indexBytes header entries, payload⟩ := by
    refine andThen_eq_ok_iff.mpr ⟨(), rejectIf_ok (by omega), ?_⟩
    refine andThen_eq_ok_iff.mpr ⟨header, ?_, ?_⟩
    · rw [indexBytes, take_left' FileDictionaryHeaderV1.serialize_length]
      exact FileDictionaryHeaderV1.parse_serialize hheader.indexEntryLen hheader.algorithm
        hheader.reserved
    · refine andThen_eq_ok_iff.mpr ⟨(), rejectIf_ok (not_not.mpr ?_), ?_⟩
      · rw [hlen, hcount, hheader.indexEntryLen]
      · exact andThen_eq_ok_iff.mpr ⟨(), rejectIf_ok (not_not.mpr hpayload.symm), rfl⟩
  have hget : ∀ i e, entries[i]? = some e →
      FileDictionaryView.getEntry ⟨header, indexBytes header entries, payload⟩ (UInt32.ofNat i) =
        .ok e := by
    intro i e he
    have hi := (List.getElem?_eq_some_iff.mp he).1
    have hcode : (UInt32.ofNat i).toNat = i := by
      refine UInt32.toNat_ofNat_of_lt' ?_
      exact (hcount ▸ hi : i < header.entryCount.toNat).trans header.entryCount.toNat_lt
    refine view_getEntry hcode ?_ he (hentries e (mem_of_getElem? he))
    rw [UInt32.lt_iff_toNat_lt, hcode, hcount]
    exact hi
  refine andThen_eq_ok_iff.mpr ⟨_, hview, ?_⟩
  refine andThen_eq_ok_iff.mpr ⟨(), ?_, ?_⟩
  · refine checkAll_eq_ok_iff.mpr (forall_mem_map.mpr fun i hi => ?_)
    rw [mem_range, hcount] at hi
    refine andThen_eq_ok_iff.mpr ⟨_, hget i _ (List.getElem?_eq_getElem hi), ?_⟩
    rw [hpayload]
    exact (hentries _ (getElem_mem hi)).valid
  · refine andThen_eq_ok_iff.mpr ⟨entries, mapM_of_forall₂ ?_, rfl⟩
    rw [fileCodes, hcount, forall₂_map_left_iff]
    refine forall₂_iff_get.mpr ⟨by rw [length_range], fun i h₁ h₂ => ?_⟩
    rw [get_eq_getElem, getElem_range]
    exact hget i _ (List.getElem?_eq_getElem h₂)

end

end CoveFormat.DictionarySections
