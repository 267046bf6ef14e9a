import CoveFormat.EncodedArrays

namespace CoveFormat.TransformPayloads

open ByteCodes CheckedArith ExceptRules FixedFields PagePayloads EncodedArrays BitPacked Wire List
open CoveTypes (CovePhysicalKind)

section

variable (bytes : Bytes)

def readU16LeChecked (offset : Nat) : Except CoveError UInt16 := do
  let raw ← checkedRegion bytes offset 2
  .ok (UInt16.ofNat (leNat raw))

def readU32LeChecked (offset : Nat) : Except CoveError UInt32 := do
  let raw ← checkedRegion bytes offset 4
  .ok (UInt32.ofNat (leNat raw))

def readU64LeChecked (offset : Nat) : Except CoveError UInt64 := do
  let raw ← checkedRegion bytes offset 8
  .ok (UInt64.ofNat (leNat raw))

def readI64LeChecked (offset : Nat) : Except CoveError Int64 := do
  let raw ← readU64LeChecked bytes offset
  .ok raw.toInt64

end

/-- `count` values of `width` bytes each from an offset on. -/
def readArray {α : Type} (read : Bytes → Nat → Except CoveError α) (width : Nat) (bytes : Bytes)
    (offset count : Nat) : Except CoveError (List α) :=
  (range count).mapM fun i => read bytes (offset + i * width)

def checkedMul (a b : Nat) : Except CoveError Nat :=
  if a * b < 2 ^ 64 then .ok (a * b) else .error .arithOverflow

/-- `n.checked_mul(width).and_then(|bytes| bytes.checked_add(header))`. -/
def checkedSize (n width header : Nat) : Except CoveError Nat := do
  let bytes ← checkedMul n width
  checkedAdd bytes header

structure RlePayload where
  runs : List (Int64 × UInt32)

namespace RlePayload

/-- The runs from an offset on and their total length; a run is neither empty nor of the value of
the one before. -/
def parseRuns (bytes : Bytes) : Nat → Nat → Nat → Option Int64 →
    Except CoveError (List (Int64 × UInt32) × Nat)
  | 0, _, total, _ => .ok ([], total)
  | count + 1, offset, total, prevValue => do
      let v ← readI64LeChecked bytes offset
      let len ← readU32LeChecked bytes (offset + 8)
      rejectIf (len = 0) .pageCorrupt
      rejectIf (prevValue = some v) .pageCorrupt
      let total ← checkedAdd total len.toNat
      let rest ← parseRuns bytes count (offset + 12) total (some v)
      .ok ((v, len) :: rest.1, rest.2)

def parse (bytes : Bytes) : Except CoveError RlePayload := do
  rejectIf (bytes.length < 4) .bufferTooShort
  let runCount ← readU32LeChecked bytes 0
  let need ← checkedSize runCount.toNat 12 4
  rejectIf (bytes.length < need) .bufferTooShort
  let read ← parseRuns bytes runCount.toNat 4 0 none
  rejectIf (2 ^ 32 - 1 < read.2) .pageCorrupt
  .ok ⟨read.1⟩

def fastDecode (p : RlePayload) : List Int64 :=
  p.runs.flatMap fun run => replicate run.2.toNat run.1

end RlePayload

structure RunEndPayload where
  values : List Int64
  runEnds : List UInt32

namespace RunEndPayload

def parseEnds (bytes : Bytes) : Nat → Nat → Nat → Except CoveError (List UInt32)
  | 0, _, _ => .ok []
  | count + 1, offset, prev => do
      let e ← readU32LeChecked bytes offset
      rejectIf (e.toNat ≤ prev) .pageCorrupt
      let rest ← parseEnds bytes count (offset + 4) e.toNat
      .ok (e :: rest)

def parse (bytes : Bytes) : Except CoveError RunEndPayload := do
  rejectIf (bytes.length < 4) .bufferTooShort
  let n ← readU32LeChecked bytes 0
  let valueBytes ← checkedMul n.toNat 8
  let endBytes ← checkedMul n.toNat 4
  let need ← checkedAdd 4 valueBytes
  let need ← checkedAdd need endBytes
  rejectIf (bytes.length < need) .bufferTooShort
  let values ← readArray readI64LeChecked 8 bytes 4 n.toNat
  let runEnds ← parseEnds bytes n.toNat (4 + n.toNat * 8) 0
  .ok ⟨values, runEnds⟩

def expandRuns : Nat → List (Int64 × UInt32) → List Int64
  | _, [] => []
  | start, (v, e) :: rest => replicate (e.toNat - start) v ++ expandRuns e.toNat rest

def canonicalDecode (p : RunEndPayload) : Except CoveError (List Int64) := do
  rejectIf (p.values.length ≠ p.runEnds.length) .pageCorrupt
  .ok (expandRuns 0 (p.values.zip p.runEnds))

end RunEndPayload

structure DeltaPayload where
  base : Int64
  deltas : List Int64

namespace DeltaPayload

def zigzagDecodeI64 (value : UInt64) : Int64 := (value >>> 1).toInt64 ^^^ -(value &&& 1).toInt64

def parseDeltas (bytes : Bytes) : Nat → Nat → Except CoveError (List Int64)
  | 0, _ => .ok []
  | count + 1, pos => do
      let read ← decodeU64Leb128 (bytes.drop pos)
      let rest ← parseDeltas bytes count (pos + read.2)
      .ok (zigzagDecodeI64 (UInt64.ofNat read.1) :: rest)

def parse (bytes : Bytes) : Except CoveError DeltaPayload := do
  rejectIf (bytes.length < 12) .bufferTooShort
  let base ← readI64LeChecked bytes 0
  let n ← readU32LeChecked bytes 8
  let deltas ← parseDeltas bytes n.toNat 12
  .ok ⟨base, deltas⟩

/-- The running sums, which wrap around. -/
def canonicalDecode (p : DeltaPayload) : List Int64 := p.deltas.scanl (· + ·) p.base

end DeltaPayload

structure ForPayload where
  reference : Int64
  offsets : List Int64

namespace ForPayload

def parse (bytes : Bytes) : Except CoveError ForPayload := do
  rejectIf (bytes.length < 12) .bufferTooShort
  let reference ← readI64LeChecked bytes 0
  let n ← readU32LeChecked bytes 8
  let need ← checkedSize n.toNat 8 12
  rejectIf (bytes.length < need) .bufferTooShort
  let offsets ← readArray readI64LeChecked 8 bytes 12 n.toNat
  .ok ⟨reference, offsets⟩

def canonicalDecode (p : ForPayload) : List Int64 := p.offsets.map (p.reference + ·)

end ForPayload

/-- The pairs of a position and a value that a base is patched with: the positions increase
strictly and lie below the row count. -/
def parsePatches (bytes : Bytes) (rowCount : Nat) : Nat → Nat → Option UInt32 →
    Except CoveError (List (UInt32 × Int64))
  | 0, _, _ => .ok []
  | count + 1, offset, prev => do
      let p ← readU32LeChecked bytes offset
      let v ← readI64LeChecked bytes (offset + 4)
      rejectIf (∃ prevPos ∈ prev, p ≤ prevPos) .pageCorrupt
      rejectIf (rowCount ≤ p.toNat) .pageCorrupt
      let rest ← parsePatches bytes rowCount count (offset + 12) (some p)
      .ok ((p, v) :: rest)

structure PatchedBasePayload where
  base : List Int64
  patches : List (UInt32 × Int64)

namespace PatchedBasePayload

def parse (bytes : Bytes) : Except CoveError PatchedBasePayload := do
  rejectIf (bytes.length < 4) .bufferTooShort
  let n ← readU32LeChecked bytes 0
  let baseBytes ← checkedMul n.toNat 8
  let baseEnd ← checkedAdd 4 baseBytes
  let baseEnd ← checkedAdd baseEnd 4
  rejectIf (bytes.length < baseEnd) .bufferTooShort
  let base ← readArray readI64LeChecked 8 bytes 4 n.toNat
  let pc ← readU32LeChecked bytes (4 + n.toNat * 8)
  let pos := 4 + n.toNat * 8 + 4
  let patchBytes ← checkedMul pc.toNat 12
  let patchEnd ← checkedAdd pos patchBytes
  rejectIf (bytes.length < patchEnd) .bufferTooShort
  let patches ← parsePatches bytes n.toNat pc.toNat pos none
  .ok ⟨base, patches⟩

def applyPatches : List Int64 → List (UInt32 × Int64) → Except CoveError (List Int64)
  | out, [] => .ok out
  | out, (p, v) :: patches => do
      rejectIf (out.length ≤ p.toNat) .pageCorrupt
      applyPatches (out.set p.toNat v) patches

def canonicalDecode (p : PatchedBasePayload) : Except CoveError (List Int64) :=
  applyPatches p.base p.patches

end PatchedBasePayload

structure SparsePayload where
  rowCount : UInt32
  fill : Int64
  overrides : List (UInt32 × Int64)

namespace SparsePayload

def parse (bytes : Bytes) : Except CoveError SparsePayload := do
  rejectIf (bytes.length < 16) .bufferTooShort
  let rowCount ← readU32LeChecked bytes 0
  let fill ← readI64LeChecked bytes 4
  let oc ← readU32LeChecked bytes 12
  let need ← checkedSize oc.toNat 12 16
  rejectIf (bytes.length < need) .bufferTooShort
  let overrides ← parsePatches bytes rowCount.toNat oc.toNat 16 none
  .ok ⟨rowCount, fill, overrides⟩

def canonicalDecode (p : SparsePayload) : List Int64 :=
  p.overrides.foldl (fun out o => out.set o.1.toNat o.2) (replicate p.rowCount.toNat p.fill)

end SparsePayload

def bitPackedDecode (p : BitPackedPayload) : Except CoveError (List Int64) := do
  let values ← p.fastDecode
  .ok (values.map Int64.ofInt)

inductive LocalIndexPayload
  | rle (payload : RlePayload)
  | bitPacked (payload : BitPackedPayload)

namespace LocalIndexPayload

def parse (childRaw : UInt16) (bytes : Bytes) : Except CoveError LocalIndexPayload :=
  match encodingKindFromU16 childRaw with
  | some .rle => do
      let payload ← RlePayload.parse bytes
      .ok (.rle payload)
  | some .bitPacked => do
      let payload ← BitPackedPayload.parse bytes
      .ok (.bitPacked payload)
  | _ => .error (.unsupportedEncoding
      ("LocalCodebook child encoding " ++ toString childRaw.toNat))

def decoded : LocalIndexPayload → Except CoveError (List Int64)
  | .rle payload => .ok payload.fastDecode
  | .bitPacked payload => bitPackedDecode payload

def decodeLocalIndexes (p : LocalIndexPayload) : Except CoveError (List UInt32) := do
  let values ← p.decoded
  values.mapM fun value =>
    if 0 ≤ value.toInt ∧ value.toInt < 2 ^ 32 then .ok (UInt32.ofNat value.toInt.toNat)
    else .error .pageCorrupt

end LocalIndexPayload

inductive LocalCodebookValueKind
  | fileCode
  | numCode
  | boolean
  | varBytes

def LocalCodebookValueKind.fromRaw (raw : UInt16) : Except CoveError LocalCodebookValueKind :=
  let unsupported : CoveError :=
    .unsupportedEncoding ("LocalCodebook value physical kind " ++ toString raw.toNat)
  match if raw.toNat < 256 then physicalKindFromU8 raw.toUInt8 else none with
  | some .fileCode => .ok .fileCode
  | some .numCode => .ok .numCode
  | some .boolean => .ok .boolean
  | some .varBytes => .ok .varBytes
  | _ => .error unsupported

inductive LocalCodebookValues
  | fileCode (values : List UInt32)
  | numCode (values : List UInt64)
  | boolean (values : List Bool)
  | varBytes (values : List Bytes)

namespace LocalCodebookValues

def length : LocalCodebookValues → Nat
  | .fileCode values | .numCode values | .boolean values | .varBytes values => values.length

def parseVarBytes (bytes : Bytes) : Nat → Nat → Except CoveError (List Bytes × Nat)
  | 0, offset => .ok ([], offset)
  | count + 1, offset => do
      let lengthEnd ← checkedAdd offset 4
      rejectIf (bytes.length < lengthEnd) .bufferTooShort
      let length ← readU32LeChecked bytes offset
      let valueEnd ← checkedAdd lengthEnd length.toNat
      rejectIf (bytes.length < valueEnd) .bufferTooShort
      let rest ← parseVarBytes bytes count valueEnd
      .ok ((bytes.drop lengthEnd).take length.toNat :: rest.1, rest.2)

def parse (kind : LocalCodebookValueKind) (codebookLen : Nat) (bytes : Bytes) :
    Except CoveError LocalCodebookValues :=
  match kind with
  | .fileCode => do
      let expected ← checkedMul codebookLen 4
      rejectIf (bytes.length ≠ expected) .pageCorrupt
      let values ← readArray readU32LeChecked 4 bytes 0 codebookLen
      .ok (.fileCode values)
  | .numCode => do
      let expected ← checkedMul codebookLen 8
      rejectIf (bytes.length ≠ expected) .pageCorrupt
      let values ← readArray readU64LeChecked 8 bytes 0 codebookLen
      .ok (.numCode values)
  | .boolean => do
      rejectIf (bytes.length ≠ codebookLen) .pageCorrupt
      let values ← bytes.mapM fun value =>
        if value = 0 then .ok false else if value = 1 then .ok true else .error .pageCorrupt
      .ok (.boolean values)
  | .varBytes => do
      let read ← parseVarBytes bytes codebookLen 0
      rejectIf (read.2 ≠ bytes.length) .pageCorrupt
      .ok (.varBytes read.1)

def valueAt (values : LocalCodebookValues) (index : Nat) : Except CoveError LocalCodebookValue :=
  let found : Option LocalCodebookValue := match values with
    | .fileCode values => values[index]?.map .fileCode
    | .numCode values => values[index]?.map .numCode
    | .boolean values => values[index]?.map .boolean
    | .varBytes values => values[index]?.map .varBytes
  match found with
  | some value => .ok value
  | none => .error .pageCorrupt

end LocalCodebookValues

structure LocalCodebookPayload where
  values : LocalCodebookValues
  indexes : LocalIndexPayload

namespace LocalCodebookPayload

def parse (bytes : Bytes) : Except CoveError LocalCodebookPayload := do
  rejectIf (bytes.length < 12) .bufferTooShort
  let childRaw ← readU16LeChecked bytes 0
  let valueRaw ← readU16LeChecked bytes 2
  let valueKind ← LocalCodebookValueKind.fromRaw valueRaw
  let codebookLen ← readU32LeChecked bytes 4
  let childLen ← readU32LeChecked bytes 8
  rejectIf (bytes.length - 12 < childLen.toNat) .bufferTooShort
  let childStart := bytes.length - childLen.toNat
  let values ← LocalCodebookValues.parse valueKind codebookLen.toNat
    ((bytes.take childStart).drop 12)
  let indexes ← LocalIndexPayload.parse childRaw (bytes.drop childStart)
  let decoded ← indexes.decodeLocalIndexes
  rejectIf (∃ index ∈ decoded, values.length ≤ index.toNat) .pageCorrupt
  .ok ⟨values, indexes⟩

def decodeValues (p : LocalCodebookPayload) : Except CoveError (List LocalCodebookValue) := do
  let indexes ← p.indexes.decodeLocalIndexes
  indexes.mapM fun index => p.values.valueAt index.toNat

end LocalCodebookPayload

def transforms : TransformDecoders where
  cascade
    | .rle, data => do
        let payload ← RlePayload.parse data
        .ok payload.fastDecode
    | .runEnd, data => do
        let payload ← RunEndPayload.parse data
        payload.canonicalDecode
    | .bitPacked, data => do
        let payload ← BitPackedPayload.parse data
        bitPackedDecode payload
    | .delta, data => do
        let payload ← DeltaPayload.parse data
        .ok payload.canonicalDecode
    | .frameOfReference, data => do
        let payload ← ForPayload.parse data
        .ok payload.canonicalDecode
    | .patchedBase, data => do
        let payload ← PatchedBasePayload.parse data
        payload.canonicalDecode
    | .sparse, data => do
        let payload ← SparsePayload.parse data
        .ok payload.canonicalDecode
    | kind, _ => .error (.unsupportedEncoding (encodingKindName kind))
  codebook data := do
    let payload ← LocalCodebookPayload.parse data
    payload.decodeValues

end CoveFormat.TransformPayloads
