import CoveFormat.SortedKeys
import CoveFormat.Wire

namespace CoveFormat.Canonical

open ByteCodes SortedKeys Wire

inductive ValueTag
  | null
  | boolFalse
  | boolTrue
  | int64
  | uint64
  | float32Bits
  | float64Bits
  | decimal64
  | decimal128
  | dateDays
  | timestampMicros
  | timestampNanos
  | utf8
  | binary
  | uuid
  | json
  | list
  | struct
  | map
  deriving DecidableEq

namespace ValueTag

def code : ValueTag → Nat
  | null => 0
  | boolFalse => 1
  | boolTrue => 2
  | int64 => 3
  | uint64 => 4
  | float32Bits => 5
  | float64Bits => 6
  | decimal64 => 7
  | decimal128 => 8
  | dateDays => 9
  | timestampMicros => 10
  | timestampNanos => 11
  | utf8 => 12
  | binary => 13
  | uuid => 14
  | json => 15
  | list => 16
  | struct => 17
  | map => 18

def fromU16 : Nat → Option ValueTag
  | 0 => some null
  | 1 => some boolFalse
  | 2 => some boolTrue
  | 3 => some int64
  | 4 => some uint64
  | 5 => some float32Bits
  | 6 => some float64Bits
  | 7 => some decimal64
  | 8 => some decimal128
  | 9 => some dateDays
  | 10 => some timestampMicros
  | 11 => some timestampNanos
  | 12 => some utf8
  | 13 => some binary
  | 14 => some uuid
  | 15 => some json
  | 16 => some list
  | 17 => some struct
  | 18 => some map
  | _ => none

end ValueTag

theorem fromU16_code (t : ValueTag) : ValueTag.fromU16 t.code = some t := by
  cases t <;> rfl

theorem code_lt (t : ValueTag) : t.code < 19 := by
  cases t <;> decide

theorem code_inj {s t : ValueTag} (h : s.code = t.code) : s = t := by
  have e := fromU16_code s
  rw [h, fromU16_code t] at e
  exact (Option.some.inj e).symm

/-- UTF-8 and JSON validity of byte strings, given from outside: `str::from_utf8`
and `serde_json`. A JSON text is UTF-8. -/
structure TextPredicates where
  (utf8Valid jsonValid : Bytes → Bool)
  json_utf8 : ∀ b, jsonValid b → utf8Valid b

abbrev Str (P : TextPredicates) := {b : Bytes // P.utf8Valid b}

/-- Fixed-width integers and floats are their bit patterns; the declared width
of an `int` or `uint` is kept, as in the source. -/
inductive CanonicalValue (P : TextPredicates)
  | null
  | bool (value : Bool)
  | int (width : Nat) (value : Int)
  | uint (width : Nat) (value : Nat)
  | float32 (bits : BitVec 32)
  | float64 (bits : BitVec 64)
  | decimal64 (value : BitVec 64)
  | decimal128 (value : BitVec 128)
  | dateDays (value : BitVec 32)
  | timestampMicros (value : BitVec 64)
  | timestampNanos (value : BitVec 64)
  | uuid (bytes : {b : Bytes // b.length = 16})
  | utf8 (text : Str P)
  | bytes (value : Bytes)
  | json (text : Str P)
  | list (elements : List (CanonicalValue P))
  | struct (fields : List (UInt64 × CanonicalValue P))
  | map (entries : List (CanonicalValue P × CanonicalValue P))

variable {P : TextPredicates}

namespace CanonicalValue

def valueTag : CanonicalValue P → ValueTag
  | null => .null
  | bool false => .boolFalse
  | bool true => .boolTrue
  | int _ _ => .int64
  | uint _ _ => .uint64
  | float32 _ => .float32Bits
  | float64 _ => .float64Bits
  | decimal64 _ => .decimal64
  | decimal128 _ => .decimal128
  | dateDays _ => .dateDays
  | timestampMicros _ => .timestampMicros
  | timestampNanos _ => .timestampNanos
  | uuid _ => .uuid
  | utf8 _ => .utf8
  | bytes _ => .binary
  | json _ => .json
  | list _ => .list
  | struct _ => .struct
  | map _ => .map

def isScalarKey : CanonicalValue P → Bool
  | list _ | struct _ | map _ => false
  | _ => true

end CanonicalValue

def encodeI64Width (width : Nat) (value : Int) : Except CoveError Bytes :=
  if width = 1 ∨ width = 2 ∨ width = 4 ∨ width = 8 then
    if -2 ^ (8 * width - 1) ≤ value ∧ value ≤ 2 ^ (8 * width - 1) - 1 then
      .ok (leBytes 8 (unsigned 64 value))
    else .error (.badSection "signed integer canonical value out of range")
  else .error (.badSection ("invalid signed integer width " ++ toString width))

def encodeU64Width (width value : Nat) : Except CoveError Bytes :=
  if width = 1 ∨ width = 2 ∨ width = 4 ∨ width = 8 then
    if value ≤ 2 ^ (8 * width) - 1 then .ok (leBytes 8 (value % 2 ^ 64))
    else .error (.badSection "unsigned integer canonical value out of range")
  else .error (.badSection ("invalid unsigned integer width " ++ toString width))

def lengthPrefixed (bytes : Bytes) : Bytes := encodeU64Leb128 bytes.length ++ bytes

def withTag (tag : ValueTag) (payload : Except CoveError Bytes) : Except CoveError Bytes :=
  payload.map (fun x => encodeU64Leb128 tag.code ++ x)

/-- Sequence the encoded fields in their sorted order, stopping at the first error. -/
def joinFields : List (UInt64 × Except CoveError Bytes) → Except CoveError Bytes
  | [] => .ok []
  | (_, .error e) :: _ => .error e
  | (id, .ok x) :: rest => (joinFields rest).map (fun y => encodeU64Leb128 id.toNat ++ x ++ y)

/-- `canonicalize_struct` on fields paired with the outcome of their tagged encoding. -/
def canonicalizeStruct (fields : List (UInt64 × Except CoveError Bytes)) : Except CoveError Bytes :=
  let sorted := sortByKey (fun f => f.1.toNat) fields
  if adjacentEqual (sorted.map (fun f => f.1.toNat)) then
    .error (.badSchema "duplicate field_id in canonical struct")
  else (joinFields sorted).map (fun x => encodeU64Leb128 sorted.length ++ x)

/-- The sorting half of `canonicalize_map_entries`. -/
def sortMapEntries (pairs : List (Bytes × Bytes)) : Except CoveError (List (Bytes × Bytes)) :=
  let sorted := sortByKey Prod.fst pairs
  if adjacentEqual (sorted.map Prod.fst) then
    .error (.badSchema "duplicate key in canonical map encoding (Spec §17.6)")
  else .ok sorted

def joinEntries (sorted : List (Bytes × Bytes)) : Bytes :=
  encodeU64Leb128 sorted.length ++ sorted.flatMap (fun p => p.1 ++ p.2)

mutual

def encode : CanonicalValue P → Except CoveError Bytes
  | .null | .bool _ => .ok []
  | .int width value => encodeI64Width width value
  | .uint width value => encodeU64Width width value
  | .float32 bits => .ok (leBytes 4 bits.toNat)
  | .float64 bits => .ok (leBytes 8 bits.toNat)
  | .decimal64 value => .ok (leBytes 8 value.toNat)
  | .decimal128 value => .ok (leBytes 16 value.toNat)
  | .dateDays value => .ok (leBytes 4 value.toNat)
  | .timestampMicros value | .timestampNanos value => .ok (leBytes 8 value.toNat)
  | .uuid bytes => .ok bytes.val
  | .utf8 text => .ok (lengthPrefixed text.val)
  | .json text =>
    if P.jsonValid text.val then .ok (lengthPrefixed text.val)
    else .error (.badSection "Json canonical value must be syntactically valid JSON")
  | .bytes value => .ok (lengthPrefixed value)
  | .list elements =>
    (encodeElements elements).map (fun x => encodeU64Leb128 elements.length ++ x)
  | .struct fields => canonicalizeStruct (encodeFields fields)
  | .map entries => ((encodeEntries entries).bind sortMapEntries).map joinEntries

def encodeElements : List (CanonicalValue P) → Except CoveError Bytes
  | [] => .ok []
  | e :: es => (withTag e.valueTag (encode e)).bind (fun x => (encodeElements es).map (x ++ ·))

def encodeFields : List (UInt64 × CanonicalValue P) → List (UInt64 × Except CoveError Bytes)
  | [] => []
  | (id, v) :: fs => (id, withTag v.valueTag (encode v)) :: encodeFields fs

def encodeEntries : List (CanonicalValue P × CanonicalValue P) →
    Except CoveError (List (Bytes × Bytes))
  | [] => .ok []
  | (k, v) :: es =>
    if !k.isScalarKey then .error (.badSchema "canonical map key must be scalar")
    else
      (withTag k.valueTag (encode k)).bind fun x =>
        (withTag v.valueTag (encode v)).bind fun y =>
          (encodeEntries es).map ((x, y) :: ·)

end

def encodeTagged (value : CanonicalValue P) : Except CoveError Bytes :=
  withTag value.valueTag (encode value)

end CoveFormat.Canonical
