import CoveFormat.Canonical

namespace CoveFormat.CanonicalValidator

open ByteCodes CheckedArith Wire Canonical

def decodeCanonicalVarint (bytes : Bytes) (what : String) : Except CoveError (Nat × Nat) :=
  (decodeU64Leb128 bytes).mapError (fun _ => .badSection ("invalid " ++ what))

def decodeLengthPrefixed (bytes : Bytes) (what : String) : Except CoveError (Bytes × Nat) :=
  (decodeCanonicalVarint bytes what).bind fun (payloadLen, prefixLen) =>
    (checkedAdd prefixLen payloadLen).bind fun total =>
      if bytes.length < total then
        .error (.badSection (what ++ " length prefix exceeds available bytes"))
      else .ok ((bytes.take total).drop prefixLen, total)

def validateMinWidth (bytes : Bytes) (width : Nat) (what : String) : Except CoveError Nat :=
  if bytes.length < width then
    .error (.badSection (what ++ " must be exactly " ++ toString width ++ " bytes"))
  else .ok width

def isScalarValueTag : ValueTag → Bool
  | .list | .struct | .map => false
  | _ => true

/-- `validate_tagged_value` over a given validator of the payload that follows the tag. -/
def validateTaggedValue (inner : ValueTag → Bytes → Except CoveError Nat) (bytes : Bytes) :
    Except CoveError (ValueTag × Nat) :=
  (decodeCanonicalVarint bytes "canonical value tag").bind fun (rawTag, tagLen) =>
    if rawTag < 2 ^ 16 then
      match ValueTag.fromU16 rawTag with
      | some valueTag =>
        (inner valueTag (bytes.drop tagLen)).bind fun payloadLen =>
          (checkedAdd tagLen payloadLen).map fun consumed => (valueTag, consumed)
      | none => .error (.badSection ("unknown canonical value tag " ++ toString rawTag))
    else .error (.badSection ("unknown canonical value tag " ++ toString rawTag))

section

variable (tagged : Bytes → Except CoveError (ValueTag × Nat)) (bytes : Bytes)

def validateElements : Nat → Nat → Except CoveError Nat
  | 0, pos => .ok pos
  | n + 1, pos =>
    (tagged (bytes.drop pos)).bind fun (_, consumed) =>
      (checkedAdd pos consumed).bind fun pos => validateElements n pos

def validateFields : Nat → Nat → Option Nat → Except CoveError Nat
  | 0, pos, _ => .ok pos
  | n + 1, pos, prevFieldId =>
    (decodeCanonicalVarint (bytes.drop pos) "canonical struct field_id").bind
      fun (fieldId, consumed) =>
        (checkedAdd pos consumed).bind fun pos =>
          if prevFieldId.any (fieldId ≤ ·) then
            .error (.badSection "canonical struct field_ids must be strictly ascending")
          else
            (tagged (bytes.drop pos)).bind fun (_, consumed) =>
              (checkedAdd pos consumed).bind fun pos => validateFields n pos (some fieldId)

def checkKeyOrder (prevKey : Option Bytes) (keyBytes : Bytes) : Except CoveError Unit :=
  match prevKey with
  | none => .ok ()
  | some prev =>
    if keyBytes < prev then
      .error (.badSection "canonical map keys must be sorted by canonical bytes")
    else if keyBytes = prev then .error (.badSection "duplicate key in canonical map encoding")
    else .ok ()

def validateEntries : Nat → Nat → Option Bytes → Except CoveError Nat
  | 0, pos, _ => .ok pos
  | n + 1, keyStart, prevKey =>
    (tagged (bytes.drop keyStart)).bind fun (keyTag, keyConsumed) =>
      if !isScalarValueTag keyTag then .error (.badSection "canonical map key must be scalar")
      else
        (checkedAdd keyStart keyConsumed).bind fun pos =>
          let keyBytes := (bytes.take pos).drop keyStart
          (checkKeyOrder prevKey keyBytes).bind fun _ =>
            (tagged (bytes.drop pos)).bind fun (_, valueConsumed) =>
              (checkedAdd pos valueConsumed).bind fun pos => validateEntries n pos (some keyBytes)

end

/-- `validate_payload_inner`. The source recurses without a bound; every nesting
level consumes a tag byte, so a depth above the length of `bytes` is never used up. -/
def validatePayloadInner (P : TextPredicates) : Nat → ValueTag → Bytes → Except CoveError Nat
  | 0, _, _ => .error .arithOverflow
  | depth + 1, valueTag, bytes =>
    match valueTag with
    | .null | .boolFalse | .boolTrue => .ok 0
    | .int64 | .uint64 | .float64Bits | .decimal64 | .timestampMicros | .timestampNanos =>
      validateMinWidth bytes 8 "8-byte canonical payload"
    | .float32Bits | .dateDays => validateMinWidth bytes 4 "4-byte canonical payload"
    | .decimal128 | .uuid => validateMinWidth bytes 16 "16-byte canonical payload"
    | .utf8 =>
      (decodeLengthPrefixed bytes "canonical UTF-8 payload").bind fun (payload, consumed) =>
        if P.utf8Valid payload then .ok consumed
        else .error (.badSection "Utf8 tag payload must be valid UTF-8")
    | .binary =>
      (decodeLengthPrefixed bytes "canonical binary payload").map Prod.snd
    | .json =>
      (decodeLengthPrefixed bytes "canonical JSON payload").bind fun (payload, consumed) =>
        if P.jsonValid payload then .ok consumed
        else .error (.badSection "Json tag payload must be syntactically valid JSON")
    | .list =>
      (decodeCanonicalVarint bytes "canonical list element count").bind fun (count, pos) =>
        validateElements (validateTaggedValue (validatePayloadInner P depth)) bytes count pos
    | .struct =>
      (decodeCanonicalVarint bytes "canonical struct field count").bind fun (count, pos) =>
        validateFields (validateTaggedValue (validatePayloadInner P depth)) bytes count pos none
    | .map =>
      (decodeCanonicalVarint bytes "canonical map pair count").bind fun (count, pos) =>
        validateEntries (validateTaggedValue (validatePayloadInner P depth)) bytes count pos none

def validateCanonicalPayload (P : TextPredicates) (valueTag : ValueTag) (bytes : Bytes) :
    Except CoveError Unit :=
  (validatePayloadInner P (bytes.length + 1) valueTag bytes).bind fun consumed =>
    if consumed ≠ bytes.length then .error (.badSection "canonical payload has trailing bytes")
    else .ok ()

end CoveFormat.CanonicalValidator
