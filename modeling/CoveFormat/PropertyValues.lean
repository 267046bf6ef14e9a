import CoveFormat.ExprEval
import CoveFormat.TemporalPushdown

namespace CoveFormat.PropertyValues

open CoveTypes JsonValue Temporal ObjectSurface TemporalPushdown ExprEval

structure PropertyEntryV1 where
  propertyId : Nat
  propertyName : String
  logicalType : CoveLogicalType
  physicalKind : CovePhysicalKind
  nullable : Bool
  flags : UInt32

/-- What a page stores for one row: a set null bit, or a value of the physical kind of its
property. -/
inductive StoredValue
  | null
  | boolean (value : Bool)
  | numCode (value : Nat)
  | uuid (id : Id16)
  | decimal (value : Int)
  | text (value : String)
  | fileCode (code : Nat)
  deriving DecidableEq

/-- The JSON package's texts, and the file dictionary for the properties stored as codes. -/
structure PropertyLibrary where
  jsonText : Value → String
  parseJson : String → Option Value
  fileCodeFor : PropertyEntryV1 → Value → Except String Nat
  fileCodeValue : PropertyEntryV1 → Nat → Except CoveError Value

def jsonBool : Value → Except String Bool
  | .bool value => .ok value
  | .string text =>
    if toAsciiLowercase text = "true" then .ok true
    else if toAsciiLowercase text = "false" then .ok false
    else .error "property value is not a bool"
  | _ => .error "property value is not a bool"

def jsonNumcode : Value → Except String Nat
  | .bool value => .ok value.toNat
  | .number (.posInt value) => .ok value
  | .number _ => .error "numeric property value is outside supported NumCode range"
  | .string text =>
    match parseU64 text with
    | some value => .ok value
    | none => .error s!"'{text}' is not a supported NumCode value"
  | _ => .error "property value is not numeric"

def hexNibble (c : Char) : Option Nat :=
  if '0' ≤ c ∧ c ≤ '9' then some (c.toNat - '0'.toNat)
  else if 'a' ≤ c ∧ c ≤ 'f' then some (c.toNat - 'a'.toNat + 10)
  else if 'A' ≤ c ∧ c ≤ 'F' then some (c.toNat - 'A'.toNat + 10)
  else none

def hexDigits : Nat → List Char → Option Nat
  | id, [] => some id
  | id, c :: cs => (hexNibble c).bind fun digit => hexDigits (16 * id + digit) cs

def hexDecode16 (text : String) : Except String Id16 :=
  if (trim text).utf8ByteSize ≠ 32 then
    .error "uuid hex string must contain 32 hex characters"
  else
    match hexDigits 0 (trim text).toList with
    | some id => .ok id
    | none => .error "invalid hex character"

/-- `str::parse` for the signed 128-bit integers. -/
def parseI128 (text : String) : Option Int :=
  let magnitude (digits : List Char) : Option Int :=
    if digits.isEmpty || !digits.all isAsciiDigit then none else some (digitsValue digits)
  (match text.toList with
    | '+' :: digits => magnitude digits
    | '-' :: digits => (magnitude digits).map (- ·)
    | digits => magnitude digits).bind i128

/-- `Debug` of a logical type, as error texts show it. -/
def debugText : CoveLogicalType → String
  | .null => "Null"
  | .bool => "Bool"
  | .int8 => "Int8"
  | .int16 => "Int16"
  | .int32 => "Int32"
  | .int64 => "Int64"
  | .uint8 => "UInt8"
  | .uint16 => "UInt16"
  | .uint32 => "UInt32"
  | .uint64 => "UInt64"
  | .float32 => "Float32"
  | .float64 => "Float64"
  | .decimal64 => "Decimal64"
  | .decimal128 => "Decimal128"
  | .dateDays => "DateDays"
  | .timestampMicros => "TimestampMicros"
  | .timestampNanos => "TimestampNanos"
  | .utf8 => "Utf8"
  | .binary => "Binary"
  | .uuid => "Uuid"
  | .json => "Json"
  | .list => "List"
  | .struct => "Struct"
  | .map => "Map"

/-- An integer property value: a JSON `i64`, or a text of the wider type. -/
def integerValue (parse : String → Option Int) (value : Value) : Option Int :=
  value.asI64.or (value.asStr.bind parse)

def fixedBytesForProperty (p : PropertyEntryV1) (value : Value) : Except String StoredValue :=
  match p.logicalType with
  | .uuid =>
    match value.asStr with
    | some text => (hexDecode16 text).map .uuid
    | none => .error "uuid property values must be hex strings"
  | .decimal128 =>
    match integerValue parseI128 value with
    | some int => .ok (.decimal int)
    | none => .error "decimal128 property value must be an integer"
  | .decimal64 =>
    match integerValue parseI64 value with
    | some int => .ok (.decimal int)
    | none => .error "decimal64 property value must be an integer"
  | _ => .error s!"unsupported fixed-bytes logical type '{debugText p.logicalType}'"

section

variable (lib : PropertyLibrary) (p : PropertyEntryV1)

def varBytesForProperty (value : Value) : Except String StoredValue :=
  match p.logicalType with
  | .utf8 =>
    match value.asStr with
    | some text => .ok (.text text)
    | none => .error "utf8 property value must be a string"
  | .json => .ok (.text (lib.jsonText value))
  | .binary =>
    match value.asStr with
    | some text => .ok (.text text)
    | none => .error "binary property value must be encoded as a string"
  | _ => .error s!"unsupported var-bytes logical type '{debugText p.logicalType}'"

def appendNullPlaceholder : Except String StoredValue :=
  match p.physicalKind with
  | .boolean | .numCode | .varBytes | .fileCode => .ok .null
  | .fixedBytes =>
    if p.logicalType ∈ [.uuid, .decimal128, .decimal64] then .ok .null
    else .error "unsupported fixed-width null placeholder"
  | .list | .struct | .map => .error "nested null placeholders are not supported"

/-- `u32::try_from(bytes.len())` for a text, which is stored after its length. -/
def lengthPrefixed : StoredValue → Except String StoredValue
  | .text value =>
    if 2 ^ 32 ≤ value.utf8ByteSize then .error "property value is too large" else .ok (.text value)
  | stored => .ok stored

/-- `append_property_value_bytes`; a text stands for its length and its bytes. -/
def appendPropertyValue (value : Value) : Except String StoredValue :=
  if value.isNull then appendNullPlaceholder p
  else
    match p.physicalKind with
    | .boolean => (jsonBool value).map .boolean
    | .numCode => (jsonNumcode value).map .numCode
    | .fixedBytes => fixedBytesForProperty p value
    | .varBytes => (varBytesForProperty lib p value).bind lengthPrefixed
    | .fileCode => (lib.fileCodeFor p value).map .fileCode
    | .list | .struct | .map =>
      .error "COVE-MAP writer does not materialize nested properties yet"

/-- `decode_property_value`; of the texts, only those of JSON properties are parsed. -/
def decodePropertyValue : StoredValue → Except CoveError Value
  | .null => .ok .null
  | .boolean value => .ok (.bool value)
  | .numCode value => .ok (.number (.posInt value))
  | .uuid id => .ok (.string (hexEncode id))
  | .decimal value => .ok (.string (toString value))
  | .text value =>
    if p.logicalType = .json then
      match lib.parseJson value with
      | some value => .ok value
      | none => .error .pageCorrupt
    else .ok (.string value)
  | .fileCode code => lib.fileCodeValue p code

end

def PropertyEntryV1.withValue (p : PropertyEntryV1) (value : Value) : CoveObjectPropertyValue where
  propertyId := p.propertyId
  propertyName := p.propertyName
  logicalType := p.logicalType
  physicalKind := p.physicalKind
  flags := p.flags
  value := value
  redacted := false

example : hexDecode16 " 000000000000000000000000000000Ff" = .ok 255 := by decide +kernel

end CoveFormat.PropertyValues
