import CoveFormat.ByteCodes
import CoveFormat.CoveTypes
import CoveFormat.Floats
import CoveFormat.JsonValue

namespace CoveFormat.NumCodes

open ByteCodes CoveTypes Floats JsonValue

inductive NumericPredicateOp
  | eq
  | lt
  | ltEq
  | gt
  | gtEq
  deriving DecidableEq

/-- A float is given by its bits. -/
inductive PredicateLiteral
  | int64 (value : Int64)
  | uint64 (value : UInt64)
  | float64 (bits : UInt64)
  deriving DecidableEq

inductive NativeTypedNumericValue
  | signed (value : Int)
  | unsigned (value : Nat)
  | float (bits : Nat)

def signedWidth : CoveLogicalType → Option Nat
  | .int8 => some 8
  | .int16 => some 16
  | .int32 | .dateDays => some 32
  | .int64 | .decimal64 | .timestampMicros | .timestampNanos => some 64
  | _ => none

def unsignedWidth : CoveLogicalType → Option Nat
  | .uint8 => some 8
  | .uint16 => some 16
  | .uint32 => some 32
  | .uint64 => some 64
  | _ => none

def f64Nan : Nat := 0x7ff8000000000000

def typedNativeNumcodeValue (logicalType : CoveLogicalType) (value : Nat) :
    Option NativeTypedNumericValue :=
  match logicalType with
  | .bool => if value = 0 then some (.unsigned 0) else if value = 1 then some (.unsigned 1) else none
  | .float32 =>
    let bits := value % 2 ^ 32
    some (.float (if f32IsNan bits then f64Nan else f64OfF32 bits))
  | .float64 => some (.float (if f64IsNan value then f64Nan else value))
  | _ =>
    match signedWidth logicalType, unsignedWidth logicalType with
    | some w, _ => some (.signed (signed w value))
    | none, some w => some (.unsigned (value % 2 ^ w))
    | none, none => none

/-- `2 ^ 1074` least subnormals make one. -/
def f64OneLog : Nat := 1074

def f64One : Int := (2 ^ f64OneLog : Nat)

def f64Units (bits : Nat) : Int :=
  if f64IsNegative bits then -(decodeUnits 52 (f64Magnitude bits) : Int)
  else decodeUnits 52 (f64Magnitude bits)

/-- The integer `low ≤ n < high` that the float is, if it is one. -/
def f64ToIntExact (low high : Int) (bits : Nat) : Option Int :=
  if !f64IsFinite bits || f64Units bits % f64One != 0 || f64Units bits < low * f64One ||
      high * f64One ≤ f64Units bits then none
  else
    let candidate := f64Units bits / f64One
    if f64Compare (f64OfInt candidate) bits = some .eq then some candidate else none

def f64ToI64Exact (bits : Nat) : Option Int := f64ToIntExact (-2 ^ 63) (2 ^ 63) bits

def f64ToU64Exact (bits : Nat) : Option Int := f64ToIntExact 0 (2 ^ 64) bits

def compareNativeOrdered (left : Int) (op : NumericPredicateOp) (right : Int) : Bool :=
  match op with
  | .eq => left = right
  | .lt => left < right
  | .ltEq => left ≤ right
  | .gt => right < left
  | .gtEq => right ≤ left

def compareNativeFloats (left : Nat) (op : NumericPredicateOp) (right : Nat) : Bool :=
  match f64Compare left right with
  | none => false
  | some ordering =>
    match op with
    | .eq => ordering = .eq
    | .lt => ordering = .lt
    | .ltEq => ordering ≠ .gt
    | .gt => ordering = .gt
    | .gtEq => ordering ≠ .lt

def belowAll : NumericPredicateOp → Bool
  | .gt | .gtEq => true
  | _ => false

def aboveAll : NumericPredicateOp → Bool
  | .lt | .ltEq => true
  | _ => false

def compareNativeIntegerToFractionalBounds (value : Int) (op : NumericPredicateOp)
    (floor ceil : Int) : Bool :=
  match op with
  | .eq => false
  | .lt | .ltEq => value ≤ floor
  | .gt | .gtEq => ceil ≤ value

/-- An integer column of the range `low ≤ n < high` against a float literal. -/
def compareNativeIntFloatLiteral (low high : Int) (value : Int) (op : NumericPredicateOp)
    (literal : Nat) : Bool :=
  if !f64IsFinite literal then false
  else
    match f64ToIntExact low high literal with
    | some rhs => compareNativeOrdered value op rhs
    | none =>
      if f64Units literal < low * f64One then belowAll op
      else if high * f64One ≤ f64Units literal then aboveAll op
      else
        compareNativeIntegerToFractionalBounds value op (f64Units literal / f64One)
          (-(-f64Units literal / f64One))

def compareNativeSignedFloatLiteral : Int → NumericPredicateOp → Nat → Bool :=
  compareNativeIntFloatLiteral (-2 ^ 63) (2 ^ 63)

def compareNativeUnsignedFloatLiteral : Int → NumericPredicateOp → Nat → Bool :=
  compareNativeIntFloatLiteral 0 (2 ^ 64)

def compareNativeSignedUnsigned (value : Int) (op : NumericPredicateOp) (literal : Nat) : Bool :=
  if value < 0 then aboveAll op else compareNativeOrdered value op literal

def compareNativeSignedNumericValue (value : Int) (op : NumericPredicateOp) :
    PredicateLiteral → Bool
  | .int64 literal => compareNativeOrdered value op literal.toInt
  | .uint64 literal => compareNativeSignedUnsigned value op literal.toNat
  | .float64 literal => compareNativeSignedFloatLiteral value op literal.toNat

def compareNativeUnsignedNumericValue (value : Nat) (op : NumericPredicateOp) :
    PredicateLiteral → Bool
  | .int64 literal =>
    if literal.toInt < 0 then belowAll op else compareNativeOrdered value op literal.toInt
  | .uint64 literal => compareNativeOrdered value op literal.toNat
  | .float64 literal => compareNativeUnsignedFloatLiteral value op literal.toNat

def predicateLiteralAsF64 : PredicateLiteral → Option Nat
  | .int64 value => some (f64OfInt value.toInt)
  | .uint64 value => some (f64OfNat value.toNat)
  | .float64 bits => if f64IsNan bits.toNat then none else some bits.toNat

def compareNativeTypedNumericValue (value : NativeTypedNumericValue) (op : NumericPredicateOp)
    (literal : PredicateLiteral) : Bool :=
  match value with
  | .signed value => compareNativeSignedNumericValue value op literal
  | .unsigned value => compareNativeUnsignedNumericValue value op literal
  | .float value =>
    match predicateLiteralAsF64 literal with
    | none => false
    | some literal => compareNativeFloats value op literal

section

variable (logicalType : CoveLogicalType)

/-- `none` is the unsupported encoding of a logical type or code without a number. -/
def compareNativeNumcodeValue (value : Nat) (op : NumericPredicateOp) (literal : PredicateLiteral) :
    Option Bool :=
  (typedNativeNumcodeValue logicalType value).map fun value =>
    compareNativeTypedNumericValue value op literal

def canonicalNumcode (value : Nat) : Nat :=
  match logicalType with
  | .float32 => value % 2 ^ 32
  | _ =>
    match signedWidth logicalType, unsignedWidth logicalType with
    | some w, _ => unsigned 64 (signed w value)
    | none, some w => value % 2 ^ w
    | none, none => value

end

def boolNumericLookupKey : PredicateLiteral → Option Nat
  | .int64 value | .uint64 value => if value = 0 then some 0 else if value = 1 then some 1 else none
  | .float64 bits =>
    if f64Compare bits.toNat (f64OfNat 0) = some .eq then some 0
    else if f64Compare bits.toNat (f64OfNat 1) = some .eq then some 1
    else none

def integerKey (logical : CoveLogicalType) (value : Int) : Option Nat :=
  match signedWidth logical, unsignedWidth logical with
  | some w, _ => if -2 ^ (w - 1) ≤ value ∧ value < 2 ^ (w - 1) then some (unsigned 64 value) else none
  | none, some w => if 0 ≤ value ∧ value < 2 ^ w then some value.toNat else none
  | none, none => none

def signedLiteralLookupKey : CoveLogicalType → Int → Option Nat := integerKey

def unsignedLiteralLookupKey : CoveLogicalType → Int → Option Nat := integerKey

section

variable (logical : CoveLogicalType)

def integerNumericLookupKey : PredicateLiteral → Option Nat
  | .int64 value => signedLiteralLookupKey logical value.toInt
  | .uint64 value => unsignedLiteralLookupKey logical value.toNat
  | .float64 bits =>
    ((f64ToI64Exact bits.toNat).bind (signedLiteralLookupKey logical)).or
      ((f64ToU64Exact bits.toNat).bind (unsignedLiteralLookupKey logical))

def numericLookupKeys (literal : PredicateLiteral) : List Nat :=
  match logical with
  | .bool => (boolNumericLookupKey literal).toList
  | .float32 =>
    match predicateLiteralAsF64 literal with
    | none => []
    | some original =>
      let value := f32OfF64 original
      if !f32IsFinite value || f64Compare (f64OfF32 value) original ≠ some .eq then []
      else if value % 2 ^ 31 = 0 then [0, 2 ^ 31]
      else [value]
  | .float64 =>
    match predicateLiteralAsF64 literal with
    | none => []
    | some value =>
      if !f64IsFinite value then []
      else if f64Magnitude value = 0 then [0, 2 ^ 63]
      else [value]
  | _ => (integerNumericLookupKey logical literal).toList

def numericInLookupKeys (literals : List PredicateLiteral) : List Nat :=
  literals.foldl
    (fun keys literal => (numericLookupKeys logical literal).foldl
      (fun keys key => if key ∈ keys then keys else keys ++ [key]) keys) []

end

def f32IsInfinite (bits : Nat) : Bool := bits % 2 ^ 31 == f32Infinity

def numcodeIsInfinite (logical : CoveLogicalType) (value : Nat) : Bool :=
  match logical with
  | .float32 => f32IsInfinite value
  | .float64 => f64IsInfinite value
  | _ => false

end CoveFormat.NumCodes
