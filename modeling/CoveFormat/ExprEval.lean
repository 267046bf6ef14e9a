import CoveFormat.JsonValue
import CoveFormat.ResolvedQuery
import Mathlib.Order.Compare

namespace CoveFormat.ExprEval

open ByteCodes JsonValue ResolvedQuery

inductive CollationKind
  | none
  | utf8Bytewise
  | unsignedFixedBytes
  | signedNumeric
  | unsignedNumeric
  | timestampChronological
  deriving DecidableEq

namespace CollationKind

def fromId : Nat → Option CollationKind
  | 0 => some none
  | 1 => some utf8Bytewise
  | 2 => some unsignedFixedBytes
  | 3 => some signedNumeric
  | 4 => some unsignedNumeric
  | 5 => some timestampChronological
  | _ => Option.none

def supportsOrdering (kind : CollationKind) : Bool := kind ≠ none

def numericCompare (read : Bytes → Int) (lhs rhs : String) : Option Ordering :=
  let l := lhs.toUTF8.data.toList
  let r := rhs.toUTF8.data.toList
  if l.length = r.length ∧ l.length ∈ [1, 2, 4, 8, 16] then some (compare (read l) (read r))
  else Option.none

def compareTexts (lhs rhs : String) : CollationKind → Option Ordering
  | none => if lhs = rhs then some .eq else Option.none
  | utf8Bytewise | unsignedFixedBytes => some (compare lhs rhs)
  | unsignedNumeric => numericCompare (fun b => leNat b) lhs rhs
  | signedNumeric | timestampChronological =>
    numericCompare (fun b => signed (8 * b.length) (leNat b)) lhs rhs

end CollationKind

def stringOrdering (left right : String) (collationId : Option Nat) : Option Ordering :=
  let id := collationId.getD 1
  (if id = 0 then some CollationKind.utf8Bytewise else CollationKind.fromId id).bind fun kind =>
    if kind.supportsOrdering then kind.compareTexts left right else none

/-- `value` is an `i128` and stands for `value / 10 ^ scale`. -/
structure ExactDecimal where
  value : Int
  scale : Nat
  deriving DecidableEq

def i128 (value : Int) : Option Int :=
  if -2 ^ 127 ≤ value ∧ value < 2 ^ 127 then some value else none

def pow10 : Nat → Option Int
  | 0 => some 1
  | power + 1 => (pow10 power).bind fun out => i128 (out * 10)

def normalized (value : Int) : Nat → ExactDecimal
  | 0 => ⟨value, 0⟩
  | scale + 1 => if value % 10 = 0 then normalized (value / 10) scale else ⟨value, scale + 1⟩

/-- Multiplying by `10 ^ 0` keeps an `i128`. -/
def rescaleDecimal (value : Int) (fromScale toScale : Nat) : Option Int :=
  if toScale = fromScale then some value
  else if toScale < fromScale then (pow10 (fromScale - toScale)).map value.tdiv
  else (pow10 (toScale - fromScale)).bind fun factor => i128 (value * factor)

def isAsciiDigit (c : Char) : Bool := '0' ≤ c && c ≤ '9'

theorem isAsciiDigit_of_mem {c : Char} {n : Nat} (h : c ∈ Nat.toDigits 10 n) : isAsciiDigit c = true :=
  Nat.isDigit_of_mem_toDigits (by decide) (by decide) h

def digitsValue (digits : List Char) : Nat :=
  digits.foldl (fun n c => 10 * n + (c.toNat - '0'.toNat)) 0

def parseUnsignedDecimal (negative : Bool) (unsigned : List Char) : Option ExactDecimal :=
  let whole := unsigned.takeWhile (· ≠ '.')
  let fractional := (unsigned.dropWhile (· ≠ '.')).tail
  if fractional.contains '.' || (whole.isEmpty && fractional.isEmpty) ||
      !whole.all isAsciiDigit || !fractional.all isAsciiDigit then none
  else
    (i128 (digitsValue (whole ++ fractional))).map fun value =>
      normalized (if negative then -value else value) (fractional.length % 2 ^ 32)

def parseDecimalStr (text : String) : Option ExactDecimal :=
  match text.toList with
  | '-' :: unsigned => parseUnsignedDecimal true unsigned
  | unsigned => parseUnsignedDecimal false unsigned

example : parseDecimalStr "-12.50" = some ⟨-125, 1⟩ := by decide

/-- `str::parse` for the signed 64-bit integers. -/
def parseI64 (text : String) : Option Int :=
  let magnitude (digits : List Char) : Option Int :=
    if digits.isEmpty || !digits.all isAsciiDigit then none else some (digitsValue digits)
  (match text.toList with
    | '+' :: digits => magnitude digits
    | '-' :: digits => (magnitude digits).map (- ·)
    | digits => magnitude digits).filter fun value => -2 ^ 63 ≤ value && value < 2 ^ 63

def parseU64 (text : String) : Option Nat :=
  let magnitude (digits : List Char) : Option Nat :=
    if digits.isEmpty || !digits.all isAsciiDigit then none else some (digitsValue digits)
  (match text.toList with
    | '+' :: digits => magnitude digits
    | digits => magnitude digits).filter (· < 2 ^ 64)

def sameNumber : Number → Number → Bool
  | .posInt a, .posInt b | .negInt a, .negInt b => a == b
  | .float a, .float b => f64Compare a b == some .eq
  | _, _ => false

mutual

def sameValue : Value → Value → Bool
  | .null, .null => true
  | .bool a, .bool b => a == b
  | .number a, .number b => sameNumber a b
  | .string a, .string b => a == b
  | .array as, .array bs => sameValues as bs
  | .object fs, .object gs => sameFields fs gs
  | _, _ => false
termination_by structural a => a

def sameValues : List Value → List Value → Bool
  | [], [] => true
  | a :: as, b :: bs => sameValue a b && sameValues as bs
  | _, _ => false
termination_by structural as => as

def sameFields : List (String × Value) → List (String × Value) → Bool
  | [], [] => true
  | f :: fs, g :: gs => sameField f g && sameFields fs gs
  | _, _ => false
termination_by structural fs => fs

def sameField : String × Value → String × Value → Bool
  | (name, a), (other, b) => name == other && sameValue a b
termination_by structural f => f

end

def isNumericType : Option String → Bool
  | some "int8" | some "int16" | some "int32" | some "int64" | some "uint8" | some "uint16"
  | some "uint32" | some "uint64" | some "float32" | some "float64" | some "decimal64"
  | some "decimal128" | some "timestamp_micros" | some "timestamp_nanos" | some "date_days" =>
    true
  | _ => false

def exprLogicalType : ResolvedExpr → Option String
  | .path path => some path.logicalType
  | .literal literal => some literal.logicalType
  | .functionCall _ _ logicalType _ => some logicalType
  | .residual _ logicalType _ => logicalType

section Evaluation

variable (lib : TextLibrary)

def parseDecimalValue : Value → Option ExactDecimal
  | .number (.posInt value) | .number (.negInt value) => some ⟨value, 0⟩
  | .number (.float bits) => parseDecimalStr (lib.floatText bits)
  | .string text => parseDecimalStr text
  | _ => none

theorem parseDecimalValue_ofInt (n : Int) : parseDecimalValue lib (.ofInt n) = some ⟨n, 0⟩ := by
  unfold Value.ofInt
  split_ifs with h
  · rw [parseDecimalValue, Int.toNat_of_nonneg h]
  · rfl

def compareDecimals (left right : ExactDecimal) : Option Ordering :=
  let scale := max left.scale right.scale
  (rescaleDecimal left.value left.scale scale).bind fun l =>
    (rescaleDecimal right.value right.scale scale).map fun r => compare l r

def decimalCompare (left right : Value) : Option Ordering :=
  (parseDecimalValue lib left).bind fun l =>
    (parseDecimalValue lib right).bind fun r => compareDecimals l r

def isNumber : Value → Bool
  | .number _ => true
  | _ => false

section

variable (left right : Value)

def typedOrMixedNumericValues (logicalType : Option String) : Bool :=
  (isNumericType logicalType || isNumber left || isNumber right) &&
    (parseDecimalValue lib left).isSome && (parseDecimalValue lib right).isSome

def doublesCompare : Option Ordering :=
  left.asF64.bind fun l => right.asF64.bind fun r => f64Compare l r

def valuesEqualTyped (logicalType : Option String) : Bool :=
  if typedOrMixedNumericValues lib left right logicalType then
    decimalCompare lib left right == some .eq
  else if isNumber left && isNumber right then doublesCompare left right == some .eq
  else sameValue left right

def valueOrderingTyped (logicalType : Option String) (collationId : Option Nat) : Option Ordering :=
  if typedOrMixedNumericValues lib left right logicalType then decimalCompare lib left right
  else if isNumber left && isNumber right then doublesCompare left right
  else
    match left, right with
    | .string left, .string right => stringOrdering left right collationId
    | .bool left, .bool right => some (compare left right)
    | _, _ => none

end

end Evaluation

end CoveFormat.ExprEval
