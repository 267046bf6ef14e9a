import Mathlib.Algebra.Group.Nat.Defs
import Mathlib.Algebra.Ring.Int.Defs

namespace CoveFormat.JsonValue

/-- The number of a JSON value: a `u64`, a negative `i64` or the bits of an `f64`. -/
inductive Number
  | posInt (value : Nat)
  | negInt (value : Int)
  | float (bits : Nat)

inductive Value
  | null
  | bool (value : Bool)
  | number (value : Number)
  | string (value : String)
  | array (values : List Value)
  | object (fields : List (String × Value))

def f64IsNan (bits : Nat) : Bool := 0x7ff0000000000000 < bits % 2 ^ 63

def f64Key (bits : Nat) : Int := if bits < 2 ^ 63 then bits else -((bits : Int) - 2 ^ 63)

/-- `n as f64`, rounded to nearest, ties to even. -/
def f64OfNat (n : Nat) : Nat :=
  if n = 0 then 0
  else
    let exponent := Nat.log2 n
    let mantissa :=
      if exponent ≤ 52 then n * 2 ^ (52 - exponent)
      else
        let unit := 2 ^ (exponent - 52)
        let low := n / unit
        let rest := n % unit
        if unit < 2 * rest ∨ 2 * rest = unit ∧ low % 2 = 1 then low + 1 else low
    (exponent + 1023) * 2 ^ 52 + (mantissa - 2 ^ 52)

def f64OfInt (n : Int) : Nat := if n < 0 then 2 ^ 63 + f64OfNat n.natAbs else f64OfNat n.natAbs

/-- `f64::partial_cmp` on the bits. -/
def f64Compare (lhs rhs : Nat) : Option Ordering :=
  if f64IsNan lhs || f64IsNan rhs then none else some (compare (f64Key lhs) (f64Key rhs))

theorem f64Compare_swap (lhs rhs : Nat) : f64Compare rhs lhs = (f64Compare lhs rhs).map .swap := by
  unfold f64Compare
  rw [Bool.or_comm]
  split
  · rfl
  · exact congrArg some Std.OrientedOrd.eq_swap

example : f64OfNat 3 = 0x4008000000000000 := by rfl
example : f64OfNat (2 ^ 53 + 1) = 0x4340000000000000 := by rfl

namespace Value

def isNull : Value → Bool
  | null => true
  | _ => false

def asBool : Value → Option Bool
  | bool value => some value
  | _ => none

def asI64 : Value → Option Int
  | number (.posInt value) => if value < 2 ^ 63 then some value else none
  | number (.negInt value) => some value
  | _ => none

def asU64 : Value → Option Nat
  | number (.posInt value) => some value
  | _ => none

def asF64 : Value → Option Nat
  | number (.posInt value) => some (f64OfNat value)
  | number (.negInt value) => some (f64OfInt value)
  | number (.float bits) => some bits
  | _ => none

def asStr : Value → Option String
  | string value => some value
  | _ => none

/-- The JSON number of an `i64` or a `u64`. -/
def ofInt (n : Int) : Value := number (if 0 ≤ n then .posInt n.toNat else .negInt n)

end Value

/-- `char::is_whitespace`. -/
def isWhitespace (c : Char) : Bool :=
  (9 ≤ c.toNat && c.toNat ≤ 13) || (0x2000 ≤ c.toNat && c.toNat ≤ 0x200a) ||
    [0x20, 0x85, 0xa0, 0x1680, 0x2028, 0x2029, 0x202f, 0x205f, 0x3000].contains c.toNat

def trim (text : String) : String :=
  String.ofList
    ((text.toList.dropWhile isWhitespace).reverse.dropWhile isWhitespace).reverse

example : trim "  a b\n" = "a b" := by decide

/-- `str::to_ascii_lowercase`. -/
def toAsciiLowercase (text : String) : String := String.ofList (text.toList.map Char.toLower)

/-- The text functions that two evaluators of one expression call: the Unicode case
tables, the reading of doubles, and the texts of JSON values. -/
structure TextLibrary where
  (toLowercase toUppercase : String → String)
  parseF64 : String → Option Nat
  floatText : Nat → String
  jsonText : Value → String

end CoveFormat.JsonValue
