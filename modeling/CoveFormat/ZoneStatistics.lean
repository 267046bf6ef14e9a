import CoveFormat.ByteCodes
import Mathlib.Data.Int.Order.Basic
import Mathlib.Order.Compare

namespace CoveFormat.ZoneStatistics

open ByteCodes

inductive StatKind
  | none
  | int64
  | uint64
  | float64Bits
  | decimal128
  | timestampMicros
  | timestampNanos
  | dateDays
  | fixedBytes
  deriving DecidableEq

structure ZoneStatFlags where
  bits : Nat
  deriving DecidableEq

namespace ZoneStatFlags

def hasMinMax : ZoneStatFlags := ⟨1 <<< 0⟩

def hasDomainRange : ZoneStatFlags := ⟨1 <<< 1⟩

def constant : ZoneStatFlags := ⟨1 <<< 3⟩

def hasNan : ZoneStatFlags := ⟨1 <<< 6⟩

def minmaxTruncated : ZoneStatFlags := ⟨1 <<< 8⟩

def contains (self other : ZoneStatFlags) : Bool := self.bits &&& other.bits == other.bits

end ZoneStatFlags

structure StatScalar where
  kind : StatKind
  bytes : Bytes
  truncated : Bool
  deriving DecidableEq

/-- A typed numeric statistic; a `Float64` is its IEEE bit pattern. -/
inductive NumericStatValue
  | int64 (value : Int)
  | uint64 (value : Nat)
  | float64 (bits : UInt64)
  | decimal128 (value : Int)
  | timestampMicros (value : Int)
  | timestampNanos (value : Int)
  | dateDays (value : Int)
  deriving DecidableEq

def f64IsNan (bits : UInt64) : Bool := 0x7ff0000000000000 < bits.toNat % 2 ^ 63

def f64Key (bits : UInt64) : Int :=
  if bits.toNat < 2 ^ 63 then bits.toNat else 2 ^ 63 - bits.toNat

def f64PartialCmp (left right : UInt64) : Option Ordering :=
  if f64IsNan left || f64IsNan right then none else some (compare (f64Key left) (f64Key right))

def exactBytes (width : Nat) (bytes : Bytes) : Option Nat :=
  if bytes.length = width then some (leNat bytes) else none

section

variable (bytes : Bytes)

def decodeI32Exact : Option Int := (exactBytes 4 bytes).map (signed 32)

def decodeI64Exact : Option Int := (exactBytes 8 bytes).map (signed 64)

def decodeU64Exact : Option Nat := exactBytes 8 bytes

def decodeI128Exact : Option Int := (exactBytes 16 bytes).map (signed 128)

end

def StatScalar.numericValue (self : StatScalar) : Option NumericStatValue :=
  match self.kind with
  | .int64 => (decodeI64Exact self.bytes).map .int64
  | .uint64 => (decodeU64Exact self.bytes).map .uint64
  | .float64Bits =>
    (((decodeU64Exact self.bytes).map UInt64.ofNat).filter (fun value => !f64IsNan value)).map .float64
  | .decimal128 => (decodeI128Exact self.bytes).map .decimal128
  | .timestampMicros => (decodeI64Exact self.bytes).map .timestampMicros
  | .timestampNanos => (decodeI64Exact self.bytes).map .timestampNanos
  | .dateDays => (decodeI32Exact self.bytes).map .dateDays
  | .none | .fixedBytes => none

structure ZoneStats where
  (rowCount nullCount : Nat)
  (min max : Option StatScalar)
  flags : ZoneStatFlags
  deriving DecidableEq

structure ZoneStatsEntry where
  stats : ZoneStats
  (minDomainRank maxDomainRank : UInt32)
  deriving DecidableEq

/-- `compare_numeric` of `pruning.rs`: values of different kinds, and NaN, do not compare. -/
def compareNumeric : NumericStatValue → NumericStatValue → Option Ordering
  | .int64 left, .int64 right | .uint64 left, .uint64 right => some (compare left right)
  | .float64 left, .float64 right => f64PartialCmp left right
  | .decimal128 left, .decimal128 right | .timestampMicros left, .timestampMicros right
  | .timestampNanos left, .timestampNanos right | .dateDays left, .dateDays right => some (compare left right)
  | _, _ => none

namespace NumericStatValue

def isNan : NumericStatValue → Bool
  | .float64 bits => f64IsNan bits
  | _ => false

def kind : NumericStatValue → StatKind
  | .int64 _ => .int64
  | .uint64 _ => .uint64
  | .float64 _ => .float64Bits
  | .decimal128 _ => .decimal128
  | .timestampMicros _ => .timestampMicros
  | .timestampNanos _ => .timestampNanos
  | .dateDays _ => .dateDays

def key : NumericStatValue → Int
  | .int64 value | .uint64 value => value
  | .float64 bits => f64Key bits
  | .decimal128 value | .timestampMicros value | .timestampNanos value | .dateDays value => value

end NumericStatValue

def Comparable (left right : NumericStatValue) : Prop :=
  left.kind = right.kind ∧ left.isNan = false ∧ right.isNan = false

instance (left right : NumericStatValue) : Decidable (Comparable left right) :=
  inferInstanceAs (Decidable (_ ∧ _ ∧ _))

theorem compare_natCast (a b : Nat) : compare (a : Int) (b : Int) = compare a b := by
  rcases lt_trichotomy a b with h | h | h
  · rw [compare_lt_iff_lt.mpr h, compare_lt_iff_lt.mpr (Int.ofNat_lt.mpr h)]
  · rw [h, compare_eq_iff_eq.mpr rfl, compare_eq_iff_eq.mpr rfl]
  · rw [compare_gt_iff_gt.mpr h, compare_gt_iff_gt.mpr (Int.ofNat_lt.mpr h)]

theorem f64PartialCmp_eq (left right : UInt64) : f64PartialCmp left right =
      if f64IsNan left = false ∧ f64IsNan right = false then
        some (compare (f64Key left) (f64Key right)) else none := by
  cases hl : f64IsNan left <;> cases hr : f64IsNan right <;> simp [f64PartialCmp, hl, hr]

theorem compareNumeric_eq (left right : NumericStatValue) : compareNumeric left right =
      if Comparable left right then some (compare left.key right.key) else none := by
  cases left <;> cases right <;>
    simp [compareNumeric, Comparable, NumericStatValue.kind, NumericStatValue.isNan,
      NumericStatValue.key, f64PartialCmp_eq, compare_natCast]

theorem Comparable.symm {left right : NumericStatValue} (h : Comparable left right) :
    Comparable right left :=
  ⟨h.1.symm, h.2.2, h.2.1⟩

theorem Comparable.trans {a b c : NumericStatValue} (h : Comparable a b) (g : Comparable b c) :
    Comparable a c :=
  ⟨h.1.trans g.1, h.2.1, g.2.2⟩

end CoveFormat.ZoneStatistics
