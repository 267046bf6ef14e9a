import CoveFormat.AggregateValues

namespace CoveFormat.CoviKeys

open ByteCodes CanonicalValidator Except ExceptRules JsonValue MetadataAggregates Wire
open Canonical (ValueTag TextPredicates)
open Floats (f64OfF32)

/-- `map_err(|_| CoveError::BadCovi)`. -/
def orBadCovi {α : Type} (r : Except CoveError α) : Except CoveError α := r.mapError fun _ => .badCovi

theorem orBadCovi_ok_iff {α : Type} {r : Except CoveError α} {a : α} : orBadCovi r = .ok a ↔ r = .ok a :=
  mapError_eq_ok_iff

section

def splitCanonicalKey (key : Bytes) : Except CoveError (ValueTag × Bytes) := do
  let (tag, tagLen) ← orBadCovi (decodeU64Leb128 key)
  rejectIf (2 ^ 16 ≤ tag) .badCovi
  match ValueTag.fromU16 tag with
  | none => .error .badCovi
  | some tag => .ok (tag, key.drop tagLen)

inductive CanonicalComparable
  | null
  | bool (value : Bool)
  | signed (value : Int)
  | unsigned (value : Nat)
  | float (bits : Nat)
  | bytes (value : Bytes)
  deriving DecidableEq

def fixedPayload (width : Nat) (payload : Bytes) : Except CoveError Nat :=
  if payload.length = width then .ok (leNat payload) else .error .badCovi

def comparableFloat (bits : Nat) : Except CoveError CanonicalComparable := do
  rejectIf (f64IsNan bits) .badCovi
  .ok (.float bits)

def comparableOf (tag : ValueTag) (payload : Bytes) : Except CoveError CanonicalComparable :=
  match tag with
  | .null => .ok .null
  | .boolFalse => .ok (.bool false)
  | .boolTrue => .ok (.bool true)
  | .int64 | .decimal64 | .timestampMicros | .timestampNanos =>
    (fixedPayload 8 payload).map fun n => .signed (signed 64 n)
  | .uint64 => (fixedPayload 8 payload).map .unsigned
  | .float32Bits => do
      let n ← fixedPayload 4 payload
      comparableFloat (f64OfF32 n)
  | .float64Bits => do
      let n ← fixedPayload 8 payload
      comparableFloat n
  | .decimal128 => (fixedPayload 16 payload).map fun n => .signed (signed 128 n)
  | .dateDays => (fixedPayload 4 payload).map fun n => .signed (signed 32 n)
  | .utf8 | .binary | .uuid | .json => .ok (.bytes payload)
  | .list | .struct | .map => .error .badCovi

def compareFloatRangeKey (left right : Nat) : Except CoveError Ordering :=
  match f64Compare left right with
  | none => .error .badCovi
  | some ordering => .ok ordering

def compareComparables : CanonicalComparable → CanonicalComparable → Except CoveError Ordering
  | .null, .null => .ok .eq
  | .bool left, .bool right | .signed left, .signed right | .unsigned left, .unsigned right =>
    .ok (orderingOf left right)
  | .float left, .float right => compareFloatRangeKey left right
  | .bytes left, .bytes right => .ok (orderingOf left right)
  | _, _ => .error .badCovi

variable (P : TextPredicates)

def validateCanonicalKey (key : Bytes) : Except CoveError Unit := do
  let (tag, payload) ← splitCanonicalKey key
  orBadCovi (validateCanonicalPayload P tag payload)

def parseCanonicalComparable (key : Bytes) : Except CoveError (ValueTag × CanonicalComparable) := do
  let (tag, payload) ← splitCanonicalKey key
  orBadCovi (validateCanonicalPayload P tag payload)
  let value ← comparableOf tag payload
  .ok (tag, value)

def compareCanonicalOrderingKey (left right : Bytes) : Except CoveError Ordering := do
  let (leftTag, leftValue) ← parseCanonicalComparable P left
  let (rightTag, rightValue) ← parseCanonicalComparable P right
  if leftTag ≠ rightTag then .ok (orderingOf leftTag.code rightTag.code)
  else compareComparables leftValue rightValue

/-- The place of a value among those of its type: numbers by what they are worth, byte strings by
their canonical payload, in which the length stands before the content. -/
def rankOf : CanonicalComparable → Int ×ₗ Bytes
  | .null => toLex (0, [])
  | .bool value => toLex (value.toNat, [])
  | .signed value | .unsigned value => toLex (value, [])
  | .float bits => toLex (f64Key bits, [])
  | .bytes value => toLex (0, value)

def placeOf (value : ValueTag × CanonicalComparable) : Nat ×ₗ (Int ×ₗ Bytes) :=
  toLex (value.1.code, rankOf value.2)

variable {tag : ValueTag} {l r : Bytes} {v w : CanonicalComparable}

theorem ordering_number (i j : Int) :
    orderingOf (toLex (i, ([] : Bytes))) (toLex (j, [])) = orderingOf i j :=
  StrictMono.cmp_map_eq (f := fun i : Int => toLex (i, ([] : Bytes)))
    (fun _ _ h => Prod.Lex.toLex_lt_toLex.mpr (.inl h)) i j

theorem ordering_content (a b : Bytes) :
    orderingOf (toLex ((0 : Int), a)) (toLex (0, b)) = orderingOf a b :=
  StrictMono.cmp_map_eq (f := fun a : Bytes => toLex ((0 : Int), a))
    (fun _ _ h => Prod.Lex.toLex_lt_toLex.mpr (.inr ⟨rfl, h⟩)) a b

theorem comparableFloat_ok {bits : Nat} (h : comparableFloat bits = .ok v) :
    v = .float bits ∧ f64IsNan bits = false := by
  obtain ⟨hnan, h⟩ := of_reject h
  exact ⟨(ok.inj h).symm, Bool.eq_false_iff.mpr hnan⟩

theorem compareFloatRangeKey_of_numbers {a b : Nat} (ha : f64IsNan a = false)
    (hb : f64IsNan b = false) : compareFloatRangeKey a b = .ok (orderingOf (f64Key a) (f64Key b)) := by
  rw [compareFloatRangeKey, f64Compare, ha, hb, orderingOf, cmp_eq_compare]
  rfl

theorem compareComparables_ok (hv : comparableOf tag l = .ok v) (hw : comparableOf tag r = .ok w) :
    compareComparables v w = .ok (orderingOf (rankOf v) (rankOf w)) := by
  have hsigned (width bits : Nat) (hv : (fixedPayload width l).map
      (fun n => CanonicalComparable.signed (signed bits n)) = .ok v)
      (hw : (fixedPayload width r).map (fun n => CanonicalComparable.signed (signed bits n)) = .ok w) :
      compareComparables v w = .ok (orderingOf (rankOf v) (rankOf w)) := by
    obtain ⟨m, -, rfl⟩ := map_eq_ok_iff.mp hv
    obtain ⟨n, -, rfl⟩ := map_eq_ok_iff.mp hw
    rw [rankOf, rankOf, ordering_number]
    rfl
  have hfloat (a b : Nat) (hv : comparableFloat a = .ok v) (hw : comparableFloat b = .ok w) :
      compareComparables v w = .ok (orderingOf (rankOf v) (rankOf w)) := by
    obtain ⟨rfl, ha⟩ := comparableFloat_ok hv
    obtain ⟨rfl, hb⟩ := comparableFloat_ok hw
    rw [compareComparables, compareFloatRangeKey_of_numbers ha hb, rankOf, rankOf, ordering_number]
  have hbytes (hv : ok (.bytes l) = (.ok v : Except CoveError _))
      (hw : ok (.bytes r) = (.ok w : Except CoveError _)) :
      compareComparables v w = .ok (orderingOf (rankOf v) (rankOf w)) := by
    cases hv
    cases hw
    rw [rankOf, rankOf, ordering_content]
    rfl
  cases tag with
  | null | boolFalse | boolTrue =>
    cases hv
    cases hw
    rfl
  | int64 | decimal64 | timestampMicros | timestampNanos => exact hsigned 8 64 hv hw
  | decimal128 => exact hsigned 16 128 hv hw
  | dateDays => exact hsigned 4 32 hv hw
  | uint64 =>
    obtain ⟨m, -, rfl⟩ := map_eq_ok_iff.mp hv
    obtain ⟨n, -, rfl⟩ := map_eq_ok_iff.mp hw
    rw [rankOf, rankOf, ordering_number]
    exact congrArg ok (Nat.strictMono_cast.cmp_map_eq m n).symm
  | float32Bits | float64Bits =>
    obtain ⟨m, -, hv⟩ := of_andThen hv
    obtain ⟨n, -, hw⟩ := of_andThen hw
    exact hfloat _ _ hv hw
  | utf8 | binary | uuid | json => exact hbytes hv hw
  | list | struct | map => cases hv

theorem code_injective {a b : ValueTag} (h : a.code = b.code) : a = b :=
  Option.some.inj ((Canonical.fromU16_code a).symm.trans (h ▸ Canonical.fromU16_code b))

variable {P : TextPredicates} {left right : Bytes} {x y : ValueTag × CanonicalComparable}

theorem parseCanonicalComparable_ok_iff : parseCanonicalComparable P left = .ok x ↔
    ∃ payload, splitCanonicalKey left = .ok (x.1, payload) ∧
      validateCanonicalPayload P x.1 payload = .ok () ∧ comparableOf x.1 payload = .ok x.2 := by
  obtain ⟨tag, value⟩ := x
  rw [parseCanonicalComparable]
  simp only [andThen_eq_ok_iff, Prod.exists, orBadCovi_ok_iff, ok.injEq, Prod.mk.injEq]
  constructor
  · rintro ⟨a, payload, hsplit, _, hvalid, b, hvalue, rfl, rfl⟩
    exact ⟨payload, hsplit, hvalid, hvalue⟩
  · rintro ⟨payload, hsplit, hvalid, hvalue⟩
    exact ⟨_, payload, hsplit, (), hvalid, _, hvalue, rfl, rfl⟩

theorem compareCanonicalOrderingKey_ok (hx : parseCanonicalComparable P left = .ok x)
    (hy : parseCanonicalComparable P right = .ok y) :
    compareCanonicalOrderingKey P left right = .ok (orderingOf (placeOf x) (placeOf y)) := by
  have hrun : compareCanonicalOrderingKey P left right =
      if x.1 ≠ y.1 then .ok (orderingOf x.1.code y.1.code) else compareComparables x.2 y.2 := by
    rw [compareCanonicalOrderingKey, hx, hy]
    rfl
  obtain ⟨tx, vx⟩ := x
  obtain ⟨ty, vy⟩ := y
  rw [hrun, placeOf, placeOf]
  by_cases htag : tx = ty
  · subst htag
    obtain ⟨payload, -, -, hv⟩ := parseCanonicalComparable_ok_iff.mp hx
    obtain ⟨payload', -, -, hw⟩ := parseCanonicalComparable_ok_iff.mp hy
    rw [if_neg (not_not.mpr rfl), compareComparables_ok hv hw]
    exact congrArg ok (StrictMono.cmp_map_eq (f := fun r : Int ×ₗ Bytes => toLex (tx.code, r))
      (fun _ _ h => Prod.Lex.toLex_lt_toLex.mpr (.inr ⟨rfl, h⟩)) _ _).symm
  · rw [if_pos htag, orderingOf]
    have hcode : tx.code ≠ ty.code := fun h => htag (code_injective h)
    rcases lt_or_gt_of_ne hcode with hlt | hgt
    · rw [(cmp_eq_lt_iff _ _).mpr hlt, orderingOf,
        (cmp_eq_lt_iff _ _).mpr (Prod.Lex.toLex_lt_toLex.mpr (.inl hlt))]
    · rw [(cmp_eq_gt_iff _ _).mpr hgt, orderingOf,
        (cmp_eq_gt_iff _ _).mpr (Prod.Lex.toLex_lt_toLex.mpr (.inl hgt))]

theorem validateCanonicalKey_of_parses (h : parseCanonicalComparable P left = .ok x) :
    validateCanonicalKey P left = .ok () := by
  obtain ⟨payload, hsplit, hvalid, -⟩ := parseCanonicalComparable_ok_iff.mp h
  exact andThen_ok hsplit (orBadCovi_ok_iff.mpr hvalid)

end

end CoveFormat.CoviKeys
