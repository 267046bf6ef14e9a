import CoveFormat.BoundedIntervals
import CoveFormat.CanonicalAcceptance
import CoveFormat.CoviKeys

namespace CoveFormat.IntervalKeys

open BoundedIntervals ByteCodes CheckedArith CoviKeys Except ExceptRules FixedFields List
  MetadataAggregates Option
open Canonical (ValueTag TextPredicates)
open CanonicalAcceptance renaming ByteSlice → KeyBytes
open CanonicalIdentity (asciiText)

abbrev Place := Nat ×ₗ (Int ×ₗ Bytes)

abbrev ParsedIntervalKey := BoundedInterval Bytes

section

variable (P : TextPredicates)

/-- The length that stands for a missing bound, `u32::MAX`. -/
def unbounded : Nat := 2 ^ 32 - 1

def readIntervalLen (bytes : Bytes) (offset : Nat) : Except CoveError (Nat × Nat) := do
  let finish ← checkedAdd offset 4
  rejectIf (bytes.length < finish) .bufferTooShort
  .ok (readUint 4 bytes offset, finish)

def readIntervalBound (bytes : Bytes) (offset len : Nat) : Except CoveError (Bytes × Nat) := do
  let finish ← checkedAdd offset len
  rejectIf (bytes.length < finish) .bufferTooShort
  let bound := (bytes.take finish).drop offset
  validateCanonicalKey P bound
  .ok (bound, finish)

def readBound (bytes : Bytes) (offset : Nat) : Except CoveError (Option Bytes × Nat) := do
  let (len, offset) ← readIntervalLen bytes offset
  if len = unbounded then .ok (none, offset)
  else (readIntervalBound P bytes offset len).map fun (bound, finish) => (some bound, finish)

def checkBounds (lower upper : Option Bytes) (flags : UInt8) : Except CoveError Unit :=
  match lower, upper with
  | some lower, some upper => do
      let ordering ← compareCanonicalOrderingKey P lower upper
      rejectIf (ordering = .gt ∨ ordering = .eq ∧ flags &&& 3 ≠ 3) .badCovi
  | _, _ => .ok ()

/-- What `parse_interval_key` does after the bounds. -/
def parseFlags (bytes : Bytes) (lower upper : Option Bytes) (offset : Nat) :
    Except CoveError ParsedIntervalKey :=
  match bytes[offset]? with
  | none => .error .bufferTooShort
  | some flags => do
      let offset ← checkedAdd offset 1
      rejectIf (offset ≠ bytes.length ∨ flags &&& ~~~3 ≠ 0) .badCovi
      checkBounds P lower upper flags
      .ok ⟨lower, upper, flags &&& 1 ≠ 0, flags &&& 2 ≠ 0⟩

def parseIntervalKey (bytes : Bytes) : Except CoveError ParsedIntervalKey := do
  let (lower, offset) ← readBound P bytes 0
  let (upper, offset) ← readBound P bytes offset
  parseFlags P bytes lower upper offset

def boundsMeet (upper lower : Option Bytes) (inclusive : Bool) : Except CoveError Bool :=
  match upper, lower with
  | some upper, some lower => do
      let ordering ← compareCanonicalOrderingKey P upper lower
      .ok (ordering = .gt ∨ ordering = .eq ∧ inclusive)
  | _, _ => .ok true

def intervalsOverlap (left right : ParsedIntervalKey) : Except CoveError Bool := do
  if ← boundsMeet P left.upper right.lower (left.upperInclusive && right.lowerInclusive) then
    boundsMeet P right.upper left.lower (right.upperInclusive && left.lowerInclusive)
  else .ok false

/-- The bound is a value with a place in the canonical order. -/
def Places (bound : Bytes) (place : Place) : Prop :=
  ∃ value, parseCanonicalComparable P bound = .ok value ∧ placeOf value = place

/-- The interval of places that the bounds of a key denote. -/
structure Denotes (key : ParsedIntervalKey) (interval : BoundedInterval Place) : Prop where
  lower : Option.Rel (Places P) key.lower interval.lower
  upper : Option.Rel (Places P) key.upper interval.upper
  lowerInclusive : interval.lowerInclusive = key.lowerInclusive
  upperInclusive : interval.upperInclusive = key.upperInclusive

def encodeBound : Option Bytes → Bytes
  | none => leBytes 4 unbounded
  | some bound => leBytes 4 bound.length ++ bound

def flagsOf (key : ParsedIntervalKey) : UInt8 :=
  UInt8.ofNat (key.lowerInclusive.toNat + 2 * key.upperInclusive.toNat)

def encodeKey (key : ParsedIntervalKey) : Bytes :=
  encodeBound key.lower ++ encodeBound key.upper ++ [flagsOf key]

/-- The bytes of an interval of orderable values. -/
def Encodes (bytes : Bytes) (key : ParsedIntervalKey) (interval : BoundedInterval Place) : Prop :=
  bytes = encodeKey key ∧ (∀ bound ∈ key.lower, bound.length < unbounded) ∧
    (∀ bound ∈ key.upper, bound.length < unbounded) ∧ Denotes P key interval

variable {P : TextPredicates} {left right : ParsedIntervalKey} {i j : BoundedInterval Place}

theorem boundsMeet_ok (hi : Denotes P left i) (hj : Denotes P right j) :
    ∃ meets, boundsMeet P left.upper right.lower (left.upperInclusive && right.lowerInclusive) =
      .ok meets ∧ (meets = true ↔ i.Reaches j) := by
  obtain ⟨-, hupper, -, hleft⟩ := hi
  obtain ⟨hlower, -, hright, -⟩ := hj
  rw [BoundedInterval.Reaches, hleft, hright]
  revert hupper hlower
  generalize left.upper = u, i.upper = x, right.lower = l, j.lower = y
  intro hupper hlower
  cases hupper with
  | none => exact ⟨true, rfl, by simp⟩
  | some hu =>
    cases hlower with
    | none => exact ⟨true, rfl, by simp⟩
    | some hl =>
      obtain ⟨value, hvalue, rfl⟩ := hu
      obtain ⟨other, hother, rfl⟩ := hl
      refine ⟨_, andThen_ok (compareCanonicalOrderingKey_ok hvalue hother) rfl, ?_⟩
      rw [decide_eq_true_iff, orderingOf, cmp_eq_gt_iff, cmp_eq_eq_iff, Bool.and_eq_true,
        eq_comm (a := placeOf value)]
      simp only [mem_some_iff, forall_eq']

theorem intervalsOverlap_ok (hi : Denotes P left i) (hj : Denotes P right j) :
    ∃ overlap, intervalsOverlap P left right = .ok overlap ∧
      (overlap = true ↔ i.Reaches j ∧ j.Reaches i) := by
  obtain ⟨first, hfirst, hreaches⟩ := boundsMeet_ok hi hj
  obtain ⟨second, hsecond, hback⟩ := boundsMeet_ok hj hi
  rw [intervalsOverlap, hfirst]
  cases first with
  | false => exact ⟨false, rfl, by simp [← hreaches]⟩
  | true => exact ⟨second, hsecond, by rw [← hreaches, hback, and_iff_right rfl]⟩

variable {done rest bound : Bytes} {b : Option Bytes} {len finish : Nat}

theorem readIntervalLen_ok_iff (hfits : (done ++ rest).length < 2 ^ 64) :
    readIntervalLen (done ++ rest) done.length = .ok (len, finish) ↔
      finish = done.length + 4 ∧ len < 2 ^ 32 ∧ ∃ tail, rest = leBytes 4 len ++ tail := by
  rw [length_append] at hfits
  rw [readIntervalLen]
  simp only [andThen_eq_ok_iff, checkedAdd_ok_iff, rejectIf_eq_ok_iff, ok.injEq, Prod.mk.injEq,
    length_append, exists_const]
  have hread : readUint 4 (done ++ rest) done.length = leNat (rest.take 4) :=
    readUint_append_right 4 done rest 0
  rw [hread]
  constructor
  · rintro ⟨_, ⟨-, rfl⟩, hlen, rfl, rfl⟩
    have htake : (rest.take 4).length = 4 := by
      rw [length_take]
      omega
    refine ⟨rfl, (leNat_lt _).trans_eq (by rw [htake]; norm_num), rest.drop 4, ?_⟩
    have hback := leBytes_leNat (rest.take 4)
    rw [htake] at hback
    rw [hback, take_append_drop]
  · rintro ⟨rfl, hlen, tail, rfl⟩
    rw [length_append, leBytes_length] at hfits ⊢
    refine ⟨_, ⟨by omega, rfl⟩, by omega, ?_, rfl⟩
    rw [take_left' (leBytes_length 4 len), leNat_leBytes]
    exact Nat.mod_eq_of_lt hlen

theorem readIntervalBound_ok_iff (hfits : (done ++ rest).length < 2 ^ 64) :
    readIntervalBound P (done ++ rest) done.length len = .ok (bound, finish) ↔
      finish = done.length + len ∧ bound.length = len ∧ validateCanonicalKey P bound = .ok () ∧
        ∃ tail, rest = bound ++ tail := by
  rw [length_append] at hfits
  have hslice (len : Nat) : ((done ++ rest).take (done.length + len)).drop done.length = rest.take len := by
    rw [take_length_add_append, drop_left]
  rw [readIntervalBound]
  simp only [andThen_eq_ok_iff, checkedAdd_ok_iff, rejectIf_eq_ok_iff, ok.injEq, Prod.mk.injEq,
    length_append, exists_const]
  constructor
  · rintro ⟨_, ⟨-, rfl⟩, hlen, _, hvalid, rfl, rfl⟩
    rw [hslice] at hvalid ⊢
    refine ⟨rfl, ?_, hvalid, rest.drop len, (take_append_drop len rest).symm⟩
    rw [length_take]
    omega
  · rintro ⟨rfl, rfl, hvalid, tail, rfl⟩
    rw [length_append] at hfits
    refine ⟨_, ⟨by omega, rfl⟩, by simp, ⟨⟩, ?_⟩
    rw [hslice, take_left]
    exact ⟨hvalid, rfl, rfl⟩

/-- What the reader accepts for a bound. -/
def BoundOk (P : TextPredicates) (b : Option Bytes) : Prop :=
  ∀ bound ∈ b, bound.length < unbounded ∧ validateCanonicalKey P bound = .ok ()

variable (done) in
theorem readBound_ok_iff (hfits : (done ++ rest).length < 2 ^ 64) :
    readBound P (done ++ rest) done.length = .ok (b, finish) ↔
      finish = (done ++ encodeBound b).length ∧ BoundOk P b ∧ ∃ tail, rest = encodeBound b ++ tail := by
  rw [readBound, andThen_eq_ok_iff]
  simp only [Prod.exists, readIntervalLen_ok_iff hfits]
  constructor
  · rintro ⟨len, _, ⟨rfl, hlen, tail, rfl⟩, h⟩
    by_cases hmissing : len = unbounded
    · rw [if_pos hmissing] at h
      obtain ⟨rfl, rfl⟩ := Prod.mk.inj (ok.inj h)
      subst hmissing
      refine ⟨by simp [encodeBound], fun bound hb => absurd hb (not_mem_none bound), tail, rfl⟩
    · rw [if_neg hmissing, map_eq_ok_iff] at h
      obtain ⟨⟨bound, finish'⟩, hbound, heq⟩ := h
      obtain ⟨rfl, rfl⟩ := Prod.mk.inj heq
      rw [← append_assoc] at hfits hbound
      have hoffset : done.length + 4 = (done ++ leBytes 4 len).length := by simp
      rw [hoffset] at hbound
      obtain ⟨rfl, rfl, hvalid, tail, rfl⟩ := (readIntervalBound_ok_iff hfits).mp hbound
      refine ⟨by simp [encodeBound]; omega, ?_, tail, by rw [encodeBound, append_assoc]⟩
      intro x hx
      cases hx
      have hsmall : bound.length < unbounded := by
        rw [unbounded] at hmissing ⊢
        omega
      exact ⟨hsmall, hvalid⟩
  · rintro ⟨rfl, hok, tail, rfl⟩
    cases b with
    | none =>
      refine ⟨unbounded, _, ⟨rfl, by decide, tail, rfl⟩, ?_⟩
      simp [encodeBound]
    | some bound =>
      obtain ⟨hlen, hvalid⟩ := hok bound rfl
      rw [unbounded] at hlen
      have hpresent : bound.length ≠ unbounded := by
        rw [unbounded]
        omega
      refine ⟨bound.length, _, ⟨rfl, by omega, bound ++ tail, append_assoc ..⟩, ?_⟩
      rw [if_neg hpresent, map_eq_ok_iff]
      have hoffset : done.length + 4 = (done ++ leBytes 4 bound.length).length := by simp
      have hbytes : done ++ (encodeBound (some bound) ++ tail) =
          (done ++ leBytes 4 bound.length) ++ (bound ++ tail) := by simp [encodeBound]
      rw [hbytes] at hfits ⊢
      rw [hoffset]
      refine ⟨(bound, _), (readIntervalBound_ok_iff hfits).mpr ⟨rfl, rfl, hvalid, tail, rfl⟩, ?_⟩
      simp [encodeBound, Nat.add_assoc]

variable {key : ParsedIntervalKey} {bytes : Bytes}

theorem flags_lt : ∀ n < 256, UInt8.ofNat n &&& ~~~3 = 0 → n < 4 := by decide +kernel

variable {flags : UInt8}

theorem flags_cases (h : flags &&& ~~~3 = 0) : flags = 0 ∨ flags = 1 ∨ flags = 2 ∨ flags = 3 := by
  have hlt := flags_lt flags.toNat flags.toNat_lt (by rwa [UInt8.ofNat_toNat])
  rw [← UInt8.toNat_inj, ← UInt8.toNat_inj, ← UInt8.toNat_inj, ← UInt8.toNat_inj]
  have hzero : (0 : UInt8).toNat = 0 := rfl
  have hone : (1 : UInt8).toNat = 1 := rfl
  have htwo : (2 : UInt8).toNat = 2 := rfl
  have hthree : (3 : UInt8).toNat = 3 := rfl
  omega

variable {lower upper : Option Bytes}

theorem flagsOf_flags (h : flags &&& ~~~3 = 0) :
    flagsOf ⟨lower, upper, flags &&& 1 ≠ 0, flags &&& 2 ≠ 0⟩ = flags := by
  rcases flags_cases h with rfl | rfl | rfl | rfl <;> rfl

theorem flags_flagsOf (key : ParsedIntervalKey) : flagsOf key &&& ~~~3 = 0 ∧
    ⟨key.lower, key.upper, flagsOf key &&& 1 ≠ 0, flagsOf key &&& 2 ≠ 0⟩ = key := by
  have hbits : ∀ low high : Bool, UInt8.ofNat (low.toNat + 2 * high.toNat) &&& ~~~3 = 0 ∧
      decide (UInt8.ofNat (low.toNat + 2 * high.toNat) &&& 1 ≠ 0) = low ∧
      decide (UInt8.ofNat (low.toNat + 2 * high.toNat) &&& 2 ≠ 0) = high := by decide
  obtain ⟨hflags, hlow, hhigh⟩ := hbits key.lowerInclusive key.upperInclusive
  exact ⟨hflags, by rw [flagsOf, hlow, hhigh]⟩

variable (done) in
theorem parseFlags_ok_iff (hfits : (done ++ rest).length < 2 ^ 64) :
    parseFlags P (done ++ rest) lower upper done.length = .ok key ↔
      rest = [flagsOf key] ∧ key.lower = lower ∧ key.upper = upper ∧
        checkBounds P lower upper (flagsOf key) = .ok () := by
  have hread : (done ++ rest)[done.length]? = rest[0]? := by
    rw [List.getElem?_append_right le_rfl, Nat.sub_self]
  rw [length_append] at hfits
  rw [parseFlags, hread]
  cases rest with
  | nil =>
    constructor
    · intro h
      cases h
    · rintro ⟨h, -⟩
      cases h
  | cons flags tail =>
    simp only [List.getElem?_cons_zero, andThen_eq_ok_iff, checkedAdd_ok_iff, rejectIf_eq_ok_iff,
      exists_const, ok.injEq, not_or, not_not, length_append, length_cons]
    constructor
    · rintro ⟨_, ⟨-, rfl⟩, ⟨hend, hflags⟩, ⟨⟩, hcheck, rfl⟩
      have htail : tail = [] := eq_nil_of_length_eq_zero (by omega)
      rw [flagsOf_flags hflags, htail]
      exact ⟨rfl, rfl, rfl, hcheck⟩
    · rintro ⟨hbytes, rfl, rfl, hcheck⟩
      obtain ⟨rfl, rfl⟩ := List.cons.inj hbytes
      obtain ⟨hflags, hkey⟩ := flags_flagsOf key
      exact ⟨_, ⟨by omega, rfl⟩, ⟨rfl, hflags⟩, ⟨⟩, hcheck, hkey⟩

theorem parseIntervalKey_ok_iff (hfits : bytes.length < 2 ^ 64) : parseIntervalKey P bytes = .ok key ↔
    bytes = encodeKey key ∧ BoundOk P key.lower ∧ BoundOk P key.upper ∧
      checkBounds P key.lower key.upper (flagsOf key) = .ok () := by
  rw [parseIntervalKey, andThen_eq_ok_iff]
  constructor
  · rintro ⟨⟨lower, _⟩, hlower, h⟩
    obtain ⟨rfl, hlowerOk, rest, rfl⟩ := (readBound_ok_iff [] hfits).mp hlower
    obtain ⟨⟨upper, _⟩, hupper, h⟩ := of_andThen h
    obtain ⟨rfl, hupperOk, tail, rfl⟩ := (readBound_ok_iff _ hfits).mp hupper
    have hjoin : encodeBound lower ++ (encodeBound upper ++ tail) =
        encodeBound lower ++ encodeBound upper ++ tail := (append_assoc ..).symm
    rw [hjoin] at hfits
    obtain ⟨rfl, rfl, rfl, hcheck⟩ := (parseFlags_ok_iff _ hfits).mp (hjoin ▸ h)
    exact ⟨hjoin, hlowerOk, hupperOk, hcheck⟩
  · rintro ⟨rfl, hlowerOk, hupperOk, hcheck⟩
    have hsplit : encodeKey key =
        [] ++ (encodeBound key.lower ++ (encodeBound key.upper ++ [flagsOf key])) := by
      rw [encodeKey, nil_append, append_assoc]
    have hlower := (readBound_ok_iff _ (hsplit ▸ hfits)).mpr ⟨rfl, hlowerOk, _, rfl⟩
    rw [← hsplit] at hlower
    have hupper := (readBound_ok_iff (encodeBound key.lower) (hsplit ▸ hfits)).mpr
      ⟨rfl, hupperOk, _, rfl⟩
    have hflags := (parseFlags_ok_iff (encodeBound key.lower ++ encodeBound key.upper) hfits).mpr
      ⟨rfl, rfl, rfl, hcheck⟩
    rw [nil_append] at hsplit
    rw [← hsplit] at hupper
    exact ⟨_, hlower, andThen_ok hupper hflags⟩

variable {interval : BoundedInterval Place}

theorem Places.valid {bound : Bytes} {place : Place} (h : Places P bound place) :
    validateCanonicalKey P bound = .ok () := by
  obtain ⟨value, hvalue, -⟩ := h
  exact validateCanonicalKey_of_parses hvalue

variable {b : Option Bytes}

theorem boundOk_of_places {place : Option Place} (h : Option.Rel (Places P) b place)
    (hlen : ∀ bound ∈ b, bound.length < unbounded) : BoundOk P b := by
  intro bound hbound
  refine ⟨hlen bound hbound, ?_⟩
  cases h with
  | none => cases hbound
  | some h =>
    cases hbound
    exact h.valid

theorem inclusive_flags : ∀ low high : Bool,
    UInt8.ofNat (low.toNat + 2 * high.toNat) &&& 3 = 3 ↔ high = true ∧ low = true := by decide

theorem checkBounds_ok_iff (h : Denotes P key interval) :
    checkBounds P key.lower key.upper (flagsOf key) = .ok () ↔ interval.Reaches interval := by
  obtain ⟨hlower, hupper, hlow, hhigh⟩ := h
  rw [BoundedInterval.Reaches, hlow, hhigh, flagsOf]
  revert hlower hupper
  generalize key.lower = l, interval.lower = x, key.upper = u, interval.upper = y
  intro hlower hupper
  cases hlower with
  | none =>
    refine iff_of_true ?_ (by simp)
    cases hupper <;> rfl
  | some hl =>
    cases hupper with
    | none => exact iff_of_true rfl (by simp)
    | some hu =>
      obtain ⟨value, hvalue, rfl⟩ := hl
      obtain ⟨other, hother, rfl⟩ := hu
      rw [checkBounds, compareCanonicalOrderingKey_ok hvalue hother]
      simp only [mem_some_iff, forall_eq']
      refine rejectIf_eq_ok_iff.trans ?_
      rw [orderingOf, cmp_eq_gt_iff, cmp_eq_eq_iff, not_or, not_and_not_right, inclusive_flags,
        not_lt, le_iff_lt_or_eq]
      constructor
      · rintro ⟨hlt | heq, hboth⟩
        · exact .inl hlt
        · exact .inr ⟨heq, hboth heq⟩
      · rintro (hlt | ⟨heq, hboth⟩)
        · exact ⟨.inl hlt, fun heq => absurd heq hlt.ne⟩
        · exact ⟨.inr heq, fun _ => hboth⟩

theorem encodeBound_cancel {a : Option Bytes} {r s : Bytes}
    (ha : ∀ bound ∈ a, bound.length < unbounded) (hb : ∀ bound ∈ b, bound.length < unbounded)
    (h : encodeBound a ++ r = encodeBound b ++ s) : a = b ∧ r = s := by
  have hlarge : unbounded < 256 ^ 4 := by decide
  cases a with
  | none =>
    cases b with
    | none => exact ⟨rfl, append_cancel_left h⟩
    | some y =>
      have hy := hb y rfl
      exact absurd (leBytes_separates hlarge (hy.trans hlarge) h) hy.ne'
  | some x =>
    have hx := ha x rfl
    cases b with
    | none =>
      exact absurd (leBytes_separates (hx.trans hlarge) hlarge h) hx.ne
    | some y =>
      have hy := hb y rfl
      rw [encodeBound, encodeBound, append_assoc, append_assoc] at h
      have hlen := leBytes_separates (hx.trans hlarge) (hy.trans hlarge) h
      rw [hlen] at h
      obtain ⟨hbound, hrest⟩ := append_inj (append_cancel_left h) hlen
      exact ⟨congrArg some hbound, hrest⟩

theorem encodeKey_injective {other : ParsedIntervalKey}
    (hlower : ∀ bound ∈ key.lower, bound.length < unbounded)
    (hupper : ∀ bound ∈ key.upper, bound.length < unbounded)
    (hlower' : ∀ bound ∈ other.lower, bound.length < unbounded)
    (hupper' : ∀ bound ∈ other.upper, bound.length < unbounded)
    (h : encodeKey key = encodeKey other) : key = other := by
  rw [encodeKey, encodeKey, append_assoc, append_assoc] at h
  obtain ⟨hl, h⟩ := encodeBound_cancel hlower hlower' h
  obtain ⟨hu, h⟩ := encodeBound_cancel hupper hupper' h
  rw [← (flags_flagsOf key).2, ← (flags_flagsOf other).2, hl, hu, singleton_inj.mp h]

theorem parseIntervalKey_encoded (hfits : bytes.length < 2 ^ 64) (h : Encodes P bytes key interval) :
    (∃ accepted, parseIntervalKey P bytes = .ok accepted) ↔ interval.Reaches interval := by
  obtain ⟨rfl, hlower, hupper, hdenotes⟩ := h
  rw [← checkBounds_ok_iff hdenotes]
  constructor
  · rintro ⟨accepted, haccepted⟩
    obtain ⟨hbytes, hlower', hupper', hcheck⟩ := (parseIntervalKey_ok_iff hfits).mp haccepted
    obtain rfl := encodeKey_injective hlower hupper (fun b hb => (hlower' b hb).1)
      (fun b hb => (hupper' b hb).1) hbytes
    exact hcheck
  · intro hcheck
    exact ⟨key, (parseIntervalKey_ok_iff hfits).mpr ⟨rfl, boundOk_of_places hdenotes.lower hlower,
      boundOk_of_places hdenotes.upper hupper, hcheck⟩⟩

/-- Accepted keys of orderable values overlap, in either order, exactly when they have a point in
common; and bytes that encode an interval of such values are accepted exactly when it has a point. -/
theorem interval_lookups_exact (P : TextPredicates) :
    (∀ (left right : KeyBytes) (l r : ParsedIntervalKey) (i j : BoundedInterval Place),
      parseIntervalKey P left.val = .ok l → parseIntervalKey P right.val = .ok r →
      Denotes P l i → Denotes P r j →
        ∃ overlap, intervalsOverlap P l r = .ok overlap ∧ intervalsOverlap P r l = .ok overlap ∧
          (overlap = true ↔ ∃ p, i.dense.Contains p ∧ j.dense.Contains p)) ∧
      (∀ (bytes : KeyBytes) (key : ParsedIntervalKey) (i : BoundedInterval Place),
        Encodes P bytes.val key i →
          ((∃ accepted, parseIntervalKey P bytes.val = .ok accepted) ↔ ∃ p, i.dense.Contains p)) ∧
      ∀ (bytes : KeyBytes) (key : ParsedIntervalKey) (i : BoundedInterval Place),
        parseIntervalKey P bytes.val = .ok key → Denotes P key i → Encodes P bytes.val key i := by
  have hplace : Nonempty Place := ⟨toLex (0, toLex (0, []))⟩
  have hsmall (bytes : KeyBytes) : bytes.val.length < 2 ^ 64 := bytes.property.trans (by decide)
  refine ⟨fun left right l r i j hl hr hi hj => ?_, fun bytes key i h => ?_, fun bytes key i h hi => ?_⟩
  · obtain ⟨-, -, -, hlcheck⟩ := (parseIntervalKey_ok_iff (hsmall left)).mp hl
    obtain ⟨-, -, -, hrcheck⟩ := (parseIntervalKey_ok_iff (hsmall right)).mp hr
    have hcommon := BoundedInterval.dense_common_iff ((checkBounds_ok_iff hi).mp hlcheck)
      ((checkBounds_ok_iff hj).mp hrcheck)
    obtain ⟨overlap, hoverlap, hmeaning⟩ := intervalsOverlap_ok hi hj
    obtain ⟨back, hback, hbackMeaning⟩ := intervalsOverlap_ok hj hi
    have hsame : back = overlap := by rw [Bool.eq_iff_iff, hmeaning, hbackMeaning, and_comm]
    subst hsame
    exact ⟨back, hoverlap, hback, hmeaning.trans hcommon.symm⟩
  · rw [parseIntervalKey_encoded (hsmall bytes) h, BoundedInterval.dense_nonempty_iff]
  · obtain ⟨hbytes, hlower, hupper, -⟩ := (parseIntervalKey_ok_iff (hsmall bytes)).mp h
    exact ⟨hbytes, fun b hb => (hlower b hb).1, fun b hb => (hupper b hb).1, hi⟩

/-- From 1 up to 5 without it, and from 5 on. -/
theorem interval_lookups_exact_touching :
    let one : Bytes := [3, 1, 0, 0, 0, 0, 0, 0, 0]
    let five : Bytes := [3, 5, 0, 0, 0, 0, 0, 0, 0]
    let left : ParsedIntervalKey := ⟨some one, some five, true, false⟩
    let right : ParsedIntervalKey := ⟨some five, none, true, false⟩
    intervalsOverlap asciiText left right = .ok false ∧
      ∃ i j, Denotes asciiText left i ∧ Denotes asciiText right j ∧
        (∃ p, i.dense.Contains p) ∧ ¬ ∃ p, i.dense.Contains p ∧ j.dense.Contains p := by
  intro one five left right
  have hone : Places asciiText one (placeOf (.int64, .signed 1)) := ⟨_, by decide, rfl⟩
  have hfive : Places asciiText five (placeOf (.int64, .signed 5)) := ⟨_, by decide, rfl⟩
  have hi : Denotes asciiText left ⟨some _, some _, true, false⟩ := ⟨.some hone, .some hfive, rfl, rfl⟩
  have hj : Denotes asciiText right ⟨some _, none, true, false⟩ := ⟨.some hfive, .none, rfl, rfl⟩
  have hleft : parseIntervalKey asciiText (encodeKey left) = .ok left := by decide
  have hright : parseIntervalKey asciiText (encodeKey right) = .ok right := by decide
  obtain ⟨hoverlaps, haccepts, -⟩ := interval_lookups_exact asciiText
  obtain ⟨overlap, hoverlap, -, hmeaning⟩ :=
    hoverlaps ⟨encodeKey left, by decide⟩ ⟨encodeKey right, by decide⟩ left right _ _ hleft hright hi hj
  have hfalse : intervalsOverlap asciiText left right = .ok false := by decide
  obtain rfl := ok.inj (hfalse.symm.trans hoverlap)
  have hencodes : Encodes asciiText (encodeKey left) left _ := ⟨rfl, by decide, by decide, hi⟩
  have hpoint := (haccepts ⟨encodeKey left, by decide⟩ left _ hencodes).mp ⟨left, hleft⟩
  exact ⟨hfalse, _, _, hi, hj, hpoint, fun hcommon => Bool.false_ne_true (hmeaning.mpr hcommon)⟩

end

end CoveFormat.IntervalKeys
