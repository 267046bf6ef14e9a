import CoveFormat.ValidityBitmaps
import CoveFormat.Wire

namespace CoveFormat.RowOrdinalSets

open BitPacked ByteCodes CheckedArith ExceptRules FixedFields List ValidityBitmaps Wire

inductive CoviBitmapKindV2
  | denseBitsetLsb0
  | sortedU32
  | sortedU64
  | deltaVarintU32
  | registeredRoaring32
  | registeredRoaring64
  | rangeList
  | extension

/-- The fields of the header that the validation of a payload reads. -/
structure CoviRowOrdinalSetHeaderV2 where
  bitmapKind : CoviBitmapKindV2
  (universeRowCount setRowCount : UInt64)

section

/-- `u8::count_ones`. -/
def countOnesU8 (b : UInt8) : Nat := onesBelow b.toNat 8

def paddingMask (usedBits : Nat) : UInt8 := ~~~((1 <<< UInt8.ofNat usedBits) - 1)

def validateDense (h : CoviRowOrdinalSetHeaderV2) (payload : Bytes) : Except CoveError Unit := do
  let universeRows := h.universeRowCount.toNat
  rejectIf (payload.length ≠ (universeRows + 7) / 8) .badCovi
  rejectIf (universeRows % 8 ≠ 0 ∧
    ∃ last ∈ payload.getLast?, last &&& paddingMask (universeRows % 8) ≠ 0) .badCovi
  rejectIf ((payload.map countOnesU8).sum ≠ h.setRowCount.toNat) .badCovi

def words (width : Nat) (payload : Bytes) : List Nat :=
  (chunksExact width (payload.length / width) payload).map leNat

def checkAscending (universeRows : Nat) : Option Nat → List Nat → Except CoveError Unit
  | _, [] => .ok ()
  | previous, value :: rest => do
      rejectIf (universeRows ≤ value ∨ ∃ p ∈ previous, value ≤ p) .badCovi
      checkAscending universeRows (some value) rest

/-- `set_row_count as usize * width`, which wraps around in 64 bits. -/
def expectedLength (h : CoviRowOrdinalSetHeaderV2) (width : Nat) : Nat :=
  h.setRowCount.toNat * width % 2 ^ 64

def validateSorted (width : Nat) (h : CoviRowOrdinalSetHeaderV2) (payload : Bytes) :
    Except CoveError Unit := do
  rejectIf (payload.length ≠ expectedLength h width) .badCovi
  -- The expected length is a multiple of the width, so each step of the loop finds a whole word.
  checkAscending h.universeRowCount.toNat none (words width payload)

/-- `read_leb128_u64`, with what is left behind the number. A shifted group loses what does not fit
in 64 bits. -/
def readLeb128From : Bytes → Nat → Nat → Except CoveError (Nat × Bytes)
  | [], _, _ => .error .bufferTooShort
  | byte :: rest, shift, value =>
    let value := value ||| (byte &&& 0x7f).toNat <<< shift % 2 ^ 64
    if byte &&& 0x80 = 0 then .ok (value, rest)
    else if 64 ≤ shift + 7 then .error .badCovi
    else readLeb128From rest (shift + 7) value

def readLeb128U64 (bytes : Bytes) : Except CoveError (Nat × Bytes) := readLeb128From bytes 0 0

def checkDeltas (universeRows : Nat) : Nat → Option Nat → Bytes → Except CoveError Bytes
  | 0, _, bytes => .ok bytes
  | count + 1, previous, bytes => do
      let (delta, rest) ← readLeb128U64 bytes
      rejectIf (previous.isSome ∧ delta = 0) .badCovi
      let value ← checkedAdd (previous.getD 0) delta
      rejectIf (universeRows ≤ value) .badCovi
      checkDeltas universeRows count (some value) rest

def validateDeltas (h : CoviRowOrdinalSetHeaderV2) (payload : Bytes) : Except CoveError Unit := do
  let unread ← checkDeltas h.universeRowCount.toNat h.setRowCount.toNat none payload
  rejectIf (unread ≠ []) .badCovi

def validateRowOrdinalSetPayload (h : CoviRowOrdinalSetHeaderV2) (payload : Bytes) :
    Except CoveError Unit :=
  match h.bitmapKind with
  | .denseBitsetLsb0 => validateDense h payload
  | .sortedU32 => validateSorted 4 h payload
  | .sortedU64 => validateSorted 8 h payload
  | .deltaVarintU32 => validateDeltas h payload
  | .registeredRoaring32 | .registeredRoaring64 | .rangeList | .extension => .error .badCovi

end

section

def spelledNumbers : Bytes → Option (List (Nat × Nat))
  | [] => some []
  | b :: rest =>
    match spelledNumbers rest with
    | none => none
    | some numbers =>
      if b.toNat < 128 then some ((b.toNat, 1) :: numbers)
      else
        match numbers with
        | [] => none
        | (n, k) :: numbers => some ((b.toNat % 128 + 128 * n, k + 1) :: numbers)

def ordinalsFrom : Nat → List Nat → List Nat
  | _, [] => []
  | previous, delta :: deltas => (previous + delta) :: ordinalsFrom (previous + delta) deltas

def ordinalsOf : CoviBitmapKindV2 → Bytes → Option (List Nat)
  | .denseBitsetLsb0, payload =>
    some ((range (8 * payload.length)).filter (leNat payload).testBit)
  | .sortedU32, payload => if payload.length % 4 = 0 then some (words 4 payload) else none
  | .sortedU64, payload => if payload.length % 8 = 0 then some (words 8 payload) else none
  | .deltaVarintU32, payload =>
    (spelledNumbers payload).map fun numbers => ordinalsFrom 0 (numbers.map Prod.fst)
  | _, _ => none

def sizeOfWords (h : CoviRowOrdinalSetHeaderV2) : Nat :=
  match h.bitmapKind with
  | .sortedU32 => h.setRowCount.toNat * 4
  | .sortedU64 => h.setRowCount.toNat * 8
  | _ => 0

/-- The payload is exactly a set of as many ordinals as the header declares. -/
def Denotes (h : CoviRowOrdinalSetHeaderV2) (payload : Bytes) : Prop :=
  sizeOfWords h < 2 ^ 64 ∧ ∃ ordinals, ordinalsOf h.bitmapKind payload = some ordinals ∧
    ordinals.length = h.setRowCount.toNat ∧ ordinals.Nodup ∧
      ∀ o ∈ ordinals, o < h.universeRowCount.toNat

/-- An ascending list of ordinals below the universe. -/
def AscendingBelow (universeRows : Nat) (ordinals : List Nat) : Prop :=
  ordinals.Pairwise (· < ·) ∧ ∀ o ∈ ordinals, o < universeRows

instance (universeRows : Nat) (ordinals : List Nat) : Decidable (AscendingBelow universeRows ordinals) :=
  inferInstanceAs (Decidable (_ ∧ _))

/-- The kind has room for the ordinals. -/
def CanHold (ordinals : List Nat) : CoviBitmapKindV2 → Prop
  | .denseBitsetLsb0 | .deltaVarintU32 => True
  | .sortedU32 => ∀ o ∈ ordinals, o < 2 ^ 32
  | .sortedU64 => 8 * ordinals.length < 2 ^ 64
  | _ => False

/-- An ascending list whose byte length is the declared one only in 64 bits. -/
def WrapsAround (width : Nat) (h : CoviRowOrdinalSetHeaderV2) (payload : Bytes) : Prop :=
  2 ^ 64 ≤ h.setRowCount.toNat * width ∧ payload.length = expectedLength h width ∧
    AscendingBelow h.universeRowCount.toNat (words width payload)

/-- A list of as many numbers as the header declares, some of them too large for 64 bits, whose low
64 bits are the deltas of an ascending list. -/
def CutsNumbers (h : CoviRowOrdinalSetHeaderV2) (payload : Bytes) : Prop :=
  ∃ numbers, spelledNumbers payload = some numbers ∧ numbers.length = h.setRowCount.toNat ∧
    (∀ number ∈ numbers, number.2 ≤ 10) ∧ (∃ number ∈ numbers, 2 ^ 64 ≤ number.1) ∧
    AscendingBelow h.universeRowCount.toNat (ordinalsFrom 0 (numbers.map fun number => number.1 % 2 ^ 64))

/-- The payloads that pass as something else than what they are. -/
def Misread (h : CoviRowOrdinalSetHeaderV2) (payload : Bytes) : Prop :=
  match h.bitmapKind with
  | .sortedU32 => WrapsAround 4 h payload
  | .sortedU64 => WrapsAround 8 h payload
  | .deltaVarintU32 => CutsNumbers h payload
  | _ => False

end

section

variable {universeRows width : Nat} {previous : Option Nat} {values : List Nat} {payload : Bytes}
  {h : CoviRowOrdinalSetHeaderV2} {u : Unit}

theorem checkAscending_ok_iff : checkAscending universeRows previous values = .ok u ↔
    (previous.toList ++ values).Pairwise (· < ·) ∧ ∀ v ∈ values, v < universeRows := by
  induction values generalizing previous with
  | nil =>
    refine iff_of_true rfl ⟨?_, fun v hv => absurd hv not_mem_nil⟩
    cases previous <;> simp
  | cons value rest ih =>
    rw [checkAscending, andThen_eq_ok_iff]
    simp only [ih, rejectIf_eq_ok_iff, exists_const]
    constructor
    · rintro ⟨hvalue, hrest, hbelow⟩
      push Not at hvalue
      have hall : ∀ v ∈ value :: rest, v < universeRows :=
        forall_mem_cons.mpr ⟨hvalue.1, hbelow⟩
      refine ⟨?_, hall⟩
      cases previous with
      | none => exact hrest
      | some p =>
        have hp : p < value := hvalue.2 p rfl
        refine pairwise_cons.mpr ⟨forall_mem_cons.mpr ⟨hp, fun v hv => ?_⟩, hrest⟩
        exact hp.trans ((pairwise_cons.mp hrest).1 v hv)
    · rintro ⟨hpairs, hall⟩
      obtain ⟨hvalue, hbelow⟩ := forall_mem_cons.mp hall
      cases previous with
      | none =>
        refine ⟨?_, hpairs, hbelow⟩
        rintro (hle | ⟨p, hp, -⟩)
        · omega
        · cases hp
      | some p =>
        obtain ⟨hp, hrest⟩ := pairwise_cons.mp hpairs
        refine ⟨?_, hrest, hbelow⟩
        rintro (hle | ⟨q, hq, hle⟩)
        · omega
        · cases hq
          exact absurd (hp value mem_cons_self) (Nat.not_lt.mpr hle)

theorem checkAscending_none_ok_iff :
    checkAscending universeRows none values = .ok u ↔ AscendingBelow universeRows values :=
  checkAscending_ok_iff

theorem chunksExact_length (size count : Nat) (bytes : Bytes) :
    (chunksExact size count bytes).length = count := by
  induction count generalizing bytes with
  | zero => rfl
  | succ count ih => rw [chunksExact, length_cons, ih]

theorem words_length : (words width payload).length = payload.length / width := by
  rw [words, length_map, chunksExact_length]

theorem validateSorted_ok_iff : validateSorted width h payload = .ok u ↔
    payload.length = expectedLength h width ∧
      AscendingBelow h.universeRowCount.toNat (words width payload) := by
  rw [validateSorted, andThen_eq_ok_iff]
  simp only [rejectIf_eq_ok_iff, not_not, exists_const, checkAscending_none_ok_iff]

theorem AscendingBelow.nodup (h : AscendingBelow universeRows values) : values.Nodup :=
  h.1.imp fun hlt => Nat.ne_of_lt hlt

theorem expectedLength_mod (hwidth : 2 ^ 64 % width = 0) : expectedLength h width % width = 0 := by
  rw [expectedLength]
  obtain ⟨q, hq⟩ := Nat.dvd_of_mod_eq_zero hwidth
  rw [hq, Nat.mod_mul_right_mod, Nat.mul_mod_left]

theorem sorted_denotes_iff (hkind : h.bitmapKind = .sortedU32 ∧ width = 4 ∨
      h.bitmapKind = .sortedU64 ∧ width = 8) (hok : validateSorted width h payload = .ok u) :
    Denotes h payload ↔ h.setRowCount.toNat * width < 2 ^ 64 := by
  obtain ⟨hlen, hascending⟩ := validateSorted_ok_iff.mp hok
  have hsize : sizeOfWords h = h.setRowCount.toNat * width := by
    rcases hkind with ⟨hkind, rfl⟩ | ⟨hkind, rfl⟩ <;> rw [sizeOfWords, hkind]
  have hwords : ordinalsOf h.bitmapKind payload = some (words width payload) := by
    rcases hkind with ⟨hkind, rfl⟩ | ⟨hkind, rfl⟩
    · rw [hkind]
      exact if_pos (hlen ▸ expectedLength_mod (by decide))
    · rw [hkind]
      exact if_pos (hlen ▸ expectedLength_mod (by decide))
  constructor
  · rintro ⟨hfits, -⟩
    rwa [← hsize]
  · intro hfits
    refine ⟨hsize ▸ hfits, _, hwords, ?_, hascending.nodup, hascending.2⟩
    rw [words_length, hlen, expectedLength, Nat.mod_eq_of_lt hfits]
    rcases hkind with ⟨-, rfl⟩ | ⟨-, rfl⟩ <;> exact Nat.mul_div_cancel _ (by decide)

end

section

variable {bytes rest : Bytes} {n k v : Nat} {numbers : List (Nat × Nat)}

/-- The first number of the bytes, with the number of its bytes and what follows them. -/
inductive First : Bytes → Nat → Nat → Bytes → Prop
  | last {b : UInt8} {rest : Bytes} (hb : b.toNat < 128) : First (b :: rest) b.toNat 1 rest
  | more {b : UInt8} {bytes rest : Bytes} {n k : Nat} (hb : ¬ b.toNat < 128)
      (h : First bytes n k rest) : First (b :: bytes) (b.toNat % 128 + 128 * n) (k + 1) rest

theorem First.pos (h : First bytes n k rest) : 0 < k := by
  cases h <;> exact Nat.succ_pos _

theorem First.spelled (h : First bytes n k rest) :
    spelledNumbers bytes = (spelledNumbers rest).map ((n, k) :: ·) := by
  induction h with
  | last hb =>
    rename_i rest
    rw [spelledNumbers]
    cases spelledNumbers rest with
    | none => rfl
    | some numbers => exact if_pos hb
  | more hb h ih =>
    rename_i rest _ _
    rw [spelledNumbers, ih]
    cases spelledNumbers rest with
    | none => rfl
    | some numbers => exact if_neg hb

theorem spelled_nil_iff : spelledNumbers bytes = some [] ↔ bytes = [] := by
  constructor
  · intro h
    cases bytes with
    | nil => rfl
    | cons b rest =>
      rw [spelledNumbers] at h
      split at h
      · cases h
      · split at h
        · cases h
        · split at h <;> cases h
  · rintro rfl
    rfl

theorem spelled_cons_iff : spelledNumbers bytes = some ((n, k) :: numbers) ↔
    ∃ rest, First bytes n k rest ∧ spelledNumbers rest = some numbers := by
  constructor
  · intro h
    induction bytes generalizing n k with
    | nil => cases h
    | cons b tail ih =>
      rw [spelledNumbers] at h
      cases htail : spelledNumbers tail with
      | none => simp [htail] at h
      | some tailNumbers =>
        simp only [htail] at h
        by_cases hb : b.toNat < 128
        · rw [if_pos hb] at h
          obtain ⟨hnk, rfl⟩ := List.cons.inj (Option.some.inj h)
          obtain ⟨rfl, rfl⟩ := Prod.mk.inj hnk
          exact ⟨tail, .last hb, htail⟩
        · rw [if_neg hb] at h
          cases tailNumbers with
          | nil => cases h
          | cons number tailNumbers =>
            obtain ⟨hnk, rfl⟩ := List.cons.inj (Option.some.inj h)
            obtain ⟨rfl, rfl⟩ := Prod.mk.inj hnk
            obtain ⟨rest, hfirst, hrest⟩ := ih htail
            exact ⟨rest, .more hb hfirst, hrest⟩
  · rintro ⟨rest, hfirst, hrest⟩
    rw [hfirst.spelled, hrest]
    rfl

theorem or_shifted {value low shift : Nat} (hv : value < 2 ^ shift) (hs : shift < 64) :
    value ||| low <<< shift % 2 ^ 64 = (value + low * 2 ^ shift) % 2 ^ 64 := by
  have hsplit : (2 : Nat) ^ 64 = 2 ^ shift * 2 ^ (64 - shift) := by
    rw [← pow_add, Nat.add_sub_cancel' hs.le]
  have hlow : low <<< shift % 2 ^ 64 = 2 ^ shift * (low % 2 ^ (64 - shift)) := by
    rw [Nat.shiftLeft_eq, hsplit, Nat.mul_comm low, Nat.mul_mod_mul_left]
  rw [hlow, Nat.or_comm, ← Nat.two_pow_add_eq_or_of_lt hv, hsplit, Nat.mul_comm low, Nat.mod_mul,
    Nat.add_mul_mod_self_left, Nat.mod_eq_of_lt hv, Nat.add_mul_div_left _ _ (by positivity),
    Nat.div_eq_of_lt hv, Nat.zero_add, Nat.add_comm]

theorem readLeb128From_ok_iff {j value : Nat} (hj : j ≤ 9) (hv : value < 2 ^ (7 * j)) :
    readLeb128From bytes (7 * j) value = .ok (v, rest) ↔
      ∃ n k, First bytes n k rest ∧ k + j ≤ 10 ∧ (value + n * 2 ^ (7 * j)) % 2 ^ 64 = v := by
  induction bytes generalizing j value with
  | nil =>
    constructor
    · intro h
      cases h
    · rintro ⟨n, k, hfirst, -⟩
      cases hfirst
  | cons b tail ih =>
    have hlow : b.toNat % 128 < 128 := Nat.mod_lt _ (by decide)
    rw [readLeb128From]
    simp only [low_bits, last_byte_iff, or_shifted hv (show 7 * j < 64 by omega)]
    by_cases hb : b.toNat < 128
    · rw [if_pos hb, Nat.mod_eq_of_lt hb, Except.ok.injEq, Prod.mk.injEq]
      constructor
      · rintro ⟨hvalue, rfl⟩
        exact ⟨b.toNat, 1, .last hb, by omega, hvalue⟩
      · rintro ⟨n, k, hfirst, -, hvalue⟩
        cases hfirst with
        | last => exact ⟨hvalue, rfl⟩
        | more hmore => exact absurd hb hmore
    · rw [if_neg hb]
      have hmore : (∃ n k, First (b :: tail) n k rest ∧ k + j ≤ 10 ∧
          (value + n * 2 ^ (7 * j)) % 2 ^ 64 = v) ↔
          ∃ n k, First tail n k rest ∧ k + (j + 1) ≤ 10 ∧
            (value + b.toNat % 128 * 2 ^ (7 * j) + n * 2 ^ (7 * (j + 1))) % 2 ^ 64 = v := by
        have hsum (n : Nat) : value + b.toNat % 128 * 2 ^ (7 * j) + n * 2 ^ (7 * (j + 1)) =
            value + (b.toNat % 128 + 128 * n) * 2 ^ (7 * j) := by
          ring
        constructor
        · rintro ⟨n, k, hfirst, hk, hvalue⟩
          cases hfirst with
          | last hlast => exact absurd hlast hb
          | more _ htail => exact ⟨_, _, htail, by omega, by rw [hsum, hvalue]⟩
        · rintro ⟨n, k, htail, hk, hvalue⟩
          exact ⟨_, _, .more hb htail, by omega, by rw [← hsum, hvalue]⟩
      rw [hmore]
      by_cases hlast : j = 9
      · rw [if_pos (by omega)]
        constructor
        · intro h
          cases h
        · rintro ⟨n, k, htail, hk, -⟩
          have hpos := htail.pos
          omega
      · have hnext := next_group_lt hv hlow
        have hfits : 2 ^ (7 * j + 7) ≤ 2 ^ 64 := Nat.pow_le_pow_right (by decide) (by omega)
        rw [if_neg (by omega), Nat.mod_eq_of_lt (hnext.trans_le hfits)]
        exact ih (j := j + 1) (by omega) hnext

theorem readLeb128U64_ok_iff : readLeb128U64 bytes = .ok (v, rest) ↔
    ∃ n k, First bytes n k rest ∧ k ≤ 10 ∧ n % 2 ^ 64 = v := by
  have h := @readLeb128From_ok_iff bytes rest v 0 0 (by decide) (by decide)
  rw [readLeb128U64]
  simpa using h

end

section

variable {universeRows count : Nat} {previous : Option Nat} {bytes payload : Bytes}
  {numbers : List (Nat × Nat)} {h : CoviRowOrdinalSetHeaderV2} {u : Unit}

def lowBits (numbers : List (Nat × Nat)) : List Nat := numbers.map fun number => number.1 % 2 ^ 64

theorem checkDeltas_ok_iff (huniverse : universeRows < 2 ^ 64) :
    checkDeltas universeRows count previous bytes = .ok [] ↔
      ∃ numbers, spelledNumbers bytes = some numbers ∧ numbers.length = count ∧
        (∀ number ∈ numbers, number.2 ≤ 10) ∧
        checkAscending universeRows previous (ordinalsFrom (previous.getD 0) (lowBits numbers)) =
          .ok () := by
  induction count generalizing previous bytes with
  | zero =>
    constructor
    · intro h
      cases h
      exact ⟨[], rfl, rfl, fun number hn => absurd hn not_mem_nil, rfl⟩
    · rintro ⟨numbers, hspelled, hlen, -⟩
      rw [eq_nil_of_length_eq_zero hlen] at hspelled
      rw [spelled_nil_iff.mp hspelled]
      rfl
  | succ count ih =>
    have hgap : ∀ delta, previous.getD 0 + delta < universeRows →
        ((∃ p ∈ previous, previous.getD 0 + delta ≤ p) ↔ previous.isSome = true ∧ delta = 0) := by
      intro delta _
      cases previous with
      | none => simp
      | some p => simp [Nat.le_iff_lt_or_eq]
    rw [checkDeltas]
    simp only [andThen_eq_ok_iff, rejectIf_eq_ok_iff, exists_const, checkedAdd_ok_iff, Prod.exists,
      readLeb128U64_ok_iff]
    constructor
    · rintro ⟨_, rest, ⟨n, k, hfirst, hk, rfl⟩, hstep, _, ⟨-, rfl⟩, hbelow, h⟩
      obtain ⟨numbers, hspelled, hlen, hshort, hchecks⟩ := ih.mp h
      refine ⟨(n, k) :: numbers, spelled_cons_iff.mpr ⟨rest, hfirst, hspelled⟩, by simp [hlen],
        forall_mem_cons.mpr ⟨hk, hshort⟩, ?_⟩
      refine rejectIf_andThen ?_ hchecks
      rw [hgap _ (not_le.mp hbelow)]
      exact not_or.mpr ⟨hbelow, hstep⟩
    · rintro ⟨numbers, hspelled, hlen, hshort, hchecks⟩
      cases numbers with
      | nil => cases hlen
      | cons number numbers =>
        obtain ⟨n, k⟩ := number
        obtain ⟨rest, hfirst, hrest⟩ := spelled_cons_iff.mp hspelled
        obtain ⟨hk, hshort⟩ := forall_mem_cons.mp hshort
        obtain ⟨hstep, hchecks⟩ := of_check hchecks
        obtain ⟨hbelow, hgo⟩ := not_or.mp (of_rejectIf hstep)
        rw [hgap _ (not_le.mp hbelow)] at hgo
        refine ⟨_, rest, ⟨n, k, hfirst, hk, rfl⟩, hgo, _, ⟨(not_le.mp hbelow).trans huniverse, rfl⟩,
          hbelow, ih.mpr ⟨numbers, hrest, Nat.succ.inj hlen, hshort, hchecks⟩⟩

theorem validateDeltas_ok_iff : validateDeltas h payload = .ok u ↔
    ∃ numbers, spelledNumbers payload = some numbers ∧ numbers.length = h.setRowCount.toNat ∧
      (∀ number ∈ numbers, number.2 ≤ 10) ∧
      AscendingBelow h.universeRowCount.toNat (ordinalsFrom 0 (lowBits numbers)) := by
  have hrun := @checkDeltas_ok_iff _ h.setRowCount.toNat none payload h.universeRowCount.toNat_lt
  rw [validateDeltas, andThen_eq_ok_iff]
  simp only [rejectIf_eq_ok_iff, not_not, exists_eq_right, hrun, checkAscending_none_ok_iff,
    Option.getD_none]

theorem ordinalsFrom_length (previous : Nat) (deltas : List Nat) :
    (ordinalsFrom previous deltas).length = deltas.length := by
  induction deltas generalizing previous with
  | nil => rfl
  | cons delta deltas ih => rw [ordinalsFrom, length_cons, ih, length_cons]

theorem exists_ordinal_ge {deltas : List Nat} {delta : Nat} (hdelta : delta ∈ deltas)
    (previous : Nat) : ∃ o ∈ ordinalsFrom previous deltas, delta ≤ o := by
  induction deltas generalizing previous with
  | nil => cases hdelta
  | cons d deltas ih =>
    rcases mem_cons.mp hdelta with rfl | hdelta
    · exact ⟨_, mem_cons_self, Nat.le_add_left _ _⟩
    · obtain ⟨o, ho, hle⟩ := ih hdelta (previous + d)
      exact ⟨o, mem_cons_of_mem _ ho, hle⟩

theorem deltas_denote_iff (hkind : h.bitmapKind = .deltaVarintU32)
    (hok : validateDeltas h payload = .ok u) : Denotes h payload ↔ ¬ CutsNumbers h payload := by
  obtain ⟨numbers, hspelled, hlen, hshort, hascending⟩ := validateDeltas_ok_iff.mp hok
  have hordinals : ordinalsOf h.bitmapKind payload = some (ordinalsFrom 0 (numbers.map Prod.fst)) := by
    rw [hkind, ordinalsOf, hspelled]
    rfl
  constructor
  · rintro ⟨-, ordinals, hsome, -, -, hbelow⟩ ⟨others, hothers, -, -, ⟨number, hnumber, hlarge⟩, -⟩
    obtain rfl := Option.some.inj (hspelled.symm.trans hothers)
    obtain rfl := Option.some.inj (hordinals.symm.trans hsome)
    obtain ⟨o, ho, hle⟩ := exists_ordinal_ge (mem_map_of_mem (f := Prod.fst) hnumber) 0
    have hmax := h.universeRowCount.toNat_lt
    exact absurd (hbelow o ho) (by omega)
  · intro hcut
    have hsmall : ∀ number ∈ numbers, number.1 < 2 ^ 64 := by
      intro number hnumber
      by_contra hlarge
      exact hcut ⟨numbers, hspelled, hlen, hshort, ⟨number, hnumber, not_lt.mp hlarge⟩, hascending⟩
    have hbits : lowBits numbers = numbers.map Prod.fst :=
      map_congr_left fun number hnumber => Nat.mod_eq_of_lt (hsmall number hnumber)
    rw [hbits] at hascending
    refine ⟨by simp [sizeOfWords, hkind], _, hordinals, ?_, hascending.nodup, hascending.2⟩
    rw [ordinalsFrom_length, length_map, hlen]

end

section

variable {universeRows : Nat} {payload : Bytes} {h : CoviRowOrdinalSetHeaderV2} {u : Unit}

theorem sum_countOnes (payload : Bytes) :
    (payload.map countOnesU8).sum = onesBelow (leNat payload) (8 * payload.length) := by
  induction payload with
  | nil => rfl
  | cons b rest ih =>
    have hlow : (b.toNat + 256 * leNat rest) % 2 ^ 8 = b.toNat := by
      have hb := b.toNat_lt
      omega
    have hhigh : (b.toNat + 256 * leNat rest) / 2 ^ 8 = leNat rest := by
      omega
    rw [map_cons, sum_cons, ih, leNat, length_cons, Nat.mul_succ, Nat.add_comm (8 * _),
      onesBelow_add, hhigh, ← onesBelow_mod (le_refl 8), hlow, countOnesU8]

theorem paddingMask_testBit : ∀ r < 8, ∀ j < 8, (paddingMask r).toNat.testBit j = decide (r ≤ j) := by
  decide

theorem padding_clear_iff {b : UInt8} {r : Nat} (hr : r < 8) :
    b &&& paddingMask r = 0 ↔ b.toNat < 2 ^ r := by
  rw [← UInt8.toNat_inj, UInt8.toNat_and]
  constructor
  · intro h
    apply Nat.lt_pow_two_of_testBit
    intro j hj
    by_cases hbyte : j < 8
    · have hbit := congrArg (Nat.testBit · j) h
      simpa [Nat.testBit_and, paddingMask_testBit r hr j hbyte, hj] using hbit
    · exact Nat.testBit_lt_two_pow (b.toNat_lt.trans_le (Nat.pow_le_pow_right (by decide) (by omega)))
  · intro h
    apply Nat.eq_of_testBit_eq
    intro j
    rw [Nat.testBit_and]
    by_cases hj : r ≤ j
    · rw [Nat.testBit_lt_two_pow (h.trans_le (Nat.pow_le_pow_right (by decide) hj))]
      simp
    · rw [paddingMask_testBit r hr j (by omega), decide_eq_false hj]
      simp

theorem padding_ok_iff (hlen : payload.length = (universeRows + 7) / 8) : ¬ (universeRows % 8 ≠ 0 ∧
        ∃ last ∈ payload.getLast?, last &&& paddingMask (universeRows % 8) ≠ 0) ↔
      leNat payload < 2 ^ universeRows := by
  have hr : universeRows % 8 < 8 := Nat.mod_lt _ (by decide)
  by_cases hwhole : universeRows % 8 = 0
  · have hbytes : 8 * payload.length = universeRows := by omega
    refine iff_of_true (fun hpad => hpad.1 hwhole) ?_
    rw [← hbytes, ← BitPackedPayload.pow_byte]
    exact leNat_lt payload
  · obtain rfl | ⟨init, last, rfl⟩ := payload.eq_nil_or_concat'
    · rw [length_nil] at hlen
      omega
    · have hinit : init.length = universeRows / 8 := by
        rw [length_append, length_singleton] at hlen
        omega
      have hsplit : 2 ^ universeRows = 256 ^ init.length * 2 ^ (universeRows % 8) := by
        rw [BitPackedPayload.pow_byte, ← pow_add, hinit, Nat.div_add_mod]
      have hlow := leNat_lt init
      rw [leNat_append, hsplit]
      have hlast : leNat [last] = last.toNat := by simp [leNat]
      simp only [List.getLast?_append, List.getLast?_singleton, Option.some_or, Option.mem_some_iff,
        exists_eq_left', hwhole, ne_eq, not_false_eq_true, true_and, not_not, padding_clear_iff hr,
        hlast]
      constructor
      · intro hlt
        calc leNat init + 256 ^ init.length * last.toNat
            < 256 ^ init.length * (last.toNat + 1) := by
              rw [Nat.mul_succ]
              omega
          _ ≤ 256 ^ init.length * 2 ^ (universeRows % 8) := Nat.mul_le_mul_left _ hlt
      · intro hlt
        by_contra hge
        have hle := Nat.mul_le_mul_left (256 ^ init.length) (not_lt.mp hge)
        omega

theorem validateDense_ok_iff : validateDense h payload = .ok u ↔
    payload.length = (h.universeRowCount.toNat + 7) / 8 ∧
      leNat payload < 2 ^ h.universeRowCount.toNat ∧
      onesBelow (leNat payload) (8 * payload.length) = h.setRowCount.toNat := by
  rw [validateDense]
  simp only [andThen_eq_ok_iff, rejectIf_eq_ok_iff, exists_const]
  rw [not_not, not_not, sum_countOnes]
  exact and_congr_right fun hlen => and_congr_left' (padding_ok_iff hlen)

def setBits (payload : Bytes) : List Nat :=
  (range (8 * payload.length)).filter (leNat payload).testBit

theorem setBits_length : (setBits payload).length = onesBelow (leNat payload) (8 * payload.length) :=
  countP_eq_length_filter.symm

theorem mem_setBits {o : Nat} : o ∈ setBits payload ↔ (leNat payload).testBit o := by
  rw [setBits, mem_filter, mem_range]
  refine and_iff_right_of_imp fun hbit => ?_
  by_contra hge
  have hlt := leNat_lt payload
  rw [BitPackedPayload.pow_byte] at hlt
  rw [Nat.testBit_lt_two_pow (hlt.trans_le (Nat.pow_le_pow_right (by decide) (not_lt.mp hge)))] at hbit
  cases hbit

theorem dense_denotes (hkind : h.bitmapKind = .denseBitsetLsb0)
    (hok : validateDense h payload = .ok u) : Denotes h payload := by
  obtain ⟨-, hbelow, hcount⟩ := validateDense_ok_iff.mp hok
  refine ⟨by simp [sizeOfWords, hkind], setBits payload, by rw [hkind]; rfl, ?_,
    nodup_range.filter _, fun o ho => ?_⟩
  · rw [setBits_length, hcount]
  · by_contra hge
    have hbit := mem_setBits.mp ho
    rw [Nat.testBit_lt_two_pow (hbelow.trans_le (Nat.pow_le_pow_right (by decide) (not_lt.mp hge)))]
      at hbit
    cases hbit

end

section

variable {universeRows : Nat} {ordinals : List Nat} {h : CoviRowOrdinalSetHeaderV2}

def denseOf (universeRows : Nat) (ordinals : List Nat) : Bytes :=
  leBytes ((universeRows + 7) / 8) (Nat.ofBits fun i : Fin universeRows => decide (i.val ∈ ordinals))

def wordsOf (width : Nat) (ordinals : List Nat) : Bytes := ordinals.flatMap (leBytes width)

def deltasFrom : Nat → List Nat → List Nat
  | _, [] => []
  | previous, o :: ordinals => (o - previous) :: deltasFrom o ordinals

def varintsOf (ordinals : List Nat) : Bytes := (deltasFrom 0 ordinals).flatMap varint

theorem leNat_denseOf : leNat (denseOf universeRows ordinals) =
    Nat.ofBits fun i : Fin universeRows => decide (i.val ∈ ordinals) := by
  have hlt := Nat.ofBits_lt_two_pow fun i : Fin universeRows => decide (i.val ∈ ordinals)
  rw [denseOf, leNat_leBytes, BitPackedPayload.pow_byte]
  exact Nat.mod_eq_of_lt (hlt.trans_le (Nat.pow_le_pow_right (by decide) (by omega)))

theorem setBits_denseOf (h : AscendingBelow universeRows ordinals) :
    setBits (denseOf universeRows ordinals) = ordinals := by
  refine List.Pairwise.eq_of_mem_iff (pairwise_lt_range.filter _) h.1 fun o => ?_
  rw [mem_setBits, leNat_denseOf]
  by_cases ho : o < universeRows
  · rw [Nat.testBit_ofBits_lt _ _ ho, decide_eq_true_iff]
  · rw [Nat.testBit_ofBits_ge _ _ (not_lt.mp ho)]
    exact iff_of_false Bool.false_ne_true fun hmem => ho (h.2 o hmem)

theorem denseOf_accepted (hlen : ordinals.length = h.setRowCount.toNat)
    (hs : AscendingBelow h.universeRowCount.toNat ordinals) :
    validateDense h (denseOf h.universeRowCount.toNat ordinals) = .ok () := by
  refine validateDense_ok_iff.mpr ⟨leBytes_length _ _, ?_, ?_⟩
  · rw [leNat_denseOf]
    exact Nat.ofBits_lt_two_pow _
  · rw [← setBits_length, setBits_denseOf hs, hlen]

theorem words_wordsOf {width : Nat} (hwidth : 0 < width) (hfit : ∀ o ∈ ordinals, o < 256 ^ width) :
    (wordsOf width ordinals).length = ordinals.length * width ∧
      words width (wordsOf width ordinals) = ordinals := by
  have hchunks : ∀ chunk ∈ ordinals.map (leBytes width), chunk.length = width := by
    intro chunk hchunk
    obtain ⟨o, -, rfl⟩ := mem_map.mp hchunk
    exact leBytes_length width o
  have hlen : (wordsOf width ordinals).length = ordinals.length * width := by
    rw [wordsOf, flatMap_def, length_flatten_eq hchunks, length_map]
  refine ⟨hlen, ?_⟩
  have hcut := chunksExact_flatten hchunks
  rw [words, hlen, Nat.mul_div_cancel _ hwidth, wordsOf, flatMap_def]
  rw [length_map] at hcut
  rw [hcut, map_map]
  conv_rhs => rw [← map_id ordinals]
  apply map_congr_left
  intro o ho
  rw [Function.comp_apply, leNat_leBytes, Nat.mod_eq_of_lt (hfit o ho), id]

theorem wordsOf_accepted {width : Nat} (hwidth : 0 < width) (hfit : ∀ o ∈ ordinals, o < 256 ^ width)
    (hsize : ordinals.length * width < 2 ^ 64) (hlen : ordinals.length = h.setRowCount.toNat)
    (hs : AscendingBelow h.universeRowCount.toNat ordinals) :
    validateSorted width h (wordsOf width ordinals) = .ok () := by
  obtain ⟨hbytes, hwords⟩ := words_wordsOf hwidth hfit
  refine validateSorted_ok_iff.mpr ⟨?_, by rwa [hwords]⟩
  rw [hbytes, expectedLength, ← hlen, Nat.mod_eq_of_lt hsize]

theorem length_le_of_below {bound : Nat} (hnodup : ordinals.Nodup) (hbelow : ∀ o ∈ ordinals, o < bound) :
    ordinals.length ≤ bound := by
  have hsub : ordinals.toFinset ⊆ Finset.range bound := fun o ho =>
    Finset.mem_range.mpr (hbelow o (List.mem_toFinset.mp ho))
  have hcard := Finset.card_le_card hsub
  rwa [toFinset_card_of_nodup hnodup, Finset.card_range] at hcard

theorem first_varint (n : Nat) (rest : Bytes) : First (varint n ++ rest) n (varint n).length rest := by
  induction n using Nat.strong_induction_on with
  | _ n ih =>
    by_cases hn : n < 128
    · have hb : (UInt8.ofNat n).toNat = n := toNat_ofNat_of_lt (by omega)
      have hlast := @First.last (UInt8.ofNat n) rest (by omega)
      rw [hb] at hlast
      rw [varint_small hn]
      exact hlast
    · have hb : (UInt8.ofNat (n % 128 + 128)).toNat = n % 128 + 128 := toNat_ofNat_of_lt (by omega)
      have hmore := First.more (b := UInt8.ofNat (n % 128 + 128)) (by omega) (ih (n / 128) (by omega))
      rw [hb, show (n % 128 + 128) % 128 + 128 * (n / 128) = n by omega] at hmore
      rw [varint_large hn]
      exact hmore

theorem varint_length_le {n k : Nat} (hk : 0 < k) (hn : n < 128 ^ k) : (varint n).length ≤ k := by
  induction k generalizing n with
  | zero => omega
  | succ k ih =>
    by_cases hsmall : n < 128
    · rw [varint_small hsmall, length_singleton]
      omega
    · have hnext : n / 128 < 128 ^ k := by
        rw [pow_succ, Nat.mul_comm] at hn
        exact Nat.div_lt_of_lt_mul hn
      have hpos : 0 < k := by
        rcases Nat.eq_zero_or_pos k with rfl | hpos
        · omega
        · exact hpos
      rw [varint_large hsmall, length_cons]
      exact Nat.succ_le_succ (ih hpos hnext)

theorem spelled_varints (deltas : List Nat) : spelledNumbers (deltas.flatMap varint) =
    some (deltas.map fun n => (n, (varint n).length)) := by
  induction deltas with
  | nil => rfl
  | cons n deltas ih =>
    exact spelled_cons_iff.mpr ⟨_, first_varint n _, ih⟩

theorem ordinalsFrom_deltasFrom {previous : Nat} (hprevious : ∀ o ∈ ordinals, previous ≤ o)
    (hs : ordinals.Pairwise (· < ·)) : ordinalsFrom previous (deltasFrom previous ordinals) = ordinals := by
  induction ordinals generalizing previous with
  | nil => rfl
  | cons o ordinals ih =>
    obtain ⟨ho, hs⟩ := pairwise_cons.mp hs
    rw [deltasFrom, ordinalsFrom, Nat.add_sub_cancel' (hprevious o mem_cons_self),
      ih (fun p hp => (ho p hp).le) hs]

theorem deltasFrom_le {previous delta : Nat} (hdelta : delta ∈ deltasFrom previous ordinals) :
    ∃ o ∈ ordinals, delta ≤ o := by
  induction ordinals generalizing previous with
  | nil => cases hdelta
  | cons o ordinals ih =>
    rcases mem_cons.mp hdelta with rfl | hdelta
    · exact ⟨o, mem_cons_self, Nat.sub_le _ _⟩
    · obtain ⟨p, hp, hle⟩ := ih hdelta
      exact ⟨p, mem_cons_of_mem _ hp, hle⟩

theorem deltasFrom_length (previous : Nat) (ordinals : List Nat) :
    (deltasFrom previous ordinals).length = ordinals.length := by
  induction ordinals generalizing previous with
  | nil => rfl
  | cons o ordinals ih => rw [deltasFrom, length_cons, ih, length_cons]

theorem varintsOf_ordinals (hs : ordinals.Pairwise (· < ·)) :
    ordinalsOf .deltaVarintU32 (varintsOf ordinals) = some ordinals := by
  rw [ordinalsOf, varintsOf, spelled_varints, Option.map_some, map_map]
  have hnumbers : (deltasFrom 0 ordinals).map (Prod.fst ∘ fun n => (n, (varint n).length)) =
      deltasFrom 0 ordinals := map_id _
  rw [hnumbers, ordinalsFrom_deltasFrom (fun o _ => o.zero_le) hs]

variable (hlen : ordinals.length = h.setRowCount.toNat)
include hlen

theorem varintsOf_accepted (hs : AscendingBelow h.universeRowCount.toNat ordinals) :
    validateDeltas h (varintsOf ordinals) = .ok () := by
  have hmax := h.universeRowCount.toNat_lt
  have hsmall : ∀ delta ∈ deltasFrom 0 ordinals, delta < 2 ^ 64 := by
    intro delta hdelta
    obtain ⟨o, ho, hle⟩ := deltasFrom_le hdelta
    exact hle.trans_lt ((hs.2 o ho).trans hmax)
  refine validateDeltas_ok_iff.mpr ⟨_, spelled_varints _, ?_, ?_, ?_⟩
  · rw [length_map, deltasFrom_length, hlen]
  · intro number hnumber
    obtain ⟨delta, hdelta, rfl⟩ := mem_map.mp hnumber
    exact varint_length_le (by decide) ((hsmall delta hdelta).trans (by decide))
  · have hbits : lowBits ((deltasFrom 0 ordinals).map fun n => (n, (varint n).length)) =
        deltasFrom 0 ordinals := by
      rw [lowBits, map_map]
      conv_rhs => rw [← map_id (deltasFrom 0 ordinals)]
      exact map_congr_left fun delta hdelta => Nat.mod_eq_of_lt (hsmall delta hdelta)
    rw [hbits, ordinalsFrom_deltasFrom (fun o _ => o.zero_le) hs.1]
    exact hs

theorem exists_accepted (hs : AscendingBelow h.universeRowCount.toNat ordinals)
    (hroom : CanHold ordinals h.bitmapKind) :
    ∃ payload, validateRowOrdinalSetPayload h payload = .ok () ∧
      ordinalsOf h.bitmapKind payload = some ordinals := by
  cases hkind : h.bitmapKind with
  | denseBitsetLsb0 =>
    refine ⟨denseOf h.universeRowCount.toNat ordinals, ?_, congrArg some (setBits_denseOf hs)⟩
    rw [validateRowOrdinalSetPayload, hkind]
    exact denseOf_accepted hlen hs
  | sortedU32 =>
    rw [hkind] at hroom
    have hcount := length_le_of_below hs.nodup hroom
    obtain ⟨hbytes, hwords⟩ := @words_wordsOf ordinals 4 (by decide) hroom
    refine ⟨wordsOf 4 ordinals, ?_, ?_⟩
    · rw [validateRowOrdinalSetPayload, hkind]
      exact wordsOf_accepted (by decide) hroom (by omega) hlen hs
    · rw [ordinalsOf, hwords, hbytes, if_pos (Nat.mul_mod_left _ _)]
  | sortedU64 =>
    rw [hkind] at hroom
    have hfit : ∀ o ∈ ordinals, o < 256 ^ 8 := fun o ho =>
      (hs.2 o ho).trans h.universeRowCount.toNat_lt
    obtain ⟨hbytes, hwords⟩ := @words_wordsOf ordinals 8 (by decide) hfit
    refine ⟨wordsOf 8 ordinals, ?_, ?_⟩
    · rw [validateRowOrdinalSetPayload, hkind]
      exact wordsOf_accepted (by decide) hfit (by rw [Nat.mul_comm]; exact hroom) hlen hs
    · rw [ordinalsOf, hwords, hbytes, if_pos (Nat.mul_mod_left _ _)]
  | deltaVarintU32 =>
    refine ⟨varintsOf ordinals, ?_, varintsOf_ordinals hs.1⟩
    rw [validateRowOrdinalSetPayload, hkind]
    exact varintsOf_accepted hlen hs
  | registeredRoaring32 | registeredRoaring64 | rangeList | extension =>
    rw [hkind] at hroom
    exact hroom.elim

end

section

variable {payload : Bytes} {h : CoviRowOrdinalSetHeaderV2}

theorem misread_accepted (hmisread : Misread h payload) :
    validateRowOrdinalSetPayload h payload = .ok () ∧ ¬ Denotes h payload := by
  rw [Misread] at hmisread
  rw [validateRowOrdinalSetPayload]
  cases hkind : h.bitmapKind with
  | sortedU32 | sortedU64 =>
    rw [hkind] at hmisread
    obtain ⟨hlarge, hlen, hascending⟩ := hmisread
    have hok := validateSorted_ok_iff (u := ()).mpr ⟨hlen, hascending⟩
    exact ⟨hok, fun hd => not_lt.mpr hlarge ((sorted_denotes_iff (by simp [hkind]) hok).mp hd)⟩
  | deltaVarintU32 =>
    rw [hkind] at hmisread
    have hcut := hmisread
    obtain ⟨numbers, hspelled, hlen, hshort, -, hascending⟩ := hmisread
    have hok := validateDeltas_ok_iff (u := ()).mpr ⟨numbers, hspelled, hlen, hshort, hascending⟩
    exact ⟨hok, fun hd => (deltas_denote_iff hkind hok).mp hd hcut⟩
  | denseBitsetLsb0 | registeredRoaring32 | registeredRoaring64 | rangeList | extension =>
    rw [hkind] at hmisread
    exact hmisread.elim

theorem accepted_denotes (hok : validateRowOrdinalSetPayload h payload = .ok ())
    (hmisread : ¬ Misread h payload) : Denotes h payload := by
  rw [Misread] at hmisread
  rw [validateRowOrdinalSetPayload] at hok
  cases hkind : h.bitmapKind with
  | denseBitsetLsb0 =>
    rw [hkind] at hok
    exact dense_denotes hkind hok
  | sortedU32 | sortedU64 =>
    rw [hkind] at hok hmisread
    refine (sorted_denotes_iff (by simp [hkind]) hok).mpr (not_le.mp fun hlarge => ?_)
    exact hmisread ⟨hlarge, validateSorted_ok_iff.mp hok⟩
  | deltaVarintU32 =>
    rw [hkind] at hok hmisread
    exact (deltas_denote_iff hkind hok).mpr hmisread
  | registeredRoaring32 | registeredRoaring64 | rangeList | extension =>
    rw [hkind] at hok
    cases hok

/-- Acceptance means the declared set except where a size wraps around or a number is cut; each set
below the universe has an accepted payload of every kind that can hold it. -/
theorem row_ordinal_sets_exact_iff (h : CoviRowOrdinalSetHeaderV2) (payload : Bytes) :
    ((validateRowOrdinalSetPayload h payload = .ok () → Denotes h payload) ↔ ¬ Misread h payload) ∧
      ∀ ordinals, ordinals.length = h.setRowCount.toNat →
        AscendingBelow h.universeRowCount.toNat ordinals → CanHold ordinals h.bitmapKind →
          ∃ accepted, validateRowOrdinalSetPayload h accepted = .ok () ∧
            ordinalsOf h.bitmapKind accepted = some ordinals := by
  refine ⟨⟨fun hdenotes hmisread => ?_, fun hmisread hok => accepted_denotes hok hmisread⟩,
    fun ordinals hlen hs hroom => exists_accepted hlen hs hroom⟩
  obtain ⟨hok, hnot⟩ := misread_accepted hmisread
  exact hnot (hdenotes hok)

theorem row_ordinal_sets_exact_iff_pair :
    let h : CoviRowOrdinalSetHeaderV2 := ⟨.deltaVarintU32, 9, 2⟩
    ¬ Misread h [3, 5] ∧ Denotes h [3, 5] ∧
      ∃ accepted, validateRowOrdinalSetPayload h accepted = .ok () ∧
        ordinalsOf h.bitmapKind accepted = some [3, 8] := by
  intro h
  have hok : validateRowOrdinalSetPayload h [3, 5] = .ok () := by decide
  have hexact := row_ordinal_sets_exact_iff h [3, 5]
  have hnumbers : spelledNumbers [3, 5] = some [(3, 1), (5, 1)] := by decide
  have hnot : ¬ Misread h [3, 5] := by
    rintro ⟨numbers, hspelled, -, -, ⟨number, hnumber, hlarge⟩, -⟩
    obtain rfl := Option.some.inj (hnumbers.symm.trans hspelled)
    have hsmall : ∀ number ∈ [(3, 1), (5, 1)], number.1 < 2 ^ 64 := by decide
    exact not_le.mpr (hsmall number hnumber) hlarge
  exact ⟨hnot, hexact.1.mpr hnot hok, hexact.2 [3, 8] (by decide) (by decide) trivial⟩

/-- No bytes at all pass for `2 ^ 62` ordinals, and ten bytes that spell `2 ^ 64` for the ordinal 0. -/
theorem empty_payload_accepted :
    let h : CoviRowOrdinalSetHeaderV2 := ⟨.sortedU32, 4611686018427387904, 4611686018427387904⟩
    let cut : CoviRowOrdinalSetHeaderV2 := ⟨.deltaVarintU32, 1, 1⟩
    let number : Bytes := [128, 128, 128, 128, 128, 128, 128, 128, 128, 2]
    validateRowOrdinalSetPayload h [] = .ok () ∧ ordinalsOf .sortedU32 [] = some [] ∧
      ¬ Denotes h [] ∧
      validateRowOrdinalSetPayload cut number = .ok () ∧
        ordinalsOf .deltaVarintU32 number = some [2 ^ 64] := by
  intro h cut number
  refine ⟨by decide, by decide, ?_, by decide, by decide⟩
  rintro ⟨hfits, -⟩
  have hlarge : ¬ sizeOfWords h < 2 ^ 64 := by decide
  exact hlarge hfits

end

end CoveFormat.RowOrdinalSets
