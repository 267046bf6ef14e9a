import CoveFormat.ValidityBitmaps

namespace CoveFormat.SelectionBitmaps

open ByteCodes List ValidityBitmaps

variable {words : List Word} {row : Nat}

abbrev Word := BitVec 64

/-! Rows of bits, 64 to a word. -/

/-- `len.div_ceil(64)`. -/
def wordCount (len : Nat) : Nat := (len + 63) / 64

def bit (words : List Word) (row : Nat) : Bool := (words.getD (row / 64) 0#64).getLsbD (row % 64)

def oneBit (row : Nat) : Word := 1#64 <<< (row % 64)

def maskLastWord (words : List Word) (len : Nat) : List Word :=
  if len % 64 = 0 then words
  else words.modify (words.length - 1) (· &&& ((1#64 <<< (len % 64)) - 1#64))

theorem bit_of_length_le (h : 64 * words.length ≤ row) : bit words row = false := by
  have hnone : words[row / 64]? = none := List.getElem?_eq_none (by omega)
  rw [bit, List.getD, hnone]
  exact BitVec.getLsbD_zero

theorem bit_modify (words : List Word) (i : Nat) (f : Word → Word) (row : Nat)
    (h : i < words.length) :
    bit (words.modify i f) row =
      if row / 64 = i then (f (words.getD i 0#64)).getLsbD (row % 64) else bit words row := by
  by_cases hi : row / 64 = i
  · subst hi
    simp [bit, List.getElem?_eq_getElem h]
  · simp [bit, hi, Ne.symm hi]

theorem getLsbD_oneBit (row i : Nat) : (oneBit row).getLsbD i = decide (i = row % 64) := by
  have hlt := Nat.mod_lt row (show 0 < 64 by decide)
  rw [oneBit, ← BitVec.twoPow_eq, BitVec.getLsbD_twoPow, decide_eq_true hlt, Bool.true_and]
  exact decide_eq_decide.mpr eq_comm

theorem getLsbD_lowMask {used i : Nat} (hused : used < 64) :
    ((1#64 <<< used) - 1#64).getLsbD i = decide (i < used) := by
  have hpow : 1 ≤ 2 ^ used ∧ 2 ^ used < 2 ^ 64 :=
    ⟨Nat.one_le_two_pow, Nat.pow_lt_pow_right (by decide) hused⟩
  have hone : (1#64 <<< used).toNat = 2 ^ used := by
    rw [BitVec.toNat_shiftLeft, BitVec.toNat_ofNat, Nat.shiftLeft_eq, Nat.one_mod_eq_one.mpr (by decide),
      Nat.one_mul, Nat.mod_eq_of_lt hpow.2]
  have hmask : ((1#64 <<< used) - 1#64).toNat = 2 ^ used - 1 := by
    rw [BitVec.toNat_sub, hone, BitVec.toNat_ofNat]
    omega
  rw [← BitVec.testBit_toNat, hmask, Nat.testBit_two_pow_sub_one]

theorem length_maskLastWord (words : List Word) (len : Nat) :
    (maskLastWord words len).length = words.length := by
  rw [maskLastWord]
  split
  · rfl
  · exact length_modify _ _ _

theorem bit_maskLastWord {len : Nat} (h : words.length = wordCount len) (row : Nat) :
    bit (maskLastWord words len) row = (decide (row < len) && bit words row) := by
  rw [wordCount] at h
  by_cases hrow : row < 64 * words.length
  · rw [maskLastWord]
    by_cases hfull : len % 64 = 0
    · rw [if_pos hfull, decide_eq_true (by omega), Bool.true_and]
    · rw [if_neg hfull, bit_modify _ _ _ _ (by omega)]
      by_cases hlast : row / 64 = words.length - 1
      · rw [if_pos hlast, ← hlast, BitVec.getLsbD_and, getLsbD_lowMask (Nat.mod_lt _ (by decide)), ← bit,
          Bool.and_comm]
        congr 1
        exact decide_eq_decide.mpr (by omega)
      · rw [if_neg hlast, decide_eq_true (by omega), Bool.true_and]
  · have hlength := length_maskLastWord words len
    rw [bit_of_length_le (by omega), bit_of_length_le (by omega), Bool.and_false]

theorem words_ext {words' : List Word} (hlength : words.length = words'.length)
    (h : ∀ row, bit words row = bit words' row) : words = words' := by
  apply ext_getElem hlength
  intro i hi hi'
  apply BitVec.eq_of_getLsbD_eq
  intro j hj
  have hrow := h (64 * i + j)
  have hdiv : (64 * i + j) / 64 = i := by omega
  have hmod : (64 * i + j) % 64 = j := by omega
  rw [bit, bit, hdiv, hmod, List.getD, List.getD, List.getElem?_eq_getElem hi,
    List.getElem?_eq_getElem hi'] at hrow
  exact hrow

/-! Selections of rows. -/

/-- The words and how many rows they are for. Bits at or past `len` can be set through `words_mut`. -/
structure SelectionBitmap where
  words : List Word
  len : Nat
  words_length : words.length = wordCount len

namespace SelectionBitmap

def none (len : Nat) : SelectionBitmap :=
  ⟨replicate (wordCount len) 0#64, len, List.length_replicate⟩

/-- `from_words`: the words cut or filled up to the rows. -/
def fromWords (words : List Word) (len : Nat) : SelectionBitmap where
  words := maskLastWord
    (words.take (wordCount len) ++ replicate (wordCount len - words.length) 0#64) len
  len := len
  words_length := by
    rw [length_maskLastWord, List.length_append, List.length_take, List.length_replicate]
    omega

def set (self : SelectionBitmap) (row : Nat) : SelectionBitmap :=
  if row < self.len then
    { self with
      words := self.words.modify (row / 64) (· ||| oneBit row)
      words_length := (List.length_modify _ _ _).trans self.words_length }
  else self

def contains (self : SelectionBitmap) (row : Nat) : Bool :=
  row < self.len && self.words.getD (row / 64) 0#64 &&& oneBit row != 0#64

/-- `u64::count_ones` of each word. -/
def countOnes (self : SelectionBitmap) : Nat :=
  (self.words.map fun word => (range 64).countP word.getLsbD).sum

/-- No bit is set at or past the length. -/
def Tidy (self : SelectionBitmap) : Prop := ∀ row, self.len ≤ row → bit self.words row = false

variable {self other : SelectionBitmap} {len : Nat}

theorem contains_eq : self.contains row = (decide (row < self.len) && bit self.words row) := by
  have hand : (self.words.getD (row / 64) 0#64 &&& oneBit row != 0#64) = bit self.words row := by
    rw [Bool.eq_iff_iff, bne_iff_ne, ne_eq, BitVec.eq_of_getLsbD_eq_iff, bit]
    constructor
    · intro h
      by_contra hbit
      apply h
      intro i hi
      rw [BitVec.getLsbD_and, getLsbD_oneBit, BitVec.getLsbD_zero]
      by_cases heq : i = row % 64
      · rw [heq, Bool.eq_false_iff.mpr hbit, Bool.false_and]
      · rw [decide_eq_false heq, Bool.and_false]
    · intro hbit h
      have hlt := Nat.mod_lt row (show 0 < 64 by decide)
      have hzero := h (row % 64) hlt
      rw [BitVec.getLsbD_and, getLsbD_oneBit, BitVec.getLsbD_zero, decide_eq_true rfl, Bool.and_true,
        hbit] at hzero
      cases hzero
  rw [contains, hand]

theorem ext (hlen : self.len = other.len) (ht : self.Tidy) (ht' : other.Tidy)
    (h : ∀ row, self.contains row = other.contains row) : self = other := by
  have hwords : self.words = other.words := by
    apply words_ext (by rw [self.words_length, other.words_length, hlen])
    intro row
    by_cases hrow : row < self.len
    · have := h row
      rwa [contains_eq, contains_eq, ← hlen, decide_eq_true hrow, Bool.true_and, Bool.true_and] at this
    · rw [ht row (by omega), ht' row (by omega)]
  cases self
  cases other
  cases hlen
  cases hwords
  rfl

@[simp] theorem none_len : (none len).len = len := rfl

theorem bit_none : bit (none len).words row = false := by
  rw [bit, none, List.getD, List.getElem?_replicate]
  split <;> exact BitVec.getLsbD_zero

theorem none_tidy : (none len).Tidy := fun _ _ => bit_none

@[simp] theorem none_contains : (none len).contains row = false := by
  rw [contains_eq, bit_none, Bool.and_false]

@[simp] theorem set_len (r : Nat) : (self.set r).len = self.len := by
  rw [set]
  split <;> rfl

theorem bit_set (r : Nat) :
    bit (self.set r).words row = (bit self.words row || decide (row = r ∧ r < self.len)) := by
  rw [set]
  by_cases hr : r < self.len
  · have hlength := self.words_length
    rw [wordCount] at hlength
    rw [if_pos hr, bit_modify _ _ _ _ (by omega)]
    by_cases hword : row / 64 = r / 64
    · rw [if_pos hword, BitVec.getLsbD_or, getLsbD_oneBit, ← hword, bit]
      congr 1
      exact decide_eq_decide.mpr (by omega)
    · rw [if_neg hword, decide_eq_false (by omega), Bool.or_false]
  · rw [if_neg hr, decide_eq_false (by omega), Bool.or_false]

theorem set_tidy (h : self.Tidy) (r : Nat) : (self.set r).Tidy := by
  intro row hrow
  rw [set_len] at hrow
  rw [bit_set, h row hrow, decide_eq_false (by omega), Bool.false_or]

theorem set_contains (r : Nat) :
    (self.set r).contains row = (self.contains row || decide (row = r ∧ r < self.len)) := by
  rw [contains_eq, contains_eq, bit_set, set_len]
  by_cases hrow : row < self.len
  · rw [decide_eq_true hrow, Bool.true_and, Bool.true_and]
  · rw [decide_eq_false hrow, decide_eq_false (by omega), Bool.false_and, Bool.false_and, Bool.or_false]

variable (h : words.length = wordCount len)
include h

theorem fromWords_eq : (fromWords words len).words = maskLastWord words len := by
  change maskLastWord (words.take (wordCount len) ++ replicate (wordCount len - words.length) 0#64) len = _
  rw [← h, take_length, Nat.sub_self, replicate_zero, append_nil]

theorem bit_fromWords :
    bit (fromWords words len).words row = (decide (row < len) && bit words row) := by
  rw [fromWords_eq h, bit_maskLastWord h]

theorem fromWords_tidy : (fromWords words len).Tidy := by
  intro row hrow
  have hrow' : ¬ row < len := Nat.not_lt.mpr hrow
  rw [bit_fromWords h, decide_eq_false hrow', Bool.false_and]

theorem fromWords_contains :
    (fromWords words len).contains row = (decide (row < len) && bit words row) := by
  have hlen : (fromWords words len).len = len := rfl
  rw [contains_eq, bit_fromWords h, hlen, ← Bool.and_assoc, Bool.and_self]

end SelectionBitmap

/-! Validity views. -/

inductive ValidityRef
  | allValid (rowCount : Nat)
  | allNull (rowCount : Nat)
  | coveNullBitmap (bytes : Bytes) (rowCount : Nat)
  deriving DecidableEq

namespace ValidityRef

def rowCount : ValidityRef → Nat
  | .allValid rowCount | .allNull rowCount | .coveNullBitmap _ rowCount => rowCount

def isAllNull : ValidityRef → Bool
  | .allNull _ => true
  | _ => false

def isValid (self : ValidityRef) (row : Nat) : Bool :=
  match self with
  | .allValid rowCount => row < rowCount
  | .allNull _ => false
  | .coveNullBitmap bytes rowCount =>
    if rowCount ≤ row then false
    else
      match bytes[row / 8]? with
      | none => false
      | some byte => byte >>> UInt8.ofNat (row % 8) &&& 1 == 0

variable {self : ValidityRef}

theorem isValid_lt (h : self.isValid row = true) : row < self.rowCount := by
  cases self with
  | allValid n => exact of_decide_eq_true h
  | allNull n => cases h
  | coveNullBitmap bytes n =>
    rw [isValid] at h
    split at h
    · cases h
    · exact Nat.lt_of_not_le (by assumption)

end ValidityRef

def coveValidityWord (nullBitmap : Bytes) (wordIndex : Nat) : Word :=
  let available := (nullBitmap.drop (wordIndex * 8)).take 8
  ~~~BitVec.ofNat 64 (leNat (available ++ replicate (8 - available.length) 0xff))

def exceptWord (validity : ValidityRef) (excluded : SelectionBitmap) (wordIndex : Nat) : Word :=
  match validity with
  | .allValid _ => ~~~excluded.words.getD wordIndex 0#64
  | .allNull _ => 0#64
  | .coveNullBitmap bytes _ =>
    coveValidityWord bytes wordIndex &&& ~~~excluded.words.getD wordIndex 0#64

/-- Every valid row that is not present in `excluded`. -/
def validRowsExcept (rowCount : Nat) (validity : ValidityRef) (excluded : SelectionBitmap) :
    SelectionBitmap :=
  let words := (range (wordCount rowCount)).map (exceptWord validity excluded)
  .fromWords (maskLastWord words rowCount) rowCount

theorem nullBit_eq (byte : UInt8) {k : Nat} (hk : k < 8) :
    (byte >>> UInt8.ofNat k &&& 1 == 0) = !byte.toNat.testBit k := by
  rw [← ValidityBitmap.shifted_bit byte hk]
  generalize byte >>> UInt8.ofNat k = shifted
  have hlow : (shifted &&& 1).toNat = shifted.toNat % 2 := by
    exact Nat.and_one_is_mod _
  rw [Bool.eq_iff_iff, beq_iff_eq, Bool.not_eq_true', beq_eq_false_iff_ne, ne_eq, ← UInt8.toNat_inj,
    ← UInt8.toNat_inj, hlow]
  change _ = 0 ↔ ¬ _ = 1
  omega

theorem getLsbD_coveValidityWord (bytes : Bytes) (row : Nat) :
    (coveValidityWord bytes (row / 64)).getLsbD (row % 64) =
      bytes[row / 8]?.any fun byte => !byte.toNat.testBit (row % 8) := by
  have hlt := Nat.mod_lt row (show 0 < 64 by decide)
  have hindex : row / 64 * 8 + row % 64 / 8 = row / 8 := by omega
  have hshift : row % 64 % 8 = row % 8 := by omega
  have hbyte : row % 64 / 8 < 8 := by omega
  rw [coveValidityWord, BitVec.getLsbD_not, BitVec.getLsbD_ofNat, decide_eq_true hlt, Bool.true_and,
    Bool.true_and]
  cases hget : bytes[row / 8]? with
  | some byte =>
    have havailable : ((bytes.drop (row / 64 * 8)).take 8)[row % 64 / 8]? = some byte := by
      rw [List.getElem?_take_of_lt hbyte, List.getElem?_drop, hindex, hget]
    obtain ⟨hlen, -⟩ := List.getElem?_eq_some_iff.mp havailable
    rw [testBit_leNat (by rw [List.getElem?_append_left hlen, havailable]), hshift]
    rfl
  | none =>
    have hpast : ((bytes.drop (row / 64 * 8)).take 8).length ≤ row % 64 / 8 := by
      have hlen := List.getElem?_eq_none_iff.mp hget
      rw [length_take, length_drop]
      omega
    have hfill : (replicate (8 - ((bytes.drop (row / 64 * 8)).take 8).length) (0xff : UInt8))[
        row % 64 / 8 - ((bytes.drop (row / 64 * 8)).take 8).length]? = some 0xff := by
      rw [List.getElem?_replicate, if_pos (by omega)]
    have hones : ∀ k < 8, (0xff : UInt8).toNat.testBit k = true := by decide
    rw [testBit_leNat (by rw [List.getElem?_append_right hpast, hfill]), hones _ (Nat.mod_lt _ (by decide))]
    rfl

theorem getLsbD_exceptWord {validity : ValidityRef} {excluded : SelectionBitmap}
    (h : row < validity.rowCount) :
    (exceptWord validity excluded (row / 64)).getLsbD (row % 64) =
      (validity.isValid row && !bit excluded.words row) := by
  have hlt := Nat.mod_lt row (show 0 < 64 by decide)
  cases validity with
  | allValid n =>
    have hrow : row < n := h
    rw [exceptWord, BitVec.getLsbD_not, decide_eq_true hlt, ValidityRef.isValid, decide_eq_true hrow, ← bit]
  | allNull n => exact BitVec.getLsbD_zero
  | coveNullBitmap bytes n =>
    have hrow : ¬ n ≤ row := Nat.not_le.mpr h
    rw [exceptWord, BitVec.getLsbD_and, BitVec.getLsbD_not, decide_eq_true hlt, Bool.true_and, ← bit,
      getLsbD_coveValidityWord, ValidityRef.isValid, if_neg hrow]
    congr 1
    cases bytes[row / 8]? with
    | none => rfl
    | some byte => exact (nullBit_eq byte (Nat.mod_lt _ (by decide))).symm

section

variable {rowCount : Nat} {validity : ValidityRef} (excluded : SelectionBitmap)

theorem length_exceptWords : (maskLastWord ((List.range (wordCount rowCount)).map
    (exceptWord validity excluded)) rowCount).length = wordCount rowCount := by
  rw [length_maskLastWord, length_map, length_range]

theorem validRowsExcept_contains (h : validity.rowCount = rowCount) (row : Nat) :
    (validRowsExcept rowCount validity excluded).contains row =
      (validity.isValid row && !bit excluded.words row) := by
  have hlength : ((List.range (wordCount rowCount)).map (exceptWord validity excluded)).length =
      wordCount rowCount := by
    rw [length_map, length_range]
  rw [validRowsExcept, SelectionBitmap.fromWords_contains (length_exceptWords excluded),
    bit_maskLastWord hlength]
  by_cases hrow : row < rowCount
  · have hword : row / 64 < wordCount rowCount := by
      rw [wordCount]
      omega
    rw [decide_eq_true hrow, Bool.true_and, Bool.true_and, bit, List.getD, List.getElem?_map,
      List.getElem?_range hword]
    exact getLsbD_exceptWord (h ▸ hrow)
  · have hinvalid : validity.isValid row = false := by
      by_contra hvalid
      exact hrow (h ▸ ValidityRef.isValid_lt (Bool.eq_true_of_not_eq_false hvalid))
    rw [decide_eq_false hrow, hinvalid, Bool.false_and, Bool.false_and]

theorem validRowsExcept_tidy : (validRowsExcept rowCount validity excluded).Tidy :=
  SelectionBitmap.fromWords_tidy (length_exceptWords excluded)

end

end CoveFormat.SelectionBitmaps
