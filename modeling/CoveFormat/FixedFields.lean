import CoveFormat.ByteCodes
import CoveFormat.CoveError
import Mathlib.Algebra.BigOperators.Group.List.Basic
import Mathlib.Data.Vector.Defs

namespace CoveFormat.FixedFields

open ByteCodes ExceptRules List

abbrev Fields := List (Nat × Nat)

def width (fields : Fields) : Nat := (fields.map Prod.fst).sum

def encodeFields (fields : Fields) : Bytes := fields.flatMap fun f => leBytes f.1 f.2

def readUint (width : Nat) (bytes : Bytes) (offset : Nat) : Nat :=
  leNat ((bytes.drop offset).take width)

section

variable (bytes : Bytes)

def readU8 (offset : Nat) : UInt8 := UInt8.ofNat (readUint 1 bytes offset)

def readU16 (offset : Nat) : UInt16 := UInt16.ofNat (readUint 2 bytes offset)

def readU32 (offset : Nat) : UInt32 := UInt32.ofNat (readUint 4 bytes offset)

def readU64 (offset : Nat) : UInt64 := UInt64.ofNat (readUint 8 bytes offset)

end

theorem encodeFields_append (xs ys : Fields) :
    encodeFields (xs ++ ys) = encodeFields xs ++ encodeFields ys :=
  flatMap_append

theorem encodeFields_cons (f : Nat × Nat) (fields : Fields) :
    encodeFields (f :: fields) = leBytes f.1 f.2 ++ encodeFields fields :=
  flatMap_cons

@[simp] theorem encodeFields_length (fields : Fields) :
    (encodeFields fields).length = width fields := by
  induction fields with
  | nil => rfl
  | cons f fields ih =>
    rw [encodeFields_cons, length_append, leBytes_length, ih, width, width, map_cons,
      sum_cons]

theorem readUint_encodeFields (before after : Fields) (w n : Nat) (rest : Bytes) :
    readUint w (encodeFields (before ++ (w, n) :: after) ++ rest) (width before) = n % 256 ^ w := by
  have hsplit : encodeFields (before ++ (w, n) :: after) ++ rest =
      encodeFields before ++ (leBytes w n ++ (encodeFields after ++ rest)) := by
    rw [encodeFields_append, encodeFields_cons, append_assoc, append_assoc]
  have htake : (leBytes w n ++ (encodeFields after ++ rest)).take w = leBytes w n :=
    take_left' (leBytes_length w n)
  rw [readUint, hsplit, ← encodeFields_length before, drop_left, htake, leNat_leBytes]

theorem readUint_append_right (w : Nat) (xs ys : Bytes) (offset : Nat) :
    readUint w (xs ++ ys) (xs.length + offset) = readUint w ys offset := by
  rw [readUint, readUint, drop_length_add_append]

/-- The numbers fit the widths of their fields. -/
def Fit (fields : Fields) : Prop := ∀ f ∈ fields, f.2 < 256 ^ f.1

theorem encodeFields_cancel {xs ys : Fields} {r s : Bytes}
    (hw : xs.map Prod.fst = ys.map Prod.fst) (hx : Fit xs) (hy : Fit ys)
    (h : encodeFields xs ++ r = encodeFields ys ++ s) : xs = ys ∧ r = s := by
  induction xs generalizing ys with
  | nil =>
    cases ys with
    | nil => exact ⟨rfl, h⟩
    | cons g ys => cases hw
  | cons f xs ih =>
    cases ys with
    | nil => cases hw
    | cons g ys =>
      obtain ⟨k, m⟩ := f
      obtain ⟨l, n⟩ := g
      obtain ⟨hk, hws⟩ := List.cons.inj hw
      change k = l at hk
      subst hk
      have hm : m < 256 ^ k := hx (k, m) mem_cons_self
      have hn : n < 256 ^ k := hy (k, n) mem_cons_self
      simp only [encodeFields_cons, append_assoc] at h
      obtain ⟨hhead, htail⟩ := append_inj h (by simp)
      have hmn := leBytes_inj hm hn hhead
      obtain ⟨rfl, hrs⟩ := ih hws (fun f hf => hx f (.tail _ hf)) (fun f hf => hy f (.tail _ hf)) htail
      exact ⟨by rw [hmn], hrs⟩

/-- The first `count` pieces of `size` bytes. -/
def chunksExact (size : Nat) : Nat → Bytes → List Bytes
  | 0, _ => []
  | count + 1, bytes => bytes.take size :: chunksExact size count (bytes.drop size)

variable {size : Nat} {chunks : List Bytes}

section

variable (h : ∀ chunk ∈ chunks, chunk.length = size)
include h

theorem chunksExact_flatten : chunksExact size chunks.length chunks.flatten = chunks := by
  induction chunks with
  | nil => rfl
  | cons chunk chunks ih =>
    have hsize := h chunk mem_cons_self
    rw [length_cons, chunksExact, flatten_cons, take_left' hsize,
      drop_left' hsize, ih fun c hc => h c (.tail _ hc)]

theorem length_flatten_eq : chunks.flatten.length = chunks.length * size := by
  rw [length_flatten, map_congr_left h, map_const', sum_replicate_nat]

end

section

variable {fields : Fields} {offset : Nat}

theorem width_take {widths : List Nat} (h : fields.map Prod.fst = widths) (i : Nat) :
    width (fields.take i) = (widths.take i).sum := by
  rw [width, map_take, h]

theorem readUint_field {w n : Nat} (i : Nat) (h : fields[i]? = some (w, n))
    (ho : width (fields.take i) = offset) (rest : Bytes) :
    readUint w (encodeFields fields ++ rest) offset = n % 256 ^ w := by
  obtain ⟨hi, hget⟩ := List.getElem?_eq_some_iff.mp h
  have hsplit : fields = fields.take i ++ (w, n) :: fields.drop (i + 1) := by
    rw [← hget, getElem_cons_drop, take_append_drop]
  have hread := readUint_encodeFields (fields.take i) (fields.drop (i + 1)) w n rest
  rwa [← hsplit, ho] at hread

theorem readU8_field (i : Nat) {x : UInt8} (h : fields[i]? = some (1, x.toNat))
    (ho : width (fields.take i) = offset) (rest : Bytes) :
    readU8 (encodeFields fields ++ rest) offset = x := by
  rw [readU8, readUint_field i h ho, Nat.mod_eq_of_lt (by simpa using x.toNat_lt), UInt8.ofNat_toNat]

theorem readU16_field (i : Nat) {x : UInt16} (h : fields[i]? = some (2, x.toNat))
    (ho : width (fields.take i) = offset) (rest : Bytes) :
    readU16 (encodeFields fields ++ rest) offset = x := by
  rw [readU16, readUint_field i h ho, Nat.mod_eq_of_lt (by simpa using x.toNat_lt), UInt16.ofNat_toNat]

theorem readU32_field (i : Nat) {x : UInt32} (h : fields[i]? = some (4, x.toNat))
    (ho : width (fields.take i) = offset) (rest : Bytes) :
    readU32 (encodeFields fields ++ rest) offset = x := by
  rw [readU32, readUint_field i h ho, Nat.mod_eq_of_lt (by simpa using x.toNat_lt), UInt32.ofNat_toNat]

theorem readU64_field (i : Nat) {x : UInt64} (h : fields[i]? = some (8, x.toNat))
    (ho : width (fields.take i) = offset) (rest : Bytes) :
    readU64 (encodeFields fields ++ rest) offset = x := by
  rw [readU64, readUint_field i h ho, Nat.mod_eq_of_lt (by simpa using x.toNat_lt), UInt64.ofNat_toNat]

end

/-- `ok_or(CoveError::BadIndex)`. -/
def orBadIndex {α : Type} (found : Option α) : Except CoveError α :=
  match found with
  | some value => .ok value
  | none => .error .badIndex

theorem orBadIndex_ok_iff {α : Type} {found : Option α} {value : α} :
    orBadIndex found = .ok value ↔ found = some value := by
  cases found <;> simp [orBadIndex]

/-- `checked_region`, with a 64-bit `usize`. -/
def checkedRegion (bytes : Bytes) (offset length : Nat) : Except CoveError Bytes := do
  rejectIf (2 ^ 64 ≤ offset + length) .arithOverflow
  rejectIf (bytes.length < offset + length) .offsetRange
  .ok ((bytes.drop offset).take length)

theorem checkedRegion_ok_iff {bytes region : Bytes} {offset length : Nat} :
    checkedRegion bytes offset length = .ok region ↔
      offset + length < 2 ^ 64 ∧ offset + length ≤ bytes.length ∧
        (bytes.drop offset).take length = region := by
  simp only [checkedRegion, andThen_eq_ok_iff, rejectIf_eq_ok_iff, not_le, not_lt,
    Except.ok.injEq, exists_const]

/-! Images of one length, one after the other. -/

section

variable {α : Type} {image : α → Bytes} {len : Nat} {as : List α} {a : α} {i : Nat}

variable (h : ∀ a, (image a).length = len)
include h

theorem length_flatMap_const (as : List α) : (as.flatMap image).length = as.length * len := by
  induction as with
  | nil => simp
  | cons a as ih =>
    rw [flatMap_cons, length_append, h, ih, length_cons, Nat.succ_mul, Nat.add_comm]

theorem slice_flatMap_const (ha : as[i]? = some a) (rest : Bytes) :
    ((as.flatMap image ++ rest).drop (i * len)).take len = image a := by
  induction as generalizing i with
  | nil => cases ha
  | cons a' as ih =>
    rw [flatMap_cons, append_assoc]
    cases i with
    | zero =>
      obtain rfl := Option.some.inj ha
      rw [Nat.zero_mul, drop_zero, take_left' (h a')]
    | succ i =>
      rw [Nat.succ_mul, Nat.add_comm, ← h a', drop_length_add_append, h a']
      exact ih ha

end

section

-- The CRC32C of the checksum package.
variable (crc32c : Bytes → UInt32)

def withoutChecksum (bytes : Bytes) (offset : Nat) : Bytes :=
  bytes.take offset ++ replicate 4 0 ++ bytes.drop (offset + 4)

def verifyChecksumField (bytes : Bytes) (offset : Nat) : Except CoveError UInt32 := do
  rejectIf (bytes.length < offset + 4) .bufferTooShort
  rejectIf (crc32c (withoutChecksum bytes offset) ≠ readU32 bytes offset) .checksumMismatch
  .ok (readU32 bytes offset)

def encodeChecksummed (fields : Fields) : Bytes :=
  encodeFields fields ++
    leBytes 4 (crc32c (encodeFields fields ++ replicate 4 0)).toNat

@[simp] theorem encodeChecksummed_length (fields : Fields) :
    (encodeChecksummed crc32c fields).length = width fields + 4 := by
  simp [encodeChecksummed]

variable {crc32c}

theorem verifyChecksumField_encode {fields : Fields} {offset : Nat} (h : width fields = offset) :
    verifyChecksumField crc32c (encodeChecksummed crc32c fields) offset =
      .ok (crc32c (encodeFields fields ++ replicate 4 0)) := by
  subst h
  have hread : readU32 (encodeChecksummed crc32c fields) (width fields) =
      crc32c (encodeFields fields ++ replicate 4 0) := by
    rw [encodeChecksummed, readU32, readUint, ← encodeFields_length, drop_left,
      take_of_length_le (by simp), leNat_leBytes, Nat.mod_eq_of_lt, UInt32.ofNat_toNat]
    simpa using UInt32.toNat_lt _
  have hzero : withoutChecksum (encodeChecksummed crc32c fields) (width fields) =
      encodeFields fields ++ replicate 4 0 := by
    rw [withoutChecksum, drop_of_length_le (by simp), append_nil, encodeChecksummed,
      ← encodeFields_length, take_left]
  rw [verifyChecksumField, hread, hzero, encodeChecksummed_length, rejectIf, if_neg (by simp),
    rejectIf, if_neg (by simp)]
  rfl

end

def crcShift (crc : Nat) : Nat := if crc % 2 = 1 then (crc / 2) ^^^ 0x82f63b78 else crc / 2

def castagnoli (bytes : Bytes) : UInt32 :=
  UInt32.ofNat (bytes.foldl (fun crc b => crcShift^[8] (crc ^^^ b.toNat)) 0xffffffff ^^^ 0xffffffff)

example : castagnoli [49, 50, 51, 52, 53, 54, 55, 56, 57] = 0xe3069283 := by decide +kernel

end CoveFormat.FixedFields
