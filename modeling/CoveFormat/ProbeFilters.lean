import CoveFormat.ByteCodes
import Mathlib.Data.Set.Lattice

namespace CoveFormat.ProbeFilters

open ByteCodes List

section

variable {α ι : Type*} (probes : α → Set ι)

/-- A filter is a set of positions: a value is put in by marking its probe positions, and may be
in the filter when all of them are marked. -/
def insert (marked : Set ι) (v : α) : Set ι := marked ∪ probes v

def MightContain (marked : Set ι) (v : α) : Prop := probes v ⊆ marked

variable {probes}

theorem foldl_insert (vs : List α) (marked : Set ι) :
    vs.foldl (insert probes) marked = marked ∪ {k | ∃ v ∈ vs, k ∈ probes v} := by
  induction vs generalizing marked with
  | nil => simp
  | cons v vs ih =>
    rw [foldl_cons, ih, insert, Set.union_assoc]
    ext k
    simp

variable {vs : List α} {v : α}

theorem mightContain_foldl (hv : v ∈ vs) (marked : Set ι) :
    MightContain probes (vs.foldl (insert probes) marked) v := by
  rw [foldl_insert]
  exact fun k hk => .inr ⟨v, hv, hk⟩

theorem mightContain_foldl_iff {asked : α → Set ι} {marked : Set ι} :
    MightContain asked (vs.foldl (insert probes) marked) v ↔
      ∀ k ∈ asked v, k ∈ marked ∨ ∃ w ∈ vs, k ∈ probes w := by
  rw [foldl_insert]
  exact Iff.rfl

end

/-! Sets of numbers as the bits of a byte string, lowest bit first. -/

def bitAt (bits : Bytes) (k : Nat) : Bool := (bits.getD (k / 8) 0).toNat.testBit (k % 8)

def setBit (bits : Bytes) (k : Nat) : Bytes :=
  bits.modify (k / 8) (· ||| 1 <<< UInt8.ofNat (k % 8))

def bitSet (bits : Bytes) : Set Nat := {k | bitAt bits k = true}

@[simp] theorem setBit_length (bits : Bytes) (k : Nat) : (setBit bits k).length = bits.length :=
  length_modify ..

theorem toNat_shiftLeft_one {r : Nat} (h : r < 8) :
    (1 <<< UInt8.ofNat r : UInt8).toNat = 2 ^ r := by
  have hall : ∀ r : Fin 8, (1 <<< UInt8.ofNat r.val : UInt8).toNat = 2 ^ r.val := by decide
  exact hall ⟨r, h⟩

variable {bits : Bytes} {k : Nat}

theorem bitAt_setBit (hk : k / 8 < bits.length) (j : Nat) :
    bitAt (setBit bits k) j = (decide (j = k) || bitAt bits j) := by
  have hjk : j = k ↔ k / 8 = j / 8 ∧ k % 8 = j % 8 := by omega
  rw [bitAt, bitAt, setBit, getD_eq_getElem?_getD, getD_eq_getElem?_getD,
    List.getElem?_modify]
  by_cases hbyte : k / 8 = j / 8
  · have hj : j / 8 < bits.length := hbyte ▸ hk
    have hbit : decide (j = k) = decide (k % 8 = j % 8) :=
      decide_eq_decide.mpr (hjk.trans (and_iff_right hbyte))
    rw [List.getElem?_eq_getElem hj, Option.map_eq_map, Option.map_some, if_pos hbyte,
      Option.getD_some, Option.getD_some, UInt8.toNat_or,
      toNat_shiftLeft_one (Nat.mod_lt k (by decide)), Nat.testBit_or, Nat.testBit_two_pow,
      Bool.or_comm, hbit]
  · have hne : j ≠ k := fun h => hbyte (hjk.mp h).1
    simp [hbyte, hne]

theorem bitSet_setBit (hk : k / 8 < bits.length) : bitSet (setBit bits k) = bitSet bits ∪ {k} := by
  ext j
  rw [bitSet, Set.mem_ofPred_eq, bitAt_setBit hk, Bool.or_eq_true, decide_eq_true_iff, or_comm]
  rfl

theorem bitSet_foldl_setBit {ks : List Nat} (h : ∀ k ∈ ks, k / 8 < bits.length) :
    bitSet (ks.foldl setBit bits) = bitSet bits ∪ {k | k ∈ ks} := by
  induction ks generalizing bits with
  | nil => simp
  | cons k ks ih =>
    rw [foldl_cons, ih fun a ha => (setBit_length bits k).symm ▸ h a (.tail _ ha),
      bitSet_setBit (h k (.head _)), Set.union_assoc]
    congr 1
    ext j
    simp

theorem foldl_setBit_length (ks : List Nat) (bits : Bytes) :
    (ks.foldl setBit bits).length = bits.length := by
  induction ks generalizing bits with
  | nil => rfl
  | cons k ks ih => rw [foldl_cons, ih, setBit_length]

theorem bits_ext {xs ys : Bytes} (hlen : xs.length = ys.length) (h : bitSet xs = bitSet ys) : xs = ys := by
  refine ext_getElem hlen fun i hi hi' => UInt8.toNat_inj.mp (Nat.eq_of_testBit_eq fun j => ?_)
  by_cases hj : j < 8
  · have hbit : bitAt xs (8 * i + j) = bitAt ys (8 * i + j) := Bool.eq_iff_iff.mpr (Set.ext_iff.mp h _)
    have hbyte : (8 * i + j) / 8 = i := by omega
    have hrest : (8 * i + j) % 8 = j := by omega
    rwa [bitAt, bitAt, hbyte, hrest, getD_eq_getElem _ _ hi, getD_eq_getElem _ _ hi'] at hbit
  · have hbyte (b : UInt8) : b.toNat.testBit j = false :=
      Nat.testBit_lt_two_pow (b.toNat_lt.trans_le (Nat.pow_le_pow_right Nat.two_pos (not_lt.mp hj)))
    rw [hbyte, hbyte]

end CoveFormat.ProbeFilters
