import CoveFormat.ByteCodes
import CoveFormat.CoveError
import Mathlib.Tactic.Ring

namespace CoveFormat.Wire

open ByteCodes List

def encodeU64Leb128 (value : Nat) : Bytes :=
  if value >>> 7 = 0 then [UInt8.ofNat (value &&& 0x7f)]
  else UInt8.ofNat (value &&& 0x7f ||| 0x80) :: encodeU64Leb128 (value >>> 7)
termination_by value
decreasing_by
  rw [Nat.shiftRight_eq_div_pow] at *
  omega

def decodeLeb128Loop : Bytes → Nat → Nat → Nat → Except CoveError (Nat × Nat)
  | [], _, _, _ => .error .bufferTooShort
  | byte :: rest, value, shift, i =>
    let low := (byte &&& 0x7f).toNat
    if 64 ≤ shift then .error .arithOverflow
    else if 64 - shift < 7 ∧ 1 <<< (64 - shift) ≤ low then .error .arithOverflow
    else if byte &&& 0x80 = 0 then .ok (value ||| low <<< shift, i + 1)
    else if 64 ≤ shift + 7 then .error .arithOverflow
    else decodeLeb128Loop rest (value ||| low <<< shift) (shift + 7) (i + 1)

def decodeU64Leb128 (bytes : Bytes) : Except CoveError (Nat × Nat) :=
  decodeLeb128Loop bytes 0 0 0

theorem encodeU64Leb128_eq_varint (n : Nat) : encodeU64Leb128 n = varint n := by
  induction n using Nat.strong_induction_on with
  | _ n ih =>
    have hb : n &&& 0x7f = n % 128 := Nat.and_two_pow_sub_one_eq_mod n 7
    have hr : n >>> 7 = n / 128 := Nat.shiftRight_eq_div_pow n 7
    rw [encodeU64Leb128, hb, hr]
    by_cases h : n < 128
    · rw [varint_small h, if_pos (by omega), Nat.mod_eq_of_lt h]
    · have ho : n % 128 ||| 0x80 = n % 128 + 128 := by
        have hor : 128 + n % 128 = 128 ||| n % 128 :=
          Nat.two_pow_add_eq_or_of_lt (show n % 128 < 2 ^ 7 by omega) 1
        rw [Nat.or_comm]
        omega
      rw [varint_large h, if_neg (by omega), ih (n / 128) (by omega), ho]

theorem low_bits (b : UInt8) : (b &&& 0x7f).toNat = b.toNat % 128 := by
  exact Nat.and_two_pow_sub_one_eq_mod b.toNat 7

theorem last_byte_iff (b : UInt8) : b &&& 0x80 = 0 ↔ b.toNat < 128 := by
  have hb := b.toNat_lt
  have hand : b.toNat &&& 128 = (b.toNat.testBit 7).toNat * 128 := Nat.and_two_pow b.toNat 7
  rw [← UInt8.toNat_inj, UInt8.toNat_and]
  change b.toNat &&& 128 = 0 ↔ b.toNat < 128
  rw [hand, Nat.testBit_eq_decide_div_mod_eq]
  by_cases h : b.toNat < 128
  · have h0 : b.toNat / 2 ^ 7 % 2 = 0 := by omega
    simp [h]
    omega
  · have h1 : b.toNat / 2 ^ 7 % 2 = 1 := by omega
    simp [h]
    omega

variable {value shift : Nat}

theorem decodeLeb128Loop_cons (b : UInt8) (rest : Bytes) (i : Nat) (hv : value < 2 ^ shift) :
    decodeLeb128Loop (b :: rest) value shift i =
      if 64 ≤ shift ∨ (64 - shift < 7 ∧ 2 ^ (64 - shift) ≤ b.toNat % 128) then .error .arithOverflow
      else if b.toNat < 128 then .ok (value + b.toNat % 128 * 2 ^ shift, i + 1)
      else if 64 ≤ shift + 7 then .error .arithOverflow
      else decodeLeb128Loop rest (value + b.toNat % 128 * 2 ^ shift) (shift + 7) (i + 1) := by
  have ho : value ||| (b.toNat % 128) <<< shift = value + b.toNat % 128 * 2 ^ shift := by
    rw [Nat.shiftLeft_eq, Nat.or_comm, Nat.mul_comm, ← Nat.two_pow_add_eq_or_of_lt hv]
    ring
  rw [decodeLeb128Loop]
  simp only [low_bits, last_byte_iff, ho, Nat.one_shiftLeft]
  by_cases h : 64 ≤ shift
  · simp [h]
  · simp [h]

variable {low : Nat}

theorem group_lt (hs : shift < 64) (hv : value < 2 ^ shift) (hl : low < 2 ^ (64 - shift)) :
    value + low * 2 ^ shift < 2 ^ 64 := by
  have hp : 2 ^ (64 - shift) * 2 ^ shift = 2 ^ 64 := by
    rw [← pow_add, Nat.sub_add_cancel (by omega)]
  have hm : (low + 1) * 2 ^ shift ≤ 2 ^ (64 - shift) * 2 ^ shift :=
    Nat.mul_le_mul_right _ hl
  rw [Nat.succ_mul] at hm
  omega

theorem next_group_lt (hv : value < 2 ^ shift) (hl : low < 128) :
    value + low * 2 ^ shift < 2 ^ (shift + 7) := by
  have hm : (low + 1) * 2 ^ shift ≤ 128 * 2 ^ shift := Nat.mul_le_mul_right _ hl
  rw [Nat.succ_mul] at hm
  rw [pow_add]
  omega

variable {bytes : Bytes} {n k : Nat}

theorem decodeLeb128Loop_ok {i : Nat} (hv : value < 2 ^ shift)
    (h : decodeLeb128Loop bytes value shift i = .ok (n, k)) :
    n < 2 ^ 64 ∧ ∃ x rest, bytes = x ++ rest ∧ k = i + x.length ∧ 0 < x.length ∧
      ∀ c, decodeLeb128Loop (x ++ c) value shift i = .ok (n, k) := by
  induction bytes generalizing value shift i with
  | nil => cases h
  | cons b bytes ih =>
    have hb : b.toNat % 128 < 128 := Nat.mod_lt _ (by omega)
    rw [decodeLeb128Loop_cons b bytes i hv] at h
    split at h
    · cases h
    · rename_i hguard
      push Not at hguard
      split at h
      · rename_i hlast
        obtain ⟨rfl, rfl⟩ := h
        have hlow : b.toNat % 128 < 2 ^ (64 - shift) := by
          by_cases h7 : 64 - shift < 7
          · exact hguard.2 h7
          · have hp : 2 ^ 7 ≤ 2 ^ (64 - shift) := Nat.pow_le_pow_right (by omega) (by omega)
            omega
        refine ⟨group_lt hguard.1 hv hlow, [b], bytes, rfl, rfl, by simp, fun c => ?_⟩
        rw [singleton_append, decodeLeb128Loop_cons b c i hv, if_neg (by push Not; exact hguard),
          if_pos hlast]
      · rename_i hmore
        split at h
        · cases h
        · rename_i hshift
          obtain ⟨hn, x, rest, rfl, hk, -, hc⟩ := ih (next_group_lt hv hb) h
          refine ⟨hn, b :: x, rest, rfl, ?_, by simp, fun c => ?_⟩
          · rw [hk, length_cons]
            omega
          · rw [cons_append, decodeLeb128Loop_cons b _ i hv,
              if_neg (by push Not; exact hguard), if_neg hmore, if_neg hshift, hc]

theorem decodeLeb128Loop_varint (n : Nat) (c : Bytes) (i : Nat) (hv : value < 2 ^ shift)
    (hs : shift < 64) (hn : n < 2 ^ (64 - shift)) :
    decodeLeb128Loop (varint n ++ c) value shift i =
      .ok (value + n * 2 ^ shift, i + (varint n).length) := by
  induction n using Nat.strong_induction_on generalizing value shift i with
  | _ n ih =>
    by_cases h : n < 128
    · have hb : (UInt8.ofNat n).toNat = n := toNat_ofNat_of_lt (by omega)
      rw [varint_small h, singleton_append, decodeLeb128Loop_cons _ _ _ hv, hb,
        Nat.mod_eq_of_lt h, if_neg (by omega), if_pos h]
      rfl
    · have hb : (UInt8.ofNat (n % 128 + 128)).toNat = n % 128 + 128 :=
        toNat_ofNat_of_lt (by omega)
      have h7 : 7 < 64 - shift := by
        by_contra h7
        have hp : 2 ^ (64 - shift) ≤ 2 ^ 7 := Nat.pow_le_pow_right (by omega) (by omega)
        omega
      have hsplit : 2 ^ (64 - shift) = 2 ^ 7 * 2 ^ (64 - (shift + 7)) := by
        rw [show 64 - shift = 7 + (64 - (shift + 7)) by omega, pow_add]
      have hmod : (n % 128 + 128) % 128 = n % 128 := by omega
      rw [varint_large h, cons_append, decodeLeb128Loop_cons _ _ _ hv, hb, hmod,
        if_neg (by omega), if_neg (by omega), if_neg (by omega),
        ih (n / 128) (by omega) _ (next_group_lt hv (by omega)) (by omega) (by omega)]
      rw [pow_add, length_cons, Except.ok.injEq, Prod.mk.injEq]
      refine ⟨?_, by omega⟩
      have hd : n = n % 128 + 128 * (n / 128) := by omega
      calc value + n % 128 * 2 ^ shift + n / 128 * (2 ^ shift * 2 ^ 7)
          = value + (n % 128 + 128 * (n / 128)) * 2 ^ shift := by ring
        _ = value + n * 2 ^ shift := by rw [← hd]

theorem decodeU64Leb128_ok (h : decodeU64Leb128 bytes = .ok (n, k)) :
    n < 2 ^ 64 ∧ 0 < k ∧ k ≤ bytes.length ∧
      ∀ c, decodeU64Leb128 (bytes.take k ++ c) = .ok (n, k) := by
  obtain ⟨hn, x, rest, rfl, hk, hx, hc⟩ := decodeLeb128Loop_ok (by omega) h
  rw [Nat.zero_add] at hk
  subst hk
  refine ⟨hn, hx, by simp, fun c => ?_⟩
  rw [take_left]
  exact hc c

theorem decodeU64Leb128_varint (hn : n < 2 ^ 64) (c : Bytes) :
    decodeU64Leb128 (varint n ++ c) = .ok (n, (varint n).length) := by
  rw [decodeU64Leb128, decodeLeb128Loop_varint n c 0 (by omega) (by omega) hn]
  simp

end CoveFormat.Wire
