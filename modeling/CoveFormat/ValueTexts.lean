import CoveFormat.IntegerTexts
import CoveFormat.PropertyValues
import Mathlib.Data.String.Basic

namespace CoveFormat.ValueTexts

open ExprEval IntegerTexts JsonValue PropertyValues Temporal TemporalPushdown List Option Except

/-- The hex digits of the last `16 ^ k` of a number. -/
def hexChars (k id : Nat) : List Char :=
  (range k).map fun i => Nat.digitChar (id / 16 ^ (k - 1 - i) % 16)

theorem hexEncode_toList (id : Id16) : (hexEncode id).toList = hexChars 32 id := by
  rw [hexEncode, String.toList_ofList]
  rfl

theorem hexChars_succ (k id : Nat) :
    hexChars (k + 1) id = hexChars k (id / 16) ++ [Nat.digitChar (id % 16)] := by
  rw [hexChars, range_succ, map_append, map_singleton]
  congr 1
  · apply map_congr_left
    intro i hi
    have hi := mem_range.mp hi
    have hpow : 16 ^ (k + 1 - 1 - i) = 16 * 16 ^ (k - 1 - i) := by
      rw [← pow_succ']
      congr 1
      omega
    rw [hpow, Nat.div_div_eq_div_mul]
  · simp

theorem hexNibble_digitChar : ∀ d < 16, hexNibble (Nat.digitChar d) = some d := by decide

theorem hexDigits_append (id : Nat) (cs ds : List Char) :
    hexDigits id (cs ++ ds) = (hexDigits id cs).bind fun id => hexDigits id ds := by
  induction cs generalizing id with
  | nil => rfl
  | cons c cs ih =>
    rw [cons_append, hexDigits, hexDigits]
    cases hexNibble c with
    | none => rfl
    | some digit => exact ih _

theorem hexDigits_hexChars (k id : Nat) : hexDigits 0 (hexChars k id) = some (id % 16 ^ k) := by
  induction k generalizing id with
  | zero =>
    rw [pow_zero, Nat.mod_one]
    rfl
  | succ k ih =>
    have hmod : id % 16 ^ (k + 1) = 16 * (id / 16 % 16 ^ k) + id % 16 := by
      rw [pow_succ', Nat.mod_mul, Nat.add_comm]
    rw [hexChars_succ, hexDigits_append, ih, bind_some, hexDigits,
      hexNibble_digitChar _ (Nat.mod_lt _ (by decide)), bind_some, hexDigits, hmod]

variable {c : Char}

theorem hexNibble_lt {d : Nat} (h : hexNibble c = some d) : d < 16 := by
  unfold hexNibble at h
  split at h
  · rename_i hc
    have hle : c.toNat ≤ '9'.toNat := hc.2
    have hd := some.inj h
    have h9 : '9'.toNat = 57 := rfl
    have h0 : '0'.toNat = 48 := rfl
    omega
  · split at h
    · rename_i hc
      have hle : c.toNat ≤ 'f'.toNat := hc.2
      have hd := some.inj h
      have hf : 'f'.toNat = 102 := rfl
      have ha : 'a'.toNat = 97 := rfl
      omega
    · split at h
      · rename_i hc
        have hle : c.toNat ≤ 'F'.toNat := hc.2
        have hd := some.inj h
        have hf : 'F'.toNat = 70 := rfl
        have ha : 'A'.toNat = 65 := rfl
        omega
      · cases h

variable {id : Nat} {cs : List Char}

theorem hexDigits_lt {acc : Nat} (h : hexDigits acc cs = some id) :
    id < (acc + 1) * 16 ^ cs.length := by
  induction cs generalizing acc with
  | nil =>
    rw [← some.inj h, length_nil, pow_zero, mul_one]
    exact Nat.lt_succ_self _
  | cons c cs ih =>
    obtain ⟨d, hd, h⟩ := bind_eq_some_iff.mp h
    have hlt := hexNibble_lt hd
    calc id < (16 * acc + d + 1) * 16 ^ cs.length := ih h
      _ ≤ (16 * (acc + 1)) * 16 ^ cs.length := Nat.mul_le_mul_right _ (by omega)
      _ = (acc + 1) * 16 ^ (c :: cs).length := by
          rw [length_cons, pow_succ', Nat.mul_comm 16, Nat.mul_assoc]

theorem length_le_utf8Len (cs : List Char) : cs.length ≤ String.utf8Len cs := by
  induction cs with
  | nil => exact le_rfl
  | cons c cs ih =>
    have hpos := c.utf8Size_pos
    rw [length_cons, String.utf8Len_cons]
    omega

theorem utf8Len_of_ascii (h : ∀ c ∈ cs, c.utf8Size = 1) : String.utf8Len cs = cs.length := by
  induction cs with
  | nil => rfl
  | cons c cs ih =>
    obtain ⟨hc, hcs⟩ := forall_mem_cons.mp h
    rw [String.utf8Len_cons, ih hcs, hc, length_cons]

theorem length_le_utf8ByteSize (text : String) : text.toList.length ≤ text.utf8ByteSize := by
  have h := length_le_utf8Len text.toList
  rwa [← String.utf8ByteSize_ofList, String.ofList_toList] at h

theorem digitChar_plain : ∀ d < 16,
    isWhitespace (Nat.digitChar d) = false ∧ (Nat.digitChar d).utf8Size = 1 := by decide

theorem mem_hexChars {k : Nat} (h : c ∈ hexChars k id) :
    isWhitespace c = false ∧ c.utf8Size = 1 := by
  obtain ⟨i, -, rfl⟩ := mem_map.mp h
  exact digitChar_plain _ (Nat.mod_lt _ (by decide))

theorem dropWhile_of_all_false {p : Char → Bool} (h : ∀ c ∈ cs, p c = false) :
    cs.dropWhile p = cs := by
  cases cs with
  | nil => rfl
  | cons c cs => rw [dropWhile_cons, h c mem_cons_self]; rfl

variable {text : String}

theorem trim_eq (h : ∀ c ∈ text.toList, isWhitespace c = false) : trim text = text := by
  have hrev : ∀ c ∈ text.toList.reverse, isWhitespace c = false := fun c hc =>
    h c (mem_reverse.mp hc)
  rw [trim, dropWhile_of_all_false h, dropWhile_of_all_false hrev, reverse_reverse,
    String.ofList_toList]

theorem hexDecode16_hexEncode {id : Id16} (h : id < 16 ^ 32) :
    hexDecode16 (hexEncode id) = .ok id := by
  have htrim : trim (hexEncode id) = hexEncode id := by
    apply trim_eq
    intro c hc
    rw [hexEncode_toList] at hc
    exact (mem_hexChars hc).1
  have hsize : (hexEncode id).utf8ByteSize = 32 := by
    rw [← @String.ofList_toList (hexEncode id), String.utf8ByteSize_ofList, hexEncode_toList,
      utf8Len_of_ascii fun c hc => (mem_hexChars hc).2, hexChars, length_map, length_range]
  rw [hexDecode16, htrim, hsize, if_neg (not_not.mpr rfl), hexEncode_toList, hexDigits_hexChars,
    Nat.mod_eq_of_lt h]

theorem hexDecode16_lt {id : Id16} (h : hexDecode16 text = .ok id) : id < 16 ^ 32 := by
  rw [hexDecode16] at h
  split at h
  · cases h
  · rename_i hsize
    split at h
    · rename_i id' hdigits
      have hlt := hexDigits_lt hdigits
      rw [Nat.zero_add, Nat.one_mul] at hlt
      rw [← ok.inj h]
      refine hlt.trans_le (Nat.pow_le_pow_right (by decide) ?_)
      exact (length_le_utf8ByteSize _).trans (not_not.mp hsize).le
    · cases h

theorem parseI128_eq (text : String) : parseI128 text = (signedMagnitude text.toList).bind i128 := rfl

theorem parseI128_toString (n : Int) : parseI128 (toString n) = i128 n := by
  rw [parseI128_eq, signedMagnitude_toString, bind_some]

end CoveFormat.ValueTexts
