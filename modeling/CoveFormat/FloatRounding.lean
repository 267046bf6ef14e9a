import CoveFormat.NumCodes

namespace CoveFormat.Floats

open JsonValue NumCodes

theorem decodeUnits_lt_succ (w n : Nat) : decodeUnits w n < decodeUnits w (n + 1) := by
  have hpos := Nat.two_pow_pos w
  have hsplit := Nat.div_add_mod n (2 ^ w)
  by_cases hlast : n % 2 ^ w + 1 = 2 ^ w
  · -- The fraction is full, so the exponent grows.
    have hnext : n + 1 = (n / 2 ^ w + 1) * 2 ^ w := by
      rw [Nat.succ_mul, Nat.mul_comm]
      omega
    have hdiv : (n + 1) / 2 ^ w = n / 2 ^ w + 1 := by rw [hnext, Nat.mul_div_cancel _ hpos]
    have hzero : (n + 1) % 2 ^ w = 0 := by rw [hnext, Nat.mul_mod_left]
    rw [decodeUnits, decodeUnits, hdiv, hzero, if_neg (Nat.succ_ne_zero _), Nat.zero_add,
      Nat.add_sub_cancel]
    split
    · rename_i he
      rw [he] at hsplit ⊢
      omega
    · rename_i he
      obtain ⟨e, he'⟩ := Nat.exists_eq_succ_of_ne_zero he
      rw [he', Nat.succ_eq_add_one, Nat.add_sub_cancel, Nat.pow_succ']
      have hlt : n % 2 ^ w + 2 ^ w < 2 ^ w * 2 := by omega
      calc (n % 2 ^ w + 2 ^ w) * 2 ^ e < 2 ^ w * 2 * 2 ^ e :=
            Nat.mul_lt_mul_of_pos_right hlt (Nat.two_pow_pos e)
        _ = 2 ^ w * (2 * 2 ^ e) := Nat.mul_assoc _ _ _
  · have hdiv : (n + 1) / 2 ^ w = n / 2 ^ w := by
      refine Nat.div_eq_of_lt_le ?_ ?_
      · rw [Nat.mul_comm]
        omega
      · rw [Nat.succ_mul, Nat.mul_comm]
        omega
    have hfraction : (n + 1) % 2 ^ w = n % 2 ^ w + 1 := by
      have hsplit' := Nat.div_add_mod (n + 1) (2 ^ w)
      rw [hdiv] at hsplit'
      omega
    rw [decodeUnits, decodeUnits, hdiv, hfraction]
    split
    · omega
    · exact Nat.mul_lt_mul_of_pos_right (by omega) (Nat.two_pow_pos _)

theorem decodeUnits_strictMono (w : Nat) : StrictMono (decodeUnits w) :=
  strictMono_nat_of_lt_succ (decodeUnits_lt_succ w)

variable {unit m n : Nat}

theorem roundHalfEven_mono (h : m ≤ n) : roundHalfEven m unit ≤ roundHalfEven n unit := by
  have hdiv := Nat.div_le_div_right (c := unit) h
  have hm := Nat.div_add_mod m unit
  have hn := Nat.div_add_mod n unit
  rw [roundHalfEven, roundHalfEven]
  rcases Nat.lt_or_eq_of_le hdiv with hlt | heq
  · split <;> split <;> omega
  · rw [heq] at hm ⊢
    split <;> split <;> omega

theorem le_roundHalfEven (n unit : Nat) : n / unit ≤ roundHalfEven n unit := by
  rw [roundHalfEven]
  split <;> omega

theorem encodeUnits_mono (w d : Nat) (h : m ≤ n) : encodeUnits w d m ≤ encodeUnits w d n := by
  have hlog : Nat.log2 m ≤ Nat.log2 n := by
    rw [Nat.log2_eq_log_two, Nat.log2_eq_log_two]
    exact Nat.log_mono_right h
  rcases Nat.lt_or_eq_of_le (show Nat.log2 m - (d + w) ≤ Nat.log2 n - (d + w) by omega) with hlt | heq
  · -- The larger number has a larger unit, so it is above all that is rounded in the smaller unit.
    obtain ⟨shift, hshift⟩ : ∃ shift, Nat.log2 n = d + w + shift := ⟨Nat.log2 n - (d + w), by omega⟩
    have hn : n ≠ 0 := by
      rintro rfl
      rw [Nat.log2_zero] at hshift hlt
      omega
    have htop : 2 ^ w ≤ roundHalfEven n (2 ^ (d + shift)) := by
      refine le_trans ?_ (le_roundHalfEven n _)
      rw [Nat.le_div_iff_mul_le (Nat.two_pow_pos _), ← Nat.pow_add]
      have hle := ((Nat.log2_eq_iff hn).mp hshift).1
      rwa [show w + (d + shift) = d + w + shift by omega]
    have hm := encodeUnits_le w d m
    have hsub : Nat.log2 n - (d + w) = shift := by omega
    have hvalue : encodeUnits w d n = roundHalfEven n (2 ^ (d + shift)) + shift * 2 ^ w := by
      simp only [encodeUnits, hsub]
    calc encodeUnits w d m ≤ (Nat.log2 m - (d + w) + 2) * 2 ^ w := hm
      _ ≤ (shift + 1) * 2 ^ w := Nat.mul_le_mul_right _ (by omega)
      _ = shift * 2 ^ w + 2 ^ w := Nat.succ_mul _ _
      _ ≤ encodeUnits w d n := by omega
  · simp only [encodeUnits, heq]
    exact Nat.add_le_add_right (roundHalfEven_mono h) _

variable {w bits : Nat}

theorem le_encodeUnits (h : decodeUnits w bits ≤ n) : bits ≤ encodeUnits w 0 n := by
  have hmono := encodeUnits_mono w 0 h
  have hself := encodeUnits_decodeUnits w 0 bits
  rw [Nat.pow_zero, Nat.mul_one] at hself
  rwa [hself] at hmono

theorem encodeUnits_le_of_le (h : n ≤ decodeUnits w bits) : encodeUnits w 0 n ≤ bits := by
  have hmono := encodeUnits_mono w 0 h
  have hself := encodeUnits_decodeUnits w 0 bits
  rw [Nat.pow_zero, Nat.mul_one] at hself
  rwa [hself] at hmono

theorem roundHalfEven_scale {c : Nat} (hc : 0 < c) :
    roundHalfEven (n * c) (unit * c) = roundHalfEven n unit := by
  rw [roundHalfEven, roundHalfEven, Nat.mul_div_mul_right n unit hc, Nat.mul_mod_mul_right]
  have hlt : unit * c < 2 * (n % unit * c) ↔ unit < 2 * (n % unit) := by
    rw [← Nat.mul_assoc, Nat.mul_lt_mul_right hc]
  have heq : 2 * (n % unit * c) = unit * c ↔ 2 * (n % unit) = unit := by
    rw [← Nat.mul_assoc, Nat.mul_left_inj hc.ne']
  simp only [hlt, heq]

theorem f64OfNat_eq (n : Nat) : f64OfNat n = encodeUnits 52 0 (n * 2 ^ f64OneLog) := by
  -- The exponent of one is named: its power is too large to be computed.
  generalize hone : f64OneLog = one
  have hexponent : one = 1022 + 52 := hone.symm
  rw [f64OfNat]
  by_cases hn : n = 0
  · rw [if_pos hn, hn, Nat.zero_mul]
    decide
  · have hlog := log2_mul_pow hn one
    obtain ⟨hlow, hhigh⟩ := (Nat.log2_eq_iff hn).mp rfl
    have hshift : Nat.log2 (n * 2 ^ one) - (0 + 52) = Nat.log2 n + 1022 := by omega
    simp only [if_neg hn, encodeUnits, hshift, Nat.zero_add]
    by_cases hsmall : Nat.log2 n ≤ 52
    · have hvalue : n * 2 ^ one = n * 2 ^ (52 - Nat.log2 n) * 2 ^ (Nat.log2 n + 1022) := by
        have hsum : 52 - Nat.log2 n + (Nat.log2 n + 1022) = one := by omega
        rw [Nat.mul_assoc, ← Nat.pow_add 2 (52 - Nat.log2 n), hsum]
      have hmantissa : 2 ^ 52 ≤ n * 2 ^ (52 - Nat.log2 n) := by
        calc 2 ^ 52 = 2 ^ Nat.log2 n * 2 ^ (52 - Nat.log2 n) := by
              rw [← Nat.pow_add]
              congr 1
              omega
          _ ≤ n * 2 ^ (52 - Nat.log2 n) := Nat.mul_le_mul_right _ hlow
      rw [if_pos hsmall, hvalue, roundHalfEven_mul _ (Nat.two_pow_pos _)]
      omega
    · have hunit : 2 ^ (Nat.log2 n + 1022) = 2 ^ (Nat.log2 n - 52) * 2 ^ one := by
        have hsum : Nat.log2 n - 52 + one = Nat.log2 n + 1022 := by omega
        rw [← Nat.pow_add, hsum]
      have hmantissa : 2 ^ 52 ≤ roundHalfEven n (2 ^ (Nat.log2 n - 52)) := by
        refine le_trans ?_ (le_roundHalfEven _ _)
        rw [Nat.le_div_iff_mul_le (Nat.two_pow_pos _), ← Nat.pow_add]
        rwa [show 52 + (Nat.log2 n - 52) = Nat.log2 n by omega]
      rw [if_neg hsmall, hunit, roundHalfEven_scale (Nat.two_pow_pos _)]
      change (Nat.log2 n + 1023) * 2 ^ 52 + (roundHalfEven n (2 ^ (Nat.log2 n - 52)) - 2 ^ 52) = _
      omega

theorem f64OfNat_finite (h : n ≤ 2 ^ 64) : f64OfNat n < f64Infinity := by
  have hone : f64OneLog = 1022 + 52 := rfl
  have hle := encodeUnits_le 52 0 (n * 2 ^ f64OneLog)
  have hlog : Nat.log2 (n * 2 ^ f64OneLog) ≤ 1138 := by
    by_cases hn : n = 0
    · rw [hn, Nat.zero_mul, Nat.log2_zero]
      omega
    · have hlt := (Nat.log2_lt hn).mpr (show n < 2 ^ 65 by omega)
      rw [log2_mul_pow hn]
      omega
  rw [f64OfNat_eq, f64Infinity]
  omega

theorem f64OfInt_finite {n : Int} (h : n.natAbs ≤ 2 ^ 64) :
    f64OfInt n < 2 ^ 64 ∧ f64IsFinite (f64OfInt n) = true := by
  have hfinite := f64OfNat_finite h
  rw [f64IsFinite, decide_eq_true_eq, f64Magnitude, f64OfInt]
  rw [f64Infinity] at hfinite ⊢
  split <;> omega

/-! The keys that floats are compared by. -/

def keyUnits (key : Int) : Int :=
  if 0 ≤ key then decodeUnits 52 key.natAbs else -(decodeUnits 52 key.natAbs : Int)

theorem keyUnits_f64Key (h : bits < 2 ^ 64) : keyUnits (f64Key bits) = f64Units bits := by
  have hzero : decodeUnits 52 0 = 0 := rfl
  rw [keyUnits, f64Units, f64Key, f64Magnitude, f64IsNegative]
  by_cases hnegative : 2 ^ 63 ≤ bits
  · have hmagnitude : (-((bits : Int) - 2 ^ 63)).natAbs = bits % 2 ^ 63 := by omega
    rw [if_neg (show ¬ bits < 2 ^ 63 by omega), decide_eq_true hnegative, if_pos rfl, hmagnitude]
    split
    · rw [show bits % 2 ^ 63 = 0 by omega, hzero]
      rfl
    · rfl
  · rw [if_pos (show bits < 2 ^ 63 by omega), decide_eq_false hnegative, if_pos (Int.natCast_nonneg _),
      if_neg Bool.false_ne_true, Int.natAbs_natCast, Nat.mod_eq_of_lt (by omega)]

theorem keyUnits_strictMono {a b : Int} (h : a < b) : keyUnits a < keyUnits b := by
  have hlt {m n : Nat} (hmn : m < n) : (decodeUnits 52 m : Int) < decodeUnits 52 n :=
    Int.ofNat_lt.mpr (decodeUnits_strictMono 52 hmn)
  have hle (n : Nat) (hn : 0 < n) : 0 < (decodeUnits 52 n : Int) :=
    Int.lt_of_le_of_lt (Int.natCast_nonneg (decodeUnits 52 0)) (hlt hn)
  rw [keyUnits, keyUnits]
  split <;> split
  · exact hlt (by omega)
  · omega
  · have := hle a.natAbs (by omega)
    omega
  · exact Int.neg_lt_neg (hlt (by omega))

theorem f64Key_ofInt {n : Int} (h : n.natAbs ≤ 2 ^ 64) :
    f64Key (f64OfInt n) = if 0 ≤ n then (f64OfNat n.natAbs : Int) else -(f64OfNat n.natAbs : Int) := by
  have hfinite := f64OfNat_finite h
  rw [f64Infinity] at hfinite
  rw [f64OfInt, f64Key]
  by_cases hnegative : n < 0
  · rw [if_pos hnegative, if_neg (by omega), if_neg (by omega)]
    omega
  · rw [if_neg hnegative, if_pos (by omega), if_pos (by omega)]

theorem units_natAbs (n : Int) : n * f64One = if 0 ≤ n then ((n.natAbs * 2 ^ f64OneLog : Nat) : Int)
      else -((n.natAbs * 2 ^ f64OneLog : Nat) : Int) := by
  rw [Int.natCast_mul, f64One]
  split
  · rw [Int.natAbs_of_nonneg (by omega)]
  · rw [← Int.neg_mul, Int.ofNat_natAbs_of_nonpos (by omega), Int.neg_neg]

variable {key : Int}

theorem le_key_ofInt {n : Int} (hn : n.natAbs ≤ 2 ^ 64) (h : keyUnits key ≤ n * f64One) :
    key ≤ f64Key (f64OfInt n) := by
  rw [units_natAbs, keyUnits] at h
  rw [f64Key_ofInt hn, f64OfNat_eq]
  by_cases hkey : 0 ≤ key
  · rw [if_pos hkey] at h
    by_cases hsign : 0 ≤ n
    · rw [if_pos hsign] at h ⊢
      have := le_encodeUnits (Int.ofNat_le.mp h)
      omega
    · rw [if_neg hsign] at h
      have hpos := Nat.mul_pos (show 0 < n.natAbs by omega) (Nat.two_pow_pos f64OneLog)
      omega
  · rw [if_neg hkey] at h
    by_cases hsign : 0 ≤ n
    · rw [if_pos hsign]
      omega
    · rw [if_neg hsign] at h ⊢
      have := encodeUnits_le_of_le (Int.ofNat_le.mp (Int.le_of_neg_le_neg h))
      omega

theorem key_ofInt_le {n : Int} (hn : n.natAbs ≤ 2 ^ 64) (h : n * f64One ≤ keyUnits key) :
    f64Key (f64OfInt n) ≤ key := by
  rw [units_natAbs, keyUnits] at h
  rw [f64Key_ofInt hn, f64OfNat_eq]
  by_cases hkey : 0 ≤ key
  · rw [if_pos hkey] at h
    by_cases hsign : 0 ≤ n
    · rw [if_pos hsign] at h ⊢
      have := encodeUnits_le_of_le (Int.ofNat_le.mp h)
      omega
    · rw [if_neg hsign]
      omega
  · rw [if_neg hkey] at h
    by_cases hsign : 0 ≤ n
    · rw [if_pos hsign] at h
      have hpos := decodeUnits_strictMono 52 (show 0 < key.natAbs by omega)
      omega
    · rw [if_neg hsign] at h ⊢
      have := le_encodeUnits (Int.ofNat_le.mp (Int.le_of_neg_le_neg h))
      omega

theorem key_ofInt_eq {n : Int} (hn : n.natAbs ≤ 2 ^ 64) (h : keyUnits key = n * f64One) :
    f64Key (f64OfInt n) = key :=
  Int.le_antisymm (key_ofInt_le hn h.ge) (le_key_ofInt hn h.le)

end CoveFormat.Floats
