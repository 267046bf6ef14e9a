import Mathlib.Algebra.Group.Nat.Defs
import Mathlib.Data.Nat.Log

namespace CoveFormat.Floats

/-- The value of a magnitude with `w` fraction bits, in units of the least subnormal. -/
def decodeUnits (w bits : Nat) : Nat :=
  if bits / 2 ^ w = 0 then bits else (bits % 2 ^ w + 2 ^ w) * 2 ^ (bits / 2 ^ w - 1)

def roundHalfEven (n unit : Nat) : Nat :=
  if unit < 2 * (n % unit) ∨ 2 * (n % unit) = unit ∧ n / unit % 2 = 1 then n / unit + 1
  else n / unit

/-- The magnitude with `w` fraction bits that is nearest to `n`, where `2 ^ d` is the unit. -/
def encodeUnits (w d n : Nat) : Nat :=
  let shift := Nat.log2 n - (d + w)
  roundHalfEven n (2 ^ (d + shift)) + shift * 2 ^ w

theorem roundHalfEven_mul (n : Nat) {unit : Nat} (h : 0 < unit) :
    roundHalfEven (n * unit) unit = n := by
  rw [roundHalfEven, Nat.mul_mod_left, Nat.mul_div_cancel n h]
  split <;> omega

theorem log2_mul_pow {m : Nat} (hm : m ≠ 0) (k : Nat) : Nat.log2 (m * 2 ^ k) = Nat.log2 m + k := by
  induction k with
  | zero => rw [Nat.pow_zero, Nat.mul_one, Nat.add_zero]
  | succ k ih =>
    have hne : m * 2 ^ k ≠ 0 := Nat.mul_ne_zero hm (Nat.two_pow_pos k).ne'
    rw [Nat.pow_succ, ← Nat.mul_assoc, Nat.mul_comm _ 2, Nat.log2_two_mul hne, ih, Nat.add_assoc]

theorem log2_eq {m w : Nat} (hl : 2 ^ w ≤ m) (hu : m < 2 ^ (w + 1)) : Nat.log2 m = w := by
  have hm : m ≠ 0 := (Nat.lt_of_lt_of_le (Nat.two_pow_pos w) hl).ne'
  exact (Nat.log2_eq_iff hm).mpr ⟨hl, hu⟩

theorem encodeUnits_decodeUnits (w d bits : Nat) :
    encodeUnits w d (decodeUnits w bits * 2 ^ d) = bits := by
  rw [decodeUnits]
  split
  · rename_i hzero
    have hlt : bits < 2 ^ w := by
      rcases Nat.div_eq_zero_iff.mp hzero with h | h
      · exact absurd h (Nat.two_pow_pos w).ne'
      · exact h
    have hshift : Nat.log2 (bits * 2 ^ d) - (d + w) = 0 := by
      by_cases hb : bits = 0
      · rw [hb, Nat.zero_mul, Nat.log2_zero, Nat.zero_sub]
      · have hlog := (Nat.log2_lt hb).mpr hlt
        rw [log2_mul_pow hb]
        omega
    simp only [encodeUnits, hshift, Nat.add_zero, Nat.zero_mul]
    exact roundHalfEven_mul bits (Nat.two_pow_pos d)
  · rename_i hexp
    have hlog : Nat.log2 (bits % 2 ^ w + 2 ^ w) = w := log2_eq (by omega) (by rw [Nat.pow_succ]; omega)
    have hne : bits % 2 ^ w + 2 ^ w ≠ 0 := by
      omega
    have hshift : Nat.log2 ((bits % 2 ^ w + 2 ^ w) * 2 ^ (bits / 2 ^ w - 1) * 2 ^ d) - (d + w) =
        bits / 2 ^ w - 1 := by
      rw [Nat.mul_assoc, ← Nat.pow_add, log2_mul_pow hne, hlog]
      omega
    simp only [encodeUnits, hshift]
    rw [Nat.mul_assoc, ← Nat.pow_add, Nat.add_comm (bits / 2 ^ w - 1) d,
      roundHalfEven_mul _ (Nat.two_pow_pos _),
      Nat.add_assoc]
    have hsplit := Nat.div_add_mod bits (2 ^ w)
    have hpred : (bits / 2 ^ w - 1) * 2 ^ w + 2 ^ w = bits / 2 ^ w * 2 ^ w := by
      rw [← Nat.succ_mul, Nat.succ_eq_add_one, Nat.sub_add_cancel (Nat.one_le_iff_ne_zero.mpr hexp)]
    rw [Nat.mul_comm] at hsplit
    omega

theorem decodeUnits_small {w n : Nat} (h : n < 2 ^ (w + 1)) : decodeUnits w n = n := by
  rw [decodeUnits]
  split
  · rfl
  · rename_i hexp
    have hone : n / 2 ^ w = 1 := by
      have hlt : n / 2 ^ w < 2 := (Nat.div_lt_iff_lt_mul (Nat.two_pow_pos w)).mpr (by
        rwa [Nat.pow_succ, Nat.mul_comm] at h)
      exact Nat.le_antisymm (Nat.le_of_lt_succ hlt) (Nat.one_le_iff_ne_zero.mpr hexp)
    have hsplit := Nat.div_add_mod n (2 ^ w)
    rw [hone] at hsplit ⊢
    omega

theorem decodeUnits_normal {w j m : Nat} (hl : 2 ^ w ≤ m) (hu : m < 2 ^ (w + 1)) :
    decodeUnits w (m + j * 2 ^ w) = m * 2 ^ j := by
  have hpos := Nat.two_pow_pos w
  have hm : m + j * 2 ^ w = (m - 2 ^ w) + 2 ^ w * (j + 1) := by
    rw [Nat.mul_add, Nat.mul_comm]
    omega
  have hdiv : (m + j * 2 ^ w) / 2 ^ w = j + 1 := by
    rw [hm, Nat.add_mul_div_left _ _ hpos, Nat.div_eq_of_lt (by omega), Nat.zero_add]
  have hmod : (m + j * 2 ^ w) % 2 ^ w = m - 2 ^ w := by
    rw [hm, Nat.add_mul_mod_self_left, Nat.mod_eq_of_lt (by omega)]
  rw [decodeUnits, hdiv, hmod, if_neg (Nat.succ_ne_zero j), Nat.add_sub_cancel,
    Nat.sub_add_cancel hl]

theorem roundHalfEven_one (n : Nat) : roundHalfEven n 1 = n := by
  have h := roundHalfEven_mul n Nat.one_pos
  rwa [Nat.mul_one] at h

theorem decodeUnits_encodeUnits {w m k : Nat} (hm : m < 2 ^ (w + 1)) :
    decodeUnits w (encodeUnits w 0 (m * 2 ^ k)) = m * 2 ^ k := by
  by_cases hzero : m = 0
  · subst hzero
    have hshift : Nat.log2 0 - (0 + w) = 0 := by rw [Nat.log2_zero, Nat.zero_sub]
    simp only [encodeUnits, hshift, Nat.zero_mul, Nat.add_zero, Nat.pow_zero, roundHalfEven_one]
    exact decodeUnits_small (Nat.two_pow_pos _)
  · have hlog := log2_mul_pow hzero k
    have hle : Nat.log2 m ≤ w := Nat.le_of_lt_succ ((Nat.log2_lt hzero).mpr hm)
    by_cases hsmall : Nat.log2 m + k ≤ w
    · have hshift : Nat.log2 (m * 2 ^ k) - (0 + w) = 0 := by omega
      have hne : m * 2 ^ k ≠ 0 := Nat.mul_ne_zero hzero (Nat.two_pow_pos k).ne'
      simp only [encodeUnits, hshift, Nat.zero_mul, Nat.add_zero, Nat.pow_zero, roundHalfEven_one]
      exact decodeUnits_small ((Nat.log2_lt hne).mp (by omega))
    · obtain ⟨j, hj⟩ : ∃ j, Nat.log2 m + k = w + j := ⟨Nat.log2 m + k - w, by omega⟩
      obtain ⟨i, hi⟩ : ∃ i, k = i + j := ⟨k - j, by omega⟩
      have hfactor : m * 2 ^ k = m * 2 ^ i * 2 ^ j := by rw [hi, Nat.pow_add, Nat.mul_assoc]
      have hshift : Nat.log2 (m * 2 ^ i * 2 ^ j) - (0 + w) = j := by
        rw [← hfactor]
        omega
      have hne : m * 2 ^ i ≠ 0 := Nat.mul_ne_zero hzero (Nat.two_pow_pos i).ne'
      have htop : Nat.log2 (m * 2 ^ i) = w := by
        rw [log2_mul_pow hzero]
        omega
      obtain ⟨hl, hu⟩ := (Nat.log2_eq_iff hne).mp htop
      rw [hfactor, encodeUnits, hshift]
      simp only [Nat.zero_add]
      rw [roundHalfEven_mul _ (Nat.two_pow_pos j), decodeUnits_normal hl hu]

theorem encodeUnits_le (w d n : Nat) : encodeUnits w d n ≤ (Nat.log2 n - (d + w) + 2) * 2 ^ w := by
  have hround : roundHalfEven n (2 ^ (d + (Nat.log2 n - (d + w)))) ≤
      n / 2 ^ (d + (Nat.log2 n - (d + w))) + 1 := by
    rw [roundHalfEven]
    split <;> omega
  have hlt : n / 2 ^ (d + (Nat.log2 n - (d + w))) < 2 ^ (w + 1) := by
    rw [Nat.div_lt_iff_lt_mul (Nat.two_pow_pos _), ← Nat.pow_add]
    exact Nat.lt_of_lt_of_le Nat.lt_log2_self (Nat.pow_le_pow_right Nat.two_pos (by omega))
  rw [Nat.add_mul]
  exact Nat.add_comm _ _ ▸ Nat.add_le_add_right (by omega) _

theorem decodeUnits_eq (w bits : Nat) :
    ∃ m k, decodeUnits w bits = m * 2 ^ k ∧ m < 2 ^ (w + 1) ∧ k ≤ bits / 2 ^ w - 1 := by
  rw [decodeUnits]
  split
  · rename_i hzero
    have hsplit := Nat.div_add_mod bits (2 ^ w)
    rw [hzero, Nat.mul_zero, Nat.zero_add] at hsplit
    exact ⟨bits, 0, (Nat.mul_one bits).symm, by omega, Nat.zero_le _⟩
  · exact ⟨bits % 2 ^ w + 2 ^ w, _, rfl, by omega, Nat.le_refl _⟩

def f64Magnitude (bits : Nat) : Nat := bits % 2 ^ 63

def f64Infinity : Nat := 0x7ff0000000000000

def f64IsInfinite (bits : Nat) : Bool := f64Magnitude bits == f64Infinity

def f64IsFinite (bits : Nat) : Bool := f64Magnitude bits < f64Infinity

def f64IsNegative (bits : Nat) : Bool := 2 ^ 63 ≤ bits

def f32Infinity : Nat := 0x7f800000

def f32IsFinite (bits : Nat) : Bool := bits % 2 ^ 31 < f32Infinity

def f32IsNan (bits : Nat) : Bool := f32Infinity < bits % 2 ^ 31

/-- The least subnormal of an `f32` is `2 ^ 925` times the one of an `f64`. -/
def f32UnitLog : Nat := 925

/-- `f64::from` on the bits. -/
def f64OfF32 (bits : Nat) : Nat :=
  let sign := if 2 ^ 31 ≤ bits then 2 ^ 63 else 0
  let magnitude := bits % 2 ^ 31
  if magnitude < f32Infinity then sign + encodeUnits 52 0 (decodeUnits 23 magnitude * 2 ^ f32UnitLog)
  else sign + f64Infinity + (magnitude - f32Infinity) * 2 ^ 29

/-- `as f32` on the bits of a number that is not NaN. -/
def f32OfF64 (bits : Nat) : Nat :=
  let sign := if f64IsNegative bits then 2 ^ 31 else 0
  if f64IsFinite bits then
    sign + min (encodeUnits 23 f32UnitLog (decodeUnits 52 (f64Magnitude bits))) f32Infinity
  else sign + f32Infinity

theorem widened_magnitude {magnitude : Nat} (h : magnitude < f32Infinity) :
    encodeUnits 52 0 (decodeUnits 23 magnitude * 2 ^ f32UnitLog) < f64Infinity ∧
      decodeUnits 52 (encodeUnits 52 0 (decodeUnits 23 magnitude * 2 ^ f32UnitLog)) =
        decodeUnits 23 magnitude * 2 ^ f32UnitLog := by
  obtain ⟨m, k, hdecode, hm, hk⟩ := decodeUnits_eq 23 magnitude
  have hexponent : magnitude / 2 ^ 23 < 255 := by
    rw [f32Infinity] at h
    omega
  rw [hdecode, Nat.mul_assoc, ← Nat.pow_add 2 k]
  constructor
  · have hle := encodeUnits_le 52 0 (m * 2 ^ (k + f32UnitLog))
    have hlog : Nat.log2 (m * 2 ^ (k + f32UnitLog)) < 1300 := by
      by_cases hzero : m = 0
      · rw [hzero, Nat.zero_mul, Nat.log2_zero]
        omega
      · have hm' := (Nat.log2_lt hzero).mpr hm
        rw [log2_mul_pow hzero, f32UnitLog]
        omega
    rw [f64Infinity]
    omega
  · exact decodeUnits_encodeUnits (Nat.lt_of_lt_of_le hm (by decide))

theorem f64OfF32_finite {bits : Nat} (h : f32IsFinite bits = true) :
    f64OfF32 bits = (if 2 ^ 31 ≤ bits then 2 ^ 63 else 0) +
      encodeUnits 52 0 (decodeUnits 23 (bits % 2 ^ 31) * 2 ^ f32UnitLog) := by
  rw [f32IsFinite, decide_eq_true_eq] at h
  rw [f64OfF32, if_pos h]

theorem f32OfF64_f64OfF32 {bits : Nat} (hbits : bits < 2 ^ 32) (h : f32IsFinite bits = true) :
    f32OfF64 (f64OfF32 bits) = bits := by
  have hmagnitude : bits % 2 ^ 31 < f32Infinity := by rwa [f32IsFinite, decide_eq_true_eq] at h
  obtain ⟨hlt, hdecode⟩ := widened_magnitude hmagnitude
  have hlt' := hlt
  rw [f64Infinity] at hlt'
  have hmag : f64Magnitude (f64OfF32 bits) =
      encodeUnits 52 0 (decodeUnits 23 (bits % 2 ^ 31) * 2 ^ f32UnitLog) := by
    rw [f64OfF32_finite h, f64Magnitude]
    split <;> omega
  have hfinite : f64IsFinite (f64OfF32 bits) = true := by
    rw [f64IsFinite, decide_eq_true_eq, hmag]
    exact hlt
  have hsign : f64IsNegative (f64OfF32 bits) = decide (2 ^ 31 ≤ bits) := by
    rw [f64OfF32_finite h, f64IsNegative, decide_eq_decide]
    split <;> omega
  rw [f32OfF64, if_pos hfinite, hmag, hdecode, encodeUnits_decodeUnits, hsign,
    Nat.min_eq_left hmagnitude.le]
  simp only [decide_eq_true_eq]
  split <;> omega

example : f64OfF32 0x3fc00000 = 0x3ff8000000000000 := by decide +kernel
example : f32OfF64 0x3fb999999999999a = 0x3dcccccd := by decide +kernel

end CoveFormat.Floats
