import CoveFormat.ExprEval

namespace CoveFormat.IntegerTexts

open ExprEval List Option

theorem digitsValue_toDigits (n : Nat) : digitsValue (Nat.toDigits 10 n) = n :=
  Nat.ofDigitChars_toDigits (by decide) (by decide)

theorem toDigits_ne_sign {n : Nat} {c : Char} {cs : List Char} (h : Nat.toDigits 10 n = c :: cs) :
    c ≠ '+' ∧ c ≠ '-' := by
  have hc : isAsciiDigit c = true := isAsciiDigit_of_mem (h ▸ mem_cons_self)
  constructor
  · rintro rfl
    cases hc
  · rintro rfl
    cases hc

def magnitude (digits : List Char) : Option Int :=
  if digits.isEmpty || !digits.all isAsciiDigit then none else some (digitsValue digits)

def signedMagnitude : List Char → Option Int
  | '+' :: digits => magnitude digits
  | '-' :: digits => (magnitude digits).map (- ·)
  | digits => magnitude digits

theorem magnitude_toDigits (n : Nat) : magnitude (Nat.toDigits 10 n) = some (n : Int) := by
  have hall : (Nat.toDigits 10 n).all isAsciiDigit = true :=
    all_eq_true.mpr fun _ => isAsciiDigit_of_mem
  rw [magnitude, hall, isEmpty_eq_false_iff.mpr Nat.toDigits_ne_nil, digitsValue_toDigits]
  rfl

theorem signedMagnitude_toString (n : Int) : signedMagnitude (toString n).toList = some n := by
  cases n with
  | ofNat n =>
    have hdigits : (toString (Int.ofNat n)).toList = Nat.toDigits 10 n := Nat.toList_repr
    rw [hdigits]
    unfold signedMagnitude
    split
    · exact absurd rfl (toDigits_ne_sign ‹_›).1
    · exact absurd rfl (toDigits_ne_sign ‹_›).2
    · exact magnitude_toDigits n
  | negSucc n =>
    have hdigits : (toString (Int.negSucc n)).toList = '-' :: Nat.toDigits 10 (n + 1) := by
      change ("-" ++ Nat.repr (n + 1)).toList = _
      rw [String.toList_append, Nat.toList_repr]
      rfl
    rw [hdigits]
    change (magnitude (Nat.toDigits 10 (n + 1))).map (- ·) = _
    rw [magnitude_toDigits]
    rfl

/-- The text of an integer tells it. -/
theorem toString_inj {m n : Int} (h : toString m = toString n) : m = n := by
  have hm := signedMagnitude_toString m
  rw [h, signedMagnitude_toString] at hm
  exact (some.inj hm).symm

end CoveFormat.IntegerTexts
