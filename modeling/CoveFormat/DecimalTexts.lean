import Mathlib.Data.List.DropRight
import Mathlib.Data.Nat.Cast.Order.Field
import Mathlib.Tactic.FieldSimp
import Mathlib.Tactic.Linarith
import Mathlib.Tactic.Positivity
import Mathlib.Tactic.Ring

namespace CoveFormat.DecimalTexts

open List

section

variable {digits : List Char}

theorem ofDigitChars_append_zeros (digits : List Char) (k : ℕ) :
    Nat.ofDigitChars 10 (digits ++ replicate k '0') 0 = 10 ^ k * Nat.ofDigitChars 10 digits 0 := by
  rw [Nat.ofDigitChars_append, Nat.ofDigitChars_replicate_zero]

theorem ofDigitChars_zeros_append (k : ℕ) (digits : List Char) :
    Nat.ofDigitChars 10 (replicate k '0' ++ digits) 0 = Nat.ofDigitChars 10 digits 0 := by
  rw [Nat.ofDigitChars_append, Nat.ofDigitChars_replicate_zero, Nat.mul_zero]

theorem rdropWhile_append_cons {α : Type} (p : α → Bool) (front : List α) {x : α} (hx : ¬ p x)
    (back : List α) :
    (front ++ x :: back).rdropWhile p = front ++ x :: back.rdropWhile p := by
  induction back using reverseRecOn with
  | nil => rw [rdropWhile_nil, rdropWhile_concat_neg _ _ _ hx]
  | append_singleton back y ih =>
    rw [← cons_append, ← append_assoc, rdropWhile_concat, rdropWhile_concat, ih]
    split
    · rfl
    · rw [append_assoc, cons_append]

theorem exists_zeros (digits : List Char) :
    ∃ k, digits = digits.rdropWhile (· = '0') ++ replicate k '0' := by
  refine ⟨(digits.rtakeWhile (· = '0')).length, ?_⟩
  have hzeros : digits.rtakeWhile (· = '0') =
      replicate (digits.rtakeWhile (· = '0')).length '0' :=
    eq_replicate_iff.mpr ⟨rfl, fun c hc => by simpa using mem_rtakeWhile_imp hc⟩
  rw [← hzeros]
  exact (rdropWhile_append_rtakeWhile ..).symm

end

/-- A quotient that is cut off toward zero. -/
structure TruncatesTo (exact cut unit : ℚ) : Prop where
  near : |cut - exact| < unit
  abs_le : |cut| ≤ |exact|
  same_sign : 0 ≤ cut * exact

theorem truncatesTo_tdiv (a : ℤ) {n : ℕ} (hn : 0 < n) : TruncatesTo (a / n) (a.tdiv n : ℤ) 1 := by
  have hpos : (0 : ℚ) < n := Nat.cast_pos.mpr hn
  have hnonneg : ∀ m : ℕ, TruncatesTo ((m : ℤ) / n) ((m : ℤ).tdiv n : ℤ) 1 := by
    intro m
    have hdiv : ((m : ℤ).tdiv n : ℤ) = ((m / n : ℕ) : ℤ) := rfl
    have hlow : ((m / n : ℕ) : ℚ) ≤ m / n := Nat.cast_div_le
    have hhigh : (m : ℚ) / n < ((m / n : ℕ) : ℚ) + 1 := by
      rw [div_lt_iff₀ hpos]
      exact_mod_cast Nat.lt_mul_of_div_lt (Nat.lt_succ_self _) hn
    rw [hdiv]
    simp only [Int.cast_natCast]
    refine ⟨by rw [abs_lt]; constructor <;> linarith, ?_, by positivity⟩
    rw [abs_of_nonneg (by positivity), abs_of_nonneg (by positivity)]
    exact hlow
  rcases Int.eq_nat_or_neg a with ⟨m, rfl | rfl⟩
  · exact hnonneg m
  · obtain ⟨hnear, habs, hsign⟩ := hnonneg m
    rw [Int.neg_tdiv, Int.cast_neg, Int.cast_neg, neg_div]
    refine ⟨?_, by rwa [abs_neg, abs_neg], by rwa [neg_mul_neg]⟩
    rwa [← neg_sub', abs_neg]

theorem TruncatesTo.div {exact cut unit : ℚ} (h : TruncatesTo exact cut unit) {c : ℚ} (hc : 0 < c) :
    TruncatesTo (exact / c) (cut / c) (unit / c) := by
  refine ⟨?_, ?_, ?_⟩
  · rw [← sub_div, abs_div, abs_of_pos hc]
    exact div_lt_div_of_pos_right h.near hc
  · rw [abs_div, abs_div]
    exact div_le_div_of_nonneg_right h.abs_le (abs_nonneg c)
  · rw [div_mul_div_comm]
    exact div_nonneg h.same_sign (mul_pos hc hc).le

end CoveFormat.DecimalTexts
