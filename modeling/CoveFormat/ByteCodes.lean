import Mathlib.Data.List.Forall2
import Mathlib.Data.List.Lex
import Mathlib.Data.Nat.Bitwise

namespace CoveFormat.SelfDelimiting

open List

variable {α γ β : Type} {E : α → List β → Prop} {R : α → α → Prop}
  {F : γ → List β → Prop} {S : γ → γ → Prop}

/-- In the code `E` every codeword of `a` ends where any codeword that agrees
with it ends, and then stands for a value related to `a`. -/
def Separates (E : α → List β → Prop) (R : α → α → Prop) (a : α) : Prop :=
  ∀ b x y r s, E a x → E b y → x ++ r = y ++ s → R a b ∧ x = y

def Paired (E : α → List β → Prop) (F : γ → List β → Prop) (p : α × γ) (z : List β) : Prop :=
  ∃ x y, E p.1 x ∧ F p.2 y ∧ z = x ++ y

theorem Separates.pair {a : α} {c : γ} (ha : Separates E R a) (hc : Separates F S c) :
    Separates (Paired E F) (fun p q => R p.1 q.1 ∧ S p.2 q.2) (a, c) := by
  rintro ⟨b, d⟩ z w r s ⟨x, y, hx, hy, rfl⟩ ⟨x', y', hx', hy', rfl⟩ he
  rw [append_assoc, append_assoc] at he
  obtain ⟨hab, rfl⟩ := ha b x x' _ _ hx hx' he
  obtain ⟨hcd, rfl⟩ := hc d y y' r s hy hy' (append_cancel_left he)
  exact ⟨⟨hab, hcd⟩, rfl⟩

theorem separates_sequence {as bs : List α} {xs ys : List (List β)} {r s : List β}
    (h : ∀ a ∈ as, Separates E R a) (hlen : as.length = bs.length)
    (hx : Forall₂ E as xs) (hy : Forall₂ E bs ys)
    (he : xs.flatten ++ r = ys.flatten ++ s) : Forall₂ R as bs ∧ xs = ys := by
  induction hx generalizing bs ys with
  | nil =>
    have hb : bs = [] := eq_nil_of_length_eq_zero hlen.symm
    subst hb
    cases hy
    exact ⟨.nil, rfl⟩
  | @cons a x as xs hax _ ih =>
    cases hy with
    | nil => cases hlen
    | @cons b y bs ys hby hys =>
      simp only [flatten_cons, append_assoc] at he
      obtain ⟨hab, rfl⟩ := h a mem_cons_self b x y _ _ hax hby he
      obtain ⟨hr, rfl⟩ := ih (fun a' ha' => h a' (mem_cons_of_mem _ ha'))
        (Nat.succ.inj hlen) hys (append_cancel_left he)
      exact ⟨.cons hab hr, rfl⟩

end CoveFormat.SelfDelimiting

namespace CoveFormat.ByteCodes

open List

abbrev Bytes := List UInt8

/-- Byte strings compare lexicographically, by unsigned byte. -/
instance instLinearOrderUInt8 : LinearOrder UInt8 where
  le_refl := UInt8.le_refl
  le_trans _ _ _ := UInt8.le_trans
  lt_iff_le_not_ge a b := by rw [UInt8.lt_iff_toNat_lt, UInt8.le_iff_toNat_le, UInt8.le_iff_toNat_le]; omega
  le_antisymm _ _ := UInt8.le_antisymm
  le_total := UInt8.le_total
  toDecidableLE := inferInstance

instance instLawfulBEqBytes : LawfulBEq Bytes := inferInstance

def leNat : Bytes → Nat
  | [] => 0
  | b :: bs => b.toNat + 256 * leNat bs

def leBytes : Nat → Nat → Bytes
  | 0, _ => []
  | k + 1, n => UInt8.ofNat n :: leBytes k (n / 256)

@[simp] theorem leBytes_length (k n : Nat) : (leBytes k n).length = k := by
  induction k generalizing n with
  | zero => rfl
  | succ k ih => simp [leBytes, ih]

theorem leNat_lt (bs : Bytes) : leNat bs < 256 ^ bs.length := by
  induction bs with
  | nil => simp [leNat]
  | cons b bs ih =>
    have hb := b.toNat_lt
    rw [leNat, length_cons, pow_succ]
    omega

theorem leNat_leBytes (k n : Nat) : leNat (leBytes k n) = n % 256 ^ k := by
  induction k generalizing n with
  | zero => simp [leBytes, leNat, Nat.mod_one]
  | succ k ih =>
    rw [leBytes, leNat, ih, UInt8.toNat_ofNat', pow_succ' 256 k]
    exact (Nat.mod_mul).symm

theorem leBytes_leNat (bs : Bytes) : leBytes bs.length (leNat bs) = bs := by
  induction bs with
  | nil => rfl
  | cons b bs ih =>
    have hb := b.toNat_lt
    have hd : (b.toNat + 256 * leNat bs) / 256 = leNat bs := by omega
    have hm : UInt8.ofNat (b.toNat + 256 * leNat bs) = b := by
      apply UInt8.toNat_inj.mp
      rw [UInt8.toNat_ofNat']
      omega
    rw [length_cons, leNat, leBytes, hd, hm, ih]

variable {k m n : Nat}

theorem leBytes_inj (hm : m < 256 ^ k) (hn : n < 256 ^ k) (h : leBytes k m = leBytes k n) : m = n := by
  have e := congrArg leNat h
  rwa [leNat_leBytes, leNat_leBytes, Nat.mod_eq_of_lt hm, Nat.mod_eq_of_lt hn] at e

theorem leBytes_separates {r s : Bytes} (hm : m < 256 ^ k) (hn : n < 256 ^ k)
    (h : leBytes k m ++ r = leBytes k n ++ s) : m = n :=
  leBytes_inj hm hn (append_inj_left h (by simp))

/-- Two's complement reading of an unsigned `w`-bit value. -/
def signed (w n : Nat) : Int := (BitVec.ofNat w n).toInt

def unsigned (w : Nat) (i : Int) : Nat := (BitVec.ofInt w i).toNat

theorem unsigned_lt (w : Nat) (i : Int) : unsigned w i < 2 ^ w :=
  (BitVec.ofInt w i).isLt

variable {w : Nat} {i : Int}

theorem signed_unsigned (hw : 0 < w) (hl : -2 ^ (w - 1) ≤ i) (hu : i < 2 ^ (w - 1)) :
    signed w (unsigned w i) = i := by
  rw [signed, unsigned, BitVec.ofNat_toNat, BitVec.setWidth_eq]
  exact BitVec.toInt_ofInt_eq_self hw hl hu

theorem unsigned_signed (h : n < 2 ^ w) : unsigned w (signed w n) = n := by
  rw [unsigned, signed, BitVec.ofInt_toInt, BitVec.toNat_ofNat, Nat.mod_eq_of_lt h]

theorem unsigned_inj {j : Int} (hw : 0 < w) (hi : -2 ^ (w - 1) ≤ i ∧ i < 2 ^ (w - 1))
    (hj : -2 ^ (w - 1) ≤ j ∧ j < 2 ^ (w - 1)) (h : unsigned w i = unsigned w j) : i = j := by
  rw [← signed_unsigned hw hi.1 hi.2, h, signed_unsigned hw hj.1 hj.2]

def varint (n : Nat) : Bytes :=
  if n < 128 then [UInt8.ofNat n] else UInt8.ofNat (n % 128 + 128) :: varint (n / 128)
termination_by n
decreasing_by omega

theorem varint_small (h : n < 128) : varint n = [UInt8.ofNat n] := by
  rw [varint, if_pos h]

theorem varint_large (h : ¬ n < 128) :
    varint n = UInt8.ofNat (n % 128 + 128) :: varint (n / 128) := by
  rw [varint, if_neg h]

theorem varint_length_pos (n : Nat) : 0 < (varint n).length := by
  by_cases h : n < 128
  · simp [varint_small h]
  · simp [varint_large h]

theorem toNat_ofNat_of_lt (h : n < 256) : (UInt8.ofNat n).toNat = n := by
  rw [UInt8.toNat_ofNat']
  omega

theorem ofNat_inj {m n : Nat} (hm : m < 256) (hn : n < 256) (h : UInt8.ofNat m = UInt8.ofNat n) : m = n := by
  have e := congrArg UInt8.toNat h
  rwa [toNat_ofNat_of_lt hm, toNat_ofNat_of_lt hn] at e

theorem varint_separates (m n : Nat) (r s : Bytes) (h : varint m ++ r = varint n ++ s) :
    m = n ∧ r = s := by
  induction m using Nat.strong_induction_on generalizing n with
  | _ m ih =>
    by_cases hm : m < 128 <;> by_cases hn : n < 128
    · rw [varint_small hm, varint_small hn, singleton_append, singleton_append, List.cons.injEq] at h
      exact ⟨ofNat_inj (by omega) (by omega) h.1, h.2⟩
    · rw [varint_small hm, varint_large hn, singleton_append, cons_append, List.cons.injEq] at h
      have e := ofNat_inj (by omega) (by omega) h.1
      omega
    · rw [varint_large hm, varint_small hn, singleton_append, cons_append, List.cons.injEq] at h
      have e := ofNat_inj (by omega) (by omega) h.1
      omega
    · rw [varint_large hm, varint_large hn, cons_append, cons_append, List.cons.injEq] at h
      have e := ofNat_inj (by omega) (by omega) h.1
      obtain ⟨hd, hr⟩ := ih (m / 128) (by omega) (n / 128) h.2
      exact ⟨by omega, hr⟩

end CoveFormat.ByteCodes
