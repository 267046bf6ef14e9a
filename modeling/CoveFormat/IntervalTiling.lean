import CoveFormat.Grouping
import Mathlib.Algebra.BigOperators.Intervals
import Mathlib.Algebra.Order.BigOperators.Group.Finset

namespace CoveFormat.IntervalTiling

open List

variable {α : Type} {start len : α → Nat} {as : List α} {n : Nat}

/-- The point lies in the interval of `a`, which ends before `start a + len a`. -/
def Holds (start len : α → Nat) (a : α) (x : Nat) : Prop := start a ≤ x ∧ x < start a + len a

instance (a : α) (x : Nat) : Decidable (Holds start len a x) :=
  inferInstanceAs (Decidable (_ ∧ _))

/-- The intervals are disjoint, and together they are the numbers below `n`. -/
structure Tiles (start len : α → Nat) (n : Nat) (as : List α) : Prop where
  disjoint : as.Pairwise fun a b => ∀ x, ¬ (Holds start len a x ∧ Holds start len b x)
  cover : ∀ x, (∃ a ∈ as, Holds start len a x) ↔ x < n

/-- An interval starts at 0, and each one stops at `n` or where another starts. -/
structure Chains (start len : α → Nat) (n : Nat) (as : List α) : Prop where
  first : 0 < n → ∃ a ∈ as, start a = 0
  next : ∀ a ∈ as, start a + len a = n ∨ ∃ b ∈ as, start b = start a + len a

theorem sum_holds {a : α} {bound : Nat} (h : start a + len a ≤ bound) :
    ((Finset.range bound).sum fun x => if Holds start len a x then 1 else 0) = len a := by
  have hfilter : (Finset.range bound).filter (Holds start len a) =
      Finset.Ico (start a) (start a + len a) := by
    ext x
    rw [Finset.mem_filter, Finset.mem_range, Finset.mem_Ico]
    exact ⟨fun hx => hx.2, fun hx => ⟨hx.2.trans_le h, hx⟩⟩
  rw [← Finset.card_filter, hfilter, Nat.card_Ico, Nat.add_sub_cancel_left]

theorem sum_countP {bound : Nat} (h : ∀ a ∈ as, start a + len a ≤ bound) :
    ((Finset.range bound).sum fun x => as.countP fun a => Holds start len a x) =
      (as.map len).sum := by
  induction as with
  | nil => simp
  | cons a as ih =>
    obtain ⟨ha, has⟩ := forall_mem_cons.mp h
    rw [map_cons, sum_cons, ← ih has, ← sum_holds ha, ← Finset.sum_add_distrib]
    apply Finset.sum_congr rfl
    intro x _
    rw [countP_cons, Nat.add_comm]
    simp only [decide_eq_true_eq]

theorem pairwise_of_countP {p : α → Nat → Prop} [∀ a x, Decidable (p a x)]
    (h : ∀ x, (as.countP fun a => p a x) ≤ 1) : as.Pairwise fun a b => ∀ x, ¬ (p a x ∧ p b x) := by
  induction as with
  | nil => exact .nil
  | cons a as ih =>
    have hcons : ∀ x, (as.countP fun b => p b x) + (if p a x then 1 else 0) ≤ 1 := by
      intro x
      have hx := h x
      rw [countP_cons] at hx
      simpa only [decide_eq_true_eq] using hx
    refine pairwise_cons.mpr ⟨fun b hb x hab => ?_, ih fun x => ?_⟩
    · have hpos : 0 < as.countP fun b => p b x :=
        countP_pos_iff.mpr ⟨b, hb, decide_eq_true hab.2⟩
      have hx := hcons x
      rw [if_pos hab.1] at hx
      omega
    · exact (Nat.le_add_right _ _).trans (hcons x)

theorem exists_bound (start len : α → Nat) (as : List α) (n : Nat) :
    ∃ bound, n ≤ bound ∧ ∀ a ∈ as, start a + len a ≤ bound := by
  induction as with
  | nil => exact ⟨n, le_refl n, fun a ha => by cases ha⟩
  | cons a as ih =>
    obtain ⟨bound, hn, has⟩ := ih
    refine ⟨max (start a + len a) bound, le_max_of_le_right hn, ?_⟩
    exact forall_mem_cons.mpr ⟨le_max_left _ _, fun b hb => le_max_of_le_right (has b hb)⟩

theorem tiles_of_covered (hsum : (as.map len).sum = n)
    (hcover : ∀ x < n, ∃ a ∈ as, Holds start len a x) : Tiles start len n as := by
  obtain ⟨bound, hn, hbound⟩ := exists_bound start len as n
  have hle : ∀ x ∈ Finset.range bound, (if x < n then 1 else 0) ≤
      as.countP fun a => Holds start len a x := by
    intro x _
    split
    · rename_i hx
      obtain ⟨a, ha, hax⟩ := hcover x hx
      exact countP_pos_iff.mpr ⟨a, ha, decide_eq_true hax⟩
    · exact Nat.zero_le _
  have hones : ((Finset.range bound).sum fun x => if x < n then 1 else 0) = n := by
    rw [← Finset.card_filter]
    have hfilter : (Finset.range bound).filter (· < n) = Finset.range n := by
      ext x
      rw [Finset.mem_filter, Finset.mem_range, Finset.mem_range]
      exact ⟨fun hx => hx.2, fun hx => ⟨hx.trans_le hn, hx⟩⟩
    rw [hfilter, Finset.card_range]
  have hcount := (Finset.sum_eq_sum_iff_of_le hle).mp
    (hones.trans (hsum.symm.trans (sum_countP hbound).symm))
  have hout : ∀ x, bound ≤ x → (as.countP fun a => Holds start len a x) = 0 := by
    intro x hx
    refine countP_eq_zero.mpr fun a ha hax => ?_
    have hlt := (of_decide_eq_true hax).2
    exact absurd (hlt.trans_le (hbound a ha)) (not_lt.mpr hx)
  refine ⟨pairwise_of_countP fun x => ?_, fun x => ⟨?_, hcover x⟩⟩
  · rcases lt_or_ge x bound with hx | hx
    · rw [← hcount x (Finset.mem_range.mpr hx)]
      split <;> omega
    · rw [hout x hx]
      exact Nat.zero_le 1
  · rintro ⟨a, ha, hax⟩
    have hx : x < bound := hax.2.trans_le (hbound a ha)
    have hpos : 0 < as.countP fun a => Holds start len a x :=
      countP_pos_iff.mpr ⟨a, ha, decide_eq_true hax⟩
    rw [← hcount x (Finset.mem_range.mpr hx)] at hpos
    by_contra hxn
    rw [if_neg hxn] at hpos
    exact absurd hpos (lt_irrefl 0)

theorem covered_of_chains (h : Chains start len n as) (hpos : ∀ a ∈ as, 0 < len a) {x : Nat}
    (hx : x < n) : ∃ a ∈ as, Holds start len a x := by
  have hwalk : ∀ k, ∀ a ∈ as, start a ≤ x → x - start a ≤ k → ∃ b ∈ as, Holds start len b x := by
    intro k
    induction k with
    | zero =>
      intro a ha hax hk
      have hlen := hpos a ha
      exact ⟨a, ha, hax, by omega⟩
    | succ k ih =>
      intro a ha hax hk
      have hlen := hpos a ha
      by_cases hin : x < start a + len a
      · exact ⟨a, ha, hax, hin⟩
      · rcases h.next a ha with hend | ⟨b, hb, hstart⟩
        · omega
        · exact ih b hb (by omega) (by omega)
  obtain ⟨a, ha, hzero⟩ := h.first (Nat.zero_lt_of_lt hx)
  exact hwalk x a ha (by omega) (by omega)

theorem tiles_iff_chains (hsum : (as.map len).sum = n) (hpos : ∀ a ∈ as, 0 < len a) :
    Tiles start len n as ↔ Chains start len n as := by
  constructor
  · rintro ⟨hdisjoint, hcover⟩
    constructor
    · intro hn
      obtain ⟨a, ha, hle, -⟩ := (hcover 0).mpr hn
      exact ⟨a, ha, Nat.le_zero.mp hle⟩
    · intro a ha
      have hlen := hpos a ha
      have hlast : Holds start len a (start a + len a - 1) := ⟨by omega, by omega⟩
      have hend := (hcover _).mp ⟨a, ha, hlast⟩
      by_cases hn : start a + len a = n
      · exact .inl hn
      · obtain ⟨b, hb, hble, hblt⟩ := (hcover (start a + len a)).mpr (by omega)
        refine .inr ⟨b, hb, ?_⟩
        by_contra hne
        have hsymm : Std.Symm fun a b : α =>
            ∀ x, ¬ (Holds start len a x ∧ Holds start len b x) :=
          ⟨fun a b hab x hx => hab x hx.symm⟩
        have hab : a ≠ b := by
          rintro rfl
          exact absurd hblt (lt_irrefl _)
        exact hdisjoint.forall ha hb hab _ ⟨hlast, by omega, by omega⟩
  · intro h
    exact tiles_of_covered hsum fun x hx => covered_of_chains h hpos hx

end CoveFormat.IntervalTiling
