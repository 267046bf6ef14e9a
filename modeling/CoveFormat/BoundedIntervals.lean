import Mathlib.Algebra.Order.Field.Basic
import Mathlib.Algebra.Order.Field.Rat
import Mathlib.Data.Prod.Lex

namespace CoveFormat.BoundedIntervals

/-- Bounds that may be missing, each with whether it belongs to the interval. -/
structure BoundedInterval (α : Type) where
  (lower upper : Option α)
  (lowerInclusive upperInclusive : Bool)
  deriving DecidableEq

namespace BoundedInterval

variable {α β : Type}

def map (f : α → β) (i : BoundedInterval α) : BoundedInterval β :=
  ⟨i.lower.map f, i.upper.map f, i.lowerInclusive, i.upperInclusive⟩

def Contains [LinearOrder α] (i : BoundedInterval α) (p : α) : Prop :=
  (∀ l ∈ i.lower, l < p ∨ l = p ∧ i.lowerInclusive) ∧
    ∀ u ∈ i.upper, p < u ∨ p = u ∧ i.upperInclusive

/-- The upper end of the first interval is not below the lower end of the second one. -/
def Reaches [LinearOrder α] (i j : BoundedInterval α) : Prop :=
  ∀ u ∈ i.upper, ∀ l ∈ j.lower, l < u ∨ l = u ∧ i.upperInclusive ∧ j.lowerInclusive

end BoundedInterval

abbrev Cut (α : Type) := WithBot (WithTop (α ×ₗ Bool))

section

variable {α : Type}

def cutAt (p : α) (isAfter : Bool) : Cut α :=
  (((toLex (p, isAfter) : α ×ₗ Bool) : WithTop (α ×ₗ Bool)) : Cut α)

abbrev before (p : α) : Cut α := cutAt p false

abbrev after (p : α) : Cut α := cutAt p true

theorem cut_cases (c : Cut α) : c = ⊥ ∨ c = ⊤ ∨ ∃ p isAfter, c = cutAt p isAfter := by
  induction c using WithBot.recBotCoe with
  | bot => exact .inl rfl
  | coe c =>
    induction c using WithTop.recTopCoe with
    | top => exact .inr (.inl rfl)
    | coe x =>
      exact .inr (.inr ⟨(ofLex x).1, (ofLex x).2, rfl⟩)

variable [LinearOrder α]

theorem cutAt_lt {p q : α} {a b : Bool} : cutAt p a < cutAt q b ↔ p < q ∨ p = q ∧ a < b := by
  rw [cutAt, cutAt, WithBot.coe_lt_coe, WithTop.coe_lt_coe, Prod.Lex.toLex_lt_toLex]

theorem cutAt_le {p q : α} {a b : Bool} : cutAt p a ≤ cutAt q b ↔ p < q ∨ p = q ∧ a ≤ b := by
  rw [cutAt, cutAt, WithBot.coe_le_coe, WithTop.coe_le_coe, Prod.Lex.toLex_le_toLex]

theorem cutAt_lt_top (p : α) (isAfter : Bool) : cutAt p isAfter < ⊤ :=
  WithBot.coe_lt_coe.mpr (WithTop.coe_lt_top _)

theorem bot_lt_cutAt (p : α) (isAfter : Bool) : ⊥ < cutAt p isAfter := WithBot.bot_lt_coe _

theorem exists_point_iff [DenselyOrdered α] [NoMinOrder α] [NoMaxOrder α] [Nonempty α]
    {low high : Cut α} : low < high ↔ ∃ p, low ≤ before p ∧ after p ≤ high := by
  constructor
  · intro h
    rcases cut_cases low with rfl | rfl | ⟨v, a, rfl⟩
    · rcases cut_cases high with rfl | rfl | ⟨w, b, rfl⟩
      · exact absurd h (lt_irrefl _)
      · exact ⟨Classical.arbitrary α, bot_le, le_top⟩
      · obtain ⟨p, hp⟩ := exists_lt w
        exact ⟨p, bot_le, cutAt_le.mpr (.inl hp)⟩
    · exact absurd h not_top_lt
    · rcases cut_cases high with rfl | rfl | ⟨w, b, rfl⟩
      · exact absurd h not_lt_bot
      · obtain ⟨p, hp⟩ := exists_gt v
        exact ⟨p, cutAt_le.mpr (.inl hp), le_top⟩
      · rcases cutAt_lt.mp h with hlt | ⟨rfl, hab⟩
        · obtain ⟨p, hvp, hpw⟩ := exists_between hlt
          exact ⟨p, cutAt_le.mpr (.inl hvp), cutAt_le.mpr (.inl hpw)⟩
        · cases a
          · cases b
            · exact absurd hab (lt_irrefl _)
            · exact ⟨v, le_rfl, le_rfl⟩
          · cases b <;> exact absurd hab (by decide)
  · rintro ⟨p, hlow, hhigh⟩
    have hpoint : before p < after p := cutAt_lt.mpr (.inr ⟨rfl, by decide⟩)
    exact hlow.trans_lt (hpoint.trans_le hhigh)

end

namespace BoundedInterval

section

variable {α : Type} [LinearOrder α] {i j : BoundedInterval α} {p : α}

def low (i : BoundedInterval α) : Cut α := i.lower.elim ⊥ fun l => cutAt l (!i.lowerInclusive)

def high (i : BoundedInterval α) : Cut α := i.upper.elim ⊤ fun u => cutAt u i.upperInclusive

theorem contains_iff : i.Contains p ↔ i.low ≤ before p ∧ after p ≤ i.high := by
  obtain ⟨lower, upper, lowerInclusive, upperInclusive⟩ := i
  refine and_congr ?_ ?_
  · cases lower with
    | none => simp [low]
    | some l =>
      have hcut := cutAt_le (p := l) (q := p) (a := !lowerInclusive) (b := false)
      cases lowerInclusive <;> simpa [low, Bool.le_iff_imp] using hcut.symm
  · cases upper with
    | none => simp [high]
    | some u =>
      have hcut := cutAt_le (p := p) (q := u) (a := true) (b := upperInclusive)
      cases upperInclusive <;> simpa [high, Bool.le_iff_imp] using hcut.symm

theorem reaches_iff : i.Reaches j ↔ j.low < i.high := by
  obtain ⟨-, upper, -, upperInclusive⟩ := i
  obtain ⟨lower, -, lowerInclusive, -⟩ := j
  cases lower with
  | none =>
    cases upper with
    | none => simp [Reaches, low, high]
    | some u => simpa [Reaches, low, high] using bot_lt_cutAt u upperInclusive
  | some l =>
    cases upper with
    | none => simpa [Reaches, low, high] using cutAt_lt_top l (!lowerInclusive)
    | some u =>
      have hcut := cutAt_lt (p := l) (q := u) (a := !lowerInclusive) (b := upperInclusive)
      cases lowerInclusive <;> cases upperInclusive <;>
        simpa [Reaches, low, high, Bool.lt_iff] using hcut.symm

variable [DenselyOrdered α] [NoMinOrder α] [NoMaxOrder α] [Nonempty α]

theorem nonempty_iff : (∃ p, i.Contains p) ↔ i.Reaches i := by
  rw [reaches_iff, exists_point_iff]
  simp only [contains_iff]

theorem common_iff (hi : i.Reaches i) (hj : j.Reaches j) :
    (∃ p, i.Contains p ∧ j.Contains p) ↔ i.Reaches j ∧ j.Reaches i := by
  rw [reaches_iff] at hi hj
  have hpoint : (∃ p, i.Contains p ∧ j.Contains p) ↔
      ∃ p, max i.low j.low ≤ before p ∧ after p ≤ min i.high j.high := by
    simp only [contains_iff, max_le_iff, le_min_iff]
    exact exists_congr fun p => and_and_and_comm
  rw [hpoint, ← exists_point_iff, reaches_iff, reaches_iff, max_lt_iff, lt_min_iff, lt_min_iff]
  tauto

end

section

variable {α β : Type} [LinearOrder α] [LinearOrder β] {i j : BoundedInterval α} {f : α → β}

theorem reaches_map (hf : StrictMono f) : (i.map f).Reaches (j.map f) ↔ i.Reaches j := by
  obtain ⟨-, upper, -, upperInclusive⟩ := i
  obtain ⟨lower, -, lowerInclusive, -⟩ := j
  cases lower <;> cases upper <;> simp [Reaches, map, hf.lt_iff_lt, hf.injective.eq_iff]

/-- The interval in the order with the rationals in the place of each point, which is dense and has
no ends. -/
def dense (i : BoundedInterval α) : BoundedInterval (α ×ₗ ℚ) := i.map fun a => toLex (a, 0)

theorem strictMono_dense : StrictMono fun a : α => (toLex (a, 0) : α ×ₗ ℚ) :=
  fun _ _ h => Prod.Lex.toLex_lt_toLex.mpr (.inl h)

theorem dense_nonempty_iff [Nonempty α] : (∃ p, i.dense.Contains p) ↔ i.Reaches i := by
  rw [nonempty_iff]
  exact reaches_map strictMono_dense

theorem dense_common_iff [Nonempty α] (hi : i.Reaches i) (hj : j.Reaches j) :
    (∃ p, i.dense.Contains p ∧ j.dense.Contains p) ↔ i.Reaches j ∧ j.Reaches i := by
  have hmap (a b : BoundedInterval α) : a.dense.Reaches b.dense ↔ a.Reaches b := reaches_map strictMono_dense
  rw [common_iff ((hmap i i).mpr hi) ((hmap j j).mpr hj), hmap, hmap]

end

end BoundedInterval

end CoveFormat.BoundedIntervals
