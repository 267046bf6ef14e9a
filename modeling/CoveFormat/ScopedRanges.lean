import Mathlib.Data.List.Sort
import Mathlib.Data.Prod.Lex

namespace CoveFormat.ScopedRanges

open List

/-- The positions of a scope from a start on. -/
structure ScopedRange (σ : Type) where
  scope : σ
  (start count : Nat)

variable {σ : Type}

def ScopedRange.finish (range : ScopedRange σ) : Nat := range.start + range.count

def ScopedRange.extendTo (range : ScopedRange σ) (finish : Nat) : ScopedRange σ :=
  { range with count := finish - range.start }

/-- The position lies in one of the ranges. -/
def Covers (ranges : List (ScopedRange σ)) (scope : σ) (position : Nat) : Prop :=
  ∃ range ∈ ranges, range.scope = scope ∧ range.start ≤ position ∧ position < range.finish

/-- The later range goes on where the earlier one is, or begins right after it. -/
def Continues (last row : ScopedRange σ) : Prop := last.scope = row.scope ∧ row.start ≤ last.finish

instance [DecidableEq σ] (ranges : List (ScopedRange σ)) (scope : σ) (position : Nat) :
    Decidable (Covers ranges scope position) :=
  inferInstanceAs (Decidable (∃ range ∈ ranges, _))

instance [DecidableEq σ] (last row : ScopedRange σ) : Decidable (Continues last row) :=
  inferInstanceAs (Decidable (_ ∧ _))

section

variable [DecidableEq σ]

def merged (last : ScopedRange σ) : List (ScopedRange σ) → List (ScopedRange σ)
  | [] => [last]
  | row :: rows =>
    if Continues last row then merged (last.extendTo row.finish) rows else last :: merged row rows

def merge : List (ScopedRange σ) → List (ScopedRange σ)
  | [] => []
  | row :: rows => merged row rows

def runEnd (first : ScopedRange σ) : List (ScopedRange σ) → Nat
  | [] => first.finish
  | row :: rows => if Continues first row then runEnd row rows else first.finish

/-- No range ends after the last of the run it is in. -/
def EndsInRun : List (ScopedRange σ) → Prop
  | [] => True
  | row :: rows => row.finish ≤ runEnd row rows ∧ EndsInRun rows

instance decidableEndsInRun : ∀ rows : List (ScopedRange σ), Decidable (EndsInRun rows)
  | [] => inferInstanceAs (Decidable True)
  | _ :: rows => @instDecidableAnd _ _ _ (decidableEndsInRun rows)

end

section

variable [LinearOrder σ]

def ScopedRange.place (range : ScopedRange σ) : σ ×ₗ Nat := toLex (range.scope, range.start)

/-- Ranges in order of which those of one scope do not even touch. -/
def Apart (a b : ScopedRange σ) : Prop := a.scope < b.scope ∨ a.scope = b.scope ∧ a.finish < b.start

/-- In the order of the places. -/
def Sorted (ranges : List (ScopedRange σ)) : Prop := ranges.Pairwise fun a b => a.place ≤ b.place

end

section

variable {last row range : ScopedRange σ} {rows : List (ScopedRange σ)} {scope : σ} {position finish : Nat}

theorem covers_cons : Covers (row :: rows) scope position ↔
    (row.scope = scope ∧ row.start ≤ position ∧ position < row.finish) ∨ Covers rows scope position :=
  exists_mem_cons_iff _ _ _

theorem Covers.perm {ranges : List (ScopedRange σ)} (h : rows.Perm ranges) :
    Covers rows scope position ↔ Covers ranges scope position :=
  exists_congr fun _ => and_congr_left fun _ => h.mem_iff

theorem finish_extendTo (h : last.start ≤ finish) : (last.extendTo finish).finish = finish :=
  Nat.add_sub_cancel' h

theorem extendTo_finish (row : ScopedRange σ) : row.extendTo row.finish = row := by
  rw [ScopedRange.extendTo, ScopedRange.finish, Nat.add_sub_cancel_left]

theorem start_le_finish (row : ScopedRange σ) : row.start ≤ row.finish := Nat.le_add_right _ _

theorem continues_extendTo (h : last.start ≤ row.finish) (hscope : last.scope = row.scope) :
    Continues (last.extendTo row.finish) range ↔ Continues row range := by
  rw [Continues, Continues, finish_extendTo h, ← hscope]
  rfl

variable [LinearOrder σ]

theorem place_le_iff {a b : ScopedRange σ} :
    a.place ≤ b.place ↔ a.scope < b.scope ∨ a.scope = b.scope ∧ a.start ≤ b.start :=
  Prod.Lex.toLex_le_toLex

theorem start_le (h : last.place ≤ row.place) (hscope : last.scope = row.scope) :
    last.start ≤ row.start := by
  rcases place_le_iff.mp h with hlt | ⟨-, hstart⟩
  · exact absurd hscope hlt.ne
  · exact hstart

theorem Sorted.tail (h : Sorted (last :: rows)) : Sorted rows := (pairwise_cons.mp h).2

theorem Sorted.head_le (h : Sorted (last :: rows)) (hr : row ∈ rows) : last.place ≤ row.place :=
  (pairwise_cons.mp h).1 row hr

theorem Sorted.extendTo (h : Sorted (last :: row :: rows)) : Sorted (last.extendTo finish :: rows) :=
  pairwise_cons.mpr ⟨fun _ hr => h.head_le (mem_cons_of_mem _ hr), h.tail.tail⟩

theorem apart_of_not_continues (h : Sorted (last :: row :: rows)) (hjoin : ¬ Continues last row)
    (hr : range ∈ row :: rows) : Apart last range := by
  have hfirst := place_le_iff.mp (h.head_le mem_cons_self)
  have hle : row.place ≤ range.place := by
    rcases mem_cons.mp hr with rfl | hr
    · exact le_rfl
    · exact h.tail.head_le hr
  have hsecond := place_le_iff.mp hle
  rcases hfirst with hlt | ⟨heq, -⟩
  · exact .inl (hlt.trans_le (hsecond.elim le_of_lt fun h => h.1.le))
  · have hgap : last.finish < row.start := Nat.lt_of_not_le fun hmeet => hjoin ⟨heq, hmeet⟩
    rw [Apart, heq]
    exact hsecond.imp_right fun ⟨hscope, hstart⟩ => ⟨hscope, hgap.trans_le hstart⟩

theorem Apart.finish_lt (h : Apart last row) (hscope : last.scope = row.scope) :
    last.finish < row.start := by
  rcases h with hlt | ⟨-, hgap⟩
  · exact absurd hscope hlt.ne
  · exact hgap

theorem start_le_of_continues (h : Sorted (last :: row :: rows)) (hjoin : Continues last row) :
    last.start ≤ row.finish :=
  (start_le (h.head_le mem_cons_self) hjoin.1).trans (start_le_finish row)

theorem runEnd_extendTo (h : last.start ≤ row.finish) (hscope : last.scope = row.scope) :
    runEnd (last.extendTo row.finish) rows = runEnd row rows := by
  cases rows with
  | nil => exact finish_extendTo h
  | cons next rows => simp only [runEnd, continues_extendTo h hscope, finish_extendTo h]

theorem endsInRun_extendTo (h : last.start ≤ row.finish) (hscope : last.scope = row.scope) :
    EndsInRun (last.extendTo row.finish :: rows) ↔ EndsInRun (row :: rows) := by
  rw [EndsInRun, EndsInRun, finish_extendTo h, runEnd_extendTo h hscope]

theorem merged_eq_cons (h : Sorted (last :: rows)) :
    ∃ later, merged last rows = last.extendTo (runEnd last rows) :: later := by
  induction rows generalizing last with
  | nil => exact ⟨[], by rw [merged, runEnd, extendTo_finish]⟩
  | cons row rows ih =>
    rw [merged, runEnd]
    by_cases hjoin : Continues last row
    · rw [if_pos hjoin, if_pos hjoin]
      obtain ⟨later, hlater⟩ := ih (@Sorted.extendTo _ _ _ _ row.finish _ h)
      rw [runEnd_extendTo (start_le_of_continues h hjoin) hjoin.1] at hlater
      exact ⟨later, hlater⟩
    · rw [if_neg hjoin, if_neg hjoin, extendTo_finish]
      exact ⟨_, rfl⟩

theorem mem_merged (h : range ∈ merged last rows) :
    ∃ r ∈ last :: rows, r.scope = range.scope ∧ r.start = range.start := by
  induction rows generalizing last with
  | nil =>
    obtain rfl := mem_singleton.mp h
    exact ⟨range, mem_cons_self, rfl, rfl⟩
  | cons row rows ih =>
    rw [merged] at h
    split at h
    · obtain ⟨r, hr, hscope, hstart⟩ := ih h
      rcases mem_cons.mp hr with rfl | hr
      · exact ⟨last, mem_cons_self, hscope, hstart⟩
      · exact ⟨r, .tail _ (.tail _ hr), hscope, hstart⟩
    · rcases mem_cons.mp h with rfl | h
      · exact ⟨range, mem_cons_self, rfl, rfl⟩
      · obtain ⟨r, hr, hsame⟩ := ih h
        exact ⟨r, .tail _ hr, hsame⟩

theorem merged_apart (h : Sorted (last :: rows)) : (merged last rows).Pairwise Apart := by
  induction rows generalizing last with
  | nil => exact pairwise_singleton _ _
  | cons row rows ih =>
    rw [merged]
    split
    · exact ih h.extendTo
    · rename_i hjoin
      refine pairwise_cons.mpr ⟨fun range hrange => ?_, ih h.tail⟩
      obtain ⟨r, hr, hscope, hstart⟩ := mem_merged hrange
      have hapart := apart_of_not_continues h hjoin hr
      rwa [Apart, hscope, hstart] at hapart

theorem start_le_runEnd (h : Sorted (row :: rows)) : row.start ≤ runEnd row rows := by
  induction rows generalizing row with
  | nil => exact start_le_finish row
  | cons next rows ih =>
    rw [runEnd]
    split
    · rename_i hjoin
      exact (start_le (h.head_le mem_cons_self) hjoin.1).trans (ih h.tail)
    · exact start_le_finish row

theorem covers_of_continues (h : Sorted (last :: row :: rows)) (hjoin : Continues last row)
    (hr : Covers (last.extendTo row.finish :: rows) scope position) :
    Covers (last :: row :: rows) scope position := by
  rw [covers_cons, covers_cons]
  rcases covers_cons.mp hr with ⟨hscope, hstart, hend⟩ | hr
  · rw [finish_extendTo (start_le_of_continues h hjoin)] at hend
    obtain ⟨hsame, hmeet⟩ := hjoin
    rcases Nat.lt_or_ge position last.finish with hlt | hge
    · exact .inl ⟨hscope, hstart, hlt⟩
    · exact .inr (.inl ⟨hsame ▸ hscope, hmeet.trans hge, hend⟩)
  · exact .inr (.inr hr)

theorem covers_of_merged (h : Sorted (last :: rows)) (hr : Covers (merged last rows) scope position) :
    Covers (last :: rows) scope position := by
  induction rows generalizing last with
  | nil => exact hr
  | cons row rows ih =>
    rw [merged] at hr
    by_cases hjoin : Continues last row
    · rw [if_pos hjoin] at hr
      exact covers_of_continues h hjoin (ih h.extendTo hr)
    · rw [if_neg hjoin] at hr
      rw [covers_cons]
      exact (covers_cons.mp hr).imp_right (ih h.tail)

theorem not_covers_runEnd (h : Sorted (last :: rows)) :
    ¬ Covers (merged last rows) last.scope (runEnd last rows) := by
  induction rows generalizing last with
  | nil =>
    rintro ⟨r, hr, -, -, hlt⟩
    obtain rfl := mem_singleton.mp hr
    exact absurd hlt (Nat.lt_irrefl _)
  | cons row rows ih =>
    rw [merged, runEnd]
    by_cases hjoin : Continues last row
    · rw [if_pos hjoin, if_pos hjoin, ← runEnd_extendTo (start_le_of_continues h hjoin) hjoin.1]
      exact ih h.extendTo
    · rw [if_neg hjoin, if_neg hjoin, covers_cons]
      rintro (⟨-, -, hlt⟩ | hlater)
      · exact absurd hlt (Nat.lt_irrefl _)
      · obtain ⟨r, hr, hscope, hstart, -⟩ := covers_of_merged h.tail hlater
        have hgap := (apart_of_not_continues h hjoin hr).finish_lt hscope.symm
        exact absurd hgap (Nat.not_lt.mpr hstart)

theorem covers_join_iff (h : Sorted (last :: row :: rows)) (hjoin : Continues last row) :
    (∀ scope position, Covers (merged (last.extendTo row.finish) rows) scope position ↔
      Covers (last :: row :: rows) scope position) ↔
    last.finish ≤ runEnd row rows ∧
      ∀ scope position, Covers (merged (last.extendTo row.finish) rows) scope position ↔
        Covers (last.extendTo row.finish :: rows) scope position := by
  have hle := start_le_of_continues h hjoin
  have hsorted : Sorted (last.extendTo row.finish :: rows) := h.extendTo
  have hrun : runEnd (last.extendTo row.finish) rows = runEnd row rows := runEnd_extendTo hle hjoin.1
  have hstart : last.start ≤ row.start := start_le (h.head_le mem_cons_self) hjoin.1
  have hreach := start_le_runEnd h.tail
  have hlost := not_covers_runEnd hsorted
  rw [hrun] at hlost
  constructor
  · intro hcovers
    refine ⟨Nat.le_of_not_lt fun hlt => hlost ((hcovers _ _).mpr (covers_cons.mpr (.inl
      ⟨rfl, hstart.trans hreach, hlt⟩))), fun s p => ⟨covers_of_merged hsorted, fun hr => ?_⟩⟩
    exact (hcovers s p).mpr (covers_of_continues h hjoin hr)
  · rintro ⟨hlast, hcovers⟩ s p
    have hrow : row.finish ≤ runEnd row rows := by
      refine Nat.le_of_not_lt fun hlt => hlost ((hcovers _ _).mpr (covers_cons.mpr (.inl ?_)))
      exact ⟨rfl, hstart.trans hreach, hlt.trans_eq (finish_extendTo hle).symm⟩
    have hfirst : last.scope = s → last.start ≤ p → p < runEnd row rows →
        Covers (merged (last.extendTo row.finish) rows) s p := by
      intro hscope hlow hhigh
      obtain ⟨later, hlater⟩ := merged_eq_cons hsorted
      rw [hlater, hrun, covers_cons]
      refine .inl ⟨hscope, hlow, hhigh.trans_eq ?_⟩
      exact (@finish_extendTo _ (last.extendTo row.finish) _ (hlow.trans hhigh.le)).symm
    refine ⟨fun hr => covers_of_continues h hjoin (covers_of_merged hsorted hr), fun hr => ?_⟩
    rcases covers_cons.mp hr with ⟨hscope, hlow, hhigh⟩ | hr
    · exact hfirst hscope hlow (hhigh.trans_le hlast)
    · rcases covers_cons.mp hr with ⟨hscope, hlow, hhigh⟩ | hr
      · exact hfirst (hjoin.1.trans hscope) (hstart.trans hlow) (hhigh.trans_le hrow)
      · exact (hcovers s p).mpr (covers_cons.mpr (.inr hr))

theorem covers_merged_iff (h : Sorted (last :: rows)) :
    (∀ scope position, Covers (merged last rows) scope position ↔ Covers (last :: rows) scope position) ↔
      EndsInRun (last :: rows) := by
  induction rows generalizing last with
  | nil => exact iff_of_true (fun _ _ => Iff.rfl) ⟨le_rfl, trivial⟩
  | cons row rows ih =>
    rw [EndsInRun, runEnd, merged]
    by_cases hjoin : Continues last row
    · rw [if_pos hjoin, if_pos hjoin, covers_join_iff h hjoin, ih h.extendTo,
        endsInRun_extendTo (start_le_of_continues h hjoin) hjoin.1]
    · rw [if_neg hjoin, if_neg hjoin, ← ih h.tail]
      refine Iff.trans ?_ (and_iff_right le_rfl).symm
      constructor
      · intro hcovers s p
        refine ⟨covers_of_merged h.tail, fun hr => ?_⟩
        rcases covers_cons.mp ((hcovers s p).mpr (covers_cons.mpr (.inr hr))) with ⟨rfl, -, hlt⟩ | hr'
        · obtain ⟨other, hother, hscope, hstart, -⟩ := hr
          have hgap := (apart_of_not_continues h hjoin hother).finish_lt hscope.symm
          omega
        · exact hr'
      · intro hcovers s p
        rw [covers_cons, covers_cons, hcovers]

theorem merge_apart (h : Sorted rows) : (merge rows).Pairwise Apart := by
  cases rows with
  | nil => exact .nil
  | cons row rows => exact merged_apart h

theorem covers_merge_iff (h : Sorted rows) :
    (∀ scope position, Covers (merge rows) scope position ↔ Covers rows scope position) ↔
      EndsInRun rows := by
  cases rows with
  | nil => exact iff_of_true (fun _ _ => Iff.rfl) trivial
  | cons row rows => exact covers_merged_iff h

end

end CoveFormat.ScopedRanges
