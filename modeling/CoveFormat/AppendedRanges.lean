import CoveFormat.ScopedRanges
import Mathlib.Algebra.GroupWithZero.Nat
import Mathlib.Data.List.Chain

namespace CoveFormat.AppendedRanges

open List ScopedRanges

variable {σ : Type}

/-- The later of two ranges does not step back into the earlier one. -/
def Follows (last row : ScopedRange σ) : Prop := last.scope = row.scope → last.finish ≤ row.start

/-- The later of two ranges of a scope begins beyond the end of the earlier one. -/
def Gap (last row : ScopedRange σ) : Prop := last.scope = row.scope → last.finish < row.start

/-- Ranges that are added one behind the other, where the last grows with one that begins at its end. -/
inductive Appended : List (ScopedRange σ) → List (ScopedRange σ) → Prop
  | nil : Appended [] []
  | push {rows out : List (ScopedRange σ)} {row : ScopedRange σ} (h : Appended rows out)
      (hgap : ∀ last ∈ out.getLast?, Gap last row) : Appended (rows ++ [row]) (out ++ [row])
  | grow {rows out : List (ScopedRange σ)} {last row : ScopedRange σ} (h : Appended rows (out ++ [last]))
      (hscope : last.scope = row.scope) (hmeet : last.finish = row.start) :
      Appended (rows ++ [row]) (out ++ [last.extendTo row.finish])

def points (range : ScopedRange σ) : List (σ × Nat) :=
  (List.range' range.start range.count).map fun position => (range.scope, position)

section

variable {range row : ScopedRange σ} {scope : σ} {position : Nat}

theorem mem_points : (scope, position) ∈ points range ↔
    range.scope = scope ∧ range.start ≤ position ∧ position < range.finish := by
  rw [points, mem_map]
  simp only [mem_range'_1, Prod.mk.injEq, ScopedRange.finish]
  constructor
  · rintro ⟨p, hp, hscope, rfl⟩
    exact ⟨hscope, hp⟩
  · rintro ⟨hscope, hp⟩
    exact ⟨position, hp, hscope, rfl⟩

theorem points_nodup (range : ScopedRange σ) : (points range).Nodup :=
  List.Nodup.map (fun _ _ h => (Prod.mk.inj h).2) (nodup_range' 1)

theorem points_length (range : ScopedRange σ) : (points range).length = range.count := by
  rw [points, length_map, length_range']

theorem count_extendTo (range : ScopedRange σ) (finish : Nat) :
    (range.extendTo finish).count = finish - range.start := rfl

theorem points_grow (hscope : range.scope = row.scope) (hmeet : range.finish = row.start) :
    points (range.extendTo row.finish) = points range ++ points row := by
  have hcount : (range.extendTo row.finish).count = range.count + row.count := by
    rw [ScopedRange.finish] at hmeet
    rw [count_extendTo, ScopedRange.finish]
    omega
  rw [points, points, points, ← hscope, ← hmeet, ← map_append, hcount]
  exact congrArg (List.map _) List.range'_append_1.symm

theorem sum_counts (ranges : List (ScopedRange σ)) :
    (ranges.map ScopedRange.count).sum = (ranges.flatMap points).length := by
  rw [length_flatMap]
  exact congrArg List.sum (map_congr_left fun range _ => (points_length range).symm)

variable {rows out : List (ScopedRange σ)}

theorem finish_grow {last : ScopedRange σ} (hmeet : last.finish = row.start) :
    (last.extendTo row.finish).finish = row.finish := by
  refine finish_extendTo ?_
  rw [ScopedRange.finish] at hmeet ⊢
  omega

section

variable (h : Appended rows out)
include h

theorem Appended.points_eq : out.flatMap points = rows.flatMap points := by
  induction h with
  | nil => rfl
  | push _ _ ih => rw [flatMap_append, flatMap_append, ih]
  | grow _ hscope hmeet ih =>
    rw [flatMap_append, flatMap_append, ← ih, flatMap_append, append_assoc]
    simp only [flatMap_singleton, points_grow hscope hmeet]

theorem Appended.last_eq :
    out.getLast?.map (fun last => (last.scope, last.finish)) =
      rows.getLast?.map fun last => (last.scope, last.finish) := by
  cases h with
  | nil => rfl
  | push _ _ => rw [List.getLast?_concat, List.getLast?_concat]
  | grow _ hscope hmeet =>
    rw [List.getLast?_concat, List.getLast?_concat, Option.map_some, Option.map_some, finish_grow hmeet,
      ← hscope]
    rfl

theorem Appended.follows {last last' : ScopedRange σ} (hout : last ∈ out.getLast?)
    (hrows : last' ∈ rows.getLast?) : last.scope = last'.scope ∧ last.finish = last'.finish := by
  have heq := h.last_eq
  rw [Option.mem_def.mp hout, Option.mem_def.mp hrows] at heq
  exact Prod.mk.inj (Option.some.inj heq)

theorem Appended.isChain : rows.IsChain Follows := by
  induction h with
  | nil => exact .nil
  | @push rows out row h hgap ih =>
    refine isChain_append.mpr ⟨ih, .singleton _, fun last' hlast' x hx hscope => ?_⟩
    cases hx
    cases hout : out.getLast? with
    | none =>
      have heq := h.last_eq
      rw [hout, Option.mem_def.mp hlast'] at heq
      cases heq
    | some last =>
      obtain ⟨hs, hf⟩ := h.follows hout hlast'
      exact hf ▸ (hgap last hout (hs.trans hscope)).le
  | @grow rows out last row h _ hmeet ih =>
    refine isChain_append.mpr ⟨ih, .singleton _, fun last' hlast' x hx _ => ?_⟩
    cases hx
    obtain ⟨-, hf⟩ := h.follows List.getLast?_concat hlast'
    exact (hf.symm.trans hmeet).le

theorem Appended.gaps : out.IsChain Gap := by
  induction h with
  | nil => exact .nil
  | push _ hgap ih =>
    refine isChain_append.mpr ⟨ih, .singleton _, fun last hlast x hx => ?_⟩
    exact Option.some.inj hx ▸ hgap last hlast
  | @grow _ _ last _ _ _ _ ih =>
    obtain ⟨hout, -, hnext⟩ := isChain_append.mp ih
    refine isChain_append.mpr ⟨hout, .singleton _, fun x hx y hy => ?_⟩
    cases hy
    have hgap : Gap x last := hnext x hx last rfl
    exact hgap

theorem Appended.count_pos (hpos : ∀ row ∈ rows, 0 < row.count) :
    ∀ range ∈ out, 0 < range.count := by
  induction h with
  | nil => exact forall_mem_nil _
  | push _ _ ih =>
    obtain ⟨hrows, hrow⟩ := forall_mem_append.mp hpos
    exact forall_mem_append.mpr ⟨ih hrows, hrow⟩
  | @grow rows out last row _ hscope hmeet ih =>
    obtain ⟨hrows, hrow⟩ := forall_mem_append.mp hpos
    refine forall_mem_append.mpr ⟨(forall_mem_append.mp (ih hrows)).1, fun range hrange => ?_⟩
    obtain rfl := mem_singleton.mp hrange
    have hcount := hrow row mem_cons_self
    rw [ScopedRange.finish] at hmeet
    rw [count_extendTo, ScopedRange.finish]
    omega

theorem Appended.place_mem : ∀ range ∈ out, ∃ row ∈ rows, row.place = range.place := by
  induction h with
  | nil => exact forall_mem_nil _
  | @push rows out row _ _ ih =>
    refine forall_mem_append.mpr ⟨fun range hrange => ?_, fun range hrange => ?_⟩
    · obtain ⟨r, hr, hplace⟩ := ih range hrange
      exact ⟨r, mem_append_left _ hr, hplace⟩
    · exact ⟨range, mem_append_right _ hrange, rfl⟩
  | @grow rows out last row _ _ _ ih =>
    obtain ⟨hout, hlast⟩ := forall_mem_append.mp ih
    refine forall_mem_append.mpr ⟨fun range hrange => ?_, fun range hrange => ?_⟩
    · obtain ⟨r, hr, hplace⟩ := hout range hrange
      exact ⟨r, mem_append_left _ hr, hplace⟩
    · obtain rfl := mem_singleton.mp hrange
      obtain ⟨r, hr, hplace⟩ := hlast last mem_cons_self
      exact ⟨r, mem_append_left _ hr, hplace⟩

theorem Appended.finish_mem : ∀ range ∈ out, ∃ row ∈ rows, row.finish = range.finish := by
  induction h with
  | nil => exact forall_mem_nil _
  | push _ _ ih =>
    refine forall_mem_append.mpr ⟨fun range hrange => ?_, fun range hrange => ?_⟩
    · obtain ⟨row, hrow, heq⟩ := ih range hrange
      exact ⟨row, mem_append_left _ hrow, heq⟩
    · exact ⟨range, mem_append_right _ hrange, rfl⟩
  | grow _ _ hmeet ih =>
    obtain ⟨hbefore, -⟩ := forall_mem_append.mp ih
    refine forall_mem_append.mpr ⟨fun range hrange => ?_, fun range hrange => ?_⟩
    · obtain ⟨row, hrow, heq⟩ := hbefore range hrange
      exact ⟨row, mem_append_left _ hrow, heq⟩
    · obtain rfl := mem_singleton.mp hrange
      exact ⟨_, mem_append_right _ mem_cons_self, (finish_grow hmeet).symm⟩

end

variable [LinearOrder σ]

theorem Appended.sorted (h : Appended rows out) (hsorted : Sorted rows) : Sorted out := by
  induction h with
  | nil => exact .nil
  | push h _ ih =>
    obtain ⟨hrows, -, hnext⟩ := pairwise_append.mp hsorted
    refine pairwise_append.mpr ⟨ih hrows, pairwise_singleton _ _, fun range hrange x hx => ?_⟩
    obtain ⟨r, hr, hplace⟩ := h.place_mem range hrange
    exact hplace ▸ hnext r hr x hx
  | grow _ _ _ ih =>
    obtain ⟨hrows, -, -⟩ := pairwise_append.mp hsorted
    obtain ⟨hout, -, hnext⟩ := pairwise_append.mp (ih hrows)
    refine pairwise_append.mpr ⟨hout, pairwise_singleton _ _, fun range hrange x hx => ?_⟩
    obtain rfl := mem_singleton.mp hx
    exact (hnext range hrange _ mem_cons_self).trans_eq rfl

end

section

variable [LinearOrder σ] {rows : List (ScopedRange σ)}

theorem nodup_points (hsorted : Sorted rows) (h : rows.IsChain Follows) : (rows.flatMap points).Nodup := by
  refine nodup_flatMap.mpr ⟨fun range _ => points_nodup range, ?_⟩
  induction rows with
  | nil => exact .nil
  | cons first rows ih =>
    refine pairwise_cons.mpr ⟨fun range hrange => ?_, ih hsorted.tail h.tail⟩
    rintro ⟨scope, position⟩ hp hq
    obtain ⟨hfirst, -, hlt⟩ := mem_points.mp hp
    obtain ⟨hscope, hle, -⟩ := mem_points.mp hq
    have hsame : first.scope = range.scope := hfirst.trans hscope.symm
    cases rows with
    | nil => cases hrange
    | cons next rows =>
      have hnext := place_le_iff.mp (hsorted.head_le mem_cons_self)
      have hplace : next.place ≤ range.place := by
        rcases mem_cons.mp hrange with rfl | hrange
        · exact le_rfl
        · exact hsorted.tail.head_le hrange
      have hbetween : first.scope = next.scope := by
        refine le_antisymm (hnext.elim le_of_lt fun h => h.1.le) ?_
        rw [hsame]
        exact (place_le_iff.mp hplace).elim le_of_lt fun h => h.1.le
      have hfollows := (isChain_cons_cons.mp h).1 hbetween
      have hstart := start_le hplace (hbetween.symm.trans hsame)
      omega

theorem chain_of_nodup_points (hsorted : Sorted rows) (hpos : ∀ row ∈ rows, 0 < row.count)
    (h : (rows.flatMap points).Nodup) : rows.IsChain Follows := by
  obtain ⟨-, hdisjoint⟩ := nodup_flatMap.mp h
  induction rows with
  | nil => exact .nil
  | cons first rows ih =>
    cases rows with
    | nil => exact .singleton _
    | cons next rows =>
      obtain ⟨hfirst, hrest⟩ := pairwise_cons.mp hdisjoint
      rw [flatMap_cons, nodup_append'] at h
      refine isChain_cons_cons.mpr ⟨fun hscope => ?_, ih hsorted.tail
        (forall_mem_cons.mp hpos).2 h.2.1 hrest⟩
      refine Nat.le_of_not_lt fun hlt => hfirst next mem_cons_self (a := (next.scope, next.start)) ?_ ?_
      · exact mem_points.mpr ⟨hscope, start_le (hsorted.head_le mem_cons_self) hscope, hlt⟩
      · have hcount := hpos next (mem_cons_of_mem _ mem_cons_self)
        refine mem_points.mpr ⟨rfl, le_rfl, ?_⟩
        rw [ScopedRange.finish]
        omega

end

end CoveFormat.AppendedRanges
