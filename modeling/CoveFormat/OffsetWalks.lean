import CoveFormat.ExceptRules

namespace CoveFormat.OffsetWalks

open Except ExceptRules List

variable {ε σ α β : Type}

def skip (next : σ → Except ε σ) : Nat → σ → Except ε σ
  | 0, pos => .ok pos
  | count + 1, pos => do
      let pos ← next pos
      skip next count pos

def offsets (next : σ → Except ε σ) : Nat → σ → Except ε (List σ)
  | 0, _ => .ok []
  | count + 1, pos => do
      let after ← next pos
      let rest ← offsets next count after
      .ok (pos :: rest)

/-- A loop that reads record after record and keeps something of each with its number. -/
structure ReadsRecords (next : σ → Except ε σ) (read : σ → Except ε α) (keep : Nat → α → Except ε β)
    (rows : Nat → Nat → σ → Except ε (List β)) : Prop where
  zero : ∀ row pos, rows 0 row pos = .ok []
  succ_ok_iff : ∀ count row pos kept, rows (count + 1) row pos = .ok kept ↔
    ∃ after x k rest, next pos = .ok after ∧ read pos = .ok x ∧ keep row x = .ok k ∧
      rows count (row + 1) after = .ok rest ∧ k :: rest = kept

section

variable {next : σ → Except ε σ} {read : σ → Except ε α} {keep : Nat → α → Except ε β}
  {rows : Nat → Nat → σ → Except ε (List β)} {pos : σ} {offs : List σ} {count row : Nat}
  {kept : List β}

theorem offsets_succ_ok : offsets next (count + 1) pos = .ok offs ↔
    ∃ after rest, next pos = .ok after ∧ offsets next count after = .ok rest ∧ pos :: rest = offs := by
  constructor
  · intro h
    obtain ⟨after, hafter, h⟩ := of_andThen h
    obtain ⟨rest, hrest, h⟩ := of_andThen h
    exact ⟨after, rest, hafter, hrest, ok.inj h⟩
  · rintro ⟨after, rest, hafter, hrest, rfl⟩
    exact andThen_ok hafter (andThen_ok hrest rfl)

section

variable (h : offsets next count pos = .ok offs)
include h

theorem offsets_length : offs.length = count := by
  induction count generalizing pos offs with
  | zero => rw [← ok.inj h, length_nil]
  | succ count ih =>
    obtain ⟨after, rest, -, hrest, rfl⟩ := offsets_succ_ok.mp h
    rw [length_cons, ih hrest]

theorem skip_of_offsets {i : Nat} {p : σ} (hp : offs[i]? = some p) : skip next i pos = .ok p := by
  induction count generalizing pos offs i with
  | zero =>
    cases h
    cases hp
  | succ count ih =>
    obtain ⟨after, rest, hafter, hrest, rfl⟩ := offsets_succ_ok.mp h
    cases i with
    | zero => rw [skip, Option.some.inj hp]
    | succ i =>
      rw [skip, hafter]
      exact ih hrest hp

theorem next_of_offsets {p : σ} (hp : p ∈ offs) : ∃ after, next p = .ok after := by
  induction count generalizing pos offs with
  | zero =>
    cases h
    cases hp
  | succ count ih =>
    obtain ⟨after, rest, hafter, hrest, rfl⟩ := offsets_succ_ok.mp h
    rcases mem_cons.mp hp with rfl | hp
    · exact ⟨after, hafter⟩
    · exact ih hrest hp

end

section

variable (hr : ReadsRecords next read keep rows)
include hr

theorem ReadsRecords.length (h : rows count row pos = .ok kept) : kept.length = count := by
  induction count generalizing row pos kept with
  | zero =>
    rw [hr.zero] at h
    rw [← ok.inj h, length_nil]
  | succ count ih =>
    obtain ⟨after, x, k, rest, -, -, -, hrest, rfl⟩ := (hr.succ_ok_iff ..).mp h
    rw [length_cons, ih hrest]

theorem ReadsRecords.ok_iff :
    rows count row pos = .ok kept ↔ ∃ offs, offsets next count pos = .ok offs ∧
        Forall₂ (fun p k => ∃ x, read p.1 = .ok x ∧ keep p.2 x = .ok k)
          (offs.zipIdx row) kept := by
  induction count generalizing row pos kept with
  | zero =>
    constructor
    · intro h
      rw [hr.zero] at h
      cases h
      exact ⟨[], rfl, .nil⟩
    · rintro ⟨offs, hoffs, hkept⟩
      cases hoffs
      rw [forall₂_nil_left_iff.mp hkept, hr.zero]
  | succ count ih =>
    rw [hr.succ_ok_iff]
    constructor
    · rintro ⟨after, x, k, rest, hnext, hx, hk, hrest, rfl⟩
      obtain ⟨offs, hoffs, hkept⟩ := ih.mp hrest
      refine ⟨pos :: offs, offsets_succ_ok.mpr ⟨after, offs, hnext, hoffs, rfl⟩, ?_⟩
      exact .cons ⟨x, hx, hk⟩ hkept
    · rintro ⟨offs, hoffs, hkept⟩
      obtain ⟨after, others, hnext, hothers, rfl⟩ := offsets_succ_ok.mp hoffs
      cases hkept with
      | cons hk hkept =>
        obtain ⟨x, hx, hk⟩ := hk
        exact ⟨after, x, _, _, hnext, hx, hk, ih.mpr ⟨others, hothers, hkept⟩, rfl⟩

end

theorem range_mapM_congr {f g : Nat → Except ε β} (h : ∀ i < count, f i = g i) :
    (List.range count).mapM f = (List.range count).mapM g := by
  suffices hall : ∀ is : List Nat, (∀ i ∈ is, f i = g i) → is.mapM f = is.mapM g from
    hall _ fun i hi => h i (mem_range.mp hi)
  intro is his
  induction is with
  | nil => rfl
  | cons i is ih =>
    obtain ⟨hi, his⟩ := forall_mem_cons.mp his
    rw [mapM_cons, mapM_cons, hi, ih his]

theorem range_mapM_ok_iff {f : Nat → Except ε β} : (List.range count).mapM f = .ok kept ↔
      kept.length = count ∧ ∀ i k, kept[i]? = some k → f i = .ok k := by
  rw [mapM_eq_ok_iff, forall₂_iff_get]
  constructor
  · rintro ⟨hlen, hall⟩
    rw [length_range] at hlen
    refine ⟨hlen.symm, fun i k hk => ?_⟩
    obtain ⟨hi, rfl⟩ := List.getElem?_eq_some_iff.mp hk
    simpa using hall i (by rwa [length_range, hlen]) hi
  · rintro ⟨hlen, hall⟩
    refine ⟨by rw [length_range, hlen], fun i hi hlt => ?_⟩
    simpa using hall i kept[i] (List.getElem?_eq_getElem hlt)

end

end CoveFormat.OffsetWalks
