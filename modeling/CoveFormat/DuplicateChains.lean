import CoveFormat.CoviComparators
import CoveFormat.LinkedChains

namespace CoveFormat.DuplicateChains

open CoviComparators LinkedChains Option

/-- How a run of the validation stops: it returns, or an index of a slice is out of bounds. -/
inductive Halt
  | returns (result : Except CoveError Unit)
  | panics

section

variable (entries : List CoviIndexEntryV2)

/-- The place that a reference names; the absent reference names none. -/
def place (r : UInt32) : Option Nat := if r = absentU32 then none else some r.toNat

/-- `entries[i].next_duplicate_ref`. -/
def nextDuplicate (i : Nat) : Option (Option Nat) :=
  entries[i]?.map fun entry => place entry.nextDuplicateRef

/-- The checks of the entries from a position on. No result means that the fuel of a cycle search
did not suffice. -/
def validateEntriesFrom (fuel : Nat) : Nat → List CoviIndexEntryV2 → Option Halt
  | _, [] => some (.returns (.ok ()))
  | index, entry :: rest =>
    if entry.entryRef.toNat ≠ index then some (.returns (.error .badCovi))
    else if entry.nextDuplicateRef ≠ absentU32 ∧
        entries.length ≤ entry.nextDuplicateRef.toNat then some (.returns (.error .badCovi))
    else
      let first := place entry.nextDuplicateRef
      -- Only the links of the entries before have been checked when the walkers follow them.
      match race (nextDuplicate entries) fuel first first with
      | none => none
      | some .cycle => some (.returns (.error .badCovi))
      | some .offTable => some .panics
      | some .ended => validateEntriesFrom fuel (index + 1) rest

def validateCoviEntryRefs (fuel : Nat) : Option Halt := validateEntriesFrom entries fuel 0 entries

/-- Following `next_duplicate_ref` reaches the absent reference. -/
inductive ReachesAbsent : UInt32 → Prop
  | absent : ReachesAbsent absentU32
  | next {r : UInt32} {entry : CoviIndexEntryV2} (hr : r ≠ absentU32)
      (hentry : entries[r.toNat]? = some entry) (h : ReachesAbsent entry.nextDuplicateRef) :
      ReachesAbsent r

/-- Following `next_duplicate_ref` reaches a reference to no entry. -/
inductive ReachesDangling : UInt32 → Prop
  | dangling {r : UInt32} (hr : r ≠ absentU32) (h : entries.length ≤ r.toNat) : ReachesDangling r
  | next {r : UInt32} {entry : CoviIndexEntryV2} (hr : r ≠ absentU32)
      (hentry : entries[r.toNat]? = some entry) (h : ReachesDangling entry.nextDuplicateRef) :
      ReachesDangling r

/-- The checks that an entry passes by itself. -/
structure Placed (index : Nat) (entry : CoviIndexEntryV2) : Prop where
  entryRef : entry.entryRef.toNat = index
  next : entry.nextDuplicateRef = absentU32 ∨ entry.nextDuplicateRef.toNat < entries.length

structure Sound (index : Nat) (entry : CoviIndexEntryV2) : Prop extends Placed entries index entry where
  reaches : ReachesAbsent entries entry.nextDuplicateRef

def AllSound : Prop := ∀ index entry, entries[index]? = some entry → Sound entries index entry

/-- The validation returns, and it accepts exactly what it should. -/
def Exact : Prop :=
  ∃ bound result, (∀ fuel ≥ bound, validateCoviEntryRefs entries fuel = some (.returns result)) ∧
    (result = .ok () ↔ AllSound entries)

/-- The first entry that is not in order is so only because its chain leaves the table further on. -/
def DanglesFirst : Prop :=
  ∃ index entry, entries[index]? = some entry ∧ Placed entries index entry ∧
    ReachesDangling entries entry.nextDuplicateRef ∧
    ∀ i < index, ∀ e, entries[i]? = some e → Sound entries i e

variable {entries : List CoviIndexEntryV2} {r : UInt32} {fuel : Nat}

theorem place_absent : place absentU32 = none := if_pos rfl

section

variable (h : r ≠ absentU32)
include h

theorem place_present : place r = some r.toNat := if_neg h

theorem hop_present : hop (nextDuplicate entries) (place r) =
    entries[r.toNat]?.map fun entry => place entry.nextDuplicateRef := by
  rw [place_present h]
  rfl

theorem hop_entry {entry : CoviIndexEntryV2} (hentry : entries[r.toNat]? = some entry) :
    hop (nextDuplicate entries) (place r) = some (place entry.nextDuplicateRef) := by
  rw [hop_present h, hentry]
  rfl

end

theorem reachesAbsent_iff : ReachesAbsent entries r ↔ Ends (nextDuplicate entries) (place r) := by
  constructor
  · intro h
    induction h with
    | absent => exact ⟨0, congrArg some place_absent⟩
    | next hr hentry _ ih => exact (ends_hop (hop_entry hr hentry)).mpr ih
  · rintro ⟨m, hm⟩
    induction m generalizing r with
    | zero =>
      by_cases hr : r = absentU32
      · exact hr ▸ .absent
      · have hnone := some.inj hm
        rw [place_present hr] at hnone
        cases hnone
    | succ m ih =>
      by_cases hr : r = absentU32
      · exact hr ▸ .absent
      · cases hentry : entries[r.toNat]? with
        | none =>
          have hleft : walk (nextDuplicate entries) (place r) 1 = none := by
            rw [walk_succ rfl, hop_present hr, hentry]
            rfl
          rw [Nat.add_comm, walk_left hleft] at hm
          cases hm
        | some entry =>
          rw [walk_from (hop_entry hr hentry)] at hm
          exact .next hr hentry (ih hm)

theorem reachesDangling_iff :
    ReachesDangling entries r ↔ Leaves (nextDuplicate entries) (place r) := by
  constructor
  · intro h
    induction h with
    | dangling hr h =>
      refine ⟨1, ?_⟩
      rw [walk_succ rfl, hop_present hr, List.getElem?_eq_none h]
      rfl
    | next hr hentry _ ih => exact (leaves_hop (hop_entry hr hentry)).mpr ih
  · rintro ⟨m, hm⟩
    induction m generalizing r with
    | zero => cases hm
    | succ m ih =>
      by_cases hr : r = absentU32
      · have hended : walk (nextDuplicate entries) (place r) 0 = some none := by
          rw [hr, place_absent]
          rfl
        rw [← Nat.zero_add (m + 1), walk_ended hended] at hm
        cases hm
      · cases hentry : entries[r.toNat]? with
        | none => exact .dangling hr (List.getElem?_eq_none_iff.mp hentry)
        | some entry =>
          rw [walk_from (hop_entry hr hentry)] at hm
          exact .next hr hentry (ih hm)

theorem search_spec (hfuel : entries.length + 1 < fuel) : ∃ finish,
    race (nextDuplicate entries) fuel (place r) (place r) = some finish ∧
      (finish = .ended ↔ ReachesAbsent entries r) ∧ (finish = .offTable ↔ ReachesDangling entries r) := by
  rw [reachesAbsent_iff, reachesDangling_iff]
  refine race_spec (fun i hi => ?_) hfuel
  rw [nextDuplicate, List.getElem?_eq_none hi]
  rfl

theorem not_absent_and_dangling (h : ReachesAbsent entries r) : ¬ ReachesDangling entries r := by
  rw [reachesAbsent_iff] at h
  rw [reachesDangling_iff]
  exact not_leaves_of_ends h

end

section

variable {entries rest : List CoviIndexEntryV2} {entry : CoviIndexEntryV2} {index fuel : Nat}

theorem not_danglesFirst (h : AllSound entries) : ¬ DanglesFirst entries := by
  rintro ⟨i, e, he, -, hdangling, -⟩
  exact not_absent_and_dangling (h i e he).reaches hdangling

theorem danglesFirst_iff (hentry : entries[index]? = some entry)
    (hbefore : ∀ i < index, ∀ e, entries[i]? = some e → Sound entries i e)
    (hnot : ¬ Sound entries index entry) : DanglesFirst entries ↔
      Placed entries index entry ∧ ReachesDangling entries entry.nextDuplicateRef := by
  constructor
  · rintro ⟨i, e, he, hplaced, hdangling, hsound⟩
    rcases lt_trichotomy i index with hlt | rfl | hgt
    · exact absurd hdangling (not_absent_and_dangling (hbefore i hlt e he).reaches)
    · obtain rfl := some.inj (he.symm.trans hentry)
      exact ⟨hplaced, hdangling⟩
    · exact absurd (hsound index hgt entry hentry) hnot
  · rintro ⟨hplaced, hdangling⟩
    exact ⟨index, entry, hentry, hplaced, hdangling, hbefore⟩

/-- What a run of the validation comes to. -/
inductive Outcome (entries : List CoviIndexEntryV2) : Option Halt → Prop
  | dangles (h : DanglesFirst entries) : Outcome entries (some .panics)
  | accepts (h : AllSound entries) : Outcome entries (some (.returns (.ok ())))
  | rejects (hdangling : ¬ DanglesFirst entries) (h : ¬ AllSound entries) :
      Outcome entries (some (.returns (.error .badCovi)))

variable (hfuel : entries.length + 1 < fuel)
include hfuel

theorem validateEntriesFrom_outcome (hrest : entries.drop index = rest)
    (hbefore : ∀ i < index, ∀ e, entries[i]? = some e → Sound entries i e) :
    Outcome entries (validateEntriesFrom entries fuel index rest) := by
  induction rest generalizing index with
  | nil =>
    refine .accepts fun i e he => hbefore i ?_ e he
    have hlt := (List.getElem?_eq_some_iff.mp he).1
    have hle := List.drop_eq_nil_iff.mp hrest
    omega
  | cons entry rest ih =>
    have hentry : entries[index]? = some entry := by
      rw [← List.head?_drop, hrest]
      rfl
    have hfail : ¬ Sound entries index entry →
        ¬ (Placed entries index entry ∧ ReachesDangling entries entry.nextDuplicateRef) →
        Outcome entries (some (.returns (.error .badCovi))) := by
      intro hnot hnear
      refine .rejects ?_ fun h => hnot (h index entry hentry)
      rwa [danglesFirst_iff hentry hbefore hnot]
    rw [validateEntriesFrom]
    split
    · rename_i href
      exact hfail (fun h => href h.entryRef) fun h => href h.1.entryRef
    split
    · rename_i hbeyond
      have hnot : ¬ Placed entries index entry := fun h =>
        h.next.elim hbeyond.1 (Nat.not_lt.mpr hbeyond.2)
      exact hfail (fun h => hnot h.toPlaced) fun h => hnot h.1
    rename_i href hbeyond
    have hplaced : Placed entries index entry := by
      refine ⟨not_not.mp href, ?_⟩
      by_contra hcon
      push Not at hcon
      exact hbeyond hcon
    obtain ⟨finish, hrace, hended, hoff⟩ := @search_spec entries entry.nextDuplicateRef fuel hfuel
    simp only [hrace]
    cases finish with
    | ended =>
      refine ih (by rw [← List.drop_drop, hrest]; rfl) fun i hi e he => ?_
      rcases Nat.lt_succ_iff_lt_or_eq.mp hi with hlt | rfl
      · exact hbefore i hlt e he
      · obtain rfl := some.inj (he.symm.trans hentry)
        exact ⟨hplaced, hended.mp rfl⟩
    | cycle =>
      have hdangling : ¬ ReachesDangling entries entry.nextDuplicateRef :=
        fun h => Finish.noConfusion (hoff.mpr h)
      exact hfail (fun h => Finish.noConfusion (hended.mpr h.reaches)) fun h => hdangling h.2
    | offTable => exact .dangles ⟨index, entry, hentry, hplaced, hoff.mp rfl, hbefore⟩

theorem validateCoviEntryRefs_outcome : Outcome entries (validateCoviEntryRefs entries fuel) :=
  validateEntriesFrom_outcome hfuel rfl fun i hi => absurd hi (Nat.not_lt_zero i)

end

/-- The validation terminates without a panic and accepts exactly the lists whose entries are all
in order, unless the first entry that is not in order has a chain that dangles further on. -/
theorem validation_exact_iff (entries : List CoviIndexEntryV2) :
    Exact entries ↔ ¬ DanglesFirst entries := by
  constructor
  · rintro ⟨bound, result, hrun, -⟩ hdangling
    have hfuel : entries.length + 1 < max bound (entries.length + 2) := by omega
    have houtcome := validateCoviEntryRefs_outcome hfuel
    rw [hrun _ (le_max_left _ _)] at houtcome
    cases houtcome with
    | accepts h => exact not_danglesFirst h hdangling
    | rejects h _ => exact h hdangling
  · intro hdangling
    by_cases hsound : AllSound entries
    · refine ⟨entries.length + 2, .ok (), fun fuel hfuel => ?_, iff_of_true rfl hsound⟩
      have houtcome := validateCoviEntryRefs_outcome (Nat.lt_of_succ_le hfuel)
      generalize validateCoviEntryRefs entries fuel = run at houtcome
      cases houtcome with
      | dangles h => exact absurd h hdangling
      | accepts _ => rfl
      | rejects _ h => exact absurd hsound h
    · refine ⟨entries.length + 2, .error .badCovi, fun fuel hfuel => ?_,
        iff_of_false (by rintro ⟨⟩) hsound⟩
      have houtcome := validateCoviEntryRefs_outcome (Nat.lt_of_succ_le hfuel)
      generalize validateCoviEntryRefs entries fuel = run at houtcome
      cases houtcome with
      | dangles h => exact absurd h hdangling
      | accepts h => exact absurd h hsound
      | rejects _ _ => rfl

def chainEntry (entryRef nextDuplicateRef : UInt32) : CoviIndexEntryV2 where
  entryRef := entryRef
  indexRootId := 0
  keyKind := .canonicalValueBytes
  comparatorKind := .canonicalOrdering
  keyOffset := 0
  keyLength := 2
  keyHash64 := 0
  postingsRef := 0
  nextDuplicateRef := nextDuplicateRef

/-- The second of two entries refers to a third one; the search from the first follows it. -/
theorem dangling_link_panics : validateCoviEntryRefs [chainEntry 0 1, chainEntry 1 2] 4 = some .panics ∧
    ¬ Exact [chainEntry 0 1, chainEntry 1 2] := by
  have hpanics : ∀ fuel, validateCoviEntryRefs [chainEntry 0 1, chainEntry 1 2] (fuel + 1) =
      some .panics := by
    intro fuel
    rfl
  refine ⟨hpanics 3, ?_⟩
  rintro ⟨bound, result, hrun, -⟩
  have h := (hrun (bound + 1) (Nat.le_succ bound)).symm.trans (hpanics bound)
  cases h

end CoveFormat.DuplicateChains
