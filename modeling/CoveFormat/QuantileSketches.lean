import CoveFormat.CanonicalIdentity
import CoveFormat.MetadataAggregates
import Mathlib.Data.List.Perm.Subperm
import Mathlib.Data.Prod.Lex

namespace CoveFormat.QuantileSketches

open ByteCodes CheckedArith ExceptRules CanonicalValidator AggregateSynopses MetadataAggregates Wire
  List Option
open Canonical (ValueTag TextPredicates)
open CanonicalIdentity (asciiText)

section

variable (P : TextPredicates)

def decodeLengthPrefixedPayload (bytes : Bytes) : Except CoveError (Bytes × Nat) := do
  let read ← decodeU64Leb128 bytes
  let finish ← checkedAdd read.2 read.1
  rejectIf (bytes.length < finish) .bufferTooShort
  .ok ((bytes.take finish).drop read.2, finish)

def compareCanonicalPayload (valueTag : ValueTag) (left right : Bytes) :
    Except CoveError Ordering := do
  validateCanonicalPayload P valueTag left
  validateCanonicalPayload P valueTag right
  match valueTag with
  | .null | .boolFalse | .boolTrue => .ok .eq
  | .int64 | .decimal64 | .timestampMicros | .timestampNanos => compareFixed 8 (signed 64) left right
  | .uint64 => compareFixed 8 (fun n => n) left right
  | .float32Bits => compareFixed 4 (totalKey 32) left right
  | .float64Bits => compareFixed 8 (totalKey 64) left right
  | .decimal128 => compareFixed 16 (signed 128) left right
  | .dateDays => compareFixed 4 (signed 32) left right
  | .utf8 | .binary | .json => do
      let l ← decodeLengthPrefixedPayload left
      let r ← decodeLengthPrefixedPayload right
      .ok (orderingOf l.1 r.1)
  | .uuid | .list | .struct | .map => .ok (orderingOf left right)

def payloadLe (valueTag : ValueTag) (left right : Bytes) : Bool :=
  match compareCanonicalPayload P valueTag left right with
  | .ok ordering => ordering ≠ .gt
  | .error _ => orderingOf left right ≠ .gt

end

def promotedFrom {α : Type} (offset start : Nat) (sorted : List α) : List α :=
  ((sorted.zipIdx start).filter fun p => p.2 % 2 = offset).map Prod.fst

/-- The levels and the level the loop looks at. -/
structure KllState where
  levels : List (List Bytes)
  levelIndex : Nat

section

variable (P : TextPredicates) (valueTag : ValueTag) (capacity : Nat)

def compactLevel (levels : List (List Bytes)) (levelIndex : Nat) (level : List Bytes) :
    List (List Bytes) :=
  let sorted := level.mergeSort (payloadLe P valueTag)
  let promoted := promotedFrom (levelIndex % 2) 0 sorted
  let levels := levels.set levelIndex []
  let levels := if levelIndex + 1 = levels.length then levels ++ [[]] else levels
  levels.modify (levelIndex + 1) (· ++ promoted)

/-- One round of the loop; none where it ends. -/
def kllStep (s : KllState) : Option KllState :=
  match s.levels[s.levelIndex]? with
  | none => none
  | some level =>
    if level.length ≤ capacity then some ⟨s.levels, s.levelIndex + 1⟩
    else some ⟨compactLevel P valueTag s.levels s.levelIndex level, s.levelIndex - 1⟩

variable {P valueTag capacity}

def promoted (P : TextPredicates) (valueTag : ValueTag) (levelIndex : Nat) (level : List Bytes) :
    List Bytes :=
  promotedFrom (levelIndex % 2) 0 (level.mergeSort (payloadLe P valueTag))

def promoteInto (values : List Bytes) : List (List Bytes) → List (List Bytes)
  | [] => [values]
  | next :: rest => (next ++ values) :: rest

theorem modify_after {α : Type} (f : α → α) (before : List α) (a b : α) (after : List α) :
    (before ++ a :: b :: after).modify (before.length + 1) f = before ++ a :: f b :: after := by
  induction before with
  | nil => rfl
  | cons x before ih => rw [cons_append, length_cons, modify_succ_cons, ih]; rfl

theorem compactLevel_eq (before : List (List Bytes)) (level : List Bytes) (after : List (List Bytes)) :
    compactLevel P valueTag (before ++ level :: after) before.length level =
      before ++ [] :: promoteInto (promoted P valueTag before.length level) after := by
  rw [compactLevel, promoted]
  cases after with
  | nil | cons next rest => simp [promoteInto, modify_after]

end

section

variable {α : Type}

theorem promotedFrom_cons (offset start : Nat) (x : α) (xs : List α) :
    promotedFrom offset start (x :: xs) =
      if start % 2 = offset then x :: promotedFrom offset (start + 1) xs
      else promotedFrom offset (start + 1) xs := by
  rw [promotedFrom, zipIdx_cons, filter_cons]
  by_cases h : start % 2 = offset
  · rw [if_pos (decide_eq_true h), if_pos h]
    rfl
  · rw [if_neg (by simpa using h), if_neg h]
    rfl

theorem promotedFrom_sublist (offset start : Nat) (xs : List α) :
    (promotedFrom offset start xs).Sublist xs := by
  have h : (promotedFrom offset start xs).Sublist ((xs.zipIdx start).map Prod.fst) :=
    filter_sublist.map Prod.fst
  rwa [zipIdx_map_fst] at h

theorem promotedFrom_length {offset : Nat} (ho : offset < 2) (start : Nat) (xs : List α) :
    2 * (promotedFrom offset start xs).length ≤
      xs.length + if start % 2 = offset then 1 else 0 := by
  induction xs generalizing start with
  | nil => simp [promotedFrom]
  | cons x xs ih =>
    have hrest := ih (start + 1)
    rw [promotedFrom_cons]
    by_cases h : start % 2 = offset
    · rw [if_neg (by omega)] at hrest
      rw [if_pos h, if_pos h, length_cons, length_cons]
      omega
    · rw [if_pos (by omega)] at hrest
      rw [if_neg h, if_neg h, length_cons]
      omega

variable {P : TextPredicates} {valueTag : ValueTag} {capacity : Nat}

theorem promoted_subperm (levelIndex : Nat) (level : List Bytes) :
    (promoted P valueTag levelIndex level).Subperm level :=
  (promotedFrom_sublist _ _ _).subperm.trans (mergeSort_perm _ _).subperm

theorem promoted_length_lt {level : List Bytes} (h : 1 < level.length) (levelIndex : Nat) :
    (promoted P valueTag levelIndex level).length < level.length := by
  have hbound := promotedFrom_length (Nat.mod_lt levelIndex (by decide)) 0
    (level.mergeSort (payloadLe P valueTag))
  rw [length_mergeSort] at hbound
  rw [promoted]
  split at hbound <;> omega

theorem promoteInto_flatten (values : List Bytes) (after : List (List Bytes)) :
    (promoteInto values after).flatten.Perm (values ++ after.flatten) := by
  cases after with
  | nil => simp [promoteInto]
  | cons next rest =>
    rw [promoteInto, flatten_cons, flatten_cons, append_assoc]
    exact perm_append_comm_assoc _ _ _

variable {s s' : KllState}

theorem kllStep_cases (h : kllStep P valueTag capacity s = some s') :
    ∃ before level after, s = ⟨before ++ level :: after, before.length⟩ ∧
      (level.length ≤ capacity ∧ s' = ⟨before ++ level :: after, before.length + 1⟩ ∨
        capacity < level.length ∧ s' = ⟨before ++ [] ::
          promoteInto (promoted P valueTag before.length level) after, before.length - 1⟩) := by
  obtain ⟨levels, i⟩ := s
  rw [kllStep] at h
  cases hlevel : levels[i]? with
  | none => simp [hlevel] at h
  | some level =>
    obtain ⟨hi, rfl⟩ := List.getElem?_eq_some_iff.mp hlevel
    have hsplit : levels = levels.take i ++ levels[i] :: levels.drop (i + 1) := by
      rw [getElem_cons_drop, take_append_drop]
    have hlen : (levels.take i).length = i := by
      rw [length_take]
      omega
    refine ⟨levels.take i, levels[i], levels.drop (i + 1), by rw [← hsplit, hlen], ?_⟩
    simp only [hlevel] at h
    by_cases hle : levels[i].length ≤ capacity
    · rw [if_pos hle] at h
      refine .inl ⟨hle, ?_⟩
      rw [← hsplit, hlen]
      exact (some.inj h).symm
    · rw [if_neg hle] at h
      refine .inr ⟨by omega, ?_⟩
      have hcompact := @compactLevel_eq P valueTag (levels.take i) levels[i] (levels.drop (i + 1))
      rw [← hsplit, hlen] at hcompact
      rw [hlen, ← hcompact]
      exact (some.inj h).symm

def remaining (s : KllState) : Lex (Nat × Nat) :=
  toLex (s.levels.flatten.length, s.levels.length - s.levelIndex)

theorem kllStep_remaining (hcap : 0 < capacity) (h : kllStep P valueTag capacity s = some s') :
    remaining s' < remaining s := by
  obtain ⟨before, level, after, rfl, ⟨hle, rfl⟩ | ⟨hlt, rfl⟩⟩ := kllStep_cases h
  · apply Prod.Lex.toLex_lt_toLex.mpr
    refine .inr ⟨rfl, ?_⟩
    simp only [length_append, length_cons]
    omega
  · apply Prod.Lex.toLex_lt_toLex.mpr
    refine .inl ?_
    have hfewer := @promoted_length_lt P valueTag level (by omega) before.length
    have hflat := (promoteInto_flatten (promoted P valueTag before.length level) after).length_eq
    simp only [flatten_append, flatten_cons, nil_append, length_append] at hflat ⊢
    omega

def kllRun (P : TextPredicates) (valueTag : ValueTag) (capacity : Nat) (hcap : 0 < capacity)
    (s : KllState) : KllState :=
  match _h : kllStep P valueTag capacity s with
  | none => s
  | some s' => kllRun P valueTag capacity hcap s'
termination_by remaining s
decreasing_by exact kllStep_remaining hcap _h

/-- What holds from round to round: nothing is made up, and the levels passed are small. -/
structure Compacting (values : List Bytes) (capacity : Nat) (s : KllState) : Prop where
  kept : s.levels.flatten.Subperm values
  passed : ∀ level ∈ s.levels.take s.levelIndex, level.length ≤ capacity
  levels : s.levels ≠ []

theorem compacting_step {values : List Bytes} (h : Compacting values capacity s)
    (hstep : kllStep P valueTag capacity s = some s') : Compacting values capacity s' := by
  obtain ⟨before, level, after, rfl, ⟨hle, rfl⟩ | ⟨hlt, rfl⟩⟩ := kllStep_cases hstep
  · have hpassed := h.passed
    rw [take_left] at hpassed
    refine ⟨h.kept, ?_, h.levels⟩
    rw [append_cons, take_left' (by simp)]
    intro l hl
    rcases mem_append.mp hl with hl | hl
    · exact hpassed l hl
    · rw [mem_singleton.mp hl]
      exact hle
  · have hpassed := h.passed
    rw [take_left] at hpassed
    refine ⟨?_, ?_, by simp⟩
    · have hflat := (promoteInto_flatten (promoted P valueTag before.length level) after).subperm
      have hfewer := @promoted_subperm P valueTag before.length level
      have hkept := h.kept
      simp only [flatten_append, flatten_cons, nil_append] at hkept ⊢
      refine .trans ?_ hkept
      refine (subperm_append_left _).mpr (hflat.trans ?_)
      exact (subperm_append_right _).mpr hfewer
    · rw [take_append_of_le_length (Nat.sub_le _ _)]
      intro l hl
      exact hpassed l (mem_of_mem_take hl)

theorem kllRun_spec {values : List Bytes} (hcap : 0 < capacity) {s : KllState}
    (h : Compacting values capacity s) :
    Compacting values capacity (kllRun P valueTag capacity hcap s) ∧
      kllStep P valueTag capacity (kllRun P valueTag capacity hcap s) = none ∧
      Relation.ReflTransGen (fun s s' => kllStep P valueTag capacity s = some s') s
        (kllRun P valueTag capacity hcap s) := by
  fun_induction kllRun P valueTag capacity hcap s with
  | case1 s hnone => exact ⟨h, hnone, .refl⟩
  | case2 s s' hstep ih =>
    obtain ⟨hc, hn, hr⟩ := ih (compacting_step h hstep)
    exact ⟨hc, hn, .head hstep hr⟩

end

section

def pushOffsets : List (List Bytes) → List UInt32 → List Bytes →
    Except CoveError (List UInt32 × List Bytes)
  | [], offsets, flattened => .ok (offsets, flattened)
  | level :: levels, offsets, flattened => do
      let flattened := flattened ++ level
      rejectIf (2 ^ 32 ≤ flattened.length) .arithOverflow
      pushOffsets levels (offsets ++ [UInt32.ofNat flattened.length]) flattened

/-- Offsets that cut the values into levels of at most the capacity. -/
structure Cuts (capacity : Nat) (offsets : List UInt32) (flattened : List Bytes) : Prop where
  head : offsets.head? = some 0
  last : (offsets.getLast?).map UInt32.toNat = some flattened.length
  levels : offsets.IsChain fun a b => a ≤ b ∧ b.toNat ≤ a.toNat + capacity
  bound : ∀ offset ∈ offsets, offset.toNat ≤ flattened.length

theorem Cuts.push {capacity : Nat} {offsets : List UInt32} {flattened level : List Bytes}
    (h : Cuts capacity offsets flattened) (hlevel : level.length ≤ capacity)
    (hlen : (flattened ++ level).length < 2 ^ 32) :
    Cuts capacity (offsets ++ [UInt32.ofNat (flattened ++ level).length]) (flattened ++ level) := by
  have hnew : (UInt32.ofNat (flattened ++ level).length).toNat = (flattened ++ level).length :=
    UInt32.toNat_ofNat_of_lt' hlen
  obtain ⟨last, hlast, hlastLen⟩ := map_eq_some_iff.mp h.last
  have hne : offsets ≠ [] := by
    rintro rfl
    cases hlast
  rw [length_append] at hlen hnew ⊢
  constructor
  · rw [List.head?_append_of_ne_nil _ hne]
    exact h.head
  · rw [List.getLast?_concat, map_some, hnew, length_append]
  · refine h.levels.append (isChain_singleton _) fun a ha b hb => ?_
    obtain rfl := some.inj (hlast.symm.trans ha)
    cases hb
    rw [UInt32.le_iff_toNat_le, hnew]
    omega
  · intro offset hoffset
    rw [length_append]
    rcases mem_append.mp hoffset with ho | ho
    · exact (h.bound offset ho).trans (Nat.le_add_right _ _)
    · rw [mem_singleton.mp ho, hnew]

variable {offsets : List UInt32}

theorem pushOffsets_ok {capacity : Nat} {levels : List (List Bytes)} {flattened : List Bytes}
    (h : Cuts capacity offsets flattened) (hlevels : ∀ level ∈ levels, level.length ≤ capacity)
    (hlen : (flattened ++ levels.flatten).length < 2 ^ 32) :
    ∃ offsets', pushOffsets levels offsets flattened = .ok (offsets', flattened ++ levels.flatten) ∧
      offsets'.length = offsets.length + levels.length ∧
      Cuts capacity offsets' (flattened ++ levels.flatten) := by
  induction levels generalizing offsets flattened with
  | nil => exact ⟨offsets, by simp [pushOffsets], rfl, by simpa using h⟩
  | cons level levels ih =>
    rw [flatten_cons, ← append_assoc] at hlen ⊢
    have hshort : (flattened ++ level).length < 2 ^ 32 := by
      rw [length_append] at hlen
      omega
    obtain ⟨offsets', hpush, hcount, hcuts⟩ := ih
      (h.push (hlevels level mem_cons_self) hshort) (fun l hl => hlevels l (.tail _ hl)) hlen
    refine ⟨offsets', ?_, ?_, hcuts⟩
    · exact rejectIf_andThen (not_le.mpr hshort) hpush
    · rw [hcount, length_append, length_singleton, length_cons]
      omega

theorem validateKll_ok {P : TextPredicates} {k : UInt32} {valueTag : ValueTag} {values : List Bytes}
    (hk : 8 ≤ k) (hlen : 2 ≤ offsets.length) (h : Cuts k.toNat offsets values)
    (hvalid : ∀ value ∈ values, validateCanonicalPayload P valueTag value = .ok ()) :
    validateKll P k valueTag offsets values = .ok () := by
  have hchain : (0 :: offsets).IsChain fun a b => rejectIf (b < a) CoveError.badIndex = .ok () := by
    refine isChain_cons.mpr ⟨fun b hb => ?_, ?_⟩
    · exact rejectIf_ok (UInt32.not_lt.mpr (UInt32.le_iff_toNat_le.mpr (Nat.zero_le _)))
    · exact h.levels.imp fun a b hab => rejectIf_ok (UInt32.not_lt.mpr hab.1)
  obtain ⟨last, hlast, hlastLen⟩ := map_eq_some_iff.mp h.last
  refine andThen_eq_ok_iff.mpr ⟨(), rejectIf_ok ?_, andThen_eq_ok_iff.mpr ⟨(),
    checkPairs_eq_ok_iff.mpr hchain, andThen_eq_ok_iff.mpr ⟨(), checkAll_eq_ok_iff.mpr ?_,
      andThen_eq_ok_iff.mpr ⟨(), rejectIf_ok ?_, checkAll_eq_ok_iff.mpr hvalid⟩⟩⟩⟩
  · exact not_or.mpr ⟨UInt32.not_lt.mpr hk, by omega⟩
  · exact fun offset hoffset => rejectIf_ok (not_lt.mpr (h.bound offset hoffset))
  · rw [hlast, getD_some]
    exact not_not.mpr hlastLen

variable (P : TextPredicates)

theorem capacity_pos {k : UInt32} (h : ¬ k < 8) : 0 < k.toNat := by
  have h := UInt32.le_iff_toNat_le.mp (UInt32.not_lt.mp h)
  exact Nat.lt_of_lt_of_le (by decide) h

def kllCompactorsFromValues (k : UInt32) (valueTag : ValueTag) (values : List Bytes) :
    Except CoveError (List UInt32 × List Bytes) := do
  checkAll (validateCanonicalPayload P valueTag) values
  if h : k < 8 then .error .badIndex
  else do
    let final := kllRun P valueTag k.toNat (capacity_pos h) ⟨[values], 0⟩
    let parts ← pushOffsets final.levels [0] []
    validateKll P k valueTag parts.1 parts.2
    .ok parts

variable {P} {k : UInt32} {valueTag : ValueTag} {values : List Bytes}

theorem compacting_start (capacity : Nat) (values : List Bytes) :
    Compacting values capacity ⟨[values], 0⟩ where
  kept := by simpa using List.Subperm.refl values
  passed := by simp
  levels := cons_ne_nil _ _

variable {capacity : Nat}

theorem levels_of_ended {s : KllState} (h : Compacting values capacity s)
    (hended : kllStep P valueTag capacity s = none) :
    ∀ level ∈ s.levels, level.length ≤ capacity := by
  have hpast : s.levels.length ≤ s.levelIndex := by
    rw [kllStep] at hended
    cases hlevel : s.levels[s.levelIndex]? with
    | none => exact List.getElem?_eq_none_iff.mp hlevel
    | some level =>
      simp only [hlevel] at hended
      split at hended <;> cases hended
  have hpassed := h.passed
  rwa [take_of_length_le hpast] at hpassed

theorem kllRun_small (hcap : 0 < capacity) (h : values.length ≤ capacity) :
    kllRun P valueTag capacity hcap ⟨[values], 0⟩ = ⟨[values], 1⟩ := by
  have hfirst : kllStep P valueTag capacity ⟨[values], 0⟩ = some ⟨[values], 1⟩ := by
    simp [kllStep, h]
  have hend : kllStep P valueTag capacity ⟨[values], 1⟩ = none := rfl
  rw [kllRun, hfirst]
  change kllRun P valueTag capacity hcap ⟨[values], 1⟩ = _
  rw [kllRun, hend]

/-- The loop ends, and what it leaves is cut into small levels of the values. -/
theorem kll_compaction (hk : 8 ≤ k)
    (hvalid : ∀ value ∈ values, validateCanonicalPayload P valueTag value = .ok ())
    (hlen : values.length < 2 ^ 32) :
    ∃ final offsets,
      Relation.ReflTransGen (fun s s' => kllStep P valueTag k.toNat s = some s') ⟨[values], 0⟩ final ∧
      kllStep P valueTag k.toNat final = none ∧
      (∀ level ∈ final.levels, level.length ≤ k.toNat) ∧
      kllCompactorsFromValues P k valueTag values = .ok (offsets, final.levels.flatten) ∧
      final.levels.flatten.Subperm values ∧
      (values.length ≤ k.toNat → final.levels.flatten = values) ∧
      Cuts k.toNat offsets final.levels.flatten ∧
      validateKll P k valueTag offsets final.levels.flatten = .ok () := by
  have hsmall : ¬ k < 8 := UInt32.not_lt.mpr hk
  have hcap := capacity_pos hsmall
  obtain ⟨hfinal, hended, hruns⟩ := @kllRun_spec P valueTag k.toNat values hcap _
    (compacting_start k.toNat values)
  have hequal : values.length ≤ k.toNat →
      (kllRun P valueTag k.toNat hcap ⟨[values], 0⟩).levels.flatten = values := by
    intro h
    rw [kllRun_small hcap h]
    simp
  generalize hrun : kllRun P valueTag k.toNat hcap ⟨[values], 0⟩ = final at *
  have hlevels := levels_of_ended hfinal hended
  have hstart : Cuts k.toNat [0] [] := ⟨rfl, rfl, isChain_singleton _, by simp⟩
  have htotal : ([] ++ final.levels.flatten).length < 2 ^ 32 := by
    rw [nil_append]
    exact hfinal.kept.length_le.trans_lt hlen
  obtain ⟨offsets, hpush, hcount, hcuts⟩ := pushOffsets_ok hstart hlevels htotal
  rw [nil_append] at hpush hcuts
  have hlevelCount := length_pos_of_ne_nil hfinal.levels
  have hkept : ∀ value ∈ final.levels.flatten, validateCanonicalPayload P valueTag value = .ok () :=
    fun value hv => hvalid value (hfinal.kept.subset hv)
  have hkll : validateKll P k valueTag offsets final.levels.flatten = .ok () :=
    validateKll_ok hk (by rw [hcount, length_singleton]; omega) hcuts hkept
  refine ⟨final, offsets, hruns, hended, hlevels, ?_, hfinal.kept, hequal, hcuts, hkll⟩
  refine andThen_eq_ok_iff.mpr ⟨(), checkAll_eq_ok_iff.mpr hvalid, ?_⟩
  rw [dif_neg hsmall, hrun]
  exact andThen_eq_ok_iff.mpr ⟨_, hpush, andThen_eq_ok_iff.mpr ⟨(), hkll, rfl⟩⟩

def twentyValues : List Bytes := (range 20).map (leBytes 8)

theorem kll_compaction_twenty : ∃ final offsets,
    Relation.ReflTransGen (fun s s' => kllStep asciiText .uint64 8 s = some s')
      ⟨[twentyValues], 0⟩ final ∧
    kllStep asciiText .uint64 8 final = none ∧
    (∀ level ∈ final.levels, level.length ≤ 8) ∧
    kllCompactorsFromValues asciiText 8 .uint64 twentyValues = .ok (offsets, final.levels.flatten) ∧
    final.levels.flatten.Subperm twentyValues ∧
    (twentyValues.length ≤ 8 → final.levels.flatten = twentyValues) ∧
    Cuts 8 offsets final.levels.flatten ∧
    validateKll asciiText 8 .uint64 offsets final.levels.flatten = .ok () :=
  @kll_compaction asciiText 8 .uint64 twentyValues (by decide) (by decide +kernel) (by decide)

end

end CoveFormat.QuantileSketches
