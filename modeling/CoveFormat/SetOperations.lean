import CoveFormat.ValueKeys
import Mathlib.Data.List.Count
import Mathlib.Data.List.Induction
import Mathlib.Logic.Function.Basic

namespace CoveFormat.SetOperations

open Function JsonValue List ValueKeys

section

variable {α κ σ : Type} [DecidableEq κ] (key : α → κ) (step : σ → Bool × σ)

/-- `filter` with a closure that holds a state for every key. -/
def retain (cells : κ → σ) : List α → List α
  | [] => []
  | row :: rows =>
    let (keep, cell) := step (cells (key row))
    let rest := retain (update cells (key row) cell) rows
    if keep then row :: rest else rest

/-- How many of `n` rows with one key are kept. -/
def kept (cell : σ) : Nat → Nat
  | 0 => 0
  | n + 1 => (step cell).1.toNat + kept (step cell).2 n

theorem retain_sublist (rows : List α) (cells : κ → σ) :
    (retain key step cells rows).Sublist rows := by
  induction rows generalizing cells with
  | nil => exact .refl _
  | cons row rows ih =>
    simp only [retain]
    split
    · exact (ih _).cons_cons _
    · exact (ih _).cons _

/-- The rows of a key are kept as if there were no others. -/
theorem countP_retain (k : κ) (rows : List α) (cells : κ → σ) :
    (retain key step cells rows).countP (key · = k) =
      kept step (cells k) (rows.countP (key · = k)) := by
  induction rows generalizing cells with
  | nil => rfl
  | cons row rows ih =>
    simp only [retain]
    by_cases hk : key row = k
    · subst hk
      rw [countP_cons_of_pos (by simp), kept]
      cases hkeep : (step (cells (key row))).1 with
      | true => rw [if_pos rfl, countP_cons_of_pos (by simp), ih]; simp [Nat.add_comm]
      | false => rw [if_neg (by simp), ih]; simp
    · rw [countP_cons_of_neg (by simpa using hk)]
      split <;> simp [ih, hk, update_of_ne (Ne.symm hk)]

end

structure MaterializedProjectionRow where
  projectionId : String
  values : List (String × Value)

inductive SetOperationKind
  | union
  | intersect
  | except
  deriving DecidableEq

structure ResolvedSetOperation where
  kind : SetOperationKind
  all : Bool
  deriving DecidableEq

def internalProjectionFieldPrefix : String := "__coveql_"

def isKeyed (name : String) : Bool :=
  !name.toList.contains '.' && !internalProjectionFieldPrefix.toList.isPrefixOf name.toList

def MaterializedProjectionRow.keyed (row : MaterializedProjectionRow) : List (String × Value) :=
  row.values.filter fun field => isKeyed field.1

section

variable (lib : TextLibrary) (k : String) (rows left right : List MaterializedProjectionRow)
  (operation : ResolvedSetOperation)

def materializedProjectionRowKey (row : MaterializedProjectionRow) : String :=
  stableValueKey lib (.object row.keyed)

def multisetCounts : String → Option Nat :=
  rows.foldl (fun counts row =>
    let key := materializedProjectionRowKey lib row
    update counts key (some ((counts key).getD 0 + 1))) fun _ => none

/-- What `right_counts` and `seen` hold for a key. -/
structure KeyState where
  rightCount : Option Nat
  seen : Bool

def KeyState.insertSeen (state : KeyState) : Bool × KeyState :=
  (!state.seen, { state with seen := true })

def intersectStep (all : Bool) (state : KeyState) : Bool × KeyState :=
  if all then
    match state.rightCount with
    | none | some 0 => (false, state)
    | some (count + 1) => (true, { state with rightCount := some count })
  else if state.rightCount.isSome then state.insertSeen
  else (false, state)

def exceptStep (all : Bool) (state : KeyState) : Bool × KeyState :=
  if all then
    match state.rightCount with
    | some (count + 1) => (false, { state with rightCount := some count })
    | none | some 0 => (true, state)
  else if state.rightCount.isSome then (false, state)
  else state.insertSeen

/-- `apply_materialized_set_operation` of the left and the right rows. -/
def applyMaterializedSetOperation : List MaterializedProjectionRow :=
  let key := materializedProjectionRowKey lib
  let start : String → KeyState := fun key => ⟨multisetCounts lib right key, false⟩
  match operation.kind with
  | .union =>
    if operation.all then left ++ right
    else retain key KeyState.insertSeen (fun _ => ⟨none, false⟩) (left ++ right)
  | .intersect => retain key (intersectStep operation.all) start left
  | .except => retain key (exceptStep operation.all) start left

/-- How often an operation returns what stands `m` times on its left and `n` times on its
right. -/
def ResolvedSetOperation.multiplicity (m n : Nat) : Nat :=
  match operation.kind, operation.all with
  | .union, true => m + n
  | .union, false => min 1 (m + n)
  | .intersect, true => min m n
  | .intersect, false => min 1 (min m n)
  | .except, true => m - n
  | .except, false => if n = 0 then min 1 m else 0

theorem kept_fixed {σ : Type} {step : σ → Bool × σ} {cell : σ} {keep : Bool}
    (h : step cell = (keep, cell)) (n : Nat) : kept step cell n = if keep then n else 0 := by
  induction n with
  | zero => simp [kept]
  | succ n ih => cases keep <;> simp [kept, h, ih]; omega

theorem kept_fresh {step : KeyState → Bool × KeyState} {count : Option Nat}
    (h : ∀ seen, step ⟨count, seen⟩ = KeyState.insertSeen ⟨count, seen⟩) (n : Nat) (seen : Bool) :
    kept step ⟨count, seen⟩ n = if seen then 0 else min 1 n := by
  induction n generalizing seen with
  | zero => simp [kept]
  | succ n ih => cases seen <;> simp [kept, h, KeyState.insertSeen, ih]

theorem kept_intersectAll (n c : Nat) (seen : Bool) :
    kept (intersectStep true) ⟨some c, seen⟩ n = min n c := by
  induction n generalizing c with
  | zero => simp [kept]
  | succ n ih => cases c <;> simp [kept, intersectStep, ih]; omega

theorem kept_exceptAll (n c : Nat) (seen : Bool) :
    kept (exceptStep true) ⟨some c, seen⟩ n = n - c := by
  induction n generalizing c with
  | zero => simp [kept]
  | succ n ih => cases c <;> simp [kept, exceptStep, ih]; omega

def counted (n : Nat) : Option Nat := if n = 0 then none else some n

theorem kept_intersect (all : Bool) (m n : Nat) :
    kept (intersectStep all) ⟨counted n, false⟩ m =
      ResolvedSetOperation.multiplicity ⟨.intersect, all⟩ m n := by
  cases n with
  | zero =>
    have hfixed : intersectStep all ⟨none, false⟩ = (false, ⟨none, false⟩) := by cases all <;> rfl
    refine (kept_fixed hfixed m).trans ?_
    cases all <;> simp [ResolvedSetOperation.multiplicity]
  | succ n =>
    cases all with
    | true => exact kept_intersectAll m _ _
    | false =>
      have hfresh (seen : Bool) : intersectStep false ⟨some (n + 1), seen⟩ =
          KeyState.insertSeen ⟨some (n + 1), seen⟩ := rfl
      refine (kept_fresh hfresh m false).trans ?_
      simp [ResolvedSetOperation.multiplicity]
      omega

theorem kept_except (all : Bool) (m n : Nat) :
    kept (exceptStep all) ⟨counted n, false⟩ m =
      ResolvedSetOperation.multiplicity ⟨.except, all⟩ m n := by
  cases all with
  | true =>
    cases n with
    | zero =>
      have hfixed : exceptStep true ⟨none, false⟩ = (true, ⟨none, false⟩) := rfl
      exact kept_fixed hfixed m
    | succ n => exact kept_exceptAll m _ _
  | false =>
    cases n with
    | zero =>
      have hfresh (seen : Bool) : exceptStep false ⟨none, seen⟩ = KeyState.insertSeen ⟨none, seen⟩ :=
        rfl
      exact kept_fresh hfresh m false
    | succ n =>
      have hfixed : exceptStep false ⟨some (n + 1), false⟩ = (false, ⟨some (n + 1), false⟩) := rfl
      exact kept_fixed hfixed m

/-- How many of the rows have a key. -/
def keyCount : Nat := rows.countP (materializedProjectionRowKey lib · = k)

theorem multisetCounts_apply : multisetCounts lib rows k = counted (keyCount lib k rows) := by
  induction rows using reverseRecOn with
  | nil => rfl
  | append_singleton rows row ih =>
    rw [multisetCounts, foldl_append, foldl_cons, foldl_nil, ← multisetCounts, keyCount,
      countP_append, ← keyCount]
    by_cases hk : materializedProjectionRowKey lib row = k
    · subst hk
      rw [update_self, ih]
      simp only [counted]
      split <;> simp [*]
    · rw [update_of_ne (Ne.symm hk), ih]
      simp [hk]

/-- On the keys every operation is the one of multisets. -/
theorem keyCount_applyMaterializedSetOperation :
    keyCount lib k (applyMaterializedSetOperation lib left right operation) =
      operation.multiplicity (keyCount lib k left) (keyCount lib k right) := by
  obtain ⟨kind, all⟩ := operation
  cases kind with
  | union =>
    cases all with
    | true => exact countP_append
    | false =>
      refine (countP_retain _ _ k _ _).trans ?_
      rw [kept_fresh (fun _ => rfl), countP_append]
      rfl
  | intersect =>
    refine (countP_retain _ _ k _ _).trans ?_
    rw [multisetCounts_apply, kept_intersect]
    rfl
  | except =>
    refine (countP_retain _ _ k _ _).trans ?_
    rw [multisetCounts_apply, kept_except]
    rfl

def keysOf : List String := rows.map (materializedProjectionRowKey lib)

variable {lib left right} in
theorem keysOf_perm (h : ∀ k, keyCount lib k left = keyCount lib k right) :
    (keysOf lib left).Perm (keysOf lib right) := by
  have hcount (rows : List MaterializedProjectionRow) (k : String) :
      (keysOf lib rows).count k = keyCount lib k rows := countP_map
  exact perm_iff_count.mpr fun k => by rw [hcount, hcount, h]

/-- The laws of multisets hold of the keys, with ALL and without. -/
theorem setOperations_compose (other : List MaterializedProjectionRow) (all : Bool) :
    let apply kind left right := applyMaterializedSetOperation lib left right ⟨kind, all⟩
    (keysOf lib (apply .intersect left right)).Perm
      (keysOf lib (apply .except left (apply .except left right))) ∧
    (keysOf lib (apply .union (apply .except left right) (apply .intersect left right))).Perm
      (keysOf lib (apply .union left [])) ∧
    (keysOf lib (apply .except (apply .except left right) other)).Perm
      (keysOf lib (apply .except left (apply .union right other))) ∧
    ∀ kind, kind ≠ .except →
      (keysOf lib (apply kind left right)).Perm (keysOf lib (apply kind right left)) := by
  have hnil (k : String) : keyCount lib k [] = 0 := rfl
  refine ⟨keysOf_perm fun k => ?_, keysOf_perm fun k => ?_, keysOf_perm fun k => ?_,
    fun kind hkind => keysOf_perm fun k => ?_⟩
  · simp only [keyCount_applyMaterializedSetOperation, ResolvedSetOperation.multiplicity]
    cases all <;> grind
  · simp only [keyCount_applyMaterializedSetOperation, ResolvedSetOperation.multiplicity, hnil]
    cases all <;> grind
  · simp only [keyCount_applyMaterializedSetOperation, ResolvedSetOperation.multiplicity]
    cases all <;> grind
  · simp only [keyCount_applyMaterializedSetOperation, ResolvedSetOperation.multiplicity]
    cases kind <;> cases all <;> grind

variable {left right operation} in
theorem mem_of_mem_apply {row : MaterializedProjectionRow}
    (h : row ∈ applyMaterializedSetOperation lib left right operation) : row ∈ left ++ right := by
  obtain ⟨kind, all⟩ := operation
  have hleft {step : KeyState → Bool × KeyState} {cells : String → KeyState}
      (h : row ∈ retain (materializedProjectionRowKey lib) step cells left) : row ∈ left ++ right :=
    mem_append_left _ ((retain_sublist _ _ _ _).subset h)
  cases kind with
  | union =>
    cases all with
    | true => exact h
    | false => exact (retain_sublist _ _ _ _).subset h
  | intersect => exact hleft h
  | except => exact hleft h

open Classical in
noncomputable def timesOf (values : List (String × Value)) : Nat := rows.countP (·.values = values)

def ObeysMultisets : Prop :=
  ∀ (operation : ResolvedSetOperation) (values : List (String × Value)),
    timesOf (applyMaterializedSetOperation lib left right operation) values =
      operation.multiplicity (timesOf left values) (timesOf right values)

/-- The text of an object determines the object. -/
def TextsDetermineRows : Prop :=
  ∀ a ∈ left ++ right, ∀ b ∈ left ++ right,
    lib.jsonText (.object a.keyed) = lib.jsonText (.object b.keyed) → a.keyed = b.keyed

/-- No two rows differ only in columns that the key leaves out. -/
def KeysTellRowsApart : Prop :=
  ∀ a ∈ left ++ right, ∀ b ∈ left ++ right, a.keyed = b.keyed → a.values = b.values

variable {lib rows left right} {a b row : MaterializedProjectionRow}

theorem timesOf_eq_keyCount (h : ∀ other ∈ rows, materializedProjectionRowKey lib other =
      materializedProjectionRowKey lib row ↔ other.values = row.values) :
    timesOf rows row.values = keyCount lib (materializedProjectionRowKey lib row) rows :=
  countP_congr fun other hother => by simpa using (h other hother).symm

theorem timesOf_eq_zero {values : List (String × Value)} (h : ∀ row ∈ rows, row.values ≠ values) :
    timesOf rows values = 0 :=
  countP_eq_zero.mpr fun row hrow => by simpa using h row hrow

theorem key_congr (h : a.values = b.values) :
    materializedProjectionRowKey lib a = materializedProjectionRowKey lib b := by
  simp only [materializedProjectionRowKey, MaterializedProjectionRow.keyed, h]

theorem key_eq_iff (htext : TextsDetermineRows lib left right) (h : KeysTellRowsApart left right)
    (ha : a ∈ left ++ right) (hb : b ∈ left ++ right) :
    materializedProjectionRowKey lib a = materializedProjectionRowKey lib b ↔
      a.values = b.values :=
  ⟨fun heq => h a ha b hb (htext a ha b hb heq), key_congr⟩

theorem obeysMultisets_of_keys (htext : TextsDetermineRows lib left right)
    (h : KeysTellRowsApart left right) : ObeysMultisets lib left right := by
  intro operation values
  by_cases hvalues : ∃ row ∈ left ++ right, row.values = values
  · obtain ⟨row, hrow, rfl⟩ := hvalues
    have hcount {rows : List MaterializedProjectionRow} (hsub : ∀ r ∈ rows, r ∈ left ++ right) :=
      timesOf_eq_keyCount fun other hother => key_eq_iff htext h (hsub other hother) hrow
    rw [hcount fun _ hr => mem_append_left _ hr, hcount fun _ hr => mem_append_right _ hr,
      hcount fun _ hr => mem_of_mem_apply lib hr]
    exact keyCount_applyMaterializedSetOperation lib _ left right operation
  · have hnone : ∀ row ∈ left ++ right, row.values ≠ values := fun row hrow heq =>
      hvalues ⟨row, hrow, heq⟩
    rw [timesOf_eq_zero fun _ hr => hnone _ (mem_append_left _ hr),
      timesOf_eq_zero fun _ hr => hnone _ (mem_append_right _ hr),
      timesOf_eq_zero fun _ hr => hnone _ (mem_of_mem_apply lib hr)]
    obtain ⟨kind, all⟩ := operation
    cases kind <;> cases all <;> rfl

/-- UNION returns both of two rows that differ, and returns only one with their key. -/
theorem keys_of_obeysMultisets (h : ObeysMultisets lib left right) :
    KeysTellRowsApart left right := by
  intro a ha b hb hab
  let out := applyMaterializedSetOperation lib left right ⟨.union, false⟩
  let atKey := out.filter fun r =>
    materializedProjectionRowKey lib r = materializedProjectionRowKey lib a
  have hone : atKey.length ≤ 1 := by
    rw [← countP_eq_length_filter, ← keyCount, keyCount_applyMaterializedSetOperation]
    exact Nat.min_le_left 1 _
  have hfound {row : MaterializedProjectionRow} (hrow : row ∈ left ++ right)
      (hkey : row.keyed = a.keyed) : ∃ r ∈ atKey, r.values = row.values := by
    have hpos : 0 < timesOf (left ++ right) row.values := countP_pos_iff.mpr ⟨row, hrow, by simp⟩
    rw [timesOf, countP_append] at hpos
    have hout : timesOf out row.values = 1 :=
      (h ⟨.union, false⟩ row.values).trans (Nat.min_eq_left hpos)
    obtain ⟨r, hr, hvalues⟩ := countP_pos_iff.mp (hout.symm ▸ Nat.one_pos)
    have hvalues : r.values = row.values := by simpa using hvalues
    have hrkey : materializedProjectionRowKey lib r = materializedProjectionRowKey lib a :=
      (key_congr hvalues).trans (congrArg (fun fields => stableValueKey lib (.object fields)) hkey)
    exact ⟨r, mem_filter.mpr ⟨hr, by simpa using hrkey⟩, hvalues⟩
  obtain ⟨r, hr, hra⟩ := hfound ha rfl
  obtain ⟨s, hs, hsb⟩ := hfound hb hab.symm
  have hrs : r = s := by
    match atKey, hone, hr, hs with
    | [_], _, hr, hs => exact (mem_singleton.mp hr).trans (mem_singleton.mp hs).symm
  rw [← hra, ← hsb, hrs]

theorem setOperations_obey_iff (htext : TextsDetermineRows lib left right) :
    ObeysMultisets lib left right ↔ KeysTellRowsApart left right :=
  ⟨keys_of_obeysMultisets, obeysMultisets_of_keys htext⟩

def dottedRow (n : Nat) : MaterializedProjectionRow :=
  ⟨"t", [("a", .number (.posInt 1)), ("a.b", .number (.posInt n))]⟩

theorem dottedRow_keyed (n : Nat) : (dottedRow n).keyed = [("a", .number (.posInt 1))] := by
  have hplain : isKeyed "a" = true := by decide
  have hdotted : isKeyed "a.b" = false := by decide
  simp [MaterializedProjectionRow.keyed, dottedRow, hplain, hdotted]

theorem setOperations_obey_iff_dotted :
    ObeysMultisets jsonTexts [dottedRow 1] [dottedRow 2] ↔
      KeysTellRowsApart [dottedRow 1] [dottedRow 2] :=
  setOperations_obey_iff (by simp [TextsDetermineRows, dottedRow_keyed])

/-- Of two rows that differ in a column `a.b`, UNION returns one. -/
theorem setOperations_merge_rows :
    ¬ ObeysMultisets jsonTexts [dottedRow 1] [dottedRow 2] := by
  intro h
  have hvalues := keys_of_obeysMultisets h (dottedRow 1) (by simp) (dottedRow 2) (by simp)
    ((dottedRow_keyed 1).trans (dottedRow_keyed 2).symm)
  simp [dottedRow] at hvalues

end

end CoveFormat.SetOperations
