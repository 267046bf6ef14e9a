import Mathlib.Data.Finset.Card
import Mathlib.Data.List.Sort

namespace CoveFormat.OrderedMaps

open List Option

variable {κ ν μ : Type} [LinearOrder κ]

/-- A map as its entries in the order of their keys. -/
structure OrderedMap (κ ν : Type) [LinearOrder κ] where
  entries : List (κ × ν)
  sorted : (entries.map Prod.fst).Pairwise (· < ·)

def lookup (key : κ) : List (κ × ν) → Option ν
  | [] => none
  | entry :: entries => if entry.1 = key then some entry.2 else lookup key entries

/-- Changes the value of the key, which is the new one where the key has none yet. -/
def upsert (key : κ) (new : ν) (change : ν → ν) : List (κ × ν) → List (κ × ν)
  | [] => [(key, change new)]
  | entry :: entries =>
    if key < entry.1 then (key, change new) :: entry :: entries
    else if entry.1 = key then (key, change entry.2) :: entries
    else entry :: upsert key new change entries

section

variable {key other : κ} {new value : ν} {change : ν → ν} {entries : List (κ × ν)}

theorem lookup_eq_none_iff : lookup key entries = none ↔ key ∉ entries.map Prod.fst := by
  induction entries with
  | nil => simp [lookup]
  | cons entry entries ih =>
    rw [lookup, map_cons, mem_cons, not_or, ← ih]
    by_cases h : entry.1 = key
    · rw [if_pos h]
      exact iff_of_false (some_ne_none _) fun hne => hne.1 h.symm
    · rw [if_neg h]
      exact (and_iff_right fun heq => h heq.symm).symm

theorem lookup_map (f : ν → μ) :
    lookup key (entries.map fun entry => (entry.1, f entry.2)) = (lookup key entries).map f := by
  induction entries with
  | nil => rfl
  | cons entry entries ih =>
    rw [map_cons, lookup, lookup, ih]
    split <;> rfl

theorem mem_keys_upsert : other ∈ (upsert key new change entries).map Prod.fst ↔
    other = key ∨ other ∈ entries.map Prod.fst := by
  induction entries with
  | nil => simp [upsert]
  | cons entry entries ih =>
    rw [upsert]
    split
    · rw [map_cons, mem_cons]
    · split
      · rename_i h
        rw [map_cons, map_cons, mem_cons, mem_cons, h]
        tauto
      · rw [map_cons, map_cons, mem_cons, mem_cons, ih]
        tauto

theorem upsert_sorted (h : (entries.map Prod.fst).Pairwise (· < ·)) :
    ((upsert key new change entries).map Prod.fst).Pairwise (· < ·) := by
  induction entries with
  | nil => exact pairwise_singleton _ _
  | cons entry entries ih =>
    obtain ⟨hbelow, htail⟩ := pairwise_cons.mp h
    rw [upsert]
    split
    · rename_i hlt
      refine pairwise_cons.mpr ⟨forall_mem_cons.mpr ⟨hlt, fun k hk => ?_⟩, h⟩
      exact hlt.trans (hbelow k hk)
    · split
      · rename_i heq
        exact pairwise_cons.mpr ⟨heq ▸ hbelow, htail⟩
      · rename_i hge hne
        refine pairwise_cons.mpr ⟨fun k hk => ?_, ih htail⟩
        rcases mem_keys_upsert.mp hk with rfl | hk
        · exact lt_of_le_of_ne (not_lt.mp hge) hne
        · exact hbelow k hk

theorem upsert_above (h : ∀ other ∈ entries.map Prod.fst, other < key) :
    upsert key new change entries = entries ++ [(key, change new)] := by
  induction entries with
  | nil => rfl
  | cons entry entries ih =>
    obtain ⟨hlt, hrest⟩ := forall_mem_cons.mp h
    rw [upsert, if_neg (lt_asymm hlt), if_neg hlt.ne, ih hrest, cons_append]

theorem lookup_upsert (h : (entries.map Prod.fst).Pairwise (· < ·)) :
    lookup other (upsert key new change entries) =
      if key = other then some (change ((lookup key entries).getD new)) else lookup other entries := by
  induction entries with
  | nil => rfl
  | cons entry entries ih =>
    obtain ⟨hbelow, htail⟩ := pairwise_cons.mp h
    rw [upsert]
    split
    · rename_i hlt
      have hnew : lookup key (entry :: entries) = none := by
        refine lookup_eq_none_iff.mpr fun hmem => ?_
        rcases mem_cons.mp hmem with rfl | hmem
        · exact lt_irrefl _ hlt
        · exact lt_asymm hlt (hbelow key hmem)
      rw [lookup, hnew]
      rfl
    · split
      · rename_i heq
        rw [lookup, lookup, lookup, if_pos heq, heq]
        split <;> rfl
      · rename_i hne
        rw [lookup, lookup, lookup, if_neg hne, ih htail]
        by_cases hentry : entry.1 = other
        · rw [if_pos hentry, if_pos hentry, if_neg fun h => hne (hentry.trans h.symm)]
        · rw [if_neg hentry, if_neg hentry]

theorem mem_of_lookup (h : lookup key entries = some value) : (key, value) ∈ entries := by
  induction entries with
  | nil => cases h
  | cons entry entries ih =>
    rw [lookup] at h
    split at h
    · rename_i heq
      cases h
      exact heq ▸ mem_cons_self
    · exact mem_cons_of_mem _ (ih h)

theorem lookup_of_mem (hsorted : (entries.map Prod.fst).Pairwise (· < ·)) (h : (key, value) ∈ entries) :
    lookup key entries = some value := by
  induction entries with
  | nil => cases h
  | cons entry entries ih =>
    obtain ⟨hbelow, htail⟩ := pairwise_cons.mp hsorted
    rw [lookup]
    rcases mem_cons.mp h with rfl | h
    · exact if_pos rfl
    · have hlt := hbelow key (mem_map_of_mem h)
      rw [if_neg hlt.ne, ih htail h]

end

namespace OrderedMap

variable (m : OrderedMap κ ν)

def empty : OrderedMap κ ν := ⟨[], .nil⟩

def keys : List κ := m.entries.map Prod.fst

def values : List ν := m.entries.map Prod.snd

def get (key : κ) : Option ν := lookup key m.entries

def entryOr (key : κ) (new : ν) (change : ν → ν) : OrderedMap κ ν :=
  ⟨upsert key new change m.entries, upsert_sorted m.sorted⟩

def mapValues (f : ν → μ) : OrderedMap κ μ :=
  ⟨m.entries.map fun entry => (entry.1, f entry.2), by rw [List.map_map]; exact m.sorted⟩

variable {m} {key other : κ} {new value : ν} {change : ν → ν}

@[simp] theorem get_empty : (empty : OrderedMap κ ν).get key = none := rfl

theorem get_entryOr : (m.entryOr key new change).get other =
    if key = other then some (change ((m.get key).getD new)) else m.get other := lookup_upsert m.sorted

theorem get_mapValues (f : ν → μ) : (m.mapValues f).get key = (m.get key).map f := lookup_map f

theorem mem_keys_iff : key ∈ m.keys ↔ (m.get key).isSome := by
  rw [isSome_iff_ne_none, Ne, get, lookup_eq_none_iff, not_not]
  rfl

theorem mem_entries_iff : (key, value) ∈ m.entries ↔ m.get key = some value :=
  ⟨lookup_of_mem m.sorted, mem_of_lookup⟩

end OrderedMap

end CoveFormat.OrderedMaps

namespace CoveFormat.OrderedSets

open List OrderedMaps

variable {α : Type} [LinearOrder α]

/-- A set as its elements in their order. -/
structure OrderedSet (α : Type) [LinearOrder α] where
  elems : List α
  sorted : elems.Pairwise (· < ·)

namespace OrderedSet

variable {s : OrderedSet α} {a b : α} {as : List α}

instance : Membership α (OrderedSet α) := ⟨fun s a => a ∈ s.elems⟩

theorem mem_def : a ∈ s ↔ a ∈ s.elems := Iff.rfl

instance (s : OrderedSet α) (a : α) : Decidable (a ∈ s) := inferInstanceAs (Decidable (a ∈ s.elems))

def empty : OrderedSet α := ⟨[], .nil⟩

theorem nodup (s : OrderedSet α) : s.elems.Nodup := s.sorted.imp ne_of_lt

def insertInto (a : α) : List α → List α
  | [] => [a]
  | b :: bs => if a < b then a :: b :: bs else if a = b then b :: bs else b :: insertInto a bs

theorem mem_insertInto : b ∈ insertInto a as ↔ b = a ∨ b ∈ as := by
  induction as with
  | nil => simp [insertInto]
  | cons c as ih =>
    rw [insertInto]
    by_cases hlt : a < c
    · rw [if_pos hlt, mem_cons]
    · by_cases heq : a = c
      · rw [if_neg hlt, if_pos heq, heq]
        simp
      · rw [if_neg hlt, if_neg heq, mem_cons, ih, mem_cons]
        tauto

theorem insertInto_sorted (h : as.Pairwise (· < ·)) : (insertInto a as).Pairwise (· < ·) := by
  induction as with
  | nil => exact pairwise_singleton _ _
  | cons c as ih =>
    obtain ⟨hc, has⟩ := pairwise_cons.mp h
    rw [insertInto]
    by_cases hlt : a < c
    · rw [if_pos hlt]
      exact pairwise_cons.mpr
        ⟨forall_mem_cons.mpr ⟨hlt, fun b hb => hlt.trans (hc b hb)⟩, h⟩
    · by_cases heq : a = c
      · rw [if_neg hlt, if_pos heq]
        exact h
      · rw [if_neg hlt, if_neg heq]
        refine pairwise_cons.mpr ⟨fun b hb => ?_, ih has⟩
        rcases mem_insertInto.mp hb with rfl | hb
        · exact lt_of_le_of_ne (not_lt.mp hlt) (Ne.symm heq)
        · exact hc b hb

def insert (s : OrderedSet α) (a : α) : OrderedSet α := ⟨insertInto a s.elems, insertInto_sorted s.sorted⟩

@[simp] theorem mem_insert : b ∈ s.insert a ↔ b = a ∨ b ∈ s := mem_insertInto

def extend (s : OrderedSet α) (as : List α) : OrderedSet α := as.foldl insert s

@[simp] theorem mem_extend : b ∈ s.extend as ↔ b ∈ as ∨ b ∈ s := by
  induction as generalizing s with
  | nil => simp [extend]
  | cons a as ih =>
    rw [extend, foldl_cons, ← extend, ih, mem_insert, mem_cons]
    tauto

def toFinset (s : OrderedSet α) : Finset α := ⟨s.elems, s.nodup⟩

@[simp] theorem mem_toFinset : a ∈ s.toFinset ↔ a ∈ s := Iff.rfl

theorem card_toFinset : s.toFinset.card = s.elems.length := rfl

end OrderedSet

end CoveFormat.OrderedSets

namespace CoveFormat.OrderedMaps.OrderedMap

open List OrderedSets

variable {κ ν : Type} [LinearOrder κ] {m : OrderedMap κ ν} {key other : κ} {value : ν}
  {s : OrderedSet κ} {f : κ → ν}

def insert (m : OrderedMap κ ν) (key : κ) (value : ν) : OrderedMap κ ν :=
  m.entryOr key value fun _ => value

theorem get_insert : (m.insert key value).get other = if key = other then some value else m.get other :=
  get_entryOr

def fill (s : OrderedSet κ) (f : κ → ν) : OrderedMap κ ν where
  entries := s.elems.map fun a => (a, f a)
  sorted := by
    rw [List.map_map]
    exact (List.map_id s.elems).symm ▸ s.sorted

theorem keys_fill : (fill s f).keys = s.elems := by
  rw [keys, fill, map_map]
  exact map_id s.elems

theorem get_fill : (fill s f).get key = if key ∈ s then some (f key) else none := by
  by_cases hkey : key ∈ s
  · rw [if_pos hkey]
    exact mem_entries_iff.mp (mem_map_of_mem hkey)
  · rw [if_neg hkey, ← Option.not_isSome_iff_eq_none, ← mem_keys_iff, keys_fill]
    exact hkey

theorem isSome_insert :
    ((m.insert key value).get other).isSome ↔ other = key ∨ (m.get other).isSome := by
  rw [get_insert]
  by_cases h : key = other
  · simp [h]
  · simp [h, Ne.symm h]

end CoveFormat.OrderedMaps.OrderedMap
