import CoveFormat.SortedKeys
import Mathlib.Data.List.Dedup
import Mathlib.Data.List.Induction

namespace CoveFormat.LastWriter

open List Option

variable {W V κ : Type} [LinearOrder κ]

def latest (f : W → Option V) (ws : List W) : Option V :=
  ws.foldl (fun acc w => (f w).or acc) none

theorem latest_snoc (f : W → Option V) (ws : List W) (w : W) :
    latest f (ws ++ [w]) = (f w).or (latest f ws) := by
  rw [latest, List.foldl_append]
  rfl

variable {f : W → Option V} {ws : List W}

theorem latest_eq_some_iff {stamp : W → κ} {v : V} (h : ws.Pairwise (fun a b => stamp a < stamp b)) :
    latest f ws = some v ↔ ∃ w ∈ ws, f w = some v ∧ ∀ u ∈ ws, (f u).isSome → stamp u ≤ stamp w := by
  induction ws using reverseRecOn with
  | nil => simp [latest]
  | append_singleton ws w ih =>
    rw [pairwise_append] at h
    obtain ⟨hws, -, hlt⟩ := h
    rw [latest_snoc]
    cases hw : f w with
    | none =>
      rw [none_or, ih hws]
      constructor
      · rintro ⟨u, hu, hv, hmax⟩
        refine ⟨u, mem_append_left _ hu, hv, ?_⟩
        intro x hx hsome
        rcases mem_append.mp hx with hx | hx
        · exact hmax x hx hsome
        · obtain rfl := mem_singleton.mp hx
          rw [hw] at hsome
          cases hsome
      · rintro ⟨u, hu, hv, hmax⟩
        rcases mem_append.mp hu with hu | hu
        · exact ⟨u, hu, hv, fun x hx => hmax x (mem_append_left _ hx)⟩
        · obtain rfl := mem_singleton.mp hu
          rw [hw] at hv
          cases hv
    | some v' =>
      rw [some_or, some.injEq]
      constructor
      · rintro rfl
        refine ⟨w, by simp, hw, ?_⟩
        intro x hx _
        rcases mem_append.mp hx with hx | hx
        · exact (hlt x hx w (mem_singleton.mpr rfl)).le
        · rw [mem_singleton.mp hx]
      · rintro ⟨u, hu, hv, hmax⟩
        rcases mem_append.mp hu with hu | hu
        · have hle := hmax w (by simp) (by rw [hw]; rfl)
          exact absurd (hlt u hu w (mem_singleton.mpr rfl)) hle.not_gt
        · rw [mem_singleton.mp hu, hw] at hv
          exact some.inj hv

theorem latest_eq_none_iff : latest f ws = none ↔ ∀ w ∈ ws, f w = none := by
  induction ws using reverseRecOn with
  | nil => simp [latest]
  | append_singleton ws w ih =>
    rw [latest_snoc, or_eq_none_iff, ih]
    simp [and_comm, or_imp, forall_and]

end CoveFormat.LastWriter

namespace CoveFormat.Grouping

open List SortedKeys

variable {α β κ : Type} [LinearOrder κ] {key : α → κ}

def keysOf (key : α → κ) (xs : List α) : List κ := sortByKey id (xs.map key).dedup

def under (key : α → κ) (k : κ) (xs : List α) : List α := xs.filter fun x => key x = k

def grouped (key : α → κ) (xs : List α) : List (κ × List α) :=
  (keysOf key xs).map fun k => (k, under key k xs)

variable {k : κ} {xs : List α}

theorem mem_keysOf : k ∈ keysOf key xs ↔ ∃ x ∈ xs, key x = k := by
  rw [keysOf, (sortByKey_perm id _).mem_iff, mem_dedup, mem_map]

theorem mem_under {x : α} : x ∈ under key k xs ↔ x ∈ xs ∧ key x = k := by
  rw [under, mem_filter, decide_eq_true_eq]

theorem keysOf_strict (key : α → κ) (xs : List α) : (keysOf key xs).Pairwise (· < ·) :=
  have hnodup : ((xs.map key).dedup.map id).Nodup := by
    rw [map_id]
    exact nodup_dedup _
  sortByKey_strict hnodup

theorem under_filter (key : α → κ) (k : κ) (p : α → Bool) (xs : List α) :
    under key k (xs.filter p) = (under key k xs).filter p := by
  rw [under, under, filter_filter, filter_filter]
  apply filter_congr
  intro x _
  rw [Bool.and_comm]

theorem keysOf_filter (key : α → κ) (p : α → Bool) (xs : List α) : keysOf key (xs.filter p) =
      (keysOf key xs).filter fun k => under key k (xs.filter p) ≠ [] := by
  have hstrict : ((keysOf key xs).filter fun k => under key k (xs.filter p) ≠ []).Pairwise
      (fun a b => id a < id b) := (keysOf_strict key xs).filter _
  refine eq_of_perm_of_strict ?_ (keysOf_strict key _) hstrict
  refine (perm_ext_iff_of_nodup (keysOf_strict key _).nodup hstrict.nodup).mpr fun k => ?_
  rw [mem_filter, mem_keysOf, mem_keysOf, decide_eq_true_eq]
  constructor
  · rintro ⟨x, hx, hk⟩
    exact ⟨⟨x, mem_of_mem_filter hx, hk⟩, ne_nil_of_mem (mem_under.mpr ⟨hx, hk⟩)⟩
  · rintro ⟨-, hne⟩
    obtain ⟨x, hx⟩ := exists_mem_of_ne_nil _ hne
    exact ⟨x, mem_under.mp hx⟩

/-- Whatever is read off the groups, empty groups giving nothing, can be read over the keys
of a longer list. -/
theorem filterMap_keysOf_filter (key : α → κ) (p : α → Bool) (xs : List α) {f : List α → Option β}
    (h : f [] = none) :
    (keysOf key (xs.filter p)).filterMap (fun k => f (under key k (xs.filter p))) =
      (keysOf key xs).filterMap fun k => f (under key k (xs.filter p)) := by
  rw [keysOf_filter, filterMap_filter]
  apply filterMap_congr
  intro k _
  split
  · rfl
  · rename_i hempty
    rw [decide_eq_true_eq, not_not] at hempty
    rw [hempty, h]

omit [LinearOrder κ] in
/-- What is read off the keys, each result telling its key, is the same list only if it is the
same for every key. -/
theorem filterMap_eq_iff {ident : β → κ} {ks : List κ} {f g : κ → Option β}
    (hf : ∀ k, ∀ x ∈ f k, ident x = k) (hg : ∀ k, ∀ x ∈ g k, ident x = k) :
    ks.filterMap f = ks.filterMap g ↔ ∀ k ∈ ks, f k = g k := by
  have hmem : ∀ {f' : κ → Option β}, (∀ k, ∀ x ∈ f' k, ident x = k) → ∀ k ∈ ks, ∀ x,
      f' k = some x ↔ x ∈ ks.filterMap f' ∧ ident x = k := by
    intro f' hf' k hk x
    rw [mem_filterMap]
    constructor
    · exact fun hx => ⟨⟨k, hk, hx⟩, hf' k x hx⟩
    · rintro ⟨⟨k', -, hx⟩, hid⟩
      rwa [← hid, hf' k' x hx]
  constructor
  · intro heq k hk
    ext x
    rw [hmem hf k hk, hmem hg k hk, heq]
  · exact fun h => filterMap_congr h

variable {ys : List α}

theorem under_append_of_le (h : ys.Pairwise fun a b => key a ≤ key b) (hk : ∀ y ∈ ys, k ≤ key y) :
    under key k ys ++ ys.filter (fun y => key y ≠ k) = ys := by
  induction ys with
  | nil => rfl
  | cons y ys ih =>
    obtain ⟨hy, hys⟩ := pairwise_cons.mp h
    by_cases heq : key y = k
    · have hrest := ih hys fun z hz => hk z (mem_cons_of_mem _ hz)
      rw [under, filter_cons_of_pos (by simpa using heq),
        filter_cons_of_neg (by simpa using heq), cons_append]
      exact congrArg (y :: ·) hrest
    · have hlt := lt_of_le_of_ne (hk y mem_cons_self) (Ne.symm heq)
      have hne : ∀ z ∈ y :: ys, key z ≠ k := by
        intro z hz
        rcases mem_cons.mp hz with rfl | hz
        · exact heq
        · exact (hlt.trans_le (hy z hz)).ne'
      have hnil : under key k (y :: ys) = [] :=
        filter_eq_nil_iff.mpr fun z hz => by simpa using hne z hz
      have hall : (y :: ys).filter (fun z => key z ≠ k) = y :: ys :=
        filter_eq_self.mpr fun z hz => by simpa using hne z hz
      rw [hnil, hall, nil_append]

theorem sortByKey_under (key : α → κ) (k : κ) (xs : List α) :
    under key k (sortByKey key xs) = under key k xs := by
  rw [under, under, ← sortByKey_filter]
  apply sortByKey_of_sorted
  apply pairwise_of_forall_mem_list
  intro a ha b hb
  exact ((mem_under.mp ha).2.trans (mem_under.mp hb).2.symm).le

theorem flatMap_under (key : α → κ) {ks : List κ} (hks : ks.Pairwise (· < ·))
    (h : ∀ x ∈ xs, key x ∈ ks) : (ks.flatMap fun k => under key k xs) = sortByKey key xs := by
  induction ks generalizing xs with
  | nil =>
    obtain rfl := eq_nil_iff_forall_not_mem.mpr fun x hx => not_mem_nil (h x hx)
    rfl
  | cons k ks ih =>
    obtain ⟨hk, hks⟩ := pairwise_cons.mp hks
    have hmem : ∀ x ∈ xs.filter (fun x => key x ≠ k), key x ∈ ks := by
      intro x hx
      obtain ⟨hx, hne⟩ := mem_filter.mp hx
      exact (mem_cons.mp (h x hx)).resolve_left (by simpa using hne)
    have hunder : ∀ k' ∈ ks, under key k' xs = under key k' (xs.filter fun x => key x ≠ k) := by
      intro k' hk'
      rw [under_filter]
      refine (filter_eq_self.mpr fun x hx => ?_).symm
      simpa [(mem_under.mp hx).2] using (hk k' hk').ne'
    have hle : ∀ x ∈ sortByKey key xs, k ≤ key x := by
      intro x hx
      rcases mem_cons.mp (h x ((sortByKey_perm key xs).mem_iff.mp hx)) with heq | hx
      · exact heq.ge
      · exact (hk _ hx).le
    rw [flatMap_cons, flatMap_congr hunder, ih hks hmem, sortByKey_filter,
      ← sortByKey_under]
    exact under_append_of_le (sortByKey_pairwise key xs) hle

theorem flatMap_grouped (key : α → κ) (xs : List α) :
    (grouped key xs).flatMap (·.2) = sortByKey key xs := by
  rw [grouped, flatMap_map]
  exact flatMap_under key (keysOf_strict key xs) fun x hx => mem_keysOf.mpr ⟨x, hx, rfl⟩

theorem sortByKey_eq_of_under (h : ∀ k, under key k xs = under key k ys) :
    sortByKey key xs = sortByKey key ys := by
  have hmem : ∀ x ∈ xs, key x ∈ keysOf key ys := by
    intro x hx
    have hx : x ∈ under key (key x) xs := mem_under.mpr ⟨hx, rfl⟩
    rw [h] at hx
    exact mem_keysOf.mpr ⟨x, mem_under.mp hx⟩
  calc sortByKey key xs = (keysOf key ys).flatMap (under key · xs) :=
        (flatMap_under key (keysOf_strict key ys) hmem).symm
    _ = (keysOf key ys).flatMap (under key · ys) := flatMap_congr fun k _ => h k
    _ = sortByKey key ys :=
        flatMap_under key (keysOf_strict key ys) fun y hy => mem_keysOf.mpr ⟨y, hy, rfl⟩

section

variable {ι : Type} [DecidableEq ι] {ident : α → ι}

variable {p : β → Bool} {f : α → List β} {i : ι} {xs : List α}

theorem filter_flatMap (h : ∀ x ∈ xs, ∀ y ∈ f x, p y = true → ident x = i) :
    (xs.flatMap f).filter p = (xs.filter fun x => ident x = i).flatMap fun x => (f x).filter p := by
  induction xs with
  | nil => rfl
  | cons x xs ih =>
    obtain ⟨hx, hxs⟩ := forall_mem_cons.mp h
    rw [flatMap_cons, filter_append, ih hxs]
    by_cases hi : ident x = i
    · rw [filter_cons_of_pos (by simpa using hi), flatMap_cons]
    · have hnil : (f x).filter p = [] :=
        filter_eq_nil_iff.mpr fun y hy hp => hi (hx y hy hp)
      rw [filter_cons_of_neg (by simpa using hi), hnil, nil_append]

theorem filter_ident (hnodup : (xs.map ident).Nodup) {x : α} (hx : x ∈ xs) :
    xs.filter (fun y => ident y = ident x) = [x] := by
  induction xs with
  | nil => cases hx
  | cons y ys ih =>
    rw [map_cons, nodup_cons, mem_map] at hnodup
    rcases mem_cons.mp hx with rfl | hx
    · have hnil : ys.filter (fun z => ident z = ident x) = [] :=
        filter_eq_nil_iff.mpr fun z hz => by
          simpa using fun heq => hnodup.1 ⟨z, hz, heq⟩
      rw [filter_cons_of_pos (by simp), hnil]
    · have hne : ident y ≠ ident x := fun heq => hnodup.1 ⟨x, hx, heq.symm⟩
      rw [filter_cons_of_neg (by simpa using hne), ih hnodup.2 hx]

theorem filter_flatMap_perm {ys : List α} (hperm : xs.Perm ys) (hnodup : (xs.map ident).Nodup)
    (h : ∀ x ∈ xs, ∀ y ∈ f x, p y = true → ident x = i) :
    (xs.flatMap f).filter p = (ys.flatMap f).filter p := by
  have hys : ∀ y ∈ ys, ∀ z ∈ f y, p z = true → ident y = i :=
    fun y hy => h y (hperm.mem_iff.mpr hy)
  rw [filter_flatMap h, filter_flatMap hys]
  congr 1
  have hsame := hperm.filter fun x => ident x = i
  have hnodup : ((xs.filter fun x => ident x = i).map ident).Nodup :=
    hnodup.sublist (filter_sublist.map ident)
  have hall : ∀ x ∈ xs.filter (fun x => ident x = i), ident x = i := by
    intro x hx
    simpa using (mem_filter.mp hx).2
  generalize xs.filter (fun x => ident x = i) = zs at hsame hnodup hall
  match zs, hsame, hnodup, hall with
  | [], hsame, _, _ => exact hsame.nil_eq
  | [x], hsame, _, _ => exact (perm_singleton.mp hsame.symm).symm
  | x :: y :: zs, _, hnodup, hall =>
    have hxy : ident x = ident y := (hall x (by simp)).trans (hall y (by simp)).symm
    exact absurd hnodup (by simp [hxy])

end

end CoveFormat.Grouping
