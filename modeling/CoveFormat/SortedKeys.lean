import Mathlib.Data.List.Sort

namespace CoveFormat.SortedKeys

open List

variable {α κ : Type} [LinearOrder κ] {key : α → κ}

def sortByKey (key : α → κ) (xs : List α) : List α := xs.insertionSort (fun a b => key a ≤ key b)

def adjacentEqual : List κ → Bool
  | a :: b :: rest => a == b || adjacentEqual (b :: rest)
  | _ => false

instance keyTotal (key : α → κ) : Std.Total (fun a b => key a ≤ key b) :=
  ⟨fun a b => le_total (key a) (key b)⟩

instance keyTrans (key : α → κ) : IsTrans α (fun a b => key a ≤ key b) :=
  ⟨fun _ _ _ => le_trans⟩

theorem sortByKey_perm (key : α → κ) (xs : List α) : (sortByKey key xs).Perm xs :=
  perm_insertionSort _ xs

theorem sortByKey_pairwise (key : α → κ) (xs : List α) :
    (sortByKey key xs).Pairwise (fun a b => key a ≤ key b) :=
  pairwise_insertionSort (fun a b => key a ≤ key b) xs

theorem sortByKey_map {γ : Type} (g : γ → α) (xs : List γ) :
    sortByKey key (xs.map g) = (sortByKey (key ∘ g) xs).map g :=
  (map_insertionSort (fun a b => (key ∘ g) a ≤ (key ∘ g) b) (fun a b => key a ≤ key b) g xs
    (fun _ _ _ _ => Iff.rfl)).symm

theorem pairwise_lt_iff {ks : List κ} (h : ks.Pairwise (· ≤ ·)) :
    ks.Pairwise (· < ·) ↔ adjacentEqual ks = false := by
  induction ks with
  | nil => simp [adjacentEqual]
  | cons a ks ih =>
    obtain ⟨ha, hks⟩ := pairwise_cons.mp h
    cases ks with
    | nil => simp [adjacentEqual]
    | cons b ks =>
      rw [pairwise_cons, ih hks, adjacentEqual, Bool.or_eq_false_iff]
      constructor
      · rintro ⟨hlt, hadj⟩
        exact ⟨beq_eq_false_iff_ne.mpr (hlt b mem_cons_self).ne, hadj⟩
      · rintro ⟨hne, hadj⟩
        refine ⟨fun c hc => ?_, hadj⟩
        have hab := lt_of_le_of_ne (ha b mem_cons_self) (beq_eq_false_iff_ne.mp hne)
        rcases mem_cons.mp hc with rfl | hc
        · exact hab
        · exact lt_of_lt_of_le hab ((pairwise_cons.mp hks).1 c hc)

theorem eq_of_perm_of_strict {xs ys : List α} (h : xs.Perm ys)
    (hx : xs.Pairwise (fun a b => key a < key b)) (hy : ys.Pairwise (fun a b => key a < key b)) :
    xs = ys :=
  List.Perm.eq_of_pairwise (fun _ _ _ _ hab hba => absurd hba (lt_asymm hab)) hx hy h

variable {xs : List α}

theorem nodup_keys_of_strict (h : xs.Pairwise (fun a b => key a < key b)) : (xs.map key).Nodup :=
  pairwise_map.mpr (h.imp ne_of_lt)

theorem strict_of_nodup_keys (h : xs.Pairwise (fun a b => key a ≤ key b))
    (hn : (xs.map key).Nodup) : xs.Pairwise (fun a b => key a < key b) :=
  (h.and (pairwise_map.mp hn)).imp fun hab => lt_of_le_of_ne hab.1 hab.2

theorem sortByKey_strict (hn : (xs.map key).Nodup) :
    (sortByKey key xs).Pairwise (fun a b => key a < key b) :=
  strict_of_nodup_keys (sortByKey_pairwise key xs)
    (((sortByKey_perm key xs).map key).nodup_iff.mpr hn)

variable {ys : List α}

theorem sortByKey_eq (h : ys.Perm xs) (hy : ys.Pairwise (fun a b => key a < key b)) :
    sortByKey key xs = ys := by
  have hn : (xs.map key).Nodup := (h.map key).nodup_iff.mp (nodup_keys_of_strict hy)
  exact eq_of_perm_of_strict ((sortByKey_perm key xs).trans h.symm) (sortByKey_strict hn) hy

theorem adjacentEqual_sortByKey (key : α → κ) (xs : List α) :
    adjacentEqual ((sortByKey key xs).map key) = false ↔ (xs.map key).Nodup := by
  have hp : ((sortByKey key xs).map key).Pairwise (· ≤ ·) :=
    pairwise_map.mpr (sortByKey_pairwise key xs)
  rw [← pairwise_lt_iff hp, pairwise_map]
  constructor
  · intro h
    exact ((sortByKey_perm key xs).map key).nodup_iff.mp (nodup_keys_of_strict h)
  · exact sortByKey_strict

def dedupAdjacent [DecidableEq α] : List α → List α
  | a :: b :: rest => if a = b then dedupAdjacent (b :: rest) else a :: dedupAdjacent (b :: rest)
  | as => as

variable {a : α} {as : List α}

theorem mem_dedupAdjacent [DecidableEq α] : a ∈ dedupAdjacent as ↔ a ∈ as := by
  fun_induction dedupAdjacent as with
  | case1 b rest ih =>
    rw [ih]
    exact ⟨mem_cons_of_mem b, fun h => (mem_cons.mp h).elim (· ▸ mem_cons_self) id⟩
  | case2 b c rest hne ih => rw [mem_cons, ih, ← mem_cons]
  | case3 as hne => rfl

theorem dedupAdjacent_strict [DecidableEq α] (hkey : Function.Injective key)
    (h : as.Pairwise fun a b => key a ≤ key b) :
    (dedupAdjacent as).Pairwise fun a b => key a < key b := by
  fun_induction dedupAdjacent as with
  | case1 b rest ih => exact ih (pairwise_cons.mp h).2
  | case2 a b rest hne ih =>
    obtain ⟨ha, hrest⟩ := pairwise_cons.mp h
    refine pairwise_cons.mpr ⟨fun c hc => ?_, ih hrest⟩
    have hab : key a < key b := lt_of_le_of_ne (ha b (by simp)) fun heq => hne (hkey heq)
    rcases mem_cons.mp (mem_dedupAdjacent.mp hc) with rfl | hc
    · exact hab
    · exact hab.trans_le ((pairwise_cons.mp hrest).1 c hc)
  | case3 as hne =>
    match as, hne, h with
    | [], _, _ => exact .nil
    | [a], _, _ => exact pairwise_singleton _ _
    | a :: b :: rest, hne, _ => exact absurd rfl (hne a b rest)

variable {R : α → α → Prop}

theorem forall₂_orderedInsert (hk : ∀ a b, R a b → key a = key b) {b : α} (hab : R a b)
    (h : Forall₂ R xs ys) :
    Forall₂ R (xs.orderedInsert (fun a b => key a ≤ key b) a)
      (ys.orderedInsert (fun a b => key a ≤ key b) b) := by
  induction h with
  | nil => exact .cons hab .nil
  | @cons c d xs ys hcd h ih =>
    rw [orderedInsert_cons, orderedInsert_cons, hk a b hab, hk c d hcd]
    split
    · exact .cons hab (.cons hcd h)
    · exact .cons hcd ih

theorem forall₂_sortByKey (key : α → κ) (hk : ∀ a b, R a b → key a = key b)
    (h : Forall₂ R xs ys) : Forall₂ R (sortByKey key xs) (sortByKey key ys) := by
  induction h with
  | nil => exact .nil
  | cons hab _ ih => exact forall₂_orderedInsert hk hab ih

theorem sortByKey_congr (h : xs.Perm ys) (hn : (ys.map key).Nodup) :
    sortByKey key xs = sortByKey key ys :=
  sortByKey_eq ((sortByKey_perm key ys).trans h.symm) (sortByKey_strict hn)

theorem sortByKey_of_sorted (h : xs.Pairwise (fun a b => key a ≤ key b)) : sortByKey key xs = xs :=
  List.Pairwise.insertionSort_eq h

variable {p : α → Bool}

theorem orderedInsert_filter (ha : p a = true) (h : xs.Pairwise (fun a b => key a ≤ key b)) :
    (xs.filter p).orderedInsert (fun a b => key a ≤ key b) a =
      (xs.orderedInsert (fun a b => key a ≤ key b) a).filter p := by
  induction xs with
  | nil => simp [ha]
  | cons b xs ih =>
    obtain ⟨hb, hxs⟩ := pairwise_cons.mp h
    rw [orderedInsert_cons]
    split
    · rename_i hab
      have hle : ∀ c ∈ (b :: xs).filter p, key a ≤ key c := by
        intro c hc
        rcases mem_cons.mp (mem_of_mem_filter hc) with rfl | hc
        · exact hab
        · exact hab.trans (hb c hc)
      rw [filter_cons_of_pos (p := p) (l := b :: xs) ha]
      cases hys : (b :: xs).filter p with
      | nil => rfl
      | cons c ys =>
        rw [orderedInsert_cons, if_pos (hle c (by rw [hys]; exact mem_cons_self))]
    · rename_i hab
      cases hp : p b with
      | true =>
        rw [filter_cons_of_pos hp, filter_cons_of_pos hp, orderedInsert_cons,
          if_neg hab, ih hxs]
      | false =>
        rw [filter_cons_of_neg (by simp [hp]), filter_cons_of_neg (by simp [hp]), ih hxs]

theorem filter_orderedInsert_of_neg (ha : p a = false) (xs : List α) :
    (xs.orderedInsert (fun a b => key a ≤ key b) a).filter p = xs.filter p := by
  induction xs with
  | nil => simp [ha]
  | cons b xs ih =>
    rw [orderedInsert_cons]
    split
    · rw [filter_cons_of_neg (by simp [ha])]
    · rw [filter_cons, filter_cons, ih]

theorem sortByKey_filter (p : α → Bool) (xs : List α) :
    sortByKey key (xs.filter p) = (sortByKey key xs).filter p := by
  induction xs with
  | nil => rfl
  | cons a xs ih =>
    cases hp : p a with
    | true =>
      rw [filter_cons_of_pos hp]
      change (sortByKey key (xs.filter p)).orderedInsert _ a = _
      rw [ih]
      exact orderedInsert_filter hp (sortByKey_pairwise key xs)
    | false =>
      rw [filter_cons_of_neg (by simp [hp]), ih]
      exact (filter_orderedInsert_of_neg hp (sortByKey key xs)).symm

theorem compare_natCast (n m : Nat) : compare (n : Int) m = compare n m := by
  obtain h | rfl | h := Nat.lt_trichotomy n m
  · rw [compare_lt_iff_lt.mpr h, compare_lt_iff_lt.mpr (Int.ofNat_lt.mpr h)]
  · rw [compare_eq_iff_eq.mpr rfl, compare_eq_iff_eq.mpr rfl]
  · rw [compare_gt_iff_gt.mpr h, compare_gt_iff_gt.mpr (Int.ofNat_lt.mpr h)]

end CoveFormat.SortedKeys
