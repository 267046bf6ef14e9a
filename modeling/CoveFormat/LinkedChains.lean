import Mathlib.Data.Fintype.Pigeonhole

namespace CoveFormat.LinkedChains

open Option

variable {α : Type} {k m fuel n : Nat}

section

variable {link : α → Option (Option α)} {start p q : Option α} {a : α} {i j : Nat}

/-- One step along the links. A chain that has ended stays ended, and a node without an entry is
off the table. -/
def hop (link : α → Option (Option α)) : Option α → Option (Option α)
  | none => some none
  | some a => link a

def walk (link : α → Option (Option α)) (start : Option α) : Nat → Option (Option α)
  | 0 => some start
  | k + 1 => walk link start k >>= hop link

def Ends (link : α → Option (Option α)) (start : Option α) : Prop := ∃ m, walk link start m = some none

def Leaves (link : α → Option (Option α)) (start : Option α) : Prop := ∃ m, walk link start m = none

section

variable (h : walk link start k = some p)
include h

theorem walk_succ : walk link start (k + 1) = hop link p := by
  rw [walk, h]
  rfl

theorem walk_step (hp : hop link p = some q) : walk link start (k + 1) = some q := by
  rw [walk_succ h, hp]

theorem walk_two : walk link start (k + 2) = hop link p >>= hop link := by
  rw [walk, walk_succ h]

end

theorem walk_ended (h : walk link start m = some none) : walk link start (m + k) = some none := by
  induction k with
  | zero => exact h
  | succ k ih => exact walk_step ih rfl

theorem walk_left (h : walk link start m = none) : walk link start (m + k) = none := by
  induction k with
  | zero => exact h
  | succ k ih =>
    rw [← Nat.add_assoc, walk, ih]
    rfl

theorem walk_congr (h : walk link start i = walk link start j) :
    walk link start (i + k) = walk link start (j + k) := by
  induction k with
  | zero => exact h
  | succ k ih =>
    rw [← Nat.add_assoc, ← Nat.add_assoc, walk, walk, ih]

theorem not_leaves_of_ends (h : Ends link start) : ¬ Leaves link start := by
  rintro ⟨n, hn⟩
  obtain ⟨m, hm⟩ := h
  have hleft : walk link start (n + m) = none := walk_left hn
  rw [Nat.add_comm, walk_ended hm] at hleft
  cases hleft

section

variable (h : walk link start i = walk link start j)
include h

theorem walk_recurs (hij : i < j) (n : Nat) :
    ∃ k, n ≤ k ∧ walk link start k = walk link start i := by
  induction n with
  | zero => exact ⟨i, Nat.zero_le i, rfl⟩
  | succ n ih =>
    obtain ⟨k, hk, hwalk⟩ := ih
    by_cases hki : i ≤ k
    · refine ⟨j + (k - i), by omega, ?_⟩
      rw [← walk_congr h, Nat.add_sub_cancel' hki, hwalk]
    · exact ⟨j, by omega, h.symm⟩

theorem recurring_stays (hij : i < j) (ha : walk link start i = some (some a)) :
    ¬ Ends link start ∧ ¬ Leaves link start := by
  constructor
  · rintro ⟨m, hm⟩
    obtain ⟨k, hk, hwalk⟩ := walk_recurs h hij m
    have hended := walk_ended (k := k - m) hm
    rw [Nat.add_sub_cancel' hk, hwalk, ha] at hended
    cases hended
  · rintro ⟨m, hm⟩
    obtain ⟨k, hk, hwalk⟩ := walk_recurs h hij m
    have hleft := walk_left (k := k - m) hm
    rw [Nat.add_sub_cancel' hk, hwalk, ha] at hleft
    cases hleft

end

variable (h : hop link start = some p)
include h

theorem walk_from : walk link start (k + 1) = walk link p k := by
  induction k with
  | zero => exact h
  | succ k ih => rw [walk, ih, walk]

theorem ends_hop : Ends link start ↔ Ends link p := by
  constructor
  · rintro ⟨m, hm⟩
    exact ⟨m, by rw [← walk_from h]; exact walk_ended (k := 1) hm⟩
  · rintro ⟨m, hm⟩
    exact ⟨m + 1, by rw [walk_from h, hm]⟩

theorem leaves_hop : Leaves link start ↔ Leaves link p := by
  constructor
  · rintro ⟨m, hm⟩
    exact ⟨m, by rw [← walk_from h]; exact walk_left (k := 1) hm⟩
  · rintro ⟨m, hm⟩
    exact ⟨m + 1, by rw [walk_from h, hm]⟩

end

section

inductive Finish
  | ended
  | cycle
  | offTable
  deriving DecidableEq

variable [DecidableEq α]

/-- Two walkers on one chain, one of them twice as fast, until the slow one is through, one of them
is off the table, or they meet. No result means that the fuel did not suffice. -/
def race (link : α → Option (Option α)) : Nat → Option α → Option α → Option Finish
  | 0, _, _ => none
  | fuel + 1, slow, fast =>
    if slow = none then some .ended
    else
      match hop link slow, hop link fast >>= hop link with
      | some slow, some fast =>
        if slow ≠ none ∧ slow = fast then some .cycle else race link fuel slow fast
      | _, _ => some .offTable

variable {link : α → Option (Option α)} {start slow fast : Option α}

theorem race_of_ends (hm : walk link start m = some none) (hk : k ≤ m)
    (hslow : walk link start k = some slow) (hfast : walk link start (2 * k) = some fast)
    (hfuel : m - k < fuel) : race link fuel slow fast = some .ended := by
  induction fuel generalizing k slow fast with
  | zero => omega
  | succ fuel ih =>
    rw [race]
    split
    · rfl
    · rename_i hne
      have hlt : k < m := by
        refine lt_of_le_of_ne hk fun h => hne ?_
        subst h
        exact some.inj (hslow.symm.trans hm)
      have hstay := not_leaves_of_ends ⟨m, hm⟩
      obtain ⟨slow', hs⟩ := ne_none_iff_exists'.mp fun h => hstay ⟨k + 1, h⟩
      obtain ⟨fast', hf⟩ := ne_none_iff_exists'.mp fun h => hstay ⟨2 * k + 2, h⟩
      rw [← walk_succ hslow, ← walk_two hfast, hs, hf]
      dsimp only
      rw [if_neg, ih (by omega) hs (by rw [Nat.mul_add]; exact hf) (by omega)]
      rintro ⟨hpresent, rfl⟩
      obtain ⟨a, rfl⟩ := ne_none_iff_exists'.mp hpresent
      exact (recurring_stays (hs.trans hf.symm) (by omega) hs).1 ⟨m, hm⟩

theorem race_of_leaves (hm : walk link start m = none) (hslow : walk link start k = some slow)
    (hfast : walk link start (2 * k) = some fast) (hfuel : m - k < fuel) :
    race link fuel slow fast = some .offTable := by
  induction fuel generalizing k slow fast with
  | zero => omega
  | succ fuel ih =>
    have hends : ¬ Ends link start := fun h => not_leaves_of_ends h ⟨m, hm⟩
    have hlt : k < m := by
      by_contra hle
      have hleft := walk_left (k := k - m) hm
      rw [Nat.add_sub_cancel' (not_lt.mp hle), hslow] at hleft
      cases hleft
    have hne : slow ≠ none := fun h => hends ⟨k, by rw [hslow, h]⟩
    rw [race, if_neg hne, ← walk_succ hslow, ← walk_two hfast]
    split
    · rename_i slow' fast' hs hf
      rw [if_neg, ih hs (by rw [Nat.mul_add]; exact hf) (by omega)]
      rintro ⟨hpresent, rfl⟩
      obtain ⟨a, rfl⟩ := ne_none_iff_exists'.mp hpresent
      exact (recurring_stays (hs.trans hf.symm) (by omega) hs).2 ⟨m, hm⟩
    · rfl

theorem race_of_meeting (hmeet : walk link start m = walk link start (2 * m))
    (hends : ¬ Ends link start) (hleaves : ¬ Leaves link start) (hk : k < m)
    (hslow : walk link start k = some slow) (hfast : walk link start (2 * k) = some fast)
    (hfuel : m - k < fuel + 1) : race link fuel slow fast = some .cycle := by
  induction fuel generalizing k slow fast with
  | zero => omega
  | succ fuel ih =>
    obtain ⟨slow', hs⟩ := ne_none_iff_exists'.mp fun h => hleaves ⟨k + 1, h⟩
    obtain ⟨fast', hf⟩ := ne_none_iff_exists'.mp fun h => hleaves ⟨2 * k + 2, h⟩
    have hne : slow ≠ none := fun h => hends ⟨k, by rw [hslow, h]⟩
    rw [race, if_neg hne, ← walk_succ hslow, ← walk_two hfast, hs, hf]
    dsimp only
    split
    · rfl
    · rename_i happart
      have hlt : k + 1 < m := by
        refine lt_of_le_of_ne hk fun h => happart ⟨fun h' => hends ⟨k + 1, h' ▸ hs⟩, ?_⟩
        rw [← h] at hmeet
        exact some.inj (hs.symm.trans (hmeet.trans hf))
      exact ih hlt hs (by rw [Nat.mul_add]; exact hf) (by omega)

end

section

variable {link : Nat → Option (Option Nat)} {start : Option Nat}

theorem walk_cases (hlink : ∀ a, n ≤ a → link a = none) :
    (∃ m ≤ n + 1, walk link start m = some none) ∨ (∃ m ≤ n + 1, walk link start m = none) ∨
      ∃ i j a, i < j ∧ j ≤ n ∧ walk link start i = walk link start j ∧
        walk link start i = some (some a) := by
  by_contra hcon
  push Not at hcon
  obtain ⟨hend, hleave, hmeet⟩ := hcon
  have hnode : ∀ k ≤ n + 1, ∃ a, walk link start k = some (some a) := by
    intro k hk
    obtain ⟨p, hp⟩ := ne_none_iff_exists'.mp (hleave k hk)
    cases p with
    | none => exact absurd hp (hend k hk)
    | some a => exact ⟨a, hp⟩
  choose! node hwalk using hnode
  have hlt : ∀ k : Fin (n + 1), node k < n := by
    intro k
    by_contra hge
    refine hleave (k + 1) (by omega) ?_
    rw [walk_succ (hwalk k (by omega)), hop, hlink _ (not_lt.mp hge)]
  obtain ⟨i, j, hne, heq⟩ := Fintype.exists_ne_map_eq_of_card_lt
    (fun k : Fin (n + 1) => (⟨node k, hlt k⟩ : Fin n)) (by simp)
  have heq : node i = node j := congrArg Fin.val heq
  have hsame : walk link start i = walk link start j := by
    rw [hwalk i (by omega), hwalk j (by omega), heq]
  rcases lt_or_gt_of_ne hne with h | h
  · exact hmeet i j (node i) h (by omega) hsame (hwalk i (by omega))
  · exact hmeet j i (node j) h (by omega) hsame.symm (hwalk j (by omega))

theorem exists_meeting {i j : Nat} (h : walk link start i = walk link start j) (hij : i < j) :
    ∃ m, 0 < m ∧ m ≤ j ∧ walk link start m = walk link start (2 * m) := by
  have hperiod : ∀ t k, i ≤ k → walk link start (k + t * (j - i)) = walk link start k := by
    intro t
    induction t with
    | zero => intro k _; rw [Nat.zero_mul, Nat.add_zero]
    | succ t ih =>
      intro k hk
      have hshift := walk_congr (k := k - i + t * (j - i)) h
      have hleft : i + (k - i + t * (j - i)) = k + t * (j - i) := by omega
      have hright : j + (k - i + t * (j - i)) = k + (t + 1) * (j - i) := by
        rw [Nat.add_mul, Nat.one_mul]
        omega
      rw [hleft, hright] at hshift
      rw [← hshift, ih k hk]
  have hpos : 0 < j - i := Nat.sub_pos_of_lt hij
  have hdiv := Nat.div_add_mod j (j - i)
  have hmod := Nat.mod_lt j hpos
  -- the last multiple of the period that is not beyond `j`
  have hmul : (j - i) * (j / (j - i)) = j / (j - i) * (j - i) := Nat.mul_comm ..
  have hquot : 0 < j / (j - i) := Nat.div_pos (Nat.sub_le j i) hpos
  refine ⟨j / (j - i) * (j - i), Nat.mul_pos hquot hpos, by omega, ?_⟩
  rw [Nat.two_mul, hperiod _ _ (by omega)]

theorem race_spec (hlink : ∀ a, n ≤ a → link a = none) (hfuel : n + 1 < fuel) :
    ∃ finish, race link fuel start start = some finish ∧ (finish = .ended ↔ Ends link start) ∧
      (finish = .offTable ↔ Leaves link start) := by
  rcases walk_cases hlink with ⟨m, hm, h⟩ | ⟨m, hm, h⟩ | ⟨i, j, a, hij, hj, h, ha⟩
  · refine ⟨.ended, race_of_ends h (Nat.zero_le m) rfl rfl (by omega), ?_⟩
    have hstay := not_leaves_of_ends ⟨m, h⟩
    exact ⟨iff_of_true rfl ⟨m, h⟩, iff_of_false (by decide) hstay⟩
  · refine ⟨.offTable, race_of_leaves (k := 0) h rfl rfl (by omega), ?_⟩
    have hends : ¬ Ends link start := fun h' => not_leaves_of_ends h' ⟨m, h⟩
    exact ⟨iff_of_false (by decide) hends, iff_of_true rfl ⟨m, h⟩⟩
  · obtain ⟨hends, hleaves⟩ := recurring_stays h hij ha
    obtain ⟨m, hpos, hmj, hmeet⟩ := exists_meeting h hij
    exact ⟨.cycle, race_of_meeting hmeet hends hleaves hpos rfl rfl (by omega),
      iff_of_false (by decide) hends, iff_of_false (by decide) hleaves⟩

end

end CoveFormat.LinkedChains
