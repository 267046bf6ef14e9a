import Mathlib.Data.List.Basic
import Mathlib.Logic.Relation

namespace CoveFormat

open List

/-- A forest of parent pointers. A root points at itself, every other element at a
smaller one. -/
structure UnionFind where
  parent : List Nat
  parent_le : ∀ i, parent.getD i i ≤ i

namespace UnionFind

def up (uf : UnionFind) (i : Nat) : Nat := uf.parent.getD i i

theorem getD_set (parent : List Nat) (i r j : Nat) (hi : i < parent.length) :
    (parent.set i r).getD j j = Function.update (fun j => parent.getD j j) i r j := by
  rw [getD_eq_getElem?_getD, List.getElem?_set, Function.update_apply]
  by_cases hj : j = i
  · subst hj
    rw [if_pos rfl, if_pos hi, if_pos rfl, Option.getD_some]
  · rw [if_neg (Ne.symm hj), if_neg hj, getD_eq_getElem?_getD]

def new (len : Nat) : UnionFind where
  parent := range len
  parent_le i := by
    rw [List.getD_eq_getElem?_getD]
    by_cases hi : i < len <;> simp [hi]

theorem up_new (len i : Nat) : (new len).up i = i := by
  rw [up, new, getD_eq_getElem?_getD]
  by_cases hi : i < len <;> simp [hi]

/-- Points the element `i` at `r`. -/
def repoint (uf : UnionFind) (i r : Nat) (h : r ≤ i) : UnionFind where
  parent := uf.parent.set i r
  parent_le j := by
    by_cases hi : i < uf.parent.length
    · rw [getD_set uf.parent i r j hi, Function.update_apply]
      split
      · rename_i hj
        exact hj ▸ h
      · exact uf.parent_le j
    · rw [List.set_eq_of_length_le (by omega)]
      exact uf.parent_le j

variable {uf : UnionFind} {i r : Nat}

theorem up_repoint (h : r ≤ i) (hi : i < uf.parent.length) :
    (uf.repoint i r h).up = Function.update uf.up i r := by
  funext j
  exact getD_set uf.parent i r j hi

theorem length_repoint (uf : UnionFind) (i r : Nat) (h : r ≤ i) :
    (uf.repoint i r h).parent.length = uf.parent.length :=
  length_set

def findFrom (uf : UnionFind) : Nat → (i : Nat) → {r : Nat // r ≤ i} × UnionFind
  | 0, i => (⟨i, Nat.le_refl i⟩, uf)
  | fuel + 1, i =>
    if uf.up i = i then (⟨i, Nat.le_refl i⟩, uf)
    else
      let (root, uf') := findFrom uf fuel (uf.up i)
      let root : {r : Nat // r ≤ i} := ⟨root, Nat.le_trans root.2 (uf.parent_le i)⟩
      (root, uf'.repoint i root root.2)

def find (uf : UnionFind) (i : Nat) : {r : Nat // r ≤ i} × UnionFind := uf.findFrom i i

def root (uf : UnionFind) (i : Nat) : Nat := (uf.find i).1

def union (uf : UnionFind) (left right : Nat) : UnionFind :=
  let left := uf.find left
  let right := left.2.find right
  if left.1.1 = right.1.1 then right.2
  else if h : left.1.1 ≤ right.1.1 then right.2.repoint right.1 left.1 h
  else right.2.repoint left.1 right.1 (Nat.le_of_not_le h)

def unionAll (uf : UnionFind) (edges : List (Nat × Nat)) : UnionFind :=
  edges.foldl (fun uf edge => uf.union edge.1 edge.2) uf

/-- The pointers from `i` on lead to the root `r`. -/
inductive RootOf (up : Nat → Nat) : Nat → Nat → Prop
  | here {i : Nat} (h : up i = i) : RootOf up i i
  | step {i r : Nat} (h : RootOf up (up i) r) : RootOf up i r

theorem RootOf.fixed {up : Nat → Nat} {i r : Nat} (h : RootOf up i r) : up r = r := by
  induction h with
  | here h => exact h
  | step _ ih => exact ih

variable {up : Nat → Nat}

theorem RootOf.of_root (h : RootOf up i r) (hi : up i = i) : r = i := by
  induction h with
  | here _ => rfl
  | step _ ih =>
    rw [hi] at ih
    exact ih hi

variable {s : Nat}

theorem RootOf.unique (hr : RootOf up i r) (hs : RootOf up i s) : r = s := by
  induction hr with
  | here h => exact (hs.of_root h).symm
  | step hr ih =>
    cases hs with
    | here h =>
      rw [h] at hr
      exact hr.of_root h
    | step hs => exact ih hs

variable {j : Nat}

theorem RootOf.shorten (hi : RootOf up i r) (hj : RootOf up j s) : RootOf (Function.update up i r) j s := by
  have hroot : Function.update up i r r = r := by
    rw [Function.update_apply]
    split
    · rfl
    · exact hi.fixed
  induction hj with
  | @here j h =>
    apply RootOf.here
    rw [Function.update_apply]
    split
    · rename_i hji
      subst hji
      exact hi.of_root h
    · exact h
  | @step j s h ih =>
    apply RootOf.step
    rw [Function.update_apply]
    split
    · rename_i hji
      subst hji
      obtain rfl := hi.unique (.step h)
      exact .here hroot
    · exact ih

variable {a b : Nat}

theorem RootOf.link (ha : up a = a) (hb : up b = b) (hj : RootOf up j s) :
    RootOf (Function.update up b a) j (if s = b then a else s) := by
  have hroot : Function.update up b a a = a := by
    rw [Function.update_apply]
    split
    · rfl
    · exact ha
  induction hj with
  | @here j h =>
    split
    · rename_i hjb
      subst hjb
      apply RootOf.step
      rw [Function.update_self]
      exact .here hroot
    · rename_i hjb
      apply RootOf.here
      rw [Function.update_of_ne hjb]
      exact h
  | @step j s h ih =>
    by_cases hjb : j = b
    · subst hjb
      rwa [hb] at ih
    · apply RootOf.step
      rwa [Function.update_of_ne hjb]

variable {fuel : Nat}

theorem findFrom_rootOf (uf : UnionFind) (h : i ≤ fuel) :
    RootOf uf.up i (uf.findFrom fuel i).1 := by
  induction fuel generalizing i with
  | zero =>
    obtain rfl := Nat.le_zero.mp h
    exact .here (Nat.le_zero.mp (uf.parent_le 0))
  | succ fuel ih =>
    rw [findFrom]
    split
    · rename_i hi
      exact .here hi
    · rename_i hi
      have hlt := Nat.lt_of_le_of_ne (uf.parent_le i) hi
      exact .step (ih (Nat.le_of_lt_succ (Nat.lt_of_lt_of_le hlt h)))

theorem root_rootOf (uf : UnionFind) (i : Nat) : RootOf uf.up i (uf.root i) :=
  uf.findFrom_rootOf (Nat.le_refl i)

theorem root_eq_iff : uf.root i = r ↔ RootOf uf.up i r :=
  ⟨fun h => h ▸ uf.root_rootOf i, (uf.root_rootOf i).unique⟩

theorem root_le (uf : UnionFind) (i : Nat) : uf.root i ≤ i := (uf.find i).1.2

theorem up_root (uf : UnionFind) (i : Nat) : uf.up (uf.root i) = uf.root i :=
  (uf.root_rootOf i).fixed

theorem root_root (uf : UnionFind) (i : Nat) : uf.root (uf.root i) = uf.root i :=
  root_eq_iff.mpr (.here (uf.up_root i))

theorem up_of_out (h : uf.parent.length ≤ i) : uf.up i = i := by
  rw [up, getD_eq_getElem?_getD, List.getElem?_eq_none h, Option.getD_none]

theorem findFrom_keeps (uf : UnionFind) (h : i ≤ fuel) :
    (uf.findFrom fuel i).2.parent.length = uf.parent.length ∧
      ∀ j s, RootOf uf.up j s → RootOf (uf.findFrom fuel i).2.up j s := by
  induction fuel generalizing i with
  | zero => exact ⟨rfl, fun _ _ hj => hj⟩
  | succ fuel ih =>
    rw [findFrom]
    split
    · exact ⟨rfl, fun _ _ hj => hj⟩
    · rename_i hi
      have hlt := Nat.lt_of_le_of_ne (uf.parent_le i) hi
      have hfuel : uf.up i ≤ fuel := Nat.le_of_lt_succ (Nat.lt_of_lt_of_le hlt h)
      obtain ⟨hlen, hkeep⟩ := ih hfuel
      have hin : i < uf.parent.length := by
        by_contra hout
        exact hi (up_of_out (Nat.le_of_not_lt hout))
      refine ⟨?_, fun j s hj => ?_⟩
      · simpa only [length_repoint] using hlen
      · simp only
        rw [up_repoint _ (hlen ▸ hin)]
        exact (hkeep i _ (.step (uf.findFrom_rootOf hfuel))).shorten (hkeep j s hj)

theorem root_find (uf : UnionFind) (i j : Nat) : (uf.find i).2.root j = uf.root j :=
  root_eq_iff.mpr ((uf.findFrom_keeps (Nat.le_refl i)).2 j _ (uf.root_rootOf j))

theorem length_find (uf : UnionFind) (i : Nat) : (uf.find i).2.parent.length = uf.parent.length :=
  (uf.findFrom_keeps (Nat.le_refl i)).1

theorem root_repoint (h : a ≤ b) (hin : b < uf.parent.length) (ha : uf.up a = a) (hb : uf.up b = b)
    (j : Nat) : (uf.repoint b a h).root j = if uf.root j = b then a else uf.root j := by
  apply root_eq_iff.mpr
  rw [up_repoint h hin]
  exact (uf.root_rootOf j).link ha hb

theorem up_of_root (h : uf.root r = r) : uf.up r = r :=
  (root_eq_iff.mp h).fixed

theorem length_union (uf : UnionFind) (left right : Nat) :
    (uf.union left right).parent.length = uf.parent.length := by
  have hlen : ((uf.find left).2.find right).2.parent.length = uf.parent.length := by
    rw [length_find, length_find]
  rw [union]
  split
  · exact hlen
  · split <;> rw [length_repoint, hlen]

variable {left right : Nat}

theorem root_union (hl : left < uf.parent.length) (hr : right < uf.parent.length) (j : Nat) :
    (uf.union left right).root j =
      if uf.root j = uf.root left ∨ uf.root j = uf.root right
      then min (uf.root left) (uf.root right) else uf.root j := by
  have hroot : ∀ k, ((uf.find left).2.find right).2.root k = uf.root k := by
    intro k
    rw [root_find, root_find]
  have hlen : ((uf.find left).2.find right).2.parent.length = uf.parent.length := by
    rw [length_find, length_find]
  have hright : ((uf.find left).2.find right).1.1 = uf.root right := root_find uf left right
  have hup : ∀ k, ((uf.find left).2.find right).2.up (uf.root k) = uf.root k := by
    intro k
    apply up_of_root
    rw [hroot, root_root]
  have hin : ∀ k, k < uf.parent.length →
      uf.root k < ((uf.find left).2.find right).2.parent.length := by
    intro k hk
    rw [hlen]
    exact Nat.lt_of_le_of_lt (uf.root_le k) hk
  have hleft : (uf.find left).1.1 = uf.root left := rfl
  rw [union]
  split
  · rename_i heq
    have heq : uf.root left = uf.root right := heq.trans hright
    rw [hroot]
    by_cases hj : uf.root j = uf.root right <;> simp [heq, hj]
  · split
    · rename_i hne hle
      have hle' : uf.root left ≤ uf.root right := hright ▸ hle
      rw [root_repoint hle (hright ▸ hin right hr) (hup left) (hright ▸ hup right), hroot, hright,
        hleft, Nat.min_eq_left hle']
      by_cases hj : uf.root j = uf.root left <;> simp [hj]
    · rename_i hne hnle
      have hle' : uf.root right ≤ uf.root left := hright ▸ Nat.le_of_not_le hnle
      rw [root_repoint (Nat.le_of_not_le hnle) (hin left hl) (hright ▸ hup right) (hup left), hroot,
        hright, hleft, Nat.min_eq_right hle']
      by_cases hj : uf.root j = uf.root right <;> simp [hj]

/-- Two elements with one root. -/
def Joined (uf : UnionFind) (i j : Nat) : Prop := uf.root i = uf.root j

theorem joined_new (len i j : Nat) : (new len).Joined i j ↔ i = j := by
  have h : ∀ k, (new len).root k = k := fun k => root_eq_iff.mpr (.here (up_new len k))
  rw [Joined, h, h]

theorem joined_equivalence (uf : UnionFind) : Equivalence uf.Joined :=
  ⟨fun _ => rfl, Eq.symm, Eq.trans⟩

theorem joined_union (hl : left < uf.parent.length) (hr : right < uf.parent.length) (i j : Nat) :
    (uf.union left right).Joined i j ↔ uf.Joined i j ∨ (uf.Joined i left ∨ uf.Joined i right) ∧
        (uf.Joined j left ∨ uf.Joined j right) := by
  unfold Joined
  rw [root_union hl hr, root_union hl hr]
  rcases Nat.le_total (uf.root left) (uf.root right) with hle | hle
  · rw [Nat.min_eq_left hle]
    split <;> split <;> grind
  · rw [Nat.min_eq_right hle]
    split <;> split <;> grind

theorem eqvGen_le_of {α : Type} {r s : α → α → Prop} (h : ∀ a b, r a b → Relation.EqvGen s a b)
    {a b : α} (hab : Relation.EqvGen r a b) : Relation.EqvGen s a b :=
  (Relation.EqvGen.is_equivalence s).eqvGen_iff.mp (Relation.EqvGen.mono h a b hab)

variable {edges : List (Nat × Nat)}

theorem joined_unionAll (h : ∀ edge ∈ edges, edge.1 < uf.parent.length ∧ edge.2 < uf.parent.length)
    (i j : Nat) :
    (uf.unionAll edges).Joined i j ↔
      Relation.EqvGen (fun a b => uf.Joined a b ∨ (a, b) ∈ edges) i j := by
  induction edges generalizing uf with
  | nil =>
    simp only [not_mem_nil, or_false]
    exact uf.joined_equivalence.eqvGen_iff.symm
  | cons edge edges ih =>
    obtain ⟨hedge, hedges⟩ := forall_mem_cons.mp h
    have hlen := uf.length_union edge.1 edge.2
    change ((uf.union edge.1 edge.2).unionAll edges).Joined i j ↔ _
    rw [ih (by rwa [hlen])]
    constructor
    · apply eqvGen_le_of
      rintro a b (hab | hab)
      · have hjoin : ∀ c d, uf.Joined c d → Relation.EqvGen
            (fun a b => uf.Joined a b ∨ (a, b) ∈ edge :: edges) c d :=
          fun c d hcd => .rel c d (.inl hcd)
        have hlink : Relation.EqvGen (fun a b => uf.Joined a b ∨ (a, b) ∈ edge :: edges)
            edge.1 edge.2 :=
          .rel _ _ (.inr mem_cons_self)
        have hends : ∀ c, uf.Joined c edge.1 ∨ uf.Joined c edge.2 → Relation.EqvGen
            (fun a b => uf.Joined a b ∨ (a, b) ∈ edge :: edges) c edge.1 := by
          rintro c (hc | hc)
          · exact hjoin c _ hc
          · exact .trans _ _ _ (hjoin c _ hc) (.symm _ _ hlink)
        rcases (joined_union hedge.1 hedge.2 a b).mp hab with hab | ⟨ha, hb⟩
        · exact hjoin a b hab
        · exact .trans _ _ _ (hends a ha) (.symm _ _ (hends b hb))
      · exact .rel a b (.inr (mem_cons_of_mem _ hab))
    · apply eqvGen_le_of
      rintro a b (hab | hab)
      · exact .rel a b (.inl ((joined_union hedge.1 hedge.2 a b).mpr (.inl hab)))
      · rcases mem_cons.mp hab with rfl | hab
        · exact .rel a b (.inl ((joined_union hedge.1 hedge.2 a b).mpr (.inr ⟨.inl rfl, .inr rfl⟩)))
        · exact .rel a b (.inr hab)

theorem joined_unionAll_new {len : Nat} (h : ∀ edge ∈ edges, edge.1 < len ∧ edge.2 < len)
    (i j : Nat) :
    ((new len).unionAll edges).Joined i j ↔ Relation.EqvGen (fun a b => (a, b) ∈ edges) i j := by
  have hlen : (new len).parent.length = len := length_range
  rw [joined_unionAll (by rwa [hlen])]
  constructor
  · apply eqvGen_le_of
    rintro a b (hab | hab)
    · rw [joined_new] at hab
      exact hab ▸ .refl a
    · exact .rel a b hab
  · apply eqvGen_le_of
    intro a b hab
    exact .rel a b (.inr hab)

end UnionFind
end CoveFormat
