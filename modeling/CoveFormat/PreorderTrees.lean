import CoveFormat.ExceptRules

namespace CoveFormat.PreorderTrees


open List

/-- An ordered tree with a label at every node. -/
inductive LabelTree (α : Type)
  | node (label : α) (children : List (LabelTree α))

section Layout

variable {α β : Type}

theorem LabelTree.forest_induction {P : LabelTree α → Prop} {Q : List (LabelTree α) → Prop}
    (node : ∀ a ts, Q ts → P (.node a ts)) (nil : Q []) (cons : ∀ t ts, P t → Q ts → Q (t :: ts)) :
    (∀ t, P t) ∧ ∀ ts, Q ts :=
  ⟨fun t => LabelTree.rec node nil cons t, fun ts => LabelTree.rec_1 node nil cons ts⟩

mutual

def LabelTree.preorder : LabelTree α → List α
  | .node a ts => a :: preorders ts

def preorders : List (LabelTree α) → List α
  | [] => []
  | t :: ts => t.preorder ++ preorders ts

end

mutual

def LabelTree.map (f : α → β) : LabelTree α → LabelTree β
  | .node a ts => .node (f a) (mapTrees f ts)

def mapTrees (f : α → β) : List (LabelTree α) → List (LabelTree β)
  | [] => []
  | t :: ts => t.map f :: mapTrees f ts

end

mutual

/-- Every label gives the number of the children of its node. -/
def LabelTree.Counted (arity : α → Nat) : LabelTree α → Prop
  | .node a ts => arity a = ts.length ∧ AllCounted arity ts

def AllCounted (arity : α → Nat) : List (LabelTree α) → Prop
  | [] => True
  | t :: ts => t.Counted arity ∧ AllCounted arity ts

end

def LabelTree.label : LabelTree α → α
  | .node a _ => a

variable {f : α → β} {t : LabelTree α}

theorem preorder_map_and : (∀ t : LabelTree α, (t.map f).preorder = t.preorder.map f) ∧
    ∀ ts : List (LabelTree α), preorders (mapTrees f ts) = (preorders ts).map f := by
  apply LabelTree.forest_induction
  · intro a ts ih
    rw [LabelTree.map, LabelTree.preorder, LabelTree.preorder, ih, map_cons]
  · rfl
  · intro t ts iht ihts
    rw [mapTrees, preorders, preorders, iht, ihts, map_append]

theorem preorder_map : (t.map f).preorder = t.preorder.map f := preorder_map_and.1 t

theorem length_mapTrees (f : α → β) (ts : List (LabelTree α)) : (mapTrees f ts).length = ts.length := by
  induction ts with
  | nil => rfl
  | cons t ts ih => rw [mapTrees, length_cons, length_cons, ih]

theorem counted_map_and (arity : β → Nat) :
    (∀ t : LabelTree α, (t.map f).Counted arity ↔ t.Counted (arity ∘ f)) ∧
      ∀ ts : List (LabelTree α), AllCounted arity (mapTrees f ts) ↔ AllCounted (arity ∘ f) ts := by
  apply LabelTree.forest_induction
  · intro a ts ih
    rw [LabelTree.map, LabelTree.Counted, LabelTree.Counted, ih, length_mapTrees, Function.comp_apply]
  · rfl
  · intro t ts iht ihts
    rw [mapTrees, AllCounted, AllCounted, iht, ihts]

theorem counted_map {arity : β → Nat} : (t.map f).Counted arity ↔ t.Counted (arity ∘ f) :=
  (counted_map_and arity).1 t

theorem label_map : (t.map f).label = f t.label := by
  cases t
  rfl

theorem preorder_eq_cons (t : LabelTree α) : ∃ rest, t.preorder = t.label :: rest := by
  cases t
  exact ⟨_, rfl⟩

end Layout

section Reading

variable {α σ ε : Type} (next : σ → Except ε (α × σ)) (arity : α → Nat) (left : σ → Nat)
  (hnext : ∀ s a s', next s = .ok (a, s') → left s' < left s)

mutual

def readTree (s : σ) : Except ε (LabelTree α × { s' // left s' < left s }) :=
  match h : next s with
  | .error e => .error e
  | .ok (a, s') =>
    match readTrees (arity a) s' with
    | .error e => .error e
    | .ok (ts, rest) => .ok (.node a ts, ⟨rest.1, rest.2.trans_lt (hnext s a s' h)⟩)
termination_by (left s, 0)
decreasing_by exact Prod.Lex.left _ _ (hnext s a s' h)

def readTrees (count : Nat) (s : σ) : Except ε (List (LabelTree α) × { s' // left s' ≤ left s }) :=
  match count with
  | 0 => .ok ([], ⟨s, le_rfl⟩)
  | count + 1 =>
    match readTree s with
    | .error e => .error e
    | .ok (t, s') =>
      match readTrees count s'.1 with
      | .error e => .error e
      | .ok (ts, rest) => .ok (t :: ts, ⟨rest.1, rest.2.trans s'.2.le⟩)
termination_by (left s, count)

end

/-- The labels are read one after the other, from one state to another. -/
def Reads (next : σ → Except ε (α × σ)) : σ → List α → σ → Prop
  | s, [], s' => s = s'
  | s, a :: as, s' => ∃ m, next s = .ok (a, m) ∧ Reads next m as s'

variable {next arity left hnext} {s s' : σ} {t : LabelTree α} {ts : List (LabelTree α)} {as bs : List α}

theorem reads_append :
    Reads next s (as ++ bs) s' ↔ ∃ m, Reads next s as m ∧ Reads next m bs s' := by
  induction as generalizing s with
  | nil => exact ⟨fun h => ⟨s, rfl, h⟩, fun ⟨_, hm, h⟩ => hm ▸ h⟩
  | cons a as ih =>
    simp only [cons_append, Reads, ih]
    constructor
    · rintro ⟨m, ha, n, has, hbs⟩
      exact ⟨n, ⟨m, ha, has⟩, hbs⟩
    · rintro ⟨n, ⟨m, ha, has⟩, hbs⟩
      exact ⟨m, ha, n, has, hbs⟩

theorem readTree_ok_iff : (∃ h, readTree next arity left hnext s = .ok (t, ⟨s', h⟩)) ↔
    ∃ a m ts, next s = .ok (a, m) ∧
      (∃ h, readTrees next arity left hnext (arity a) m = .ok (ts, ⟨s', h⟩)) ∧ .node a ts = t := by
  rw [readTree]
  constructor
  · rintro ⟨h, hread⟩
    split at hread
    · cases hread
    · rename_i a m hm
      split at hread
      · cases hread
      · rename_i ts rest hts
        cases hread
        exact ⟨a, m, ts, hm, ⟨_, hts⟩, rfl⟩
  · rintro ⟨a, m, ts, hm, ⟨h, hts⟩, rfl⟩
    refine ⟨h.trans_lt (hnext s a m hm), ?_⟩
    split
    · rename_i hm'
      rw [hm] at hm'
      cases hm'
    · rename_i a' m' hm'
      rw [hm] at hm'
      cases hm'
      rw [hts]

theorem readTrees_zero_ok_iff :
    (∃ h, readTrees next arity left hnext 0 s = .ok (ts, ⟨s', h⟩)) ↔ ts = [] ∧ s = s' := by
  rw [readTrees]
  constructor
  · rintro ⟨h, hread⟩
    cases hread
    exact ⟨rfl, rfl⟩
  · rintro ⟨rfl, rfl⟩
    exact ⟨le_rfl, rfl⟩

theorem readTrees_succ_ok_iff {count : Nat} :
    (∃ h, readTrees next arity left hnext (count + 1) s = .ok (ts, ⟨s', h⟩)) ↔
      ∃ t m ts', (∃ h, readTree next arity left hnext s = .ok (t, ⟨m, h⟩)) ∧
        (∃ h, readTrees next arity left hnext count m = .ok (ts', ⟨s', h⟩)) ∧ t :: ts' = ts := by
  rw [readTrees]
  constructor
  · rintro ⟨h, hread⟩
    split at hread
    · cases hread
    · rename_i t rest ht
      split at hread
      · cases hread
      · rename_i ts' rest' hts
        cases hread
        exact ⟨t, rest.1, ts', ⟨rest.2, ht⟩, ⟨_, hts⟩, rfl⟩
  · rintro ⟨t, m, ts', ⟨h, ht⟩, ⟨h', hts⟩, rfl⟩
    refine ⟨h'.trans h.le, ?_⟩
    rw [ht]
    simp only [hts]

theorem readTrees_sound {bound count : Nat}
    (htree : ∀ m, left m < bound → ∀ t s', (∃ h, readTree next arity left hnext m = .ok (t, ⟨s', h⟩)) →
      t.Counted arity ∧ Reads next m t.preorder s')
    (hs : left s < bound)
    (h : ∃ h, readTrees next arity left hnext count s = .ok (ts, ⟨s', h⟩)) :
    ts.length = count ∧ AllCounted arity ts ∧ Reads next s (preorders ts) s' := by
  induction count generalizing s ts with
  | zero =>
    obtain ⟨rfl, rfl⟩ := readTrees_zero_ok_iff.mp h
    exact ⟨rfl, trivial, rfl⟩
  | succ count ih =>
    obtain ⟨t, m, ts', ⟨hm, ht⟩, hts, rfl⟩ := readTrees_succ_ok_iff.mp h
    obtain ⟨hcounted, hreads⟩ := htree s hs t m ⟨hm, ht⟩
    obtain ⟨hlen, hall, hrest⟩ := ih (hm.trans hs) hts
    exact ⟨by rw [length_cons, hlen], ⟨hcounted, hall⟩, reads_append.mpr ⟨m, hreads, hrest⟩⟩

theorem readTree_sound (h : ∃ h, readTree next arity left hnext s = .ok (t, ⟨s', h⟩)) :
    t.Counted arity ∧ Reads next s t.preorder s' := by
  induction hleft : left s using Nat.strong_induction_on generalizing s t s' with
  | _ bound ih =>
    obtain ⟨a, m, ts, hm, hts, rfl⟩ := readTree_ok_iff.mp h
    have hlt : left m < bound := hleft ▸ hnext s a m hm
    obtain ⟨hlen, hall, hreads⟩ :=
      readTrees_sound (fun m' hm' t s' h' => ih (left m') hm' h' rfl) hlt hts
    exact ⟨⟨hlen.symm, hall⟩, m, hm, hreads⟩

theorem readTree_complete :
    (∀ (t : LabelTree α) s s', t.Counted arity → Reads next s t.preorder s' →
      ∃ h, readTree next arity left hnext s = .ok (t, ⟨s', h⟩)) ∧
    ∀ (ts : List (LabelTree α)) s s', AllCounted arity ts → Reads next s (preorders ts) s' →
      ∃ h, readTrees next arity left hnext ts.length s = .ok (ts, ⟨s', h⟩) := by
  apply LabelTree.forest_induction
  · intro a ts ih s s' hcounted hreads
    obtain ⟨hcount, hall⟩ := hcounted
    obtain ⟨m, hm, hts⟩ := hreads
    refine readTree_ok_iff.mpr ⟨a, m, ts, hm, ?_, rfl⟩
    rw [hcount]
    exact ih m s' hall hts
  · intro s s' _ hreads
    exact readTrees_zero_ok_iff.mpr ⟨rfl, hreads⟩
  · intro t ts iht ihts s s' hcounted hreads
    obtain ⟨m, ht, hts⟩ := reads_append.mp hreads
    exact readTrees_succ_ok_iff.mpr ⟨t, m, ts, iht s m hcounted.1 ht, ihts m s' hcounted.2 hts, rfl⟩

theorem readTree_iff : (∃ h, readTree next arity left hnext s = .ok (t, ⟨s', h⟩)) ↔
    t.Counted arity ∧ Reads next s t.preorder s' :=
  ⟨readTree_sound, fun h => readTree_complete.1 t s s' h.1 h.2⟩

end Reading

end CoveFormat.PreorderTrees
