import CoveFormat.OrderedMaps
import CoveFormat.WhileLoops
import Mathlib.Algebra.Order.BigOperators.Group.Finset

namespace CoveFormat.Floods

open List Option OrderedMaps Relation WhileLoops

variable {id fuel : ℕ}

variable {α : Type} [LinearOrder α]

structure Flood (α : Type) [LinearOrder α] where
  components : OrderedMap α ℕ
  stack : List α

def floodRound (extend : OrderedMap α ℕ → α → List α → List α) (id : ℕ) (s : Flood α) :
    Option (Flood α) :=
  match s.stack with
  | [] => none
  | current :: stack =>
    let components := s.components.insert current id
    if (s.components.get current).isSome then some ⟨components, stack⟩
    else some ⟨components, extend components current stack⟩

/-- A flood from each node that has no number yet; `none` is out of fuel. -/
def floodFrom (extend : OrderedMap α ℕ → α → List α → List α) (fuel : ℕ) :
    List α → ℕ → OrderedMap α ℕ → Option (OrderedMap α ℕ)
  | [], _, components => some components
  | node :: nodes, id, components =>
    if (components.get node).isSome then floodFrom extend fuel nodes id components
    else (drain (floodRound extend (id + 1)) fuel ⟨components, [node]⟩).bind fun s =>
      floodFrom extend fuel nodes (id + 1) s.components

/-- What is put on the stack for a node are neighbours of it, and all of them that have no number. -/
structure Pushes (extend : OrderedMap α ℕ → α → List α → List α) (next : α → α → Prop)
    (degree : α → ℕ) : Prop where
  pushed : ∀ components current stack, ∃ new, extend components current stack = new ++ stack ∧
    (∀ y ∈ new, next current y) ∧ new.length ≤ degree current ∧
    ∀ y, next current y → (components.get y).isSome ∨ y ∈ new

/-- Nothing that has its number is put on the stack for a node that has none. -/
def PushesFresh (extend : OrderedMap α ℕ → α → List α → List α) (components : OrderedMap α ℕ) : Prop :=
  ∀ m current stack, (∀ k, (components.get k).isSome → (m.get k).isSome) →
    components.get current = none → ∀ y ∈ extend m current stack, y ∈ stack ∨ components.get y = none

/-- How the numbers stand when the classes of some nodes are done. -/
structure Numbered (same : α → α → Prop) (done : List α) (id : ℕ) (components : OrderedMap α ℕ) :
    Prop where
  isSome_iff : ∀ k, (components.get k).isSome ↔ ∃ p ∈ done, same p k
  positive : ∀ k n, components.get k = some n → 0 < n ∧ n ≤ id
  eq_iff : ∀ j k, (components.get j).isSome → (components.get k).isSome →
    (components.get j = components.get k ↔ same j k)

section

variable {extend : OrderedMap α ℕ → α → List α → List α} {next : α → α → Prop} {degree : α → ℕ}
  {components : OrderedMap α ℕ} {old : Set α} {start : α} {s s' : Flood α}

/-- The steps that do not lead to a node which had its number before. -/
def Free (next : α → α → Prop) (old : Set α) (x y : α) : Prop := next x y ∧ y ∉ old

omit [LinearOrder α] in
theorem reaches_free {k : α} (h : ReflTransGen next start k)
    (hfree : ∀ y, ReflTransGen next start y → ReflTransGen next y k → y ∉ old) :
    ReflTransGen (Free next old) start k := by
  induction h with
  | refl => exact .refl
  | tail hreach hstep ih =>
    exact (ih fun y hy hto => hfree y hy (hto.tail hstep)).tail
      ⟨hstep, hfree _ (hreach.tail hstep) .refl⟩

/-- How a flood stands. -/
structure Flooded (next : α → α → Prop) (components : OrderedMap α ℕ) (start : α) (id : ℕ)
    (s : Flood α) : Prop where
  kept : ∀ k, (components.get k).isSome → s.components.get k = components.get k
  number : ∀ k n, components.get k = none → s.components.get k = some n → n = id ∧
    ReflTransGen (Free next {k | (components.get k).isSome}) start k
  waiting : ∀ k ∈ s.stack, components.get k = none ∧
    ReflTransGen (Free next {k | (components.get k).isSome}) start k
  started : (s.components.get start).isSome ∨ start ∈ s.stack
  closed : ∀ x y, components.get x = none → (s.components.get x).isSome → next x y →
    components.get y = none → (s.components.get y).isSome ∨ y ∈ s.stack

theorem floodRound_cases (h : floodRound extend id s = some s') :
    ∃ current stack, s.stack = current :: stack ∧ s'.components = s.components.insert current id ∧
      ((s.components.get current).isSome ∧ s'.stack = stack ∨ s.components.get current = none ∧
        s'.stack = extend (s.components.insert current id) current stack) := by
  rw [floodRound] at h
  split at h
  · cases h
  · rename_i current stack hstack
    refine ⟨current, stack, hstack, ?_⟩
    split at h
    · rename_i hsome
      cases h
      exact ⟨rfl, .inl ⟨hsome, rfl⟩⟩
    · rename_i hnone
      cases h
      exact ⟨rfl, .inr ⟨not_isSome_iff_eq_none.mp hnone, rfl⟩⟩

theorem floodRound_none (h : floodRound extend id s = none) : s.stack = [] := by
  rw [floodRound] at h
  split at h
  · rename_i hstack
    exact hstack
  · dsimp only at h
    split at h <;> cases h

theorem Flooded.round (h : Flooded next components start id s) (hpushes : Pushes extend next degree)
    (hnew : PushesFresh extend components)
    (hround : floodRound extend id s = some s') : Flooded next components start id s' := by
  obtain ⟨current, stack, hstack, hcomponents, hcases⟩ := floodRound_cases hround
  obtain ⟨hfresh, hreach⟩ := h.waiting current (hstack ▸ mem_cons_self)
  have hwaiting : ∀ k ∈ stack, k ∈ s.stack := fun k hk => hstack ▸ mem_cons_of_mem _ hk
  have hget : ∀ k, s'.components.get k = if current = k then some id else s.components.get k :=
    fun k => hcomponents ▸ OrderedMap.get_insert
  have hstill : ∀ k, (s.components.get k).isSome → (s'.components.get k).isSome := by
    intro k hk
    rw [hget]
    split
    · rfl
    · exact hk
  have hcurrent : (s'.components.get current).isSome := by simp [hget]
  have hne : ∀ k, (components.get k).isSome → current ≠ k := by
    rintro k hk rfl
    simp [hfresh] at hk
  refine ⟨fun k hk => ?_, fun k n hk hn => ?_, fun k hk => ?_, ?_, fun x y hx hnumber hstep hy => ?_⟩
  · rw [hget, if_neg (hne k hk)]
    exact h.kept k hk
  · rw [hget] at hn
    split at hn
    · rename_i heq
      exact ⟨(some.inj hn).symm, heq ▸ hreach⟩
    · exact h.number k n hk hn
  · rcases hcases with ⟨-, hrest⟩ | ⟨-, hrest⟩
    · exact h.waiting k (hwaiting k (hrest ▸ hk))
    · rw [hrest] at hk
      obtain ⟨new, heq, hnext, -, -⟩ :=
        hpushes.pushed (s.components.insert current id) current stack
      rcases hnew _ current stack (fun k hk => hcomponents ▸ hstill k (by rw [h.kept k hk]; exact hk))
        hfresh k hk with hold | hfree
      · exact h.waiting k (hwaiting k hold)
      · rw [heq, mem_append] at hk
        rcases hk with hk | hk
        · exact ⟨hfree, hreach.tail ⟨hnext k hk, by simp [hfree]⟩⟩
        · exact h.waiting k (hwaiting k hk)
  · rcases h.started with hstarted | hstarted
    · exact .inl (hstill start hstarted)
    · rw [hstack] at hstarted
      rcases mem_cons.mp hstarted with rfl | hstarted
      · exact .inl hcurrent
      · rcases hcases with ⟨-, hrest⟩ | ⟨-, hrest⟩
        · exact .inr (hrest ▸ hstarted)
        · obtain ⟨new, heq, -, -, -⟩ := hpushes.pushed (s.components.insert current id) current stack
          exact .inr (hrest ▸ heq ▸ mem_append_right _ hstarted)
  · by_cases hxc : x = current ∧ s.components.get current = none
    · obtain ⟨rfl, hnone⟩ := hxc
      rcases hcases with ⟨hsome, -⟩ | ⟨-, hrest⟩
      · simp [hnone] at hsome
      · obtain ⟨new, heq, -, -, hall⟩ := hpushes.pushed (s.components.insert x id) x stack
        rcases hall y hstep with hsome | hmem
        · exact .inl (hcomponents ▸ hsome)
        · exact .inr (hrest ▸ heq ▸ mem_append_left _ hmem)
    · have hxold : (s.components.get x).isSome := by
        rw [hget] at hnumber
        split at hnumber
        · rename_i heq
          exact isSome_iff_ne_none.mpr fun hnone => hxc ⟨heq.symm, heq ▸ hnone⟩
        · exact hnumber
      rcases h.closed x y hx hxold hstep hy with hsome | hmem
      · exact .inl (hstill y hsome)
      · rw [hstack] at hmem
        rcases mem_cons.mp hmem with rfl | hmem
        · exact .inl hcurrent
        · rcases hcases with ⟨-, hrest⟩ | ⟨-, hrest⟩
          · exact .inr (hrest ▸ hmem)
          · obtain ⟨new, heq, -, -, -⟩ := hpushes.pushed (s.components.insert current id) current stack
            exact .inr (hrest ▸ heq ▸ mem_append_right _ hmem)

def Flood.rank (degree : α → ℕ) (known : Finset α) (s : Flood α) : ℕ :=
  s.stack.length + ∑ k ∈ known.filter fun k => s.components.get k = none, degree k

theorem floodRound_rank {known : Finset α} (hpushes : Pushes extend next degree)
    (hknown : ∀ k, degree k ≠ 0 → k ∈ known) (h : floodRound extend id s = some s') :
    s'.rank degree known < s.rank degree known := by
  obtain ⟨current, stack, hstack, hcomponents, hcases⟩ := floodRound_cases h
  have hget : ∀ k, s'.components.get k = if current = k then some id else s.components.get k :=
    fun k => hcomponents ▸ OrderedMap.get_insert
  have hleft : (known.filter fun k => s'.components.get k = none) =
      (known.filter fun k => s.components.get k = none).erase current := by
    ext k
    rw [Finset.mem_filter, Finset.mem_erase, Finset.mem_filter, hget]
    by_cases hk : current = k
    · simp [hk]
    · simp [hk, Ne.symm hk]
  rw [Flood.rank, Flood.rank, hleft, hstack, length_cons]
  rcases hcases with ⟨hsome, hrest⟩ | ⟨hnone, hrest⟩
  · rw [hrest, Finset.erase_eq_of_notMem fun hmem => by
      simp [(Finset.mem_filter.mp hmem).2] at hsome]
    omega
  · obtain ⟨new, heq, -, hlen, -⟩ := hpushes.pushed (s.components.insert current id) current stack
    rw [hrest, heq, length_append]
    by_cases hmem : current ∈ known.filter fun k => s.components.get k = none
    · have := Finset.add_sum_erase _ degree hmem
      omega
    · rw [Finset.erase_eq_of_notMem hmem]
      have hzero : degree current = 0 := by
        by_contra hne
        exact hmem (Finset.mem_filter.mpr ⟨hknown current hne, hnone⟩)
      omega

/-- A flood ends. It gives its number to the nodes it reaches along steps that avoid those which
had one before. -/
theorem flood_spec {known : Finset α} (id : ℕ) (hpushes : Pushes extend next degree)
    (hknown : ∀ k, degree k ≠ 0 → k ∈ known) (hfuel : 1 + ∑ k ∈ known, degree k < fuel)
    (hnew : PushesFresh extend components)
    (hstart : components.get start = none) :
    ∃ s, drain (floodRound extend id) fuel ⟨components, [start]⟩ = some s ∧
      (∀ k, (components.get k).isSome → s.components.get k = components.get k) ∧
      ∀ k, components.get k = none → (∀ n, s.components.get k = some n → n = id) ∧
        ((s.components.get k).isSome ↔
          ReflTransGen (Free next {k | (components.get k).isSome}) start k) := by
  have hinit : Flooded next components start id ⟨components, [start]⟩ := by
    refine ⟨fun _ _ => rfl, fun k n hk hn => ?_, fun k hk => ?_, .inr mem_cons_self,
      fun x y hx hnumber => ?_⟩
    · rw [hk] at hn
      cases hn
    · obtain rfl := mem_singleton.mp hk
      exact ⟨hstart, .refl⟩
    · simp [hx] at hnumber
  have hrank : Flood.rank degree known ⟨components, [start]⟩ < fuel := by
    have hle : ∑ k ∈ known.filter fun k => components.get k = none, degree k ≤ ∑ k ∈ known, degree k :=
      Finset.sum_le_sum_of_subset (Finset.filter_subset _ _)
    simp only [Flood.rank, length_singleton]
    omega
  obtain ⟨s, hdrain, h, hend⟩ := drain_spec (Flood.rank degree known)
    (fun s s' hs hround => ⟨hs.round hpushes hnew hround, floodRound_rank hpushes hknown hround⟩)
    hinit hrank
  have hempty := floodRound_none hend
  have hreached : ∀ k, ReflTransGen (Free next {k | (components.get k).isSome}) start k →
      components.get k = none ∧ (s.components.get k).isSome := by
    intro k hreach
    induction hreach with
    | refl => exact ⟨hstart, h.started.resolve_right (by simp [hempty])⟩
    | tail _ hstep ih =>
      have hy := not_isSome_iff_eq_none.mp hstep.2
      exact ⟨hy, (h.closed _ _ ih.1 ih.2 hstep.1 hy).resolve_right (by simp [hempty])⟩
  refine ⟨s, hdrain, h.kept, fun k hk => ⟨fun n hn => (h.number k n hk hn).1, fun hsome => ?_,
    fun hreach => (hreached k hreach).2⟩⟩
  obtain ⟨n, hn⟩ := isSome_iff_exists.mp hsome
  exact (h.number k n hk hn).2

end

section

variable {extend : OrderedMap α ℕ → α → List α → List α} {next same : α → α → Prop} {degree : α → ℕ}
  {components components' : OrderedMap α ℕ} {nodes done : List α} {start : α} {known : Finset α}

theorem numbered_empty : Numbered same [] 0 (.empty : OrderedMap α ℕ) :=
  ⟨fun _ => iff_of_false nofun (by simp), fun _ _ => nofun, fun _ _ => nofun⟩

section

variable (hsame : Equivalence same)
include hsame

theorem Numbered.fresh (h : Numbered same done id components) {x y : α}
    (hx : components.get x = none) (hxy : same x y) : components.get y = none := by
  refine not_isSome_iff_eq_none.mp fun hsome => ?_
  obtain ⟨p, hp, hpy⟩ := (h.isSome_iff y).mp hsome
  have := (h.isSome_iff x).mpr ⟨p, hp, hsame.trans hpy (hsame.symm hxy)⟩
  simp [hx] at this

theorem Numbered.skip (h : Numbered same done id components)
    (hstart : (components.get start).isSome) : Numbered same (done ++ [start]) id components := by
  refine ⟨fun k => ?_, h.positive, h.eq_iff⟩
  obtain ⟨p, hp, hstart⟩ := (h.isSome_iff start).mp hstart
  rw [h.isSome_iff]
  constructor
  · rintro ⟨q, hq, hk⟩
    exact ⟨q, mem_append_left _ hq, hk⟩
  · rintro ⟨q, hq, hk⟩
    rcases mem_append.mp hq with hq | hq
    · exact ⟨q, hq, hk⟩
    · exact ⟨p, hp, hsame.trans hstart (mem_singleton.mp hq ▸ hk)⟩

theorem Numbered.add (h : Numbered same done id components) (hstart : components.get start = none)
    (hkept : ∀ k, (components.get k).isSome → components'.get k = components.get k)
    (hadded : ∀ k, components.get k = none → (∀ n, components'.get k = some n → n = id + 1) ∧
      ((components'.get k).isSome ↔ same start k)) :
    Numbered same (done ++ [start]) (id + 1) components' := by
  have hold : ∀ k, (components.get k).isSome → ¬ same start k := by
    intro k hk hclass
    simp [h.fresh hsame hstart hclass] at hk
  have hnew : ∀ k, components.get k = none → same start k → components'.get k = some (id + 1) := by
    intro k hk hclass
    obtain ⟨n, hn⟩ := isSome_iff_exists.mp ((hadded k hk).2.mpr hclass)
    exact (hadded k hk).1 n hn ▸ hn
  refine ⟨fun k => ?_, fun k n hn => ?_, fun j k hj hk => ?_⟩
  · cases hk : components.get k with
    | some n =>
      have hsome : (components.get k).isSome := by simp [hk]
      rw [hkept k hsome]
      refine iff_of_true hsome ?_
      obtain ⟨p, hp, hpk⟩ := (h.isSome_iff k).mp hsome
      exact ⟨p, mem_append_left _ hp, hpk⟩
    | none =>
      rw [(hadded k hk).2]
      constructor
      · exact fun hclass => ⟨start, mem_append_right _ mem_cons_self, hclass⟩
      · rintro ⟨p, hp, hpk⟩
        rcases mem_append.mp hp with hp | hp
        · have := (h.isSome_iff k).mpr ⟨p, hp, hpk⟩
          simp [hk] at this
        · exact mem_singleton.mp hp ▸ hpk
  · cases hk : components.get k with
    | some m =>
      rw [hkept k (by simp [hk])] at hn
      have := h.positive k n hn
      omega
    | none =>
      have := (hadded k hk).1 n hn
      omega
  · -- both had their number before, one of them, or none
    cases hjold : components.get j with
    | some m =>
      have hjsome : (components.get j).isSome := by simp [hjold]
      cases hkold : components.get k with
      | some n =>
        have hksome : (components.get k).isSome := by simp [hkold]
        rw [hkept j hjsome, hkept k hksome]
        exact h.eq_iff j k hjsome hksome
      | none =>
        have hclass := (hadded k hkold).2.mp hk
        rw [hkept j hjsome, hnew k hkold hclass, hjold, some.injEq]
        have := (h.positive j m hjold).2
        exact iff_of_false (by omega) fun hjk =>
          hold j hjsome (hsame.trans hclass (hsame.symm hjk))
    | none =>
      have hclass := (hadded j hjold).2.mp hj
      rw [hnew j hjold hclass]
      cases hkold : components.get k with
      | some n =>
        have hksome : (components.get k).isSome := by simp [hkold]
        rw [hkept k hksome, hkold, some.injEq]
        have := (h.positive k n hkold).2
        exact iff_of_false (by omega) fun hjk => hold k hksome (hsame.trans hclass hjk)
      | none =>
        have hclass' := (hadded k hkold).2.mp hk
        rw [hnew k hkold hclass']
        exact iff_of_true rfl (hsame.trans (hsame.symm hclass) hclass')

end

/-- Floods from several nodes number the classes of a relation, where each flood fills the class of
its node. -/
theorem floodFrom_spec (hsame : Equivalence same) (hpushes : Pushes extend next degree)
    (hknown : ∀ k, degree k ≠ 0 → k ∈ known) (hfuel : 1 + ∑ k ∈ known, degree k < fuel)
    (hfills : ∀ earlier start later, done ++ nodes = earlier ++ start :: later → ∀ id components,
      Numbered same earlier id components → components.get start = none →
        PushesFresh extend components ∧ ∀ k, components.get k = none →
          (ReflTransGen (Free next {k | (components.get k).isSome}) start k ↔ same start k))
    (h : Numbered same done id components) :
    ∃ id' components', floodFrom extend fuel nodes id components = some components' ∧
      Numbered same (done ++ nodes) id' components' := by
  induction nodes generalizing done id components with
  | nil => exact ⟨id, components, rfl, (append_nil done).symm ▸ h⟩
  | cons node nodes ih =>
    have hsplit : done ++ node :: nodes = done ++ [node] ++ nodes := by simp
    rw [floodFrom, hsplit]
    rw [hsplit] at hfills
    split
    · rename_i hsome
      exact ih hfills (h.skip hsame hsome)
    · rename_i hnone
      have hnode := not_isSome_iff_eq_none.mp hnone
      obtain ⟨hfresh, hclass⟩ := hfills done node nodes hsplit.symm id components h hnode
      obtain ⟨s, hs, hkept, hadded⟩ :=
        flood_spec (id + 1) hpushes hknown hfuel hfresh hnode
      rw [hs, bind_some]
      exact ih hfills (h.add hsame hnode hkept fun k hk =>
        ⟨(hadded k hk).1, (hadded k hk).2.trans (hclass k hk)⟩)

end

end CoveFormat.Floods
