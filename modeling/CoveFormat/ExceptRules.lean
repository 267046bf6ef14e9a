import Mathlib.Data.List.Chain

namespace CoveFormat.ExceptRules

open Except List

variable {α β ε ε' : Type}

variable {r : Except ε α} {y : β}

theorem map_eq_ok_iff {f : α → β} : r.map f = .ok y ↔ ∃ x, r = .ok x ∧ f x = y := by
  cases r <;> simp [Except.map]

variable {f : α → Except ε β}

theorem bind_eq_ok_iff : r.bind f = .ok y ↔ ∃ x, r = .ok x ∧ f x = .ok y := by
  cases r <;> simp [Except.bind]

theorem mapError_eq_ok_iff {f : ε → ε'} {y : α} : r.mapError f = .ok y ↔ r = .ok y := by
  cases r <;> simp [Except.mapError]

theorem andThen_eq_ok_iff : (r >>= f) = .ok y ↔ ∃ x, r = .ok x ∧ f x = .ok y :=
  bind_eq_ok_iff

theorem of_andThen (h : (r >>= f) = .ok y) : ∃ x, r = .ok x ∧ f x = .ok y :=
  bind_eq_ok_iff.mp h

theorem andThen_ok {x : α} (h : r = .ok x) (hrest : f x = .ok y) : (r >>= f) = .ok y :=
  bind_eq_ok_iff.mpr ⟨x, h, hrest⟩

theorem andThen_iff_of_ok {x : α} (h : r = .ok x) : (r >>= f) = .ok y ↔ f x = .ok y := by
  rw [h]
  rfl

/-- `if c { return Err(e); }`. -/
def rejectIf (c : Prop) [Decidable c] (e : ε) : Except ε Unit := if c then .error e else .ok ()

variable {c : Prop} {e : ε} {u : Unit}

theorem rejectIf_eq_ok_iff [Decidable c] : rejectIf c e = .ok u ↔ ¬ c := by
  rw [rejectIf]
  split
  · rename_i hc
    simp [hc]
  · rename_i hc
    simp [hc]

theorem of_rejectIf [Decidable c] (h : rejectIf c e = .ok u) : ¬ c :=
  rejectIf_eq_ok_iff.mp h

theorem rejectIf_ok [Decidable c] (h : ¬ c) : rejectIf c e = .ok u :=
  rejectIf_eq_ok_iff.mpr h

theorem of_check {r : Except ε Unit} {f : Unit → Except ε β} (h : (r >>= f) = .ok y) :
    r = .ok () ∧ f () = .ok y := by
  obtain ⟨⟨⟩, hr, hf⟩ := of_andThen h
  exact ⟨hr, hf⟩

theorem rest_ok {r : Except ε Unit} {f : Unit → Except ε β} (h : (r >>= f) = .ok y) :
    f () = .ok y :=
  (of_check h).2

theorem of_reject [Decidable c] {f : Unit → Except ε β} (h : (rejectIf c e >>= f) = .ok y) :
    ¬ c ∧ f () = .ok y :=
  ⟨of_rejectIf (of_check h).1, rest_ok h⟩

theorem rejectIf_andThen_iff [Decidable c] {f : Unit → Except ε β} :
    (rejectIf c e >>= f) = .ok y ↔ ¬ c ∧ f () = .ok y :=
  ⟨of_reject, fun h => andThen_ok (rejectIf_ok h.1) h.2⟩

theorem rejectIf_andThen [Decidable c] {f : Unit → Except ε β} (h : ¬ c) (hrest : f () = .ok y) :
    (rejectIf c e >>= f) = .ok y :=
  andThen_ok (rejectIf_ok h) hrest

theorem unless_andThen [Decidable ¬ c] {f : Unit → Except ε β} (h : c) (hrest : f () = .ok y) :
    (rejectIf (¬ c) e >>= f) = .ok y :=
  rejectIf_andThen (not_not.mpr h) hrest

theorem guarded_eq_ok_iff [Decidable c] {x y : α} :
    (if c then .ok x else .error e : Except ε α) = .ok y ↔ c ∧ y = x := by
  split
  · rename_i h
    simp only [ok.injEq, h, true_and, eq_comm]
  · rename_i h
    simp only [h, false_and, reduceCtorEq]

/-- `if b { check?; }`. -/
def whenever (b : Bool) (check : Except ε Unit) : Except ε Unit := if b then check else .ok ()

theorem whenever_eq_ok_iff {b : Bool} {check : Except ε Unit} :
    whenever b check = .ok u ↔ (b = true → check = .ok ()) := by
  cases b <;> simp [whenever]

def checkAll (check : α → Except ε Unit) : List α → Except ε Unit
  | [] => .ok ()
  | a :: as => (check a).bind fun _ => checkAll check as

variable {check : α → Except ε Unit} {as : List α}

theorem checkAll_eq_ok_iff : checkAll check as = .ok u ↔ ∀ a ∈ as, check a = .ok () := by
  induction as with
  | nil => simp [checkAll]
  | cons a as ih =>
    rw [checkAll, bind_eq_ok_iff, forall_mem_cons]
    constructor
    · rintro ⟨⟨⟩, ha, has⟩
      exact ⟨ha, ih.mp has⟩
    · rintro ⟨ha, has⟩
      exact ⟨(), ha, ih.mpr has⟩

def checkPairs (check : α → α → Except ε Unit) : List α → Except ε Unit
  | a :: b :: as => (check a b).bind fun _ => checkPairs check (b :: as)
  | _ => .ok ()

theorem checkPairs_eq_ok_iff {check : α → α → Except ε Unit} :
    checkPairs check as = .ok u ↔ as.IsChain fun a b => check a b = .ok () := by
  induction as with
  | nil => simp [checkPairs]
  | cons a as ih =>
    cases as with
    | nil => simp [checkPairs]
    | cons b as =>
      rw [checkPairs, bind_eq_ok_iff, isChain_cons_cons, ih]
      constructor
      · rintro ⟨⟨⟩, hab, has⟩
        exact ⟨hab, has⟩
      · rintro ⟨hab, has⟩
        exact ⟨(), hab, has⟩

theorem andThen_eq_error (h : (r >>= f) = .error e) :
    r = .error e ∨ ∃ x, r = .ok x ∧ f x = .error e := by
  cases r with
  | error e' => exact .inl (congrArg Except.error (Except.error.inj h))
  | ok x => exact .inr ⟨x, rfl, h⟩

theorem rejectIf_eq_error [Decidable c] {e' : ε} (h : rejectIf c e = .error e') : e' = e := by
  rw [rejectIf] at h
  split at h
  · exact (Except.error.inj h).symm
  · cases h

theorem checkAll_eq_error (h : checkAll check as = .error e) : ∃ a ∈ as, check a = .error e := by
  induction as with
  | nil => cases h
  | cons a as ih =>
    rcases andThen_eq_error h with ha | ⟨⟨⟩, -, has⟩
    · exact ⟨a, mem_cons_self, ha⟩
    · obtain ⟨b, hb, hbe⟩ := ih has
      exact ⟨b, mem_cons_of_mem _ hb, hbe⟩

variable {bs : List β}

theorem forall₂_of_mapM (h : as.mapM f = .ok bs) : Forall₂ (fun a b => f a = .ok b) as bs := by
  induction as generalizing bs with
  | nil =>
    cases h
    exact .nil
  | cons a as ih =>
    rw [mapM_cons] at h
    obtain ⟨b, hb, h⟩ := of_andThen h
    obtain ⟨bs', hbs, h⟩ := of_andThen h
    cases h
    exact .cons hb (ih hbs)

theorem mapM_of_forall₂ (h : Forall₂ (fun a b => f a = .ok b) as bs) : as.mapM f = .ok bs := by
  induction h with
  | nil => rfl
  | cons hab _ ih =>
    rw [mapM_cons, hab, ih]
    rfl

variable {γ : Type}

theorem mapM_congr_forall₂ {f : α → Except ε γ} {g : β → Except ε γ}
    (h : Forall₂ (fun a b => f a = g b) as bs) : as.mapM f = bs.mapM g := by
  induction h with
  | nil => rfl
  | cons hab _ ih => rw [mapM_cons, mapM_cons, hab, ih]

theorem mapM_eq_ok_iff : as.mapM f = .ok bs ↔ Forall₂ (fun a b => f a = .ok b) as bs :=
  ⟨forall₂_of_mapM, mapM_of_forall₂⟩

variable {a : α}

theorem forall₂_mem_left {r : α → β → Prop} (h : Forall₂ r as bs) (ha : a ∈ as) : ∃ b ∈ bs, r a b := by
  induction h with
  | nil => cases ha
  | cons hab _ ih =>
    rcases mem_cons.mp ha with rfl | ha
    · exact ⟨_, mem_cons_self, hab⟩
    · obtain ⟨b, hb, hr⟩ := ih ha
      exact ⟨b, mem_cons_of_mem _ hb, hr⟩

theorem map_eq_of_forall₂ {r : α → β → Prop} {f : α → γ} {g : β → γ} (h : Forall₂ r as bs)
    (hr : ∀ a b, r a b → f a = g b) : as.map f = bs.map g := by
  induction h with
  | nil => rfl
  | cons hab _ ih => rw [map_cons, map_cons, hr _ _ hab, ih]

theorem exists_mapM (h : ∀ a ∈ as, ∃ b, f a = .ok b) : ∃ bs, as.mapM f = .ok bs := by
  induction as with
  | nil => exact ⟨[], rfl⟩
  | cons a as ih =>
    obtain ⟨ha, has⟩ := forall_mem_cons.mp h
    obtain ⟨b, hb⟩ := ha
    obtain ⟨bs, hbs⟩ := ih has
    exact ⟨b :: bs, by rw [mapM_cons, hb, hbs]; rfl⟩

theorem exists_of_mapM (h : as.mapM f = .ok bs) (ha : a ∈ as) : ∃ b ∈ bs, f a = .ok b :=
  forall₂_mem_left (mapM_eq_ok_iff.mp h) ha

theorem exists_of_mem_mapM (h : as.mapM f = .ok bs) {b : β} (hb : b ∈ bs) : ∃ a ∈ as, f a = .ok b :=
  forall₂_mem_left (mapM_eq_ok_iff.mp h).flip hb

variable {p : α → Prop}

theorem forall₂_eq_map_iff {f : α → β} :
    Forall₂ (fun a b => p a ∧ b = f a) as bs ↔ (∀ a ∈ as, p a) ∧ bs = as.map f := by
  induction as generalizing bs with
  | nil => simp
  | cons a as ih =>
    cases bs with
    | nil => simp
    | cons b bs =>
      rw [forall₂_cons, ih, forall_mem_cons, map_cons, List.cons.injEq]
      tauto

theorem mapM_eq_ok_map_iff {g : α → β} (h : ∀ a ∈ as, ∀ b, f a = .ok b ↔ p a ∧ b = g a) :
    as.mapM f = .ok bs ↔ (∀ a ∈ as, p a) ∧ bs = as.map g := by
  rw [mapM_eq_ok_iff, ← forall₂_eq_map_iff]
  induction as generalizing bs with
  | nil => rw [forall₂_nil_left_iff, forall₂_nil_left_iff]
  | cons a as ih =>
    obtain ⟨ha, has⟩ := forall_mem_cons.mp h
    cases bs with
    | nil => simp
    | cons b bs => rw [forall₂_cons, forall₂_cons, ha, ih has]

theorem mapM_mapM_eq_ok_iff {ε' : Type} {g : β → Except ε' γ} {cs : List γ} (h : as.mapM f = .ok bs) :
    bs.mapM g = .ok cs ↔ Forall₂ (fun a c => ∃ b, f a = .ok b ∧ g b = .ok c) as cs := by
  rw [mapM_eq_ok_iff]
  rw [mapM_eq_ok_iff] at h
  induction h generalizing cs with
  | nil => simp
  | @cons a b as bs hab _ ih =>
    cases cs with
    | nil => simp
    | cons c cs =>
      rw [forall₂_cons, forall₂_cons, ih]
      simp only [hab, ok.injEq, exists_eq_left']

theorem toOption_eq_some_iff : r.toOption = some a ↔ r = .ok a := by
  cases r <;> simp [Except.toOption]

theorem bind_ok (f : α → Except ε β) (x : α) : (ok x).bind f = f x := rfl

theorem map_ok (f : α → β) (x : α) : (ok (ε := ε) x).map f = .ok (f x) := rfl

end CoveFormat.ExceptRules
