import Mathlib.Order.Basic

namespace CoveFormat.Kleene

inductive Truth
  | yes
  | no
  | unknown
  deriving DecidableEq

namespace Truth

def ofBool (b : Bool) : Truth := if b then yes else no

def and : Truth → Truth → Truth
  | no, _ => no
  | _, no => no
  | yes, t => t
  | unknown, _ => unknown

def or : Truth → Truth → Truth
  | yes, _ | _, yes => yes
  | no, t => t
  | unknown, _ => unknown

def not : Truth → Truth
  | yes => no
  | no => yes
  | unknown => unknown

variable (ts : List Truth)

def all : Truth := ts.foldr and yes

def any : Truth := ts.foldr or no

end Truth

open Truth

theorem ofBool_yes {b : Bool} : ofBool b = yes ↔ b = true := by
  cases b <;> decide

theorem ofBool_no {b : Bool} : ofBool b = no ↔ b = false := by
  cases b <;> decide

theorem not_not (t : Truth) : t.not.not = t := by
  cases t <;> rfl

theorem not_and (s t : Truth) : (s.and t).not = s.not.or t.not := by
  cases s <;> cases t <;> rfl

theorem or_assoc (s t u : Truth) : (s.or t).or u = s.or (t.or u) := by
  cases s <;> cases t <;> cases u <;> rfl

theorem and_yes_iff (s t : Truth) : s.and t = yes ↔ s = yes ∧ t = yes := by
  cases s <;> cases t <;> simp [Truth.and]

theorem and_no_iff (s t : Truth) : s.and t = no ↔ s = no ∨ t = no := by
  cases s <;> cases t <;> simp [Truth.and]

theorem or_yes_iff (s t : Truth) : s.or t = yes ↔ s = yes ∨ t = yes := by
  cases s <;> cases t <;> simp [Truth.or]

theorem or_no_iff (s t : Truth) : s.or t = no ↔ s = no ∧ t = no := by
  cases s <;> cases t <;> simp [Truth.or]

theorem not_yes_iff (t : Truth) : t.not = yes ↔ t = no := by
  cases t <;> simp [Truth.not]

theorem not_no_iff (t : Truth) : t.not = no ↔ t = yes := by
  cases t <;> simp [Truth.not]

theorem any_yes_iff (ts : List Truth) : any ts = yes ↔ ∃ t ∈ ts, t = yes := by
  induction ts with
  | nil => simp [Truth.any]
  | cons t ts ih =>
    simp only [List.mem_cons, exists_eq_or_imp, ← ih]
    exact or_yes_iff t (any ts)

theorem any_no_iff (ts : List Truth) : any ts = no ↔ ∀ t ∈ ts, t = no := by
  induction ts with
  | nil => simp [Truth.any]
  | cons t ts ih =>
    rw [List.forall_mem_cons, ← ih]
    exact or_no_iff t (any ts)

variable {t : Truth}

theorem not_known (h : t ≠ unknown) : t.not ≠ unknown := by
  cases t <;> simp_all [Truth.not]

variable {s : Truth}

theorem and_known (hs : s ≠ unknown) (ht : t ≠ unknown) : s.and t ≠ unknown := by
  cases s <;> cases t <;> simp_all [Truth.and]

theorem or_known (hs : s ≠ unknown) (ht : t ≠ unknown) : s.or t ≠ unknown := by
  cases s <;> cases t <;> simp_all [Truth.or]

/-- A verdict `a` about a whole collection admits the value `t` of one member:
a negative verdict excludes `yes`, a positive one excludes `no`. An unknown
member is admitted by every verdict. -/
def Admits (a t : Truth) : Prop := (a = no → t ≠ yes) ∧ (a = yes → t ≠ no)

variable {a : Truth}

theorem Admits.not (h : Admits a t) : Admits a.not t.not := by
  refine ⟨fun ha => ?_, fun ha => ?_⟩
  · rw [not_no_iff] at ha
    rw [ne_eq, not_yes_iff]
    exact h.2 ha
  · rw [not_yes_iff] at ha
    rw [ne_eq, not_no_iff]
    exact h.1 ha

variable {b : Truth}

theorem Admits.and (h : Admits a s) (g : Admits b t) : Admits (a.and b) (s.and t) := by
  refine ⟨fun hn => ?_, fun hy => ?_⟩
  · rw [ne_eq, and_yes_iff]
    rintro ⟨hs, ht⟩
    rcases (and_no_iff a b).mp hn with ha | hb
    · exact h.1 ha hs
    · exact g.1 hb ht
  · obtain ⟨ha, hb⟩ := (and_yes_iff a b).mp hy
    rw [ne_eq, and_no_iff]
    rintro (hs | ht)
    · exact h.2 ha hs
    · exact g.2 hb ht

theorem Admits.or (h : Admits a s) (g : Admits b t) : Admits (a.or b) (s.or t) := by
  have hd := (h.not.and g.not).not
  rwa [not_and, not_and, not_not, not_not, not_not, not_not] at hd

/-- A verdict decides the member: it is right about it in the two-valued sense. -/
def Decides (a t : Truth) : Prop := (a = no → t ≠ yes) ∧ (a = yes → t = yes)

theorem Admits.decides_iff (h : Admits a t) : Decides a t ↔ ¬ (a = yes ∧ t = unknown) := by
  obtain ⟨h1, h2⟩ := h
  cases a <;> cases t <;> simp_all [Decides]

end CoveFormat.Kleene
