import CoveFormat.ByteCodes

namespace CoveFormat.UnixPaths

open ByteCodes List

def slash : UInt8 := 0x2f

def dot : UInt8 := 0x2e

inductive Component
  | rootDir
  | curDir
  | parentDir
  | normal (name : Bytes)

def pieceComponent (piece : Bytes) : Option Component :=
  if piece = [] ∨ piece = [dot] then none
  else if piece = [dot, dot] then some .parentDir
  else some (.normal piece)

def isAbsolute (path : Bytes) : Bool := path.head? == some slash

def laterComponents (path : Bytes) : List Component := (path.splitOn slash).filterMap pieceComponent

def components (path : Bytes) : List Component :=
  if isAbsolute path then .rootDir :: laterComponents path
  else if (path.splitOn slash).head? = some [dot] then .curDir :: laterComponents path
  else laterComponents path

def join (base path : Bytes) : Bytes :=
  if isAbsolute path then path
  else if base.getLast?.any (· != slash) then base ++ slash :: path
  else base ++ path

/-- Where a path leads without symbolic links: some steps up, then down by names. From the root
there is no way up. -/
structure Location where
  rooted : Bool
  ups : Nat
  names : List Bytes
  rooted_ups : rooted = true → ups = 0

namespace Location

def here : Location := ⟨false, 0, [], nofun⟩

def root : Location := ⟨true, 0, [], fun _ => rfl⟩

def down (l : Location) (name : Bytes) : Location := { l with names := l.names ++ [name] }

def up (l : Location) : Location :=
  if l.names = [] then
    if h : l.rooted then l else { l with ups := l.ups + 1, rooted_ups := fun hr => absurd hr h }
  else { l with names := l.names.dropLast }

def step (l : Location) : Component → Location
  | .rootDir => root
  | .curDir => l
  | .parentDir => l.up
  | .normal name => l.down name

/-- Below a location, by at least one name. -/
def Below (base l : Location) : Prop :=
  l.rooted = base.rooted ∧ l.ups = base.ups ∧ ∃ names, names ≠ [] ∧ l.names = base.names ++ names

end Location

open Location

def resolve (path : Bytes) : Location := (components path).foldl step here

/-- The components that neither lead up nor start over. -/
def Descends : Component → Prop
  | .curDir | .normal _ => True
  | .rootDir | .parentDir => False

variable {cs : List Component}

theorem foldl_step_descends (h : ∀ c ∈ cs, Descends c) (l : Location) :
    (cs.foldl step l).rooted = l.rooted ∧ (cs.foldl step l).ups = l.ups ∧
      (cs.foldl step l).names = l.names ++ cs.filterMap fun
        | .normal name => some name
        | _ => none := by
  induction cs generalizing l with
  | nil => simp
  | cons c cs ih =>
    obtain ⟨hrooted, hups, hnames⟩ := ih (fun d hd => h d (.tail _ hd)) (step l c)
    have hc := h c mem_cons_self
    rw [foldl_cons, hrooted, hups, hnames]
    cases c with
    | rootDir | parentDir => exact hc.elim
    | curDir => exact ⟨rfl, rfl, rfl⟩
    | normal name => exact ⟨rfl, rfl, by simp [step, down]⟩

theorem below_of_descends (h : ∀ c ∈ cs, Descends c) (hname : ∃ name, .normal name ∈ cs)
    (l : Location) : Below l (cs.foldl step l) := by
  obtain ⟨hrooted, hups, hnames⟩ := foldl_step_descends h l
  obtain ⟨name, hmem⟩ := hname
  refine ⟨hrooted, hups, _, ?_, hnames⟩
  apply ne_nil_of_mem
  exact mem_filterMap.mpr ⟨_, hmem, rfl⟩

theorem laterComponents_append (xs ys : Bytes) :
    laterComponents (xs ++ slash :: ys) = laterComponents xs ++ laterComponents ys := by
  rw [laterComponents, splitOn_append_cons_self, filterMap_append]
  rfl

theorem components_append (xs ys : Bytes) :
    components (xs ++ slash :: ys) = components (xs ++ [slash]) ++ laterComponents ys := by
  have habsolute : isAbsolute (xs ++ slash :: ys) = isAbsolute (xs ++ [slash]) := by
    cases xs <;> rfl
  have hhead : ((xs ++ slash :: ys).splitOn slash).head? = ((xs ++ [slash]).splitOn slash).head? := by
    rw [splitOn_append_cons_self, splitOn_append_cons_self,
      List.head?_append_of_ne_nil _ (splitOn_ne_nil _ _),
      List.head?_append_of_ne_nil _ (splitOn_ne_nil _ _)]
  have hlater : laterComponents (xs ++ slash :: ys) =
      laterComponents (xs ++ [slash]) ++ laterComponents ys := by
    rw [laterComponents_append, laterComponents_append]
    simp [laterComponents, pieceComponent]
  rw [components, components, habsolute, hhead, hlater]
  split
  · rfl
  · split <;> rfl

theorem components_append_slash {xs : Bytes} (h : xs ≠ []) :
    components (xs ++ [slash]) = components xs := by
  have habsolute : isAbsolute (xs ++ [slash]) = isAbsolute xs := by
    cases xs with
    | nil => exact absurd rfl h
    | cons x xs => rfl
  have hhead : ((xs ++ [slash]).splitOn slash).head? = (xs.splitOn slash).head? := by
    rw [splitOn_append_cons_self, List.head?_append_of_ne_nil _ (splitOn_ne_nil _ _)]
  have hlater : laterComponents (xs ++ [slash]) = laterComponents xs := by
    rw [laterComponents_append]
    simp [laterComponents, pieceComponent]
  rw [components, components, habsolute, hhead, hlater]

variable {path : Bytes}

theorem components_join {base : Bytes} (hbase : base ≠ []) (hpath : isAbsolute path = false) :
    components (join base path) = components base ++ laterComponents path := by
  obtain ⟨init, last, rfl⟩ : ∃ init last, base = init ++ [last] :=
    ⟨_, _, (dropLast_append_getLast hbase).symm⟩
  rw [join, hpath, if_neg Bool.false_ne_true, List.getLast?_concat, Option.any_some]
  by_cases hlast : last = slash
  · subst hlast
    rw [bne_self_eq_false, if_neg Bool.false_ne_true, append_assoc, singleton_append,
      components_append]
  · rw [if_pos (bne_iff_ne.mpr hlast), components_append, components_append_slash hbase]

theorem join_nil (path : Bytes) : join [] path = path := by
  rw [join]
  split
  · rfl
  · rfl

theorem laterComponents_subset {c : Component} (h : c ∈ laterComponents path) :
    c ∈ components path := by
  rw [components]
  split
  · exact .tail _ h
  · split
    · exact .tail _ h
    · exact h

theorem normal_mem_later {name : Bytes} (h : .normal name ∈ components path) :
    .normal name ∈ laterComponents path := by
  rw [components] at h
  split at h
  · simpa using h
  · split at h
    · simpa using h
    · exact h

theorem below_join (base : Bytes) (habsolute : isAbsolute path = false)
    (hdescends : ∀ c ∈ components path, Descends c) (hname : ∃ name, .normal name ∈ components path) :
    Below (resolve base) (resolve (join base path)) ∧ components base <+: components (join base path) := by
  by_cases hbase : base = []
  · subst hbase
    rw [join_nil]
    exact ⟨below_of_descends hdescends hname here, nil_prefix⟩
  · rw [resolve, resolve, components_join hbase habsolute, List.foldl_append]
    refine ⟨below_of_descends (fun c hc => hdescends c (laterComponents_subset hc)) ?_ _,
      prefix_append _ _⟩
    obtain ⟨name, hmem⟩ := hname
    exact ⟨name, normal_mem_later hmem⟩

end CoveFormat.UnixPaths
