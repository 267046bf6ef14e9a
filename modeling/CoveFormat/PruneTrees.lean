import CoveFormat.PruningSoundness

namespace CoveFormat.PruneTrees

open FileCodeIndexes ZoneStatistics Pruning Kleene PruningSoundness List

inductive PruneTree
  | leaf (l : Leaf)
  | and (s t : PruneTree)
  | or (s t : PruneTree)
  | negate (t : PruneTree)

def PruneTree.explain : PruneTree → PruningExplanation
  | .leaf l => l.explain
  | .and s t => s.explain.and t.explain
  | .or s t => s.explain.or t.explain
  | .negate t => t.explain.negate

def PruneTree.truth (rank : UInt32 → Option UInt32) : PruneTree → Option Cell → Truth
  | .leaf l, row => l.truth rank row
  | .and s t, row => (s.truth rank row).and (t.truth rank row)
  | .or s t, row => (s.truth rank row).or (t.truth rank row)
  | .negate t, row => (t.truth rank row).not

def PruneTree.Truthful (z : Zone) : PruneTree → Prop
  | .leaf l => l.Truthful z
  | .and s t | .or s t => s.Truthful z ∧ t.Truthful z
  | .negate t => t.Truthful z

def outcome (t : PruneTree) : PredicateZoneOutcome := t.explain.finalOutcome

def decided : PredicateZoneOutcome → Truth
  | .allMatch => .yes
  | .noMatch => .no
  | .someMatch | .unknown => .unknown

theorem decided_and (a b : PredicateZoneOutcome) : decided (a.and b) = (decided a).and (decided b) := by
  cases a <;> cases b <;> rfl

theorem decided_or (a b : PredicateZoneOutcome) : decided (a.or b) = (decided a).or (decided b) := by
  cases a <;> cases b <;> rfl

section

variable (a : PredicateZoneOutcome)

theorem decided_negate : decided a.negate = (decided a).not := by
  cases a <;> rfl

theorem decided_yes_iff : decided a = .yes ↔ a = .allMatch := by
  cases a <;> simp [decided]

theorem decided_no_iff : decided a = .no ↔ a = .noMatch := by
  cases a <;> simp [decided]

end

@[simp] theorem singleStep_steps (ev : PruningEvidence) (o : PredicateZoneOutcome) (sec : String)
    (note : List NotePiece) : (singleStep ev o sec note).steps ≠ [] := by
  simp [singleStep, PruningExplanation.record, PruningExplanation.new]

theorem Leaf.explain_steps (l : Leaf) : l.explain.steps ≠ [] := by
  cases l with
  | isNull zs =>
    simp only [Leaf.explain, explainIsNull]
    repeat' split
    all_goals exact singleStep_steps _ _ _ _
  | isNotNull zs =>
    simp only [Leaf.explain, explainIsNotNull]
    repeat' split
    all_goals exact singleStep_steps _ _ _ _
  | fileCodeEquality c zs d es =>
    simp only [Leaf.explain, explainFileCodeEquality, explainFileCodeEqualityRest,
      fileCodeEqualityFallback]
    repeat' split
    all_goals exact singleStep_steps _ _ _ _
  | rankRange lo hi zs d =>
    simp only [Leaf.explain, explainResolvedDomainRankRange]
    repeat' split
    all_goals exact singleStep_steps _ _ _ _
  | numcodeRange r zs =>
    simp only [Leaf.explain, explainNumcodeRange, numericFallback]
    repeat' split
    all_goals exact singleStep_steps _ _ _ _

theorem explain_steps (t : PruneTree) : t.explain.steps ≠ [] := by
  induction t with
  | leaf l => exact Leaf.explain_steps l
  | and s t hs ht => simp [PruneTree.explain, PruningExplanation.and, hs, ht]
  | or s t hs ht => simp [PruneTree.explain, PruningExplanation.or, hs, ht]
  | negate t ht => simpa [PruneTree.explain, PruningExplanation.negate] using ht

theorem outcome_and (s t : PruneTree) : outcome (.and s t) = (outcome s).and (outcome t) := by
  simp [outcome, PruneTree.explain, PruningExplanation.and, explain_steps]

theorem outcome_or (s t : PruneTree) : outcome (.or s t) = (outcome s).or (outcome t) := by
  simp [outcome, PruneTree.explain, PruningExplanation.or, explain_steps]

theorem outcome_negate (t : PruneTree) : outcome (.negate t) = (outcome t).negate := rfl

/-- The metadata settle the tree to the given value when every comparison is
read as false on NULL. -/
def Settles : PruneTree → Bool → Prop
  | .leaf l, true => l.Accepts
  | .leaf l, false => l.Rejects
  | .and s t, true => Settles s true ∧ Settles t true
  | .and s t, false => Settles s false ∨ Settles t false
  | .or s t, true => Settles s true ∨ Settles t true
  | .or s t, false => Settles s false ∧ Settles t false
  | .negate t, b => Settles t (!b)

theorem decided_settles (t : PruneTree) : (decided (outcome t) = .no ↔ Settles t false) ∧
    (decided (outcome t) = .yes ↔ Settles t true) := by
  induction t with
  | leaf l =>
    obtain ⟨hn, ha⟩ := Leaf.explain_outcome l
    exact ⟨(decided_no_iff _).trans hn, (decided_yes_iff _).trans ha⟩
  | and s t hs ht =>
    rw [outcome_and, decided_and, and_no_iff, and_yes_iff]
    exact ⟨or_congr hs.1 ht.1, and_congr hs.2 ht.2⟩
  | or s t hs ht =>
    rw [outcome_or, decided_or, or_no_iff, or_yes_iff]
    exact ⟨and_congr hs.1 ht.1, or_congr hs.2 ht.2⟩
  | negate t ht =>
    rw [outcome_negate, decided_negate, not_no_iff, not_yes_iff]
    exact ⟨ht.2, ht.1⟩

theorem outcome_admits {z : Zone} {t : PruneTree} (h : t.Truthful z) {row : Option Cell}
    (hr : row ∈ z.rows) : Admits (decided (outcome t)) (t.truth z.rank row) := by
  induction t with
  | leaf l =>
    obtain ⟨hn, ha⟩ := Leaf.admits h hr
    obtain ⟨hno, hyes⟩ := decided_settles (.leaf l)
    exact ⟨fun ho => hn (hno.mp ho), fun ho => ha (hyes.mp ho)⟩
  | and s t hs ht =>
    rw [outcome_and, decided_and]
    exact (hs h.1).and (ht h.2)
  | or s t hs ht =>
    rw [outcome_or, decided_or]
    exact (hs h.1).or (ht h.2)
  | negate t ht =>
    rw [outcome_negate, decided_negate]
    exact (ht h).not

theorem ofBool_ne_unknown (b : Bool) : Truth.ofBool b ≠ .unknown := by
  cases b <;> simp [Truth.ofBool]

theorem leaf_truth_cell (l : Leaf) (rank : UInt32 → Option UInt32) (cell : Cell) :
    l.truth rank (some cell) ≠ .unknown := by
  cases l <;> cases cell <;> simp [Leaf.truth, ofBool_ne_unknown]

theorem truth_cell (t : PruneTree) (rank : UInt32 → Option UInt32) (cell : Cell) :
    t.truth rank (some cell) ≠ .unknown := by
  induction t with
  | leaf l => exact leaf_truth_cell l rank cell
  | and s t hs ht => exact and_known hs ht
  | or s t hs ht => exact or_known hs ht
  | negate t ht => exact not_known ht

def Sound (z : Zone) (t : PruneTree) : Prop :=
  (outcome t = .noMatch → ∀ row ∈ z.rows, t.truth z.rank row ≠ .yes) ∧
  (outcome t = .allMatch → ∀ row ∈ z.rows, t.truth z.rank row = .yes)

theorem sound_iff_decides (z : Zone) (t : PruneTree) :
    Sound z t ↔ ∀ row ∈ z.rows, Decides (decided (outcome t)) (t.truth z.rank row) := by
  simp only [Sound, Decides, decided_no_iff, decided_yes_iff]
  exact ⟨fun h row hr => ⟨fun ho => h.1 ho row hr, fun ho => h.2 ho row hr⟩,
    fun h => ⟨fun ho row hr => (h row hr).1 ho, fun ho row hr => (h row hr).2 ho⟩⟩

/-- Pruning is sound on a truthfully described zone except when the zone has a
NULL row on which the predicate is UNKNOWN and the metadata settle the predicate
to true: a negation then turns "no row is TRUE" into "every row is TRUE". -/
theorem prune_sound_iff {z : Zone} {t : PruneTree} (h : t.Truthful z) :
    Sound z t ↔ ¬ (none ∈ z.rows ∧ t.truth z.rank none = .unknown ∧ Settles t true) := by
  rw [sound_iff_decides, ← (decided_settles t).2]
  constructor
  · rintro hd ⟨hn, hu, hy⟩
    have hyes := (hd none hn).2 hy
    rw [hu] at hyes
    cases hyes
  · intro hno row hr
    rw [(outcome_admits h hr).decides_iff]
    rintro ⟨hy, hu⟩
    cases row with
    | none => exact hno ⟨hr, hu, hy⟩
    | some cell => exact truth_cell t z.rank cell hu

def int64Scalar (v : Nat) : StatScalar := ⟨.int64, ByteCodes.leBytes 8 v, false⟩

def mixedZone : Zone := ⟨[some (.num (.int64 5)), none], fun _ => none⟩

def mixedStats : ZoneStatsEntry :=
  ⟨⟨2, 1, some (int64Scalar 5), some (int64Scalar 5), ZoneStatFlags.hasMinMax⟩, 0, 0⟩

/-- `NOT (x >= 10)` over the rows 5 and NULL. -/
def negatedComparison : PruneTree :=
  .negate (.leaf (.numcodeRange ⟨some (.int64 10), true, none, false⟩ (some mixedStats)))

theorem mixedStats_truthful : TruthfulStats mixedZone mixedStats where
  rowCount := by decide
  nullCount := by decide
  nan v hv := by
    simp only [mixedZone, mem_cons, Option.some.injEq, Cell.num.injEq, reduceCtorEq,
      not_mem_nil, or_false] at hv
    subst hv
    decide
  bounds _ _ cell hc := by
    simp only [mixedZone, mem_cons, Option.some.injEq, reduceCtorEq, not_mem_nil,
      or_false] at hc
    subst hc
    have h5 : (some (int64Scalar 5)).bind StatScalar.numericValue = some (.int64 5) := by decide
    refine ⟨_, rfl, fun _ => ⟨fun lo hlo => ?_, fun hi hhi => ?_⟩⟩
    · obtain rfl := Option.some.inj (h5.symm.trans hlo)
      exact ⟨by decide, le_refl _⟩
    · obtain rfl := Option.some.inj (h5.symm.trans hhi)
      exact ⟨by decide, le_refl _⟩
  ranks h := absurd h (by decide)

theorem negatedComparison_truthful : negatedComparison.Truthful mixedZone := by
  intro e he
  cases he
  exact mixedStats_truthful

/-- `NOT (x >= 10) AND x IS NOT NULL`, which no metadata settle. -/
theorem prune_sound_iff_guarded :
    Sound mixedZone (.and negatedComparison (.leaf (.isNotNull (some mixedStats)))) := by
  have htruthful : (PruneTree.and negatedComparison (.leaf (.isNotNull (some mixedStats)))).Truthful
      mixedZone := by
    refine And.intro negatedComparison_truthful fun e he => ?_
    cases he
    exact mixedStats_truthful
  refine (prune_sound_iff htruthful).mpr ?_
  rintro ⟨-, hunknown, -⟩
  revert hunknown
  decide

theorem negated_comparison_unsound :
    negatedComparison.Truthful mixedZone ∧ outcome negatedComparison = .allMatch ∧
      none ∈ mixedZone.rows ∧ negatedComparison.truth mixedZone.rank none = .unknown ∧
      ¬ Sound mixedZone negatedComparison := by
  have ho : outcome negatedComparison = .allMatch := by decide
  have hn : none ∈ mixedZone.rows := by decide
  have hu : negatedComparison.truth mixedZone.rank none = .unknown := by decide
  refine ⟨negatedComparison_truthful, ho, hn, hu, fun hs => ?_⟩
  have hy := hs.2 ho none hn
  rw [hu] at hy
  cases hy

end CoveFormat.PruneTrees
