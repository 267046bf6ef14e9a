import CoveFormat.Kleene
import CoveFormat.Pruning

namespace CoveFormat.PruningSoundness

open FileCodeIndexes ZoneStatistics Pruning Kleene List Option

inductive Cell
  | num (v : NumericStatValue)
  | code (c : UInt32)
  deriving DecidableEq

/-- A finite zone of one nullable column; `none` is NULL. `rank` is the logical
order of the column's FileCodes. -/
structure Zone where
  rows : List (Option Cell)
  rank : UInt32 → Option UInt32

inductive Leaf
  | isNull (zoneStats : Option ZoneStatsEntry)
  | isNotNull (zoneStats : Option ZoneStatsEntry)
  | fileCodeEquality (fileCode : UInt32) (zoneStats : Option ZoneStatsEntry)
      (domain : Option ColumnDomain) (exactSet : Option ExactSetIndex)
  | rankRange (minRank maxRank : UInt32) (zoneStats : Option ZoneStatsEntry)
      (domain : Option ColumnDomain)
  | numcodeRange (r : NumCodeRange) (zoneStats : Option ZoneStatsEntry)

def Leaf.explain : Leaf → PruningExplanation
  | .isNull zs => explainIsNull zs
  | .isNotNull zs => explainIsNotNull zs
  | .fileCodeEquality c zs d es => explainFileCodeEquality c zs d es
  | .rankRange lo hi zs d => explainResolvedDomainRankRange lo hi zs d
  | .numcodeRange r zs => explainNumcodeRange r zs

def numInRange (r : NumCodeRange) (v : NumericStatValue) : Bool :=
  r.lowerBound.all (fun lower => compareNumeric v lower = some .gt ||
    (r.lowerInclusive && compareNumeric v lower = some .eq)) &&
  r.upperBound.all (fun upper => compareNumeric v upper = some .lt ||
    (r.upperInclusive && compareNumeric v upper = some .eq))

def Leaf.truth (rank : UInt32 → Option UInt32) : Leaf → Option Cell → Truth
  | .isNull _, row => .ofBool row.isNone
  | .isNotNull _, row => .ofBool row.isSome
  | _, none => .unknown
  | .fileCodeEquality c _ _ _, some cell => .ofBool (cell == .code c)
  | .rankRange lo hi _ _, some (.code c) => .ofBool ((rank c).any (fun r => lo ≤ r && r ≤ hi))
  | .rankRange _ _ _ _, some (.num _) => .no
  | .numcodeRange r _, some (.num v) => .ofBool (numInRange r v)
  | .numcodeRange _ _, some (.code _) => .no

/-- A zone-stats entry that describes the zone truthfully. -/
structure TruthfulStats (z : Zone) (e : ZoneStatsEntry) : Prop where
  rowCount : e.stats.rowCount = z.rows.length
  nullCount : e.stats.nullCount = z.rows.count none
  nan : ∀ v, some (.num v) ∈ z.rows → v.isNan → e.stats.flags.contains ZoneStatFlags.hasNan
  bounds : e.stats.flags.contains ZoneStatFlags.hasMinMax →
    ¬ e.stats.flags.contains ZoneStatFlags.minmaxTruncated → ∀ cell, some cell ∈ z.rows →
      ∃ v, cell = .num v ∧ (v.isNan = false →
        (∀ lo, e.stats.min.bind StatScalar.numericValue = some lo → Comparable lo v ∧ lo.key ≤ v.key) ∧
        (∀ hi, e.stats.max.bind StatScalar.numericValue = some hi → Comparable v hi ∧ v.key ≤ hi.key))
  ranks : hasDomainRange e → ∀ cell, some cell ∈ z.rows →
    ∃ c r, cell = .code c ∧ z.rank c = some r ∧ e.minDomainRank ≤ r ∧ r ≤ e.maxDomainRank

def TruthfulDomain (z : Zone) (d : ColumnDomain) : Prop :=
  d.isSafe → ∀ c, some (.code c) ∈ z.rows → ∃ r, z.rank c = some r ∧ d.rankOf c = some r

def TruthfulExactSet (z : Zone) (s : ExactSetIndex) : Prop :=
  s.keyKind = .fileCode →
    s.keys.Pairwise (· < ·) ∧ ∀ c, some (.code c) ∈ z.rows → c.toNat ∈ s.keys

def Leaf.Truthful (z : Zone) : Leaf → Prop
  | .isNull zs | .isNotNull zs => ∀ e ∈ zs, TruthfulStats z e
  | .fileCodeEquality _ zs d es => (∀ e ∈ zs, TruthfulStats z e) ∧
      (∀ e ∈ d, TruthfulDomain z e) ∧ ∀ s ∈ es, TruthfulExactSet z s
  | .rankRange _ _ zs d => (∀ e ∈ zs, TruthfulStats z e) ∧ ∀ e ∈ d, TruthfulDomain z e
  | .numcodeRange _ zs => ∀ e ∈ zs, TruthfulStats z e

@[simp] theorem singleStep_finalOutcome (ev : PruningEvidence) (o : PredicateZoneOutcome)
    (sec : String) (note : List NotePiece) : (singleStep ev o sec note).finalOutcome = o := rfl

def domainExcludes (c : UInt32) (zs : Option ZoneStatsEntry) (d : Option ColumnDomain) : Prop :=
  ∃ safe ∈ usableDomain d, safe.rankOf c = none ∨
    ∃ r, safe.rankOf c = some r ∧ zs.any (fun zone => outsideDomainRange zone r)

def domainConfirms (c : UInt32) (zs : Option ZoneStatsEntry) (d : Option ColumnDomain) : Prop :=
  ∃ safe ∈ usableDomain d, ∃ r, safe.rankOf c = some r ∧ zs.any (fun zone => constantAtRank zone r)

def boundsExclude (r : NumCodeRange) (zs : Option ZoneStatsEntry)
    (test : NumericStatValue → NumericStatValue → Bool) : Prop :=
  ∃ zone ∈ zs, zone.stats.flags.contains ZoneStatFlags.hasMinMax ∧
    ¬ zone.stats.flags.contains ZoneStatFlags.hasNan ∧
    ¬ zone.stats.flags.contains ZoneStatFlags.minmaxTruncated ∧
    ∃ min max, zone.stats.min.bind StatScalar.numericValue = some min ∧
      zone.stats.max.bind StatScalar.numericValue = some max ∧
      numericBoundsShareKind r.lowerBound min ∧ numericBoundsShareKind r.upperBound min ∧
      numericKindsMatch min max ∧ test min max

/-- The metadata of the leaf rule out every row, NULL rows counted as false. -/
def Leaf.Rejects : Leaf → Prop
  | .isNull zs => zs.any (fun zone => zone.stats.nullCount == 0)
  | .isNotNull zs => zs.any zoneIsNullOnly
  | .fileCodeEquality c zs d es => zs.any zoneIsNullOnly ∨ domainExcludes c zs d ∨
      (¬ domainConfirms c zs d ∧ exactSetMembership es c = some false)
  | .rankRange lo hi zs d => hi < lo ∨ zs.any zoneIsNullOnly ∨
      (usableDomain d).isSome ∧ zs.any (fun zone => hasDomainRange zone && rangeDisjoint lo hi zone)
  | .numcodeRange r zs => zs.any zoneIsNullOnly ∨ boundsExclude r zs (predicateDisjointFromZone r)

/-- The metadata of the leaf accept every row. -/
def Leaf.Accepts : Leaf → Prop
  | .isNull zs => zs.any (fun zone => zone.stats.nullCount != 0 && zoneIsNullOnly zone)
  | .isNotNull zs => zs.any (fun zone => zone.stats.nullCount == 0 && !zoneIsNullOnly zone)
  | .fileCodeEquality c zs d _ => ¬ zs.any zoneIsNullOnly ∧ domainConfirms c zs d
  | .rankRange lo hi zs d => ¬ hi < lo ∧ (usableDomain d).isSome ∧
      zs.any (fun zone => !zoneIsNullOnly zone && hasDomainRange zone && !rangeDisjoint lo hi zone &&
        rangeContained lo hi zone && zone.stats.nullCount == 0)
  | .numcodeRange r zs => zs.any (fun zone => !zoneIsNullOnly zone && zone.stats.nullCount == 0) ∧
      boundsExclude r zs (fun min max =>
        !predicateDisjointFromZone r min max && zoneFullyWithinPredicate r min max)

theorem explainIsNull_outcome (zs : Option ZoneStatsEntry) :
    ((explainIsNull zs).finalOutcome = .noMatch ↔ (Leaf.isNull zs).Rejects) ∧
    ((explainIsNull zs).finalOutcome = .allMatch ↔ (Leaf.isNull zs).Accepts) := by
  cases zs with
  | none => simp [explainIsNull, Leaf.Rejects, Leaf.Accepts]
  | some zone =>
    simp only [explainIsNull, Leaf.Rejects, Leaf.Accepts, any_some, zoneIsNullOnly]
    split <;> [skip; split] <;> simp_all
    split <;> simp

theorem explainIsNotNull_outcome (zs : Option ZoneStatsEntry) :
    ((explainIsNotNull zs).finalOutcome = .noMatch ↔ (Leaf.isNotNull zs).Rejects) ∧
    ((explainIsNotNull zs).finalOutcome = .allMatch ↔ (Leaf.isNotNull zs).Accepts) := by
  cases zs with
  | none => simp [explainIsNotNull, Leaf.Rejects, Leaf.Accepts]
  | some zone =>
    simp only [explainIsNotNull, Leaf.Rejects, Leaf.Accepts, any_some, zoneIsNullOnly]
    split <;> [skip; split] <;> simp_all

@[simp] theorem fileCodeEqualityFallback_outcome (zs : Option ZoneStatsEntry)
    (d : Option ColumnDomain) (es : Option ExactSetIndex) :
    (fileCodeEqualityFallback zs d es).finalOutcome = .unknown := by
  rw [fileCodeEqualityFallback]
  split <;> rfl

theorem explainFileCodeEqualityRest_outcome (c : UInt32) (zs : Option ZoneStatsEntry)
    (d : Option ColumnDomain) (es : Option ExactSetIndex) :
    ((explainFileCodeEqualityRest c zs d es).finalOutcome = .noMatch ↔
      exactSetMembership es c = some false) ∧
    (explainFileCodeEqualityRest c zs d es).finalOutcome ≠ .allMatch := by
  unfold explainFileCodeEqualityRest
  cases hm : exactSetMembership es c with
  | some b => cases b <;> simp
  | none =>
    cases zs with
    | none => simp
    | some zone =>
      cases usableDomain d with
      | none => simp
      | some safe =>
        cases hr : hasDomainRange zone <;> cases hk : safe.rankOf c <;> simp [hr, hk]

theorem constantAtRank_not_outside {zone : ZoneStatsEntry} {r : UInt32}
    (h : constantAtRank zone r) : outsideDomainRange zone r = false := by
  simp only [constantAtRank, Bool.and_eq_true, beq_iff_eq] at h
  obtain ⟨⟨⟨-, hlo⟩, hhi⟩, -⟩ := h
  simp [outsideDomainRange, hlo, hhi, UInt32.lt_irrefl]

theorem explainFileCodeEquality_outcome (c : UInt32) (zs : Option ZoneStatsEntry)
    (d : Option ColumnDomain) (es : Option ExactSetIndex) :
    ((explainFileCodeEquality c zs d es).finalOutcome = .noMatch ↔
      (Leaf.fileCodeEquality c zs d es).Rejects) ∧
    ((explainFileCodeEquality c zs d es).finalOutcome = .allMatch ↔
      (Leaf.fileCodeEquality c zs d es).Accepts) := by
  obtain ⟨hn, ha⟩ := explainFileCodeEqualityRest_outcome c zs d es
  simp only [explainFileCodeEquality, Leaf.Rejects, Leaf.Accepts, domainExcludes, domainConfirms]
  by_cases h0 : zs.any zoneIsNullOnly
  · simp [h0]
  · cases hd : usableDomain d with
    | none => simp [h0, hn, ha]
    | some safe =>
      cases hr : safe.rankOf c with
      | none => simp [h0, hr]
      | some rank =>
        cases zs with
        | none => simp [hr, hn, ha]
        | some zone =>
          by_cases ho : outsideDomainRange zone rank
          · have hc : constantAtRank zone rank = false := by
              by_contra hc
              rw [constantAtRank_not_outside (by simpa using hc)] at ho
              cases ho
            simp_all
          · by_cases hc : constantAtRank zone rank <;> simp_all

theorem explainResolvedDomainRankRange_outcome (lo hi : UInt32) (zs : Option ZoneStatsEntry)
    (d : Option ColumnDomain) :
    ((explainResolvedDomainRankRange lo hi zs d).finalOutcome = .noMatch ↔
      (Leaf.rankRange lo hi zs d).Rejects) ∧
    ((explainResolvedDomainRankRange lo hi zs d).finalOutcome = .allMatch ↔
      (Leaf.rankRange lo hi zs d).Accepts) := by
  unfold explainResolvedDomainRankRange Leaf.Rejects Leaf.Accepts
  by_cases h0 : hi < lo
  · simp [h0]
  · rw [if_neg h0]
    simp only [h0, false_or, not_false_eq_true, true_and]
    cases zs with
    | none => simp
    | some zone =>
      dsimp only [any_some]
      cases zoneIsNullOnly zone with
      | true => simp
      | false =>
        cases usableDomain d with
        | none => simp
        | some safe =>
          cases hasDomainRange zone <;> cases rangeDisjoint lo hi zone <;>
            cases rangeContained lo hi zone <;> cases zone.stats.nullCount == 0 <;> simp

theorem explainNumcodeRange_outcome (r : NumCodeRange) (zs : Option ZoneStatsEntry) :
    ((explainNumcodeRange r zs).finalOutcome = .noMatch ↔ (Leaf.numcodeRange r zs).Rejects) ∧
    ((explainNumcodeRange r zs).finalOutcome = .allMatch ↔ (Leaf.numcodeRange r zs).Accepts) := by
  unfold explainNumcodeRange Leaf.Rejects Leaf.Accepts boundsExclude
  cases zs with
  | none => simp
  | some zone =>
    simp only [any_some, Option.mem_def, some.injEq, exists_eq_left']
    cases zoneIsNullOnly zone with
    | true => simp
    | false =>
      cases zone.stats.flags.contains ZoneStatFlags.hasMinMax <;>
        cases zone.stats.flags.contains ZoneStatFlags.hasNan <;>
        cases zone.stats.flags.contains ZoneStatFlags.minmaxTruncated <;>
        simp [numericFallback]
      cases zone.stats.min.bind StatScalar.numericValue with
      | none => simp
      | some min =>
        cases zone.stats.max.bind StatScalar.numericValue with
        | none => simp
        | some max =>
          cases hl : numericBoundsShareKind r.lowerBound min <;>
            cases hu : numericBoundsShareKind r.upperBound min <;>
            cases hk : numericKindsMatch min max <;> simp [hl, hu, hk]
          cases hd : predicateDisjointFromZone r min max <;>
            cases hw : zoneFullyWithinPredicate r min max <;>
            by_cases h0 : zone.stats.nullCount = 0 <;> simp_all

section

variable (a b : NumericStatValue)

theorem isStrictlyBelow_iff (incl : Bool) : isStrictlyBelow a b incl ↔
      Comparable a b ∧ (a.key < b.key ∨ (incl = false ∧ a.key = b.key)) := by
  rw [isStrictlyBelow, compareNumeric_eq]
  by_cases hc : Comparable a b
  · rcases lt_trichotomy a.key b.key with h | h | h
    · simp [hc, h, compare_lt_iff_lt.mpr h]
    · simp [hc, h]
    · simp [hc, compare_gt_iff_gt.mpr h, h.ne', not_lt.mpr h.le]
  · simp [hc]

theorem isStrictlyAbove_iff (incl : Bool) : isStrictlyAbove a b incl ↔
      Comparable a b ∧ (b.key < a.key ∨ (incl = false ∧ a.key = b.key)) := by
  rw [isStrictlyAbove, compareNumeric_eq]
  by_cases hc : Comparable a b
  · rcases lt_trichotomy a.key b.key with h | h | h
    · simp [hc, compare_lt_iff_lt.mpr h, h.ne, not_lt.mpr h.le]
    · simp [hc, h]
    · simp [hc, h, compare_gt_iff_gt.mpr h]
  · simp [hc]

theorem rangeSatisfiesLower_iff (incl : Bool) :
    rangeSatisfiesLower a b incl ↔
      Comparable a b ∧ (b.key < a.key ∨ (incl = true ∧ a.key = b.key)) := by
  simpa [rangeSatisfiesLower, isStrictlyAbove] using isStrictlyAbove_iff a b (!incl)

theorem rangeSatisfiesUpper_iff (incl : Bool) :
    rangeSatisfiesUpper a b incl ↔
      Comparable a b ∧ (a.key < b.key ∨ (incl = true ∧ a.key = b.key)) := by
  simpa [rangeSatisfiesUpper, isStrictlyBelow] using isStrictlyBelow_iff a b (!incl)

end

theorem numInRange_iff (r : NumCodeRange) (v : NumericStatValue) : numInRange r v ↔
      (∀ lower ∈ r.lowerBound, rangeSatisfiesLower v lower r.lowerInclusive) ∧
      ∀ upper ∈ r.upperBound, rangeSatisfiesUpper v upper r.upperInclusive := by
  have hl (lower : NumericStatValue) : (compareNumeric v lower = some .gt ||
      (r.lowerInclusive && compareNumeric v lower = some .eq)) =
      rangeSatisfiesLower v lower r.lowerInclusive := by
    rw [rangeSatisfiesLower]
    cases compareNumeric v lower with
    | none => simp
    | some o => cases o <;> simp
  have hu (upper : NumericStatValue) : (compareNumeric v upper = some .lt ||
      (r.upperInclusive && compareNumeric v upper = some .eq)) =
      rangeSatisfiesUpper v upper r.upperInclusive := by
    rw [rangeSatisfiesUpper]
    cases compareNumeric v upper with
    | none => simp
    | some o => cases o <;> simp
  simp only [numInRange, hl, hu, Bool.and_eq_true, Option.all_eq_true, Option.mem_def]

def Within (min max v : NumericStatValue) : Prop :=
  (Comparable min v ∧ min.key ≤ v.key) ∧ Comparable v max ∧ v.key ≤ max.key

variable {r : NumCodeRange} {min max v : NumericStatValue}

theorem predicateDisjointFromZone_sound (hw : Within min max v)
    (h : predicateDisjointFromZone r min max) : numInRange r v = false := by
  obtain ⟨⟨hmin, hlo⟩, hmax, hhi⟩ := hw
  rw [← Bool.not_eq_true, numInRange_iff]
  rintro ⟨hl, hu⟩
  rw [predicateDisjointFromZone] at h
  split at h
  · rename_i hany
    obtain ⟨upper, hupper, hb⟩ := (any_eq_true _ _).mp hany
    have hs := (rangeSatisfiesUpper_iff _ _ _).mp (hu upper hupper)
    have hb' := (isStrictlyBelow_iff _ _ _).mp hb
    cases hi : r.upperInclusive <;> simp [hi] at hs hb' <;> omega
  · cases hlb : r.lowerBound with
    | none => simp [hlb] at h
    | some lower =>
      rw [hlb] at h
      have hs := (rangeSatisfiesLower_iff _ _ _).mp (hl lower hlb)
      have hb' := (isStrictlyAbove_iff _ _ _).mp h
      cases hi : r.lowerInclusive <;> simp [hi] at hs hb' <;> omega

theorem zoneFullyWithinPredicate_sound (hw : Within min max v)
    (h : zoneFullyWithinPredicate r min max) : numInRange r v := by
  obtain ⟨⟨hmin, hlo⟩, hmax, hhi⟩ := hw
  simp only [zoneFullyWithinPredicate, Bool.and_eq_true] at h
  rw [numInRange_iff]
  refine ⟨fun lower hlb => ?_, fun upper hub => ?_⟩
  · rw [Option.mem_def] at hlb
    rw [hlb] at h
    obtain ⟨hc, hk⟩ := (rangeSatisfiesLower_iff _ _ _).mp h.1
    refine (rangeSatisfiesLower_iff _ _ _).mpr ⟨hmin.symm.trans hc, ?_⟩
    rcases hk with hk | ⟨hi, hk⟩
    · exact Or.inl (by omega)
    · simp only [hi, true_and]
      omega
  · rw [Option.mem_def] at hub
    rw [hub] at h
    obtain ⟨hc, hk⟩ := (rangeSatisfiesUpper_iff _ _ _).mp h.2
    refine (rangeSatisfiesUpper_iff _ _ _).mpr ⟨hmax.trans hc, ?_⟩
    rcases hk with hk | ⟨hi, hk⟩
    · exact Or.inl (by omega)
    · simp only [hi, true_and]
      omega

variable {z : Zone} {e : ZoneStatsEntry} {cell : Cell}

theorem TruthfulStats.not_nullOnly (h : TruthfulStats z e) (hc : some cell ∈ z.rows) :
    zoneIsNullOnly e = false := by
  rw [zoneIsNullOnly, beq_eq_false_iff_ne, h.nullCount, h.rowCount, ne_eq, count_eq_length]
  intro hall
  cases hall _ hc

theorem TruthfulStats.nullCount_ne (h : TruthfulStats z e) (hn : none ∈ z.rows) : e.stats.nullCount ≠ 0 := by
  rw [h.nullCount]
  exact (count_pos_iff.mpr hn).ne'

variable {zs : Option ZoneStatsEntry}

theorem not_any_nullOnly (h : ∀ e ∈ zs, TruthfulStats z e) (hc : some cell ∈ z.rows) :
    ¬ zs.any zoneIsNullOnly := by
  intro ha
  obtain ⟨e, he, hn⟩ := (any_eq_true _ _).mp ha
  rw [(h e he).not_nullOnly hc] at hn
  cases hn

/-- The metadata of a leaf admit the SQL value of the leaf on a row. -/
def Leaf.AdmitsRow (z : Zone) (l : Leaf) (row : Option Cell) : Prop :=
  (l.Rejects → l.truth z.rank row ≠ .yes) ∧ (l.Accepts → l.truth z.rank row ≠ .no)

variable {row : Option Cell}

theorem isNull_admits (h : (Leaf.isNull zs).Truthful z) (hr : row ∈ z.rows) :
    (Leaf.isNull zs).AdmitsRow z row := by
  refine ⟨fun hj => ?_, fun ha => ?_⟩
  · obtain ⟨e, he, hn⟩ := (any_eq_true _ _).mp hj
    cases row with
    | none => exact absurd (by simpa using hn) ((h e he).nullCount_ne hr)
    | some cell => simp [Leaf.truth, Truth.ofBool]
  · obtain ⟨e, he, hn⟩ := (any_eq_true _ _).mp ha
    cases row with
    | none => simp [Leaf.truth, Truth.ofBool]
    | some cell => simp [(h e he).not_nullOnly hr] at hn

theorem isNotNull_admits (h : (Leaf.isNotNull zs).Truthful z) (hr : row ∈ z.rows) :
    (Leaf.isNotNull zs).AdmitsRow z row := by
  refine ⟨fun hj => ?_, fun ha => ?_⟩
  · cases row with
    | none => simp [Leaf.truth, Truth.ofBool]
    | some cell => exact absurd hj (not_any_nullOnly h hr)
  · obtain ⟨e, he, hn⟩ := (any_eq_true _ _).mp ha
    cases row with
    | none =>
      have hne := (h e he).nullCount_ne hr
      simp [hne] at hn
    | some cell => simp [Leaf.truth, Truth.ofBool]

variable {d : Option ColumnDomain}

theorem usableDomain_eq_some {safe : ColumnDomain} (h : safe ∈ usableDomain d) : safe ∈ d ∧ safe.isSafe := by
  simpa [usableDomain, filter_eq_some_iff] using h

variable {c : UInt32}

section

variable (hzs : ∀ e ∈ zs, TruthfulStats z e)
include hzs

theorem domainExcludes_sound (hd : ∀ e ∈ d, TruthfulDomain z e) (h : domainExcludes c zs d) :
    some (.code c) ∉ z.rows := by
  intro hc
  obtain ⟨safe, hsafe, hx⟩ := h
  obtain ⟨hm, hs⟩ := usableDomain_eq_some hsafe
  obtain ⟨r, hzr, hr⟩ := hd safe hm hs c hc
  rcases hx with hx | ⟨r', hr', hany⟩
  · rw [hr] at hx
    cases hx
  · rw [hr] at hr'
    obtain rfl := some.inj hr'
    obtain ⟨e, he, ho⟩ := (any_eq_true _ _).mp hany
    simp only [outsideDomainRange, Bool.and_eq_true, Bool.or_eq_true, decide_eq_true_eq] at ho
    obtain ⟨c', r'', hcell, hzr', hlo, hhi⟩ := (hzs e he).ranks ho.1 _ hc
    obtain rfl := Cell.code.inj hcell
    rw [hzr] at hzr'
    obtain rfl := some.inj hzr'
    rcases ho.2 with hlt | hlt
    · exact absurd hlo (UInt32.not_le.mpr hlt)
    · exact absurd hhi (UInt32.not_le.mpr hlt)

theorem domainConfirms_sound (hd : ∀ e ∈ d, TruthfulDomain z e) (h : domainConfirms c zs d)
    (hc : some cell ∈ z.rows) : cell = .code c := by
  obtain ⟨safe, hsafe, r, hr, hany⟩ := h
  obtain ⟨hm, hs⟩ := usableDomain_eq_some hsafe
  obtain ⟨e, he, ho⟩ := (any_eq_true _ _).mp hany
  simp only [constantAtRank, Bool.and_eq_true, beq_iff_eq] at ho
  obtain ⟨⟨⟨⟨hdr, -⟩, hmin⟩, hmax⟩, -⟩ := ho
  obtain ⟨c', r', rfl, hzr, hlo, hhi⟩ := (hzs e he).ranks hdr _ hc
  obtain ⟨r'', hzr', hr'⟩ := hd safe hm hs c' hc
  rw [hzr] at hzr'
  obtain rfl := some.inj hzr'
  rw [hmin] at hlo
  rw [hmax] at hhi
  obtain rfl := UInt32.le_antisymm hlo hhi
  rw [rankOf_inj hs hr' hr]

end

variable {es : Option ExactSetIndex}

theorem exactSetMembership_sound (hes : ∀ s ∈ es, TruthfulExactSet z s)
    (h : exactSetMembership es c = some false) : some (.code c) ∉ z.rows := by
  intro hc
  cases es with
  | none => cases h
  | some s =>
    simp only [exactSetMembership] at h
    split at h
    · cases h
    · rename_i hk
      obtain ⟨hs, hmem⟩ := hes s rfl (not_not.mp hk)
      have ht := (contains_iff hs c.toNat).mpr (hmem c hc)
      rw [ht] at h
      cases h

theorem fileCodeEquality_admits (h : (Leaf.fileCodeEquality c zs d es).Truthful z)
    (hr : row ∈ z.rows) : (Leaf.fileCodeEquality c zs d es).AdmitsRow z row := by
  obtain ⟨hzs, hd, hes⟩ := h
  cases row with
  | none => exact ⟨by simp [Leaf.truth], by simp [Leaf.truth]⟩
  | some cell =>
    simp only [Leaf.AdmitsRow, Leaf.truth, ne_eq, ofBool_yes, ofBool_no, beq_iff_eq]
    refine ⟨?_, fun ha => ?_⟩
    · rintro hj rfl
      rcases hj with hn | hx | ⟨-, hx⟩
      · exact not_any_nullOnly hzs hr hn
      · exact domainExcludes_sound hzs hd hx hr
      · exact exactSetMembership_sound hes hx hr
    · simpa using domainConfirms_sound hzs hd ha.2 hr

theorem rankRange_admits {lo hi : UInt32} (h : (Leaf.rankRange lo hi zs d).Truthful z)
    (hr : row ∈ z.rows) : (Leaf.rankRange lo hi zs d).AdmitsRow z row := by
  obtain ⟨hzs, -⟩ := h
  cases row with
  | none => exact ⟨by simp [Leaf.truth], by simp [Leaf.truth]⟩
  | some cell =>
    refine ⟨fun hj => ?_, fun ha => ?_⟩
    · cases cell with
      | num v => simp [Leaf.truth]
      | code c =>
        rw [Leaf.truth, ne_eq, ofBool_yes, Option.any_eq_true]
        rintro ⟨r, hzr, hb⟩
        simp only [Bool.and_eq_true, decide_eq_true_eq] at hb
        rcases hj with hx | hn | ⟨-, hx⟩
        · exact UInt32.not_le.mpr hx (UInt32.le_trans hb.1 hb.2)
        · exact not_any_nullOnly hzs hr hn
        · obtain ⟨e, he, ho⟩ := (Option.any_eq_true _ _).mp hx
          simp only [rangeDisjoint, Bool.and_eq_true, Bool.or_eq_true, decide_eq_true_eq] at ho
          obtain ⟨c', r', hcell, hzr', hmin, hmax⟩ := (hzs e he).ranks ho.1 _ hr
          obtain rfl := Cell.code.inj hcell
          rw [hzr] at hzr'
          obtain rfl := Option.some.inj hzr'
          rcases ho.2 with hlt | hlt
          · exact UInt32.not_le.mpr hlt (UInt32.le_trans hb.1 hmax)
          · exact UInt32.not_le.mpr hlt (UInt32.le_trans hmin hb.2)
    · obtain ⟨-, -, hany⟩ := ha
      obtain ⟨e, he, ho⟩ := (Option.any_eq_true _ _).mp hany
      simp only [rangeContained, Bool.and_eq_true, decide_eq_true_eq] at ho
      obtain ⟨⟨⟨⟨-, hdr⟩, -⟩, hlo, hhi⟩, -⟩ := ho
      obtain ⟨c, r, rfl, hzr, hmin, hmax⟩ := (hzs e he).ranks hdr _ hr
      rw [Leaf.truth, hzr, Option.any_some, ne_eq, ofBool_no]
      simp [UInt32.le_trans hlo hmin, UInt32.le_trans hmax hhi]

theorem boundsExclude_within {test : NumericStatValue → NumericStatValue → Bool}
    (hzs : ∀ e ∈ zs, TruthfulStats z e) (h : boundsExclude r zs test) (hc : some cell ∈ z.rows) :
    ∃ v min max, cell = .num v ∧ Within min max v ∧ test min max := by
  obtain ⟨e, he, hmm, hnan, htr, min, max, hmin, hmax, -, -, -, ht⟩ := h
  obtain ⟨v, rfl, hb⟩ := (hzs e he).bounds hmm htr _ hc
  have hv : v.isNan = false := by
    by_contra hv
    exact hnan ((hzs e he).nan v hc (by simpa using hv))
  exact ⟨v, min, max, rfl, ⟨(hb hv).1 min hmin, (hb hv).2 max hmax⟩, ht⟩

theorem numcodeRange_admits (h : (Leaf.numcodeRange r zs).Truthful z) (hr : row ∈ z.rows) :
    (Leaf.numcodeRange r zs).AdmitsRow z row := by
  cases row with
  | none => exact ⟨by simp [Leaf.truth], by simp [Leaf.truth]⟩
  | some cell =>
    refine ⟨fun hj => ?_, fun ha => ?_⟩
    · rcases hj with hn | hx
      · exact absurd hn (not_any_nullOnly h hr)
      · obtain ⟨v, min, max, rfl, hw, ht⟩ := boundsExclude_within h hx hr
        simp [Leaf.truth, predicateDisjointFromZone_sound hw ht, Truth.ofBool]
    · obtain ⟨v, min, max, rfl, hw, ht⟩ := boundsExclude_within h ha.2 hr
      simp only [Bool.and_eq_true] at ht
      simp [Leaf.truth, zoneFullyWithinPredicate_sound hw ht.2, Truth.ofBool]

theorem Leaf.admits {l : Leaf} (h : l.Truthful z) (hr : row ∈ z.rows) : l.AdmitsRow z row := by
  cases l with
  | isNull zs => exact isNull_admits h hr
  | isNotNull zs => exact isNotNull_admits h hr
  | fileCodeEquality c zs d es => exact fileCodeEquality_admits h hr
  | rankRange lo hi zs d => exact rankRange_admits h hr
  | numcodeRange r zs => exact numcodeRange_admits h hr

theorem Leaf.explain_outcome (l : Leaf) : (l.explain.finalOutcome = .noMatch ↔ l.Rejects) ∧
    (l.explain.finalOutcome = .allMatch ↔ l.Accepts) := by
  cases l with
  | isNull zs => exact explainIsNull_outcome zs
  | isNotNull zs => exact explainIsNotNull_outcome zs
  | fileCodeEquality c zs d es => exact explainFileCodeEquality_outcome c zs d es
  | rankRange lo hi zs d => exact explainResolvedDomainRankRange_outcome lo hi zs d
  | numcodeRange r zs => exact explainNumcodeRange_outcome r zs

end CoveFormat.PruningSoundness
