import CoveFormat.BinarySearch
import CoveFormat.ZoneStatistics
import Mathlib.Order.Fin.Basic

namespace CoveFormat.FileCodeIndexes

open BinarySearch Option

def invalidRank : UInt32 := 0xffffffff

structure ColumnDomain where
  (sortedFileCodes fileCodeToRank : List UInt32)
  deriving DecidableEq

namespace ColumnDomain

variable (self : ColumnDomain)

def rankOf (fileCode : UInt32) : Option UInt32 :=
  match self.fileCodeToRank[fileCode.toNat]? with
  | none => none
  | some r => if r = invalidRank then none else some r

/-- One round of the loop of `is_safe`, at position `fileCode` of the rank map. -/
def rankIsSafe (fileCode : Nat) (rank : UInt32) : Bool :=
  let n := UInt32.ofNat self.sortedFileCodes.length
  if rank = invalidRank then true
  else if n ≤ rank then false
  else self.sortedFileCodes[rank.toNat]? = some (UInt32.ofNat fileCode)

def isSafe : Bool :=
  self.fileCodeToRank.zipIdx.all (fun p => self.rankIsSafe p.2 p.1)

end ColumnDomain

theorem rankOf_eq_some_iff (d : ColumnDomain) (c r : UInt32) :
    d.rankOf c = some r ↔ d.fileCodeToRank[c.toNat]? = some r ∧ r ≠ invalidRank := by
  rw [ColumnDomain.rankOf]
  cases d.fileCodeToRank[c.toNat]? with
  | none => simp
  | some q =>
    by_cases hq : q = invalidRank
    · simp only [hq, if_true, some.injEq]
      constructor
      · intro h; cases h
      · rintro ⟨rfl, h⟩; exact absurd rfl h
    · simp only [hq, if_false, some.injEq]
      exact ⟨fun h => ⟨h, h ▸ hq⟩, fun h => h.1⟩

variable {d : ColumnDomain}

theorem rankOf_points_back (hs : d.isSafe) {c r : UInt32} (h : d.rankOf c = some r) :
    d.sortedFileCodes[r.toNat]? = some c := by
  obtain ⟨hget, hr⟩ := (rankOf_eq_some_iff d c r).mp h
  have hmem : (r, c.toNat) ∈ d.fileCodeToRank.zipIdx :=
    List.mem_zipIdx_iff_getElem?.mpr hget
  have hsafe := List.all_eq_true.mp hs _ hmem
  simp only [ColumnDomain.rankIsSafe, hr, if_false] at hsafe
  split at hsafe
  · cases hsafe
  · simpa using hsafe

theorem rankOf_inj (hs : d.isSafe) {c e r : UInt32} (hc : d.rankOf c = some r)
    (he : d.rankOf e = some r) : c = e := by
  have h := rankOf_points_back hs hc
  rw [rankOf_points_back hs he] at h
  exact (some.inj h).symm

inductive ExactSetKeyKind
  | fileCode
  | numCode
  | canonicalHash
  deriving DecidableEq

structure ExactSetIndex where
  keyKind : ExactSetKeyKind
  keys : List Nat

def ExactSetIndex.contains (self : ExactSetIndex) (key : Nat) : Bool :=
  (binarySearch self.keys key).isSome

theorem contains_iff {s : ExactSetIndex} (hs : s.keys.Pairwise (· < ·)) (key : Nat) :
    s.contains key ↔ key ∈ s.keys :=
  binarySearch_isSome_iff (hs.imp le_of_lt) key

end CoveFormat.FileCodeIndexes

namespace CoveFormat.Pruning

open FileCodeIndexes ZoneStatistics

inductive PredicateZoneOutcome
  | allMatch
  | noMatch
  | someMatch
  | unknown
  deriving DecidableEq

namespace PredicateZoneOutcome

def and : PredicateZoneOutcome → PredicateZoneOutcome → PredicateZoneOutcome
  | noMatch, _ | _, noMatch => noMatch
  | allMatch, x | x, allMatch => x
  | unknown, unknown => unknown
  | unknown, someMatch | someMatch, unknown | someMatch, someMatch => someMatch

def or : PredicateZoneOutcome → PredicateZoneOutcome → PredicateZoneOutcome
  | allMatch, _ | _, allMatch => allMatch
  | noMatch, x | x, noMatch => x
  | unknown, unknown => unknown
  | unknown, someMatch | someMatch, unknown | someMatch, someMatch => someMatch

def negate : PredicateZoneOutcome → PredicateZoneOutcome
  | allMatch => noMatch
  | noMatch => allMatch
  | someMatch => someMatch
  | unknown => unknown

end PredicateZoneOutcome

inductive PruningEvidence
  | noMetadata
  | zoneStats
  | columnDomain
  | exactSet
  | fallbackToScan
  deriving DecidableEq

/-- A note is kept as the pieces of its format string, so that the decimal
rendering of a float stays out of the model. -/
inductive NotePiece
  | text (s : String)
  | code (n : UInt32)
  | value (v : NumericStatValue)
  deriving DecidableEq

structure PruningStep where
  evidence : PruningEvidence
  outcome : PredicateZoneOutcome
  specSection : String
  note : List NotePiece
  deriving DecidableEq

structure PruningExplanation where
  steps : List PruningStep
  finalOutcome : PredicateZoneOutcome
  deriving DecidableEq

namespace PruningExplanation

def new : PruningExplanation := ⟨[], .unknown⟩

def record (self : PruningExplanation) (evidence : PruningEvidence)
    (outcome : PredicateZoneOutcome) (specSection : String) (note : List NotePiece) :
    PruningExplanation :=
  ⟨self.steps ++ [⟨evidence, outcome, specSection, note⟩],
    if self.steps.isEmpty then outcome else self.finalOutcome.and outcome⟩

def and (self other : PruningExplanation) : PruningExplanation :=
  if self.steps.isEmpty then other
  else if other.steps.isEmpty then self
  else ⟨self.steps ++ other.steps, self.finalOutcome.and other.finalOutcome⟩

def or (self other : PruningExplanation) : PruningExplanation :=
  if self.steps.isEmpty then other
  else if other.steps.isEmpty then self
  else ⟨self.steps ++ other.steps, self.finalOutcome.or other.finalOutcome⟩

def negate (self : PruningExplanation) : PruningExplanation :=
  ⟨self.steps, self.finalOutcome.negate⟩

end PruningExplanation

def singleStep (evidence : PruningEvidence) (outcome : PredicateZoneOutcome)
    (specSection : String) (note : List NotePiece) : PruningExplanation :=
  PruningExplanation.new.record evidence outcome specSection note

section

variable (zoneStats : Option ZoneStatsEntry)

def explainIsNull : PruningExplanation :=
  match zoneStats with
  | some zone =>
    if zone.stats.nullCount = 0 then
      singleStep .zoneStats .noMatch "§37.4"
        [.text "null_count = 0 proves the zone cannot satisfy IS NULL"]
    else if zone.stats.nullCount = zone.stats.rowCount then
      singleStep .zoneStats .allMatch "§37.4"
        [.text "null_count = row_count proves the entire zone satisfies IS NULL"]
    else
      singleStep .zoneStats (if 0 < zone.stats.nullCount then .someMatch else .unknown) "§37.4"
        [.text "zone mixes null and non-null rows, so row-level filtering is still required"]
  | none =>
    singleStep .noMetadata .unknown "§37.4" [.text "IS NULL proof requires zone statistics"]

def explainIsNotNull : PruningExplanation :=
  match zoneStats with
  | some zone =>
    if zone.stats.nullCount = zone.stats.rowCount then
      singleStep .zoneStats .noMatch "§37.4"
        [.text "null_count = row_count proves the zone cannot satisfy IS NOT NULL"]
    else if zone.stats.nullCount = 0 then
      singleStep .zoneStats .allMatch "§37.4"
        [.text "null_count = 0 proves the entire zone satisfies IS NOT NULL"]
    else
      singleStep .zoneStats .someMatch "§37.4"
        [.text "zone mixes null and non-null rows, so row-level filtering is still required"]
  | none =>
    singleStep .noMetadata .unknown "§37.4" [.text "IS NOT NULL proof requires zone statistics"]

end

def usableDomain (domain : Option ColumnDomain) : Option ColumnDomain :=
  domain.filter (fun domain => domain.isSafe)

def exactSetMembership (exactSet : Option ExactSetIndex) (fileCode : UInt32) : Option Bool :=
  match exactSet with
  | none => none
  | some exactSet =>
    if exactSet.keyKind ≠ .fileCode then none else some (exactSet.contains fileCode.toNat)

def zoneIsNullOnly (zone : ZoneStatsEntry) : Bool := zone.stats.nullCount == zone.stats.rowCount

def hasDomainRange (zone : ZoneStatsEntry) : Bool :=
  zone.stats.flags.contains ZoneStatFlags.hasDomainRange

def outsideDomainRange (zone : ZoneStatsEntry) (rank : UInt32) : Bool :=
  hasDomainRange zone && (rank < zone.minDomainRank || zone.maxDomainRank < rank)

def constantAtRank (zone : ZoneStatsEntry) (rank : UInt32) : Bool :=
  hasDomainRange zone && zone.stats.flags.contains ZoneStatFlags.constant &&
    zone.minDomainRank == rank && zone.maxDomainRank == rank && zone.stats.nullCount == 0

def fileCodeEqualityFallback (zoneStats : Option ZoneStatsEntry) (domain : Option ColumnDomain)
    (exactSet : Option ExactSetIndex) : PruningExplanation :=
  if zoneStats.isSome || domain.isSome || exactSet.isSome then
    singleStep .fallbackToScan .unknown "§37.1"
      [.text "available metadata cannot safely prove the FileCode equality outcome"]
  else
    singleStep .noMetadata .unknown "§37.1"
      [.text "no metadata available for FileCode equality pruning"]

/-- The exact-set test and the fallbacks below it in `explain_file_code_equality`. -/
def explainFileCodeEqualityRest (fileCode : UInt32) (zoneStats : Option ZoneStatsEntry)
    (domain : Option ColumnDomain) (exactSet : Option ExactSetIndex) : PruningExplanation :=
  match exactSetMembership exactSet fileCode with
  | some true =>
    singleStep .exactSet .someMatch "§37.1"
      [.text "exact-set contains FileCode ", .code fileCode, .text ", so surviving rows may match"]
  | some false =>
    singleStep .exactSet .noMatch "§37.1"
      [.text "exact-set excludes FileCode ", .code fileCode, .text ", so the zone can be skipped"]
  | none =>
    match zoneStats, usableDomain domain with
    | some zone, some safe =>
      if hasDomainRange zone then
        match safe.rankOf fileCode with
        | some rank =>
          singleStep .columnDomain .someMatch "§37.1"
            [.text "FileCode ", .code fileCode, .text " rank ", .code rank,
              .text " overlaps the zone domain interval ", .code zone.minDomainRank,
              .text "..=", .code zone.maxDomainRank, .text ", so decode is still required"]
        | none => fileCodeEqualityFallback zoneStats domain exactSet
      else fileCodeEqualityFallback zoneStats domain exactSet
    | _, _ => fileCodeEqualityFallback zoneStats domain exactSet

def explainFileCodeEquality (fileCode : UInt32) (zoneStats : Option ZoneStatsEntry)
    (domain : Option ColumnDomain) (exactSet : Option ExactSetIndex) : PruningExplanation :=
  if zoneStats.any zoneIsNullOnly then
    singleStep .zoneStats .noMatch "§37.1"
      [.text "zone is null-only, so a non-null FileCode equality cannot match"]
  else
    match usableDomain domain with
    | none => explainFileCodeEqualityRest fileCode zoneStats domain exactSet
    | some safe =>
      match safe.rankOf fileCode with
      | none =>
        singleStep .columnDomain .noMatch "§37.1"
          [.text "FileCode ", .code fileCode, .text " is absent from the safe ColumnDomain"]
      | some rank =>
        match zoneStats with
        | none => explainFileCodeEqualityRest fileCode zoneStats domain exactSet
        | some zone =>
          if outsideDomainRange zone rank then
            singleStep .columnDomain .noMatch "§37.1"
              [.text "FileCode ", .code fileCode, .text " rank ", .code rank,
                .text " falls outside the zone domain interval ", .code zone.minDomainRank,
                .text "..=", .code zone.maxDomainRank]
          else if constantAtRank zone rank then
            singleStep .columnDomain .allMatch "§37.1"
              [.text "safe ColumnDomain plus constant zone stats prove every row equals FileCode ",
                .code fileCode]
          else explainFileCodeEqualityRest fileCode zoneStats domain exactSet

section

variable (minRank maxRank : UInt32)

def rangeDisjoint (zone : ZoneStatsEntry) : Bool :=
  zone.maxDomainRank < minRank || maxRank < zone.minDomainRank

def rangeContained (zone : ZoneStatsEntry) : Bool :=
  minRank ≤ zone.minDomainRank && zone.maxDomainRank ≤ maxRank

def explainResolvedDomainRankRange (zoneStats : Option ZoneStatsEntry)
    (domain : Option ColumnDomain) : PruningExplanation :=
  if maxRank < minRank then
    singleStep .columnDomain .noMatch "§37.2"
      [.text "resolved domain-rank interval ", .code minRank, .text "..=", .code maxRank,
        .text " is empty"]
  else
    match zoneStats with
    | none =>
      singleStep .noMetadata .unknown "§37.2"
        [.text "range pruning requires zone statistics for the target zone"]
    | some zone =>
      if zoneIsNullOnly zone then
        singleStep .zoneStats .noMatch "§37.2"
          [.text "zone is null-only, so a non-null FileCode range cannot match"]
      else if (usableDomain domain).isNone then
        singleStep .fallbackToScan .unknown "§37.2"
          [.text "range pruning requires a safe ColumnDomain"]
      else if !hasDomainRange zone then
        singleStep .fallbackToScan .unknown "§37.2"
          [.text "zone statistics do not carry domain-rank bounds"]
      else if rangeDisjoint minRank maxRank zone then
        singleStep .columnDomain .noMatch "§37.2"
          [.text "zone domain interval ", .code zone.minDomainRank, .text "..=",
            .code zone.maxDomainRank, .text " is disjoint from resolved predicate interval ",
            .code minRank, .text "..=", .code maxRank]
      else if rangeContained minRank maxRank zone && zone.stats.nullCount == 0 then
        singleStep .columnDomain .allMatch "§37.2"
          [.text "zone domain interval ", .code zone.minDomainRank, .text "..=",
            .code zone.maxDomainRank,
            .text " is fully contained in resolved predicate interval ",
            .code minRank, .text "..=", .code maxRank]
      else
        singleStep .columnDomain .someMatch "§37.2"
          [.text "zone domain interval ", .code zone.minDomainRank, .text "..=",
            .code zone.maxDomainRank, .text " overlaps resolved predicate interval ",
            .code minRank, .text "..=", .code maxRank]

end

def numericKindsMatch (left right : NumericStatValue) : Bool := left.kind == right.kind

def numericBoundsShareKind (bound : Option NumericStatValue) (base : NumericStatValue) : Bool :=
  match bound with
  | some bound => numericKindsMatch bound base
  | none => true

def rangeSatisfiesLower (zoneMin predicateLower : NumericStatValue) (inclusive : Bool) : Bool :=
  match compareNumeric zoneMin predicateLower with
  | some ordering => ordering.isGT || (inclusive && ordering.isEq)
  | none => false

def rangeSatisfiesUpper (zoneMax predicateUpper : NumericStatValue) (inclusive : Bool) : Bool :=
  match compareNumeric zoneMax predicateUpper with
  | some ordering => ordering.isLT || (inclusive && ordering.isEq)
  | none => false

def isStrictlyBelow (predicateUpper zoneMin : NumericStatValue) (upperInclusive : Bool) : Bool :=
  match compareNumeric predicateUpper zoneMin with
  | some ordering => ordering.isLT || (!upperInclusive && ordering.isEq)
  | none => false

def isStrictlyAbove (predicateLower zoneMax : NumericStatValue) (lowerInclusive : Bool) : Bool :=
  match compareNumeric predicateLower zoneMax with
  | some ordering => ordering.isGT || (!lowerInclusive && ordering.isEq)
  | none => false

structure NumCodeRange where
  lowerBound : Option NumericStatValue
  lowerInclusive : Bool
  upperBound : Option NumericStatValue
  upperInclusive : Bool

section

variable (r : NumCodeRange)

def predicateDisjointFromZone (zoneMin zoneMax : NumericStatValue) : Bool :=
  if r.upperBound.any (fun upper => isStrictlyBelow upper zoneMin r.upperInclusive) then true
  else
    match r.lowerBound with
    | some lower => isStrictlyAbove lower zoneMax r.lowerInclusive
    | none => false

def zoneFullyWithinPredicate (zoneMin zoneMax : NumericStatValue) : Bool :=
  let lowerOk :=
    match r.lowerBound with
    | some lower => rangeSatisfiesLower zoneMin lower r.lowerInclusive
    | none => true
  let upperOk :=
    match r.upperBound with
    | some upper => rangeSatisfiesUpper zoneMax upper r.upperInclusive
    | none => true
  lowerOk && upperOk

def numericRangeNote : List NotePiece :=
  [.text (if r.lowerInclusive then "[" else "("),
    match r.lowerBound with
    | some lower => .value lower
    | none => .text "-inf",
    .text ", ",
    match r.upperBound with
    | some upper => .value upper
    | none => .text "+inf",
    .text (if r.upperInclusive then "]" else ")")]

end

def boundsNote (min max : NumericStatValue) (relation : String) (r : NumCodeRange) :
    List NotePiece :=
  [.text "typed NumCode min/max ", .value min, .text "..=", .value max, .text relation] ++
    numericRangeNote r

def numericFallback (note : String) : PruningExplanation :=
  singleStep .fallbackToScan .unknown "§37.3" [.text note]

def explainNumcodeRange (r : NumCodeRange) (zoneStats : Option ZoneStatsEntry) :
    PruningExplanation :=
  match zoneStats with
  | none =>
    singleStep .noMetadata .unknown "§37.3"
      [.text "numeric range pruning requires zone statistics"]
  | some zone =>
    if zoneIsNullOnly zone then
      singleStep .zoneStats .noMatch "§37.3"
        [.text "zone is null-only, so a non-null numeric predicate cannot match"]
    else if !zone.stats.flags.contains ZoneStatFlags.hasMinMax then
      numericFallback "numeric range pruning requires validated min/max zone stats"
    else if zone.stats.flags.contains ZoneStatFlags.hasNan then
      numericFallback "numeric range pruning cannot safely exclude zones with NaN-bearing stats"
    else if zone.stats.flags.contains ZoneStatFlags.minmaxTruncated then
      numericFallback "numeric range pruning cannot safely use truncated min/max bounds"
    else
      match zone.stats.min.bind StatScalar.numericValue with
      | none => numericFallback "numeric range pruning requires decodable typed min stats"
      | some min =>
        match zone.stats.max.bind StatScalar.numericValue with
        | none => numericFallback "numeric range pruning requires decodable typed max stats"
        | some max =>
          if !numericBoundsShareKind r.lowerBound min ||
              !numericBoundsShareKind r.upperBound min || !numericKindsMatch min max then
            numericFallback "numeric range pruning requires matching NumCode stat and predicate kinds"
          else if predicateDisjointFromZone r min max then
            singleStep .zoneStats .noMatch "§37.3"
              (boundsNote min max " is disjoint from predicate " r)
          else if zoneFullyWithinPredicate r min max && zone.stats.nullCount == 0 then
            singleStep .zoneStats .allMatch "§37.3"
              (boundsNote min max " is fully contained in predicate " r)
          else
            singleStep .zoneStats .someMatch "§37.3" (boundsNote min max " overlaps predicate " r)

end CoveFormat.Pruning
