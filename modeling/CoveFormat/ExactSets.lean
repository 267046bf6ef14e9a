import CoveFormat.FixedFields
import CoveFormat.ProbeFilters
import CoveFormat.PruningSoundness

namespace CoveFormat.ExactSets

open ByteCodes ExceptRules FixedFields ProbeFilters FileCodeIndexes ZoneStatistics Pruning
  PruningSoundness List Option

inductive ExactSetGranularity
  | segment
  | morsel

inductive ExactSetRepresentation
  | sortedList
  | bitset
  | roaringLike
  deriving DecidableEq

section

variable (value : UInt8)

def granularityFromU8 : Option ExactSetGranularity :=
  if value = 0 then some .segment else if value = 1 then some .morsel else none

def keyKindFromU8 : Option ExactSetKeyKind :=
  if value = 0 then some .fileCode
  else if value = 1 then some .numCode
  else if value = 2 then some .canonicalHash
  else none

def representationFromU8 : Option ExactSetRepresentation :=
  if value = 0 then some .sortedList
  else if value = 1 then some .bitset
  else if value = 2 then some .roaringLike
  else none

end

structure ExactSetIndexHeaderV1 where
  (tableId columnId : UInt32)
  granularity : ExactSetGranularity
  keyKind : ExactSetKeyKind
  representation : ExactSetRepresentation
  flags : UInt8
  entryCount : UInt32
  (dataOffset dataLength : UInt64)
  checksum : UInt32

def exactSetHeaderLen : Nat := 36

-- The CRC32C of the checksum package.
variable (crc32c : Bytes → UInt32)

def ExactSetIndexHeaderV1.parse (bytes : Bytes) : Except CoveError ExactSetIndexHeaderV1 := do
  rejectIf (bytes.length < exactSetHeaderLen) .bufferTooShort
  let bytes := bytes.take exactSetHeaderLen
  let checksum ← verifyChecksumField crc32c bytes 32
  let granularity ← orBadIndex (granularityFromU8 (readU8 bytes 8))
  let keyKind ← orBadIndex (keyKindFromU8 (readU8 bytes 9))
  let representation ← orBadIndex (representationFromU8 (readU8 bytes 10))
  .ok {
    tableId := readU32 bytes 0
    columnId := readU32 bytes 4
    granularity := granularity
    keyKind := keyKind
    representation := representation
    flags := readU8 bytes 11
    entryCount := readU32 bytes 12
    dataOffset := readU64 bytes 16
    dataLength := readU64 bytes 24
    checksum := checksum }

/-- A parsed index: the header, the keys of a sorted list, and the raw data. -/
structure ExactSetFile where
  header : ExactSetIndexHeaderV1
  keys : List Nat
  data : Bytes

namespace ExactSetFile

def index (s : ExactSetFile) : ExactSetIndex := ⟨s.header.keyKind, s.keys⟩

def readKeys (count : Nat) (data : Bytes) : List Nat :=
  (range count).map fun i => readUint 8 data (8 * i)

def parseKeys (header : ExactSetIndexHeaderV1) (data : Bytes) : Except CoveError (List Nat) :=
  if header.representation = .sortedList then do
    rejectIf (data.length ≠ header.entryCount.toNat * 8) .badIndex
    let keys := readKeys header.entryCount.toNat data
    checkPairs (fun a b => rejectIf (b ≤ a) .badIndex) keys
    .ok keys
  else .ok []

def parse (bytes : Bytes) : Except CoveError ExactSetFile := do
  let header ← ExactSetIndexHeaderV1.parse crc32c bytes
  let data ← checkedRegion bytes header.dataOffset.toNat header.dataLength.toNat
  let keys ← parseKeys header data
  .ok ⟨header, keys, data⟩

end ExactSetFile

variable {crc32c} {bytes : Bytes} {s : ExactSetFile} {z : Zone} {zs : Option ZoneStatsEntry}
  {d : Option ColumnDomain}

section

variable (h : ExactSetFile.parse crc32c bytes = .ok s)
include h

theorem keys_strict : s.keys.Pairwise (· < ·) := by
  obtain ⟨header, -, h⟩ := of_andThen h
  obtain ⟨data, -, h⟩ := of_andThen h
  obtain ⟨keys, hkeys, h⟩ := of_andThen h
  cases h
  rw [ExactSetFile.parseKeys] at hkeys
  split at hkeys
  · obtain ⟨⟨⟩, -, hkeys⟩ := of_andThen hkeys
    obtain ⟨hpairs, hkeys⟩ := of_check hkeys
    cases hkeys
    refine isChain_iff_pairwise.mp ((checkPairs_eq_ok_iff.mp hpairs).imp fun a b hab => ?_)
    exact not_le.mp (of_rejectIf hab)
  · cases hkeys
    exact .nil

theorem keys_eq_nil (hr : s.header.representation ≠ .sortedList) : s.keys = [] := by
  obtain ⟨header, -, h⟩ := of_andThen h
  obtain ⟨data, -, h⟩ := of_andThen h
  obtain ⟨keys, hkeys, h⟩ := of_andThen h
  cases h
  rw [ExactSetFile.parseKeys, if_neg hr] at hkeys
  exact (Except.ok.inj hkeys).symm

end

/-- The keys that an index stands for; the data of a roaring-like set have no reading in the
library, so that theirs is given. -/
def members (roaring : Bytes → Set Nat) (s : ExactSetFile) : Set Nat :=
  match s.header.representation with
  | .sortedList => {k | k ∈ s.keys}
  | .bitset => bitSet s.data
  | .roaringLike => roaring s.data

/-- The FileCodes of the zone are members of the set. -/
def Describes (roaring : Bytes → Set Nat) (s : ExactSetFile) (z : Zone) : Prop :=
  s.header.keyKind = .fileCode → ∀ c, some (.code c) ∈ z.rows → c.toNat ∈ members roaring s

section

variable (h : ExactSetFile.parse crc32c bytes = .ok s)
include h

theorem truthful_of_describes {roaring : Bytes → Set Nat} (hset : Describes roaring s z)
    (hr : s.header.representation = .sortedList) : TruthfulExactSet z s.index := by
  refine fun hk => ⟨keys_strict h, fun c hc => ?_⟩
  have hmem := hset hk c hc
  rw [members, hr] at hmem
  exact hmem

theorem membership_eq_false (hr : s.header.representation ≠ .sortedList)
    (hk : s.header.keyKind = .fileCode) (c : UInt32) :
    exactSetMembership (some s.index) c = some false := by
  have hcontains : s.index.contains c.toNat = false := by
    have hkeys : s.index.keys = [] := keys_eq_nil h hr
    rw [← Bool.not_eq_true, contains_iff (by rw [hkeys]; exact .nil), hkeys]
    exact not_mem_nil
  have hkind : s.index.keyKind = .fileCode := hk
  simp only [exactSetMembership, hkind, hcontains, ne_eq, not_true_eq_false, if_false]

end

/-- An exact set rules out no code of its zone exactly when it is a sorted list, when its keys
are no FileCodes, or when the domain and the zone stats answer for all codes of the zone. -/
theorem exact_set_admits_iff {roaring : Bytes → Set Nat}
    (h : ExactSetFile.parse crc32c bytes = .ok s) (hset : Describes roaring s z)
    (hzs : ∀ e ∈ zs, TruthfulStats z e) (hd : ∀ e ∈ d, TruthfulDomain z e) :
    (∀ c, some (.code c) ∈ z.rows →
      (explainFileCodeEquality c zs d (some s.index)).finalOutcome ≠ .noMatch) ↔
    s.header.representation = .sortedList ∨ s.header.keyKind ≠ .fileCode ∨
      ∀ c, some (.code c) ∈ z.rows → domainConfirms c zs d := by
  simp only [ne_eq, (explainFileCodeEquality_outcome _ zs d (some s.index)).1]
  constructor
  · intro hadmits
    by_contra hcond
    push Not at hcond
    obtain ⟨hr, hk, c, hc, hconfirms⟩ := hcond
    exact hadmits c hc (.inr (.inr ⟨hconfirms, membership_eq_false h hr hk c⟩))
  · rintro hcond c hc (hnull | hdomain | ⟨hconfirms, hmember⟩)
    · exact not_any_nullOnly hzs hc hnull
    · exact domainExcludes_sound hzs hd hdomain hc
    · rcases hcond with hr | hk | hall
      · refine exactSetMembership_sound (z := z) (fun e he => ?_) hmember hc
        cases he
        exact truthful_of_describes h hset hr
      · have hkind : s.index.keyKind ≠ .fileCode := hk
        simp only [exactSetMembership, hkind, ne_eq, not_false_eq_true, if_true] at hmember
        cases hmember
      · exact hconfirms (hall c hc)

def bitsetBytes : Bytes :=
  encodeChecksummed castagnoli [(4, 1), (4, 2), (1, 1), (1, 0), (1, 1), (1, 0), (4, 1), (8, 36),
    (8, 1)] ++ [32]

def fiveZone : Zone := ⟨[some (.code 5)], fun _ => none⟩

theorem bitset_excludes_member : ∃ s, ExactSetFile.parse castagnoli bitsetBytes = .ok s ∧
    Describes (fun _ => ∅) s fiveZone ∧ some (.code 5) ∈ fiveZone.rows ∧
    (explainFileCodeEquality 5 none none (some s.index)).finalOutcome = .noMatch := by
  have hrun : (ExactSetFile.parse castagnoli bitsetBytes).toOption.any (fun s =>
      s.header.representation == .bitset && bitAt s.data 5 && s.header.keyKind == .fileCode &&
        s.keys == []) = true := by decide +kernel
  obtain ⟨s, hs, hrun⟩ := (any_eq_true _ _).mp hrun
  have hs := toOption_eq_some_iff.mp hs
  simp only [Bool.and_eq_true, beq_iff_eq] at hrun
  obtain ⟨⟨⟨hr, hbit⟩, hk⟩, -⟩ := hrun
  refine ⟨s, hs, fun _ c hc => ?_, mem_singleton.mpr rfl, ?_⟩
  · have hc : c = 5 := by simpa [fiveZone] using hc
    subst hc
    rw [members, hr]
    exact hbit
  · refine (explainFileCodeEquality_outcome 5 none none (some s.index)).1.mpr (.inr (.inr ⟨?_, ?_⟩))
    · rintro ⟨safe, hsafe, -⟩
      cases hsafe
    · exact membership_eq_false hs (by rw [hr]; decide) hk 5

/-- A sorted list of the keys 5 and 9. -/
def listBytes : Bytes :=
  encodeChecksummed castagnoli [(4, 1), (4, 2), (1, 1), (1, 0), (1, 0), (1, 0), (4, 2), (8, 36),
    (8, 16)] ++ leBytes 8 5 ++ leBytes 8 9

/-- The sorted list admits the value of the zone and excludes others. -/
theorem exact_set_admits_iff_list : ∃ s, ExactSetFile.parse castagnoli listBytes = .ok s ∧
    (∀ c, some (.code c) ∈ fiveZone.rows →
      (explainFileCodeEquality c none none (some s.index)).finalOutcome ≠ .noMatch) ∧
    (explainFileCodeEquality 7 none none (some s.index)).finalOutcome = .noMatch := by
  have hrun : (ExactSetFile.parse castagnoli listBytes).toOption.any (fun s =>
      s.header.representation == .sortedList && s.keys == [5, 9] &&
        (explainFileCodeEquality 7 none none (some s.index)).finalOutcome == .noMatch) = true := by
    decide +kernel
  obtain ⟨s, hs, hrun⟩ := (any_eq_true _ _).mp hrun
  have hs := toOption_eq_some_iff.mp hs
  simp only [Bool.and_eq_true, beq_iff_eq] at hrun
  obtain ⟨⟨hr, hkeys⟩, hseven⟩ := hrun
  have hset : Describes (fun _ => ∅) s fiveZone := by
    intro _ c hc
    have hc : c = 5 := by simpa [fiveZone] using hc
    subst hc
    rw [members, hr]
    change (5 : Nat) ∈ s.keys
    rw [hkeys]
    exact mem_cons_self
  exact ⟨s, hs, (exact_set_admits_iff hs hset (fun e he => by cases he)
    (fun e he => by cases he)).mpr (.inl hr), hseven⟩

end CoveFormat.ExactSets
