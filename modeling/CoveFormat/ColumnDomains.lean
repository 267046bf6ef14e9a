import CoveFormat.FixedFields
import CoveFormat.Pruning
import Mathlib.Data.List.Nodup

namespace CoveFormat.ColumnDomains

open ByteCodes ExceptRules FixedFields CheckedArith FileCodeIndexes ZoneStatistics Pruning Option
  List

structure ColumnDomainHeaderV1 where
  (tableOrObjectId columnOrPropertyId : UInt32)
  (logicalType collationId : UInt16)
  domainCount : UInt32
  (sortedFileCodesOffset fileCodeToRankOffset : UInt64)
  (flags checksum : UInt32)
  deriving DecidableEq

def columnDomainHeaderLen : Nat := 40

namespace ColumnDomainHeaderV1

def fields (h : ColumnDomainHeaderV1) : Fields :=
  [(4, h.tableOrObjectId.toNat), (4, h.columnOrPropertyId.toNat), (2, h.logicalType.toNat),
    (2, h.collationId.toNat), (4, h.domainCount.toNat), (8, h.sortedFileCodesOffset.toNat),
    (8, h.fileCodeToRankOffset.toNat), (4, h.flags.toNat)]

def serialize (crc32c : Bytes → UInt32) (h : ColumnDomainHeaderV1) : Bytes :=
  encodeChecksummed crc32c h.fields

def parse (crc32c : Bytes → UInt32) (bytes : Bytes) : Except CoveError ColumnDomainHeaderV1 := do
  rejectIf (bytes.length < columnDomainHeaderLen) .bufferTooShort
  let bytes := bytes.take columnDomainHeaderLen
  let checksum ← verifyChecksumField crc32c bytes 36
  .ok {
    tableOrObjectId := readU32 bytes 0
    columnOrPropertyId := readU32 bytes 4
    logicalType := readU16 bytes 8
    collationId := readU16 bytes 10
    domainCount := readU32 bytes 12
    sortedFileCodesOffset := readU64 bytes 16
    fileCodeToRankOffset := readU64 bytes 24
    flags := readU32 bytes 32
    checksum := checksum }

end ColumnDomainHeaderV1

/-- A parsed section: the arrays of the domain with the header they came with. -/
structure ColumnDomainSection extends ColumnDomain where
  header : ColumnDomainHeaderV1
  deriving DecidableEq

namespace ColumnDomainSection

def readCodes (bytes : Bytes) (offset count : Nat) : List UInt32 :=
  (range count).map fun i => readU32 bytes (offset + i * 4)

def parse (crc32c : Bytes → UInt32) (bytes : Bytes) : Except CoveError ColumnDomainSection := do
  let header ← ColumnDomainHeaderV1.parse crc32c bytes
  let sfcOff := header.sortedFileCodesOffset.toNat
  let sfcEnd ← checkedAdd sfcOff (header.domainCount.toNat * 4)
  rejectIf (bytes.length < sfcEnd) .offsetRange
  rejectIf (sfcOff < columnDomainHeaderLen) .badDomain
  let sortedFileCodes := readCodes bytes sfcOff header.domainCount.toNat
  rejectIf (¬ sortedFileCodes.Nodup) .badDomain
  let rankOff := header.fileCodeToRankOffset.toNat
  rejectIf (rankOff < columnDomainHeaderLen ∨ bytes.length < rankOff) .offsetRange
  -- the rank map takes up the rest of the section
  let rankRegion := bytes.drop rankOff
  rejectIf (rankRegion.length % 4 ≠ 0) .badDomain
  let fileCodeToRank := readCodes rankRegion 0 (rankRegion.length / 4)
  .ok ⟨⟨sortedFileCodes, fileCodeToRank⟩, header⟩

def encodeCodes (codes : List UInt32) : Bytes := codes.flatMap fun code => leBytes 4 code.toNat

theorem parse_nodup {crc32c : Bytes → UInt32} {bytes : Bytes} {d : ColumnDomainSection}
    (h : parse crc32c bytes = .ok d) : d.sortedFileCodes.Nodup := by
  obtain ⟨header, -, h⟩ := of_andThen h
  obtain ⟨sfcEnd, -, h⟩ := of_andThen h
  iterate 2 replace h := rest_ok h
  obtain ⟨hnodup, h⟩ := of_reject h
  iterate 2 replace h := rest_ok h
  cases h
  exact not_not.mp hnodup

section

variable {d : ColumnDomain}

theorem rank_eq_position (hs : d.isSafe) (hnodup : d.sortedFileCodes.Nodup) {i : Nat}
    {code rank : UInt32} (hget : d.sortedFileCodes[i]? = some code)
    (hrank : d.rankOf code = some rank) : rank.toNat = i := by
  have hback := rankOf_points_back hs hrank
  obtain ⟨hi, _⟩ := List.getElem?_eq_some_iff.mp hget
  exact ((List.getElem?_inj hi hnodup).mp (hget.trans hback.symm)).symm

def absentFromDomain (fileCode : UInt32) : PruningExplanation :=
  singleStep .columnDomain .noMatch "§37.1"
    [.text "FileCode ", .code fileCode, .text " is absent from the safe ColumnDomain"]

theorem explain_ne_absent {code rank : UInt32} (hrank : d.rankOf code = some rank)
    (zoneStats : Option ZoneStatsEntry) (exactSet : Option ExactSetIndex) :
    explainFileCodeEquality code zoneStats (some d) exactSet ≠ absentFromDomain code := by
  have hfallback : fileCodeEqualityFallback zoneStats (some d) exactSet ≠ absentFromDomain code := by
    rw [fileCodeEqualityFallback]
    split <;> simp [absentFromDomain, singleStep, PruningExplanation.record]
  have hrest : explainFileCodeEqualityRest code zoneStats (some d) exactSet ≠
      absentFromDomain code := by
    unfold explainFileCodeEqualityRest
    repeat' split
    all_goals first
      | exact hfallback
      | simp [absentFromDomain, singleStep, PruningExplanation.record]
  rw [explainFileCodeEquality]
  split
  · simp [absentFromDomain, singleStep, PruningExplanation.record]
  split
  · exact hrest
  · rename_i safe hsafe
    have hd : safe = d := by
      rw [usableDomain, filter_eq_some_iff] at hsafe
      exact (some.inj hsafe.1).symm
    rw [hd, hrank]
    dsimp only
    repeat' split
    all_goals first
      | exact hrest
      | simp [absentFromDomain, singleStep, PruningExplanation.record]

/-- Every listed code has a slot of the rank map, and the slot is in use. -/
def RanksPresent (d : ColumnDomain) : Prop :=
  ∀ code ∈ d.sortedFileCodes, ∃ rank, d.fileCodeToRank[code.toNat]? = some rank ∧ rank ≠ invalidRank

end

/-- The check looks at the slots in use only; a listed code without one is denied. -/
theorem safe_domain_keeps_members_iff {crc32c : Bytes → UInt32} {bytes : Bytes}
    {d : ColumnDomainSection} (hp : parse crc32c bytes = .ok d) (hs : d.isSafe) :
    ((∀ i code, d.sortedFileCodes[i]? = some code → (d.rankOf code).map UInt32.toNat = some i) ∧
      ∀ code ∈ d.sortedFileCodes, ∀ zoneStats exactSet,
        explainFileCodeEquality code zoneStats (some d.toColumnDomain) exactSet ≠
          absentFromDomain code) ↔
      RanksPresent d.toColumnDomain := by
  have hnodup := parse_nodup hp
  constructor
  · rintro ⟨hrank, -⟩ code hcode
    obtain ⟨i, hi⟩ := mem_iff_getElem?.mp hcode
    obtain ⟨rank, hrank, -⟩ := map_eq_some_iff.mp (hrank i code hi)
    exact ⟨rank, (rankOf_eq_some_iff _ _ _).mp hrank⟩
  · intro h
    have hrank : ∀ code ∈ d.sortedFileCodes, ∃ rank, d.rankOf code = some rank := by
      intro code hcode
      obtain ⟨rank, hslot⟩ := h code hcode
      exact ⟨rank, (rankOf_eq_some_iff _ code rank).mpr hslot⟩
    constructor
    · intro i code hget
      obtain ⟨rank, hr⟩ := hrank code (mem_of_getElem? hget)
      rw [hr, map_some, rank_eq_position hs hnodup hget hr]
    · intro code hcode zoneStats exactSet
      obtain ⟨rank, hr⟩ := hrank code hcode
      exact explain_ne_absent hr zoneStats exactSet

theorem ranked_domain_keeps_members :
    let header : ColumnDomainHeaderV1 := ⟨7, 11, 16, 0, 3, 40, 52, 0, 0⟩
    let stored := { header with checksum := 2305243229 }
    let domain : ColumnDomain := ⟨[1, 3, 4], [invalidRank, 0, invalidRank, 1, 2]⟩
    ∃ bytes, parse castagnoli bytes = .ok ⟨domain, stored⟩ ∧ domain.isSafe ∧
      (((∀ i code, domain.sortedFileCodes[i]? = some code →
          (domain.rankOf code).map UInt32.toNat = some i) ∧
        ∀ code ∈ domain.sortedFileCodes, ∀ zoneStats exactSet,
          explainFileCodeEquality code zoneStats (some domain) exactSet ≠ absentFromDomain code) ↔
        RanksPresent domain) := by
  intro header stored domain
  have hp : parse castagnoli (header.serialize castagnoli ++
      (encodeCodes [1, 3, 4] ++ encodeCodes [invalidRank, 0, invalidRank, 1, 2])) =
      .ok ⟨domain, stored⟩ := by decide +kernel
  have hs : domain.isSafe := by decide
  exact ⟨_, hp, hs, safe_domain_keeps_members_iff hp hs⟩

def unrankedBytes : Bytes :=
  let header : ColumnDomainHeaderV1 := ⟨7, 11, 16, 0, 1, 40, 44, 0, 0⟩
  header.serialize castagnoli ++ encodeCodes [1]

theorem unranked_code_denied : ∃ d, parse castagnoli unrankedBytes = .ok d ∧ d.isSafe ∧
    d.sortedFileCodes[0]? = some 1 ∧ d.rankOf 1 = none ∧
    explainFileCodeEquality 1 none (some d.toColumnDomain) none = absentFromDomain 1 :=
  ⟨⟨⟨[1], []⟩, ⟨7, 11, 16, 0, 1, 40, 44, 0, 1466130268⟩⟩, by decide +kernel⟩

end ColumnDomainSection

end CoveFormat.ColumnDomains
