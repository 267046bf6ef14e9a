import CoveFormat.FixedFields
import CoveFormat.ZoneStatistics

namespace CoveFormat.ZoneStatsWire

open ByteCodes ExceptRules FixedFields List ZoneStatistics

variable {bytes : Bytes}

def kindToU8 : StatKind → UInt8
  | .none => 0
  | .int64 => 1
  | .uint64 => 2
  | .float64Bits => 3
  | .decimal128 => 4
  | .timestampMicros => 5
  | .timestampNanos => 6
  | .dateDays => 7
  | .fixedBytes => 8

def kindFromU8 (v : UInt8) : Option StatKind :=
  [StatKind.none, .int64, .uint64, .float64Bits, .decimal128, .timestampMicros, .timestampNanos,
    .dateDays, .fixedBytes][v.toNat]?

@[simp] theorem kindFromU8_toU8 (kind : StatKind) : kindFromU8 (kindToU8 kind) = some kind := by
  cases kind <;> rfl

def fixedLen : StatKind → Option Nat
  | .none => some 0
  | .int64 | .uint64 | .float64Bits | .timestampMicros | .timestampNanos => some 8
  | .decimal128 => some 16
  | .dateDays => some 4
  | .fixedBytes => none

def statScalarEncodedLen : Nat := 20

def zoneStatsEntryLen : Nat := 96

inductive ZoneScope
  | file
  | table
  | segment
  | morsel
  | page
  deriving DecidableEq

/-- The stored entry, with the ids, counts and references that pruning does not read. -/
structure StoredEntry extends ZoneStatsEntry where
  (tableId segmentId morselId columnId nonNullCount distinctCount runCount : UInt32)
  scope : ZoneScope
  (exactSetRef bloomRef : UInt32)
  deriving DecidableEq

def sortedAsc : ZoneStatFlags := ⟨1 <<< 4⟩

def sortedDesc : ZoneStatFlags := ⟨1 <<< 5⟩

/-! Checks, the same for the writer and the reader. -/

def validateStatScalarShape (scalar : StatScalar) : Except CoveError Unit := do
  rejectIf (16 < scalar.bytes.length) .badStats
  match fixedLen scalar.kind with
  | some len => rejectIf (scalar.bytes.length ≠ len) .badStats
  | none => .ok ()

def validateFloat (scalar : StatScalar) : Except CoveError Unit :=
  if scalar.kind = .float64Bits then
    match decodeU64Exact scalar.bytes with
    | none => .error .badStats
    | some bits => rejectIf (f64IsNan (UInt64.ofNat bits) = true) .badStats
  else .ok ()

def scalars (stats : ZoneStats) : List StatScalar := stats.min.toList ++ stats.max.toList

/-- `if let (Some(min), Some(max))`. -/
def sameKind : Option StatScalar → Option StatScalar → Bool
  | some min, some max => min.kind == max.kind
  | _, _ => true

def validateStats (stats : ZoneStats) : Except CoveError Unit := do
  rejectIf (stats.flags.bits >>> 11 ≠ 0) .badStats
  rejectIf (stats.rowCount < stats.nullCount) .badStats
  rejectIf (stats.nullCount = stats.rowCount ∧ (stats.min.isSome ∨ stats.max.isSome)) .badStats
  rejectIf (sameKind stats.min stats.max = false) .badStats
  rejectIf ((scalars stats).any (·.truncated) ≠ stats.flags.contains .minmaxTruncated) .badStats
  checkAll (fun scalar => (validateStatScalarShape scalar).bind fun _ => validateFloat scalar)
    (scalars stats)
  rejectIf (stats.flags.contains .constant = true ∧ stats.min ≠ stats.max) .badStats
  rejectIf (stats.flags.contains sortedAsc = true ∧ stats.flags.contains sortedDesc = true ∧
    1 < stats.rowCount) .badStats

def validate (e : StoredEntry) : Except CoveError Unit := do
  rejectIf (2 ^ 32 ≤ e.stats.rowCount) .badStats
  rejectIf (2 ^ 32 ≤ e.stats.nullCount) .badStats
  rejectIf (2 ^ 32 ≤ e.stats.nullCount + e.nonNullCount.toNat) .arithOverflow
  rejectIf (e.stats.nullCount + e.nonNullCount.toNat ≠ e.stats.rowCount) .badStats
  rejectIf (e.stats.min.isSome ≠ e.stats.max.isSome) .badStats
  rejectIf (e.stats.flags.contains .hasMinMax ≠ e.stats.min.isSome) .badStats
  validateStats e.stats

/-! Scalars. -/

def scalarFlags (truncated : Bool) : UInt8 := if truncated then 1 else 0

def scalarHead (scalar : StatScalar) : Fields :=
  [(1, (kindToU8 scalar.kind).toNat), (1, (scalarFlags scalar.truncated).toNat),
    (2, scalar.bytes.length)]

theorem scalarHead_width (scalar : StatScalar) : width (scalarHead scalar) = 4 := rfl

def encodeStatScalar : Option StatScalar → Except CoveError Bytes
  | none => .ok (replicate statScalarEncodedLen 0)
  | some scalar => do
      validateStatScalarShape scalar
      .ok (encodeFields (scalarHead scalar) ++ scalar.bytes ++
        replicate (16 - scalar.bytes.length) 0)

def parseStatScalar (bytes : Bytes) : Except CoveError (Option StatScalar) := do
  rejectIf (bytes.length < statScalarEncodedLen) .bufferTooShort
  match kindFromU8 (readU8 bytes 0) with
  | none => .error .badStats
  | some kind =>
    let flags := (readU8 bytes 1).toNat
    rejectIf (flags >>> 1 ≠ 0) .badStats
    let length := readUint 2 bytes 2
    rejectIf (16 < length) .badStats
    if kind = .none then do
      rejectIf (length ≠ 0 ∨ flags ≠ 0) .badStats
      .ok none
    else do
      let scalar : StatScalar := ⟨kind, (bytes.drop 4).take length, flags.testBit 0⟩
      validateStatScalarShape scalar
      .ok (some scalar)

variable {scalar : StatScalar}

theorem shape_length (h : validateStatScalarShape scalar = .ok ()) : scalar.bytes.length ≤ 16 := by
  obtain ⟨hlen, -⟩ := of_reject h
  exact not_lt.mp hlen

theorem encodeStatScalar_length {scalar : Option StatScalar}
    (h : encodeStatScalar scalar = .ok bytes) : bytes.length = statScalarEncodedLen := by
  cases scalar with
  | none =>
    cases h
    rfl
  | some scalar =>
    obtain ⟨hshape, h⟩ := of_check h
    have hlen := shape_length hshape
    cases h
    rw [length_append, length_append, encodeFields_length, scalarHead_width,
      length_replicate, statScalarEncodedLen]
    omega

theorem parseStatScalar_kind (h : parseStatScalar bytes = .ok (some scalar)) : scalar.kind ≠ .none := by
  replace h := rest_ok h
  split at h
  · cases h
  · obtain ⟨⟨⟩, -, h⟩ := of_andThen h
    replace h := rest_ok h
    split at h
    · obtain ⟨⟨⟩, -, h⟩ := of_andThen h
      cases h
    · rename_i hkind
      replace h := rest_ok h
      cases h
      exact hkind

theorem parseStatScalar_encode {scalar : Option StatScalar}
    (h : encodeStatScalar scalar = .ok bytes) (hkind : ∀ s ∈ scalar, s.kind ≠ .none) :
    parseStatScalar bytes = .ok scalar := by
  have hlen := encodeStatScalar_length h
  cases scalar with
  | none =>
    cases h
    decide
  | some s =>
    have hnone := hkind s rfl
    obtain ⟨hshape, h⟩ := of_check h
    have hle := shape_length hshape
    cases h
    rw [append_assoc] at hlen ⊢
    set rest := s.bytes ++ replicate (16 - s.bytes.length) 0 with hrest
    have hk : readU8 (encodeFields (scalarHead s) ++ rest) 0 = kindToU8 s.kind :=
      readU8_field 0 rfl rfl rest
    have hf : readU8 (encodeFields (scalarHead s) ++ rest) 1 = scalarFlags s.truncated :=
      readU8_field 1 rfl rfl rest
    have hl : readUint 2 (encodeFields (scalarHead s) ++ rest) 2 = s.bytes.length % 256 ^ 2 :=
      readUint_field 2 rfl rfl rest
    rw [Nat.mod_eq_of_lt (by omega)] at hl
    have hhead : (encodeFields (scalarHead s)).length = 4 := encodeFields_length (scalarHead s)
    have hbytes : ((encodeFields (scalarHead s) ++ rest).drop 4).take s.bytes.length = s.bytes := by
      rw [drop_left' hhead, hrest, take_left]
    have hflags : (scalarFlags s.truncated).toNat >>> 1 = 0 ∧
        (scalarFlags s.truncated).toNat.testBit 0 = s.truncated := by
      cases s.truncated <;> decide
    rw [parseStatScalar, rejectIf, if_neg (by rw [hlen]; exact lt_irrefl _)]
    simp only [hk, hf, hl, hbytes, kindFromU8_toU8, hflags.1, hflags.2, if_neg hnone, rejectIf,
      ne_eq, not_true_eq_false, if_false, if_neg (not_lt.mpr hle), hshape]
    rfl

/-! Entries. -/

namespace StoredEntry

def head (e : StoredEntry) : Fields :=
  [(4, e.tableId.toNat), (4, e.segmentId.toNat), (4, e.morselId.toNat), (4, e.columnId.toNat),
    (4, e.stats.rowCount), (4, e.stats.nullCount), (4, e.nonNullCount.toNat),
    (4, e.distinctCount.toNat), (4, e.runCount.toNat), (4, e.stats.flags.bits)]

def tail (e : StoredEntry) : Fields :=
  [(4, e.minDomainRank.toNat), (4, e.maxDomainRank.toNat), (4, e.exactSetRef.toNat),
    (4, e.bloomRef.toNat)]

def serialize (e : StoredEntry) : Except CoveError Bytes := do
  validate e
  let min ← encodeStatScalar e.stats.min
  let max ← encodeStatScalar e.stats.max
  .ok (encodeFields e.head ++ min ++ max ++ encodeFields e.tail)

def impliedScope (morselId : UInt32) : ZoneScope :=
  if morselId.toNat = 2 ^ 32 - 1 then .segment else .morsel

def parse (bytes : Bytes) : Except CoveError StoredEntry := do
  rejectIf (bytes.length < zoneStatsEntryLen) .bufferTooShort
  let bytes := bytes.take zoneStatsEntryLen
  let min ← parseStatScalar ((bytes.drop 40).take statScalarEncodedLen)
  let max ← parseStatScalar ((bytes.drop 60).take statScalarEncodedLen)
  let entry : StoredEntry := {
    tableId := readU32 bytes 0
    segmentId := readU32 bytes 4
    morselId := readU32 bytes 8
    columnId := readU32 bytes 12
    nonNullCount := readU32 bytes 24
    distinctCount := readU32 bytes 28
    runCount := readU32 bytes 32
    scope := impliedScope (readU32 bytes 8)
    stats := {
      rowCount := readUint 4 bytes 16
      nullCount := readUint 4 bytes 20
      min := min
      max := max
      flags := ⟨readUint 4 bytes 36⟩ }
    minDomainRank := readU32 bytes 80
    maxDomainRank := readU32 bytes 84
    exactSetRef := readU32 bytes 88
    bloomRef := readU32 bytes 92 }
  validate entry
  .ok entry

variable {e : StoredEntry}

theorem widths_head (e : StoredEntry) : e.head.map Prod.fst = replicate 10 4 := rfl

theorem head_width (e : StoredEntry) : width e.head = 40 := by
  rfl

theorem tail_width (e : StoredEntry) : width e.tail = 16 := rfl

theorem serialize_ok_iff : serialize e = .ok bytes ↔
    validate e = .ok () ∧ ∃ min max, encodeStatScalar e.stats.min = .ok min ∧
      encodeStatScalar e.stats.max = .ok max ∧
      encodeFields e.head ++ min ++ max ++ encodeFields e.tail = bytes := by
  constructor
  · intro h
    obtain ⟨hvalid, h⟩ := of_check h
    obtain ⟨min, hmin, h⟩ := of_andThen h
    obtain ⟨max, hmax, h⟩ := of_andThen h
    exact ⟨hvalid, min, max, hmin, hmax, Except.ok.inj h⟩
  · rintro ⟨hvalid, min, max, hmin, hmax, rfl⟩
    rw [serialize, hvalid, hmin, hmax]
    rfl

theorem serialize_length (h : serialize e = .ok bytes) : bytes.length = zoneStatsEntryLen := by
  obtain ⟨-, min, max, hmin, hmax, rfl⟩ := serialize_ok_iff.mp h
  simp only [length_append, encodeFields_length, head_width, tail_width,
    encodeStatScalar_length hmin, encodeStatScalar_length hmax]
  rfl

theorem validate_counts (h : validate e = .ok ()) :
    e.stats.rowCount < 2 ^ 32 ∧ e.stats.nullCount < 2 ^ 32 ∧ e.stats.flags.bits < 2 ^ 32 := by
  obtain ⟨hrows, h⟩ := of_reject h
  obtain ⟨hnulls, h⟩ := of_reject h
  iterate 4 replace h := rest_ok h
  obtain ⟨hflags, -⟩ := of_check h
  have hflags := not_not.mp (of_rejectIf hflags)
  exact ⟨not_le.mp hrows, not_le.mp hnulls, by omega⟩

theorem validate_kinds (h : validate e = .ok ()) :
    (∀ s ∈ e.stats.min, s.kind ≠ .none) → ∀ s ∈ e.stats.max, s.kind ≠ .none := by
  iterate 4 replace h := rest_ok h
  obtain ⟨hboth, h⟩ := of_check h
  iterate 4 replace h := rest_ok h
  obtain ⟨hkind, -⟩ := of_check h
  have hboth := not_not.mp (of_rejectIf hboth)
  have hkind := of_rejectIf hkind
  intro hmin max hmax
  rw [hmax] at hboth
  obtain ⟨min, hsome⟩ := Option.isSome_iff_exists.mp hboth
  rw [hmax, hsome, sameKind, Bool.not_eq_false, beq_iff_eq] at hkind
  exact hkind ▸ hmin min hsome

theorem parse_serialize (h : serialize e = .ok bytes) (hscope : e.scope = impliedScope e.morselId)
    (hkind : ∀ s ∈ e.stats.min, s.kind ≠ .none) : parse bytes = .ok e := by
  have hlen := serialize_length h
  obtain ⟨hvalid, min, max, hmin, hmax, rfl⟩ := serialize_ok_iff.mp h
  have hminLen := encodeStatScalar_length hmin
  have hmaxLen := encodeStatScalar_length hmax
  have hmin := parseStatScalar_encode hmin hkind
  have hmax := parseStatScalar_encode hmax (validate_kinds hvalid hkind)
  obtain ⟨hrows, hnulls, hflags⟩ := validate_counts hvalid
  set bytes := encodeFields e.head ++ min ++ max ++ encodeFields e.tail with hbytes
  have hhead : bytes = encodeFields e.head ++ (min ++ max ++ encodeFields e.tail) := by
    rw [hbytes, append_assoc, append_assoc, append_assoc]
  have hheadLen : (encodeFields e.head).length = 40 :=
    (encodeFields_length e.head).trans (head_width e)
  have hcut : bytes.take zoneStatsEntryLen = bytes := take_of_length_le hlen.le
  have hmin' : (bytes.drop 40).take statScalarEncodedLen = min := by
    rw [hhead, drop_left' hheadLen, append_assoc, take_left' hminLen]
  have hmax' : (bytes.drop 60).take statScalarEncodedLen = max := by
    have hleft : (encodeFields e.head ++ min).length = 60 := by
      rw [length_append, hheadLen, hminLen, statScalarEncodedLen]
    rw [hbytes, append_assoc, drop_left' hleft, take_left' hmaxLen]
  have hrest (offset : Nat) :
      readU32 bytes (80 + offset) = readU32 (encodeFields e.tail ++ []) offset := by
    have hleft : (encodeFields e.head ++ min ++ max).length = 80 := by
      rw [length_append, length_append, hheadLen, hminLen, hmaxLen, statScalarEncodedLen]
    rw [readU32, hbytes, ← hleft, readUint_append_right, append_nil, readU32]
  have hoffsets := width_take (widths_head e)
  have htable : readU32 bytes 0 = e.tableId := hhead ▸ readU32_field 0 rfl (hoffsets 0) _
  have hsegment : readU32 bytes 4 = e.segmentId := hhead ▸ readU32_field 1 rfl (hoffsets 1) _
  have hmorsel : readU32 bytes 8 = e.morselId := hhead ▸ readU32_field 2 rfl (hoffsets 2) _
  have hcolumn : readU32 bytes 12 = e.columnId := hhead ▸ readU32_field 3 rfl (hoffsets 3) _
  have hnonNull : readU32 bytes 24 = e.nonNullCount := hhead ▸ readU32_field 6 rfl (hoffsets 6) _
  have hdistinct : readU32 bytes 28 = e.distinctCount := hhead ▸ readU32_field 7 rfl (hoffsets 7) _
  have hrun : readU32 bytes 32 = e.runCount := hhead ▸ readU32_field 8 rfl (hoffsets 8) _
  have hrows' : readUint 4 bytes 16 = e.stats.rowCount % 256 ^ 4 :=
    hhead ▸ readUint_field 4 rfl (hoffsets 4) _
  have hnulls' : readUint 4 bytes 20 = e.stats.nullCount % 256 ^ 4 :=
    hhead ▸ readUint_field 5 rfl (hoffsets 5) _
  have hflags' : readUint 4 bytes 36 = e.stats.flags.bits % 256 ^ 4 :=
    hhead ▸ readUint_field 9 rfl (hoffsets 9) _
  rw [Nat.mod_eq_of_lt (by omega)] at hrows' hnulls' hflags'
  have hminRank : readU32 bytes 80 = e.minDomainRank := (hrest 0).trans (readU32_field 0 rfl rfl _)
  have hmaxRank : readU32 bytes 84 = e.maxDomainRank := (hrest 4).trans (readU32_field 1 rfl rfl _)
  have hset : readU32 bytes 88 = e.exactSetRef := (hrest 8).trans (readU32_field 2 rfl rfl _)
  have hbloom : readU32 bytes 92 = e.bloomRef := (hrest 12).trans (readU32_field 3 rfl rfl _)
  simp only [parse, hcut, hmin', hmax', hmin, hmax, htable, hsegment, hmorsel, hcolumn, hnonNull,
    hdistinct, hrun, hrows', hnulls', hflags', hminRank, hmaxRank, hset, hbloom, ← hscope]
  rw [rejectIf, if_neg (hlen ▸ lt_irrefl _)]
  refine andThen_ok rfl (andThen_ok rfl ?_)
  exact andThen_ok rfl (andThen_ok hvalid rfl)

theorem parse_kind (h : parse bytes = .ok e) : ∀ s ∈ e.stats.min, s.kind ≠ .none := by
  replace h := rest_ok h
  obtain ⟨min, hmin, h⟩ := of_andThen h
  obtain ⟨max, -, h⟩ := of_andThen h
  replace h := rest_ok h
  cases h
  rintro s hs
  obtain rfl : min = some s := hs
  exact parseStatScalar_kind hmin

theorem parse_serialize_iff (h : serialize e = .ok bytes)
    (hscope : e.scope = impliedScope e.morselId) :
    parse bytes = .ok e ↔ ∀ s ∈ e.stats.min, s.kind ≠ .none :=
  ⟨parse_kind, parse_serialize h hscope⟩

end StoredEntry

/-! Sections. -/

open StoredEntry

def serializeSection (entries : List StoredEntry) : Except CoveError Bytes :=
  (entries.mapM StoredEntry.serialize).map List.flatten

def parseSection (bytes : Bytes) : Except CoveError (List StoredEntry) :=
  if bytes = [] then .ok []
  else do
    rejectIf (bytes.length % zoneStatsEntryLen ≠ 0) .badStats
    (chunksExact zoneStatsEntryLen (bytes.length / zoneStatsEntryLen) bytes).mapM StoredEntry.parse

theorem parseSection_flatten {chunks : List Bytes}
    (h : ∀ chunk ∈ chunks, chunk.length = zoneStatsEntryLen) :
    parseSection chunks.flatten = chunks.mapM StoredEntry.parse := by
  have hlen := length_flatten_eq h
  cases chunks with
  | nil => rfl
  | cons chunk chunks =>
    have hne : (chunk :: chunks).flatten ≠ [] := by
      intro hnil
      rw [hnil, length_nil, length_cons, zoneStatsEntryLen] at hlen
      omega
    rw [parseSection, if_neg hne, hlen, Nat.mul_mod_left, Nat.mul_div_cancel _ (by decide),
      chunksExact_flatten h, rejectIf, if_neg (not_not.mpr rfl)]
    rfl

theorem parseSection_serialize_iff {entries : List StoredEntry}
    (h : serializeSection entries = .ok bytes)
    (hscope : ∀ e ∈ entries, e.scope = impliedScope e.morselId) :
    parseSection bytes = .ok entries ↔ ∀ e ∈ entries, ∀ s ∈ e.stats.min, s.kind ≠ .none := by
  obtain ⟨chunks, hchunks, rfl⟩ := map_eq_ok_iff.mp h
  have hparts := forall₂_of_mapM hchunks
  rw [parseSection_flatten, mapM_eq_ok_iff]
  · clear h hchunks
    induction hparts with
    | nil => simp
    | @cons e chunk entries chunks he _ ih =>
      rw [forall₂_cons, forall_mem_cons]
      exact and_congr (parse_serialize_iff he (hscope e mem_cons_self))
        (ih fun a ha => hscope a (.tail _ ha))
  · intro chunk hchunk
    obtain ⟨e, -, he⟩ := forall₂_mem_left hparts.flip hchunk
    exact serialize_length he

/-- Entries, and sections of them, come back exactly when no minimum is of the absent kind. -/
theorem zone_stats_round_trip_iff (e : StoredEntry) (entries : List StoredEntry) (bytes : Bytes) :
    (serialize e = .ok bytes → e.scope = impliedScope e.morselId →
      (StoredEntry.parse bytes = .ok e ↔ ∀ s ∈ e.stats.min, s.kind ≠ .none)) ∧
    (serializeSection entries = .ok bytes → (∀ e ∈ entries, e.scope = impliedScope e.morselId) →
      (parseSection bytes = .ok entries ↔ ∀ e ∈ entries, ∀ s ∈ e.stats.min, s.kind ≠ .none)) :=
  ⟨fun h hscope => parse_serialize_iff h hscope,
    fun h hscope => parseSection_serialize_iff h hscope⟩

/-- A morsel entry for ten rows with the given scalar as minimum and maximum. -/
def constantEntry (scalar : StatScalar) : StoredEntry :=
  { stats := ⟨10, 0, some scalar, some scalar, .hasMinMax⟩
    minDomainRank := 0, maxDomainRank := 0, tableId := 1, segmentId := 2, morselId := 0
    columnId := 3, nonNullCount := 10, distinctCount := 1, runCount := 1, scope := .morsel
    exactSetRef := 0, bloomRef := 0 }

theorem zone_stats_round_trip_iff_three : ∃ bytes,
    serialize (constantEntry ⟨.int64, [3, 0, 0, 0, 0, 0, 0, 0], false⟩) = .ok bytes ∧
    (StoredEntry.parse bytes = .ok (constantEntry ⟨.int64, [3, 0, 0, 0, 0, 0, 0, 0], false⟩) ↔
      ∀ s ∈ (constantEntry ⟨.int64, [3, 0, 0, 0, 0, 0, 0, 0], false⟩).stats.min, s.kind ≠ .none) := by
  refine ⟨_, rfl, ?_⟩
  exact (zone_stats_round_trip_iff _ [] _).1 rfl rfl

/-- A minimum of the absent kind is written, and the entry is then refused. -/
theorem absent_kind_refused : ∃ bytes, serialize (constantEntry ⟨.none, [], false⟩) = .ok bytes ∧
    (constantEntry ⟨.none, [], false⟩).scope =
      impliedScope (constantEntry ⟨.none, [], false⟩).morselId ∧
    StoredEntry.parse bytes = .error .badStats := by
  refine ⟨_, rfl, rfl, ?_⟩
  decide +kernel

end CoveFormat.ZoneStatsWire
