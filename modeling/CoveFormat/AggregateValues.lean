import CoveFormat.AggregateCoverage
import Mathlib.Data.Prod.Lex

namespace CoveFormat.AggregateValues

open AggregateCoverage AggregateSynopses ByteCodes CheckedArith CoveTypes Except ExceptRules Floats
  List MetadataAggregates Wire
open Canonical (ValueTag TextPredicates)

variable {P : TextPredicates} {logical : CoveLogicalType}

/-! What a column's values are worth. -/

def contentOf (payload : Bytes) : Bytes :=
  match decodeU64Leb128 payload with
  | .ok read => payload.drop read.2
  | .error _ => payload

def floatKey (width bits : Nat) : Int :=
  if bits < 2 ^ (width - 1) then bits else -((bits : Int) - 2 ^ (width - 1))

section

variable (value : TaggedCanonicalValue)

def orderKey : Int ×ₗ Bytes :=
  match value.valueTag with
  | .boolFalse | .boolTrue => toLex ((boolTagValue value.valueTag : Int), [])
  | .int64 | .timestampMicros | .timestampNanos | .decimal64 =>
    toLex (signed 64 (leNat value.payload), [])
  | .uint64 => toLex ((leNat value.payload : Int), [])
  | .decimal128 => toLex (signed 128 (leNat value.payload), [])
  | .dateDays => toLex (signed 32 (leNat value.payload), [])
  | .float32Bits => toLex (floatKey 32 (leNat value.payload), [])
  | .float64Bits => toLex (floatKey 64 (leNat value.payload), [])
  | .utf8 | .binary | .json => toLex (0, contentOf value.payload)
  | _ => toLex (0, value.payload)

def readKey : Int ×ₗ Bytes :=
  if value.valueTag = .binary then toLex (0, value.payload) else orderKey value

end

def tagOf : CoveLogicalType → ValueTag
  | .null => .null
  | .bool => .boolTrue
  | .int8 | .int16 | .int32 | .int64 => .int64
  | .uint8 | .uint16 | .uint32 | .uint64 => .uint64
  | .float32 => .float32Bits
  | .float64 => .float64Bits
  | .decimal64 => .decimal64
  | .decimal128 => .decimal128
  | .dateDays => .dateDays
  | .timestampMicros => .timestampMicros
  | .timestampNanos => .timestampNanos
  | .utf8 => .utf8
  | .binary => .binary
  | .uuid => .uuid
  | .json => .json
  | .list => .list
  | .struct => .struct
  | .map => .map

def HasType (logical : CoveLogicalType) (value : TaggedCanonicalValue) : Prop :=
  logical = .bool ∨ value.valueTag = tagOf logical

/-- The first comes before the second, or is equal, in the direction of the aggregate. -/
def Before {α : Type} [LE α] (kind : MetadataSynopsisAggregateKind) (a b : α) : Prop :=
  match kind with
  | .max => b ≤ a
  | _ => a ≤ b

def IsExtreme (kind : MetadataSynopsisAggregateKind) (value : TaggedCanonicalValue)
    (values : List TaggedCanonicalValue) : Prop :=
  value ∈ values ∧ ∀ other ∈ values, Before kind (orderKey value) (orderKey other)

section

variable (value : TaggedCanonicalValue)

def numberOf : Option ℚ :=
  match value.valueTag with
  | .int64 => some (signed 64 (leNat value.payload))
  | .uint64 => some (leNat value.payload)
  | .decimal64 => some (signed 64 (leNat value.payload))
  | .decimal128 => some (signed 128 (leNat value.payload))
  | .float32Bits => f64Number (f64OfF32 (leNat value.payload))
  | .float64Bits => f64Number (leNat value.payload)
  | _ => none

def number : ℚ := (numberOf value).getD 0

end

/-- The tag of the sums of a column. -/
def IsSumTag (logical : CoveLogicalType) (tag : ValueTag) : Prop :=
  match logical with
  | .int8 | .int16 | .int32 | .int64 => tag = .int64
  | .uint8 | .uint16 | .uint32 | .uint64 => tag = .uint64
  | .float32 | .float64 => tag = .float32Bits ∨ tag = .float64Bits
  | .decimal64 | .decimal128 => tag = .decimal128
  | _ => False

structure SumsTo (logical : CoveLogicalType) (sum : TaggedCanonicalValue)
    (values : List TaggedCanonicalValue) : Prop where
  tag : IsSumTag logical sum.valueTag
  numbers : ∀ value ∈ values, (numberOf value).isSome
  total : numberOf sum = some (values.map number).sum

def rowsWithCode (i : Nat) (code : UInt32) (rows : List DataRow) : List DataRow :=
  rows.filter fun row => row.cell i = .fileCode code

/-- What the payload says of the rows and values of its scope is so. -/
def PayloadDescribes (i : Nat) (logical : CoveLogicalType) (rows : List DataRow)
    (values : List TaggedCanonicalValue) : AggregatePayloadV2 → Prop
  | .minMax min max =>
    ((∀ v ∈ min, IsExtreme .min v values) ∧ (min = none → values = [])) ∧
      (∀ v ∈ max, IsExtreme .max v values) ∧ (max = none → values = [])
  | .sum overflowPolicy sum | .sumAndCount overflowPolicy _ sum =>
    overflowPolicy = .checkedExact → SumsTo logical sum values
  | .fileCodeHistogram buckets =>
    (∀ bucket ∈ buckets, bucket.key.toNat < 2 ^ 32 ∧ bucket.count ≠ 0) ∧
      ∀ code : UInt32, ((buckets.filter fun b => b.key.toNat = code.toNat).map
        fun b => b.count.toNat).sum = (rowsWithCode i code rows).length
  | _ => True

structure Describes (d : FileData) (i : Nat) (logical : CoveLogicalType) (item : Item) : Prop where
  rows : item.1.rowCount.toNat = (scopeRows d item.1).length
  nulls : item.1.nullCount.toNat + (scopeValues i d item.1).length = (scopeRows d item.1).length
  payload : PayloadDescribes i logical (scopeRows d item.1) (scopeValues i d item.1) item.2

/-- The exact entries of a file describe the column that their id names. -/
def Truthful (d : FileData) : Prop :=
  ∀ synopsis ∈ d.file.aggregates, ∀ (j : Nat) entry payload,
    synopsis.entries[j]? = some entry → synopsis.payloads[j]? = some payload →
      entry.tableId = d.file.tableId → entry.accuracy = .exact →
        ∀ (i : Nat) column, d.file.columns[i]? = some column → column.columnId = entry.columnId →
          Describes d i column.logical (entry, payload)

structure WellFormed (d : FileData) : Prop where
  rowCount : d.file.rowCount = d.rows.length
  typed : ∀ (i : Nat) column, d.file.columns[i]? = some column → ∀ row ∈ d.rows,
    ∀ value ∈ valueAt d.file i row, HasType column.logical value

/-- The column has one id in all files. -/
def IdsAgree (state : DatasetState) (i : Nat) : Prop :=
  ∀ file ∈ state.files, ∀ column ∈ state.columns[i]?, ∀ own ∈ file.columns[i]?,
    own.columnId = column.columnId

section

variable {l r : TaggedCanonicalValue} {ordering : Ordering}

/-- What an ordering says of two keys. -/
def Tells {α : Type} [LE α] (ordering : Ordering) (a b : α) : Prop :=
  (ordering ≠ .gt → a ≤ b) ∧ (ordering ≠ .lt → b ≤ a)

theorem tells_orderingOf {α : Type} [LinearOrder α] (a b : α) : Tells (orderingOf a b) a b := by
  constructor
  · intro h
    exact le_of_not_gt fun hlt => h ((cmp_eq_gt_iff a b).mpr hlt)
  · intro h
    exact le_of_not_gt fun hlt => h ((cmp_eq_lt_iff a b).mpr hlt)

theorem Tells.number {a b : Int} (h : Tells ordering a b) :
    Tells ordering (toLex (a, ([] : Bytes))) (toLex (b, [])) := by
  simp only [Tells, Prod.Lex.toLex_le_toLex, le_refl, and_true] at h ⊢
  exact ⟨fun ho => (h.1 ho).lt_or_eq, fun ho => (h.2 ho).lt_or_eq⟩

variable {a b : Bytes}

theorem Tells.content (h : Tells ordering a b) :
    Tells ordering (toLex ((0 : Int), a)) (toLex (0, b)) := by
  simp only [Tells, Prod.Lex.toLex_le_toLex, lt_self_iff_false, true_and, false_or]
  exact h

variable {width : Nat}

theorem compareFixed_ok {key : Nat → Int} (h : compareFixed width key a b = .ok ordering) :
    Tells ordering (key (leNat a)) (key (leNat b)) := by
  obtain ⟨x, hx, h⟩ := of_andThen h
  obtain ⟨y, hy, h⟩ := of_andThen h
  rw [fixedValueBytes] at hx hy
  split at hx
  · split at hy
    · cases hx
      cases hy
      cases h
      exact tells_orderingOf _ _
    · cases hy
  · cases hx

theorem floatKey_le {a b : Nat} (h : totalKey width a ≤ totalKey width b) :
    floatKey width a ≤ floatKey width b := by
  rw [totalKey, totalKey] at h
  rw [floatKey, floatKey]
  have hcast : ((2 ^ (width - 1) : Nat) : Int) = 2 ^ (width - 1) := by push_cast; rfl
  split at h <;> split at h <;> rename_i ha hb <;> simp only [ha, hb, if_true, if_false] <;> omega

theorem canonicalUtf8_content {payload content : Bytes} (h : canonicalUtf8 P payload = .ok content) :
    contentOf payload = content := by
  obtain ⟨read, hread, h⟩ := of_andThen h
  obtain ⟨finish, -, h⟩ := of_andThen h
  iterate 2 replace h := rest_ok h
  rw [contentOf, hread]
  exact ok.inj h

theorem compare_tells (h : compareTaggedCanonical P logical l r = .ok ordering) :
    Tells ordering (readKey l) (readKey r) := by
  obtain ⟨hguard, h⟩ := of_reject h
  have htags := hguard
  obtain ⟨ltag, lpayload⟩ := l
  obtain ⟨rtag, rpayload⟩ := r
  by_cases hbool : isBoolTag ltag = true
  · have hright : isBoolTag rtag = true := by
      by_contra hright
      exact htags ⟨fun heq : ltag = rtag => hright (heq ▸ hbool), fun hboth => hright hboth.2⟩
    have hkey : ∀ tag payload, isBoolTag tag = true →
        readKey ⟨tag, payload⟩ = toLex ((boolTagValue tag : Int), []) := by
      intro tag payload htag
      cases tag <;> first | rfl | cases htag
    have hcompare : ordering = orderingOf (boolTagValue ltag) (boolTagValue rtag) := by
      cases ltag <;> first | exact (ok.inj h).symm | cases hbool
    rw [hkey ltag _ hbool, hkey rtag _ hright, hcompare]
    have hcast := tells_orderingOf (boolTagValue ltag) (boolTagValue rtag)
    exact Tells.number ⟨fun ho => Int.ofNat_le.mpr (hcast.1 ho), fun ho => Int.ofNat_le.mpr (hcast.2 ho)⟩
  · obtain rfl : ltag = rtag := by
      by_contra hne
      exact htags ⟨hne, fun hboth => hbool hboth.1⟩
    cases ltag with
    | boolFalse | boolTrue => exact absurd rfl hbool
    | int64 | uint64 | decimal128 | dateDays | timestampMicros | timestampNanos =>
      exact (compareFixed_ok h).number
    | float32Bits | float64Bits =>
      simp only at h
      split at h
      · have htells := compareFixed_ok h
        exact Tells.number ⟨fun ho => floatKey_le (htells.1 ho), fun ho => floatKey_le (htells.2 ho)⟩
      · cases h
    | utf8 =>
      obtain ⟨a, ha, h⟩ := of_andThen h
      obtain ⟨b, hb, h⟩ := of_andThen h
      cases h
      have htells := (tells_orderingOf a b).content
      rw [← canonicalUtf8_content ha, ← canonicalUtf8_content hb] at htells
      rw [← canonicalUtf8_content ha, ← canonicalUtf8_content hb]
      exact htells
    | binary =>
      cases h
      exact (tells_orderingOf lpayload rpayload).content
    | _ => cases h

end

def extremePayload (kind : MetadataSynopsisAggregateKind) : AggregatePayloadV2 →
    Option TaggedCanonicalValue
  | .minMax min max =>
    match kind with
    | .min => min
    | .max => max
    | _ => none
  | _ => none

/-- The best of the values seen, if any was. -/
def BestOf (kind : MetadataSynopsisAggregateKind) (seen : List TaggedCanonicalValue) :
    Option TaggedCanonicalValue → Prop
  | none => seen = []
  | some best => best ∈ seen ∧ ∀ other ∈ seen, Before kind (readKey best) (readKey other)

section

variable {kind : MetadataSynopsisAggregateKind}

variable {α : Type}

theorem Before.refl [Preorder α] (a : α) : Before kind a a := by
  cases kind <;> exact le_refl a

variable {a : α}

theorem Before.trans [Preorder α] {b c : α} (hab : Before kind a b) (hbc : Before kind b c) :
    Before kind a c := by
  cases kind with
  | max => exact le_trans hbc hab
  | min | sum | avg => exact le_trans hab hbc

theorem replaces_before (hkind : kind = .min ∨ kind = .max) [LE α] {ordering : Ordering}
    {candidate best : α} (h : Tells ordering candidate best) :
    if replaces kind ordering then Before kind candidate best else Before kind best candidate := by
  rcases hkind with rfl | rfl
  · cases ordering with
    | lt => exact h.1 (by decide)
    | eq | gt => exact h.2 (by decide)
  · cases ordering with
    | lt | eq => exact h.1 (by decide)
    | gt => exact h.2 (by decide)

theorem bestOf_ok (hkind : kind = .min ∨ kind = .max) {seen : List TaggedCanonicalValue}
    {best next : Option TaggedCanonicalValue} {candidate : TaggedCanonicalValue}
    (h : bestOf P logical kind best candidate = .ok next) (hbest : BestOf kind seen best) :
    BestOf kind (seen ++ [candidate]) next := by
  replace h := rest_ok h
  cases best with
  | none =>
    cases h
    rw [show seen = [] from hbest]
    refine ⟨mem_singleton_self _, fun other hother => ?_⟩
    rw [mem_singleton.mp hother]
    exact Before.refl _
  | some current =>
    obtain ⟨ordering, hordering, h⟩ := of_andThen h
    cases h
    obtain ⟨hmem, hseen⟩ := hbest
    have hreplaces := replaces_before hkind (compare_tells (mapError_eq_ok_iff.mp hordering))
    cases hcase : replaces kind ordering with
    | true =>
      rw [hcase, if_pos rfl] at hreplaces
      refine ⟨mem_append_right _ (mem_singleton_self _), fun other hother => ?_⟩
      rcases mem_append.mp hother with hother | hother
      · exact hreplaces.trans (hseen other hother)
      · rw [mem_singleton.mp hother]
        exact Before.refl _
    | false =>
      rw [hcase, if_neg (by decide)] at hreplaces
      refine ⟨mem_append_left _ hmem, fun other hother => ?_⟩
      rcases mem_append.mp hother with hother | hother
      · exact hseen other hother
      · rw [mem_singleton.mp hother]
        exact hreplaces

/-- What every step adds to the rows counted. -/
structure Counts {α : Type} (totals next : Totals α) (item : Item) : Prop where
  covered : next.coveredRows = totals.coveredRows + item.1.rowCount.toNat
  nonNull : next.nonNullRows + item.1.nullCount.toNat = totals.nonNullRows + item.1.rowCount.toNat

theorem attempt_ok {r : Except CoveError α} : attempt r = .ok a ↔ r = .ok a :=
  mapError_eq_ok_iff

theorem nonNullCount_ok {entry : AggregateEntry} {count : Nat} (h : nonNullCount entry = .ok count) :
    count + entry.nullCount.toNat = entry.rowCount.toNat := by
  obtain ⟨hguard, h⟩ := of_reject h
  have hle := UInt32.le_iff_toNat_le.mp (UInt32.not_lt.mp hguard)
  cases h
  omega

variable {totals next : Totals (Option TaggedCanonicalValue)} {item : Item}

theorem minMaxStep_ok (hkind : kind = .min ∨ kind = .max)
    (h : minMaxStep P logical kind totals item = .ok next) : Counts totals next item ∧
      ∀ seen, BestOf kind seen totals.acc →
        BestOf kind (seen ++ (extremePayload kind item.2).toList) next.acc := by
  obtain ⟨covered, hcovered, h⟩ := of_andThen h
  obtain ⟨count, hcount, h⟩ := of_andThen h
  obtain ⟨nonNull, hnonNull, h⟩ := of_andThen h
  obtain ⟨-, rfl⟩ := checkedAdd_ok_iff.mp (attempt_ok.mp hcovered)
  obtain ⟨-, rfl⟩ := checkedAdd_ok_iff.mp (attempt_ok.mp hnonNull)
  have hcount := nonNullCount_ok (attempt_ok.mp hcount)
  cases hpayload : item.2 with
  | minMax min max =>
    rw [hpayload] at h
    obtain ⟨candidate, hcandidate, h⟩ := of_andThen h
    have hextreme : extremePayload kind (.minMax min max) = candidate := by
      rcases hkind with rfl | rfl <;> exact ok.inj hcandidate
    rw [hextreme]
    cases candidate with
    | none =>
      cases h
      refine ⟨⟨rfl, ?_⟩, fun seen hseen => ?_⟩
      · simp only
        omega
      · rwa [Option.toList_none, append_nil]
    | some candidate =>
      obtain ⟨best, hbest, h⟩ := of_andThen h
      cases h
      refine ⟨⟨rfl, ?_⟩, fun seen hseen => bestOf_ok hkind hbest hseen⟩
      simp only
      omega
  | _ =>
    rw [hpayload] at h
    cases h

theorem minMax_run (hkind : kind = .min ∨ kind = .max) {items : List Item}
    {totals last : Totals (Option TaggedCanonicalValue)} {seen : List TaggedCanonicalValue}
    (h : items.foldlM (minMaxStep P logical kind) totals = .ok last)
    (hseen : BestOf kind seen totals.acc) :
    last.coveredRows = totals.coveredRows + (items.map fun i => i.1.rowCount.toNat).sum ∧
      last.nonNullRows + (items.map fun i => i.1.nullCount.toNat).sum =
        totals.nonNullRows + (items.map fun i => i.1.rowCount.toNat).sum ∧
      BestOf kind (seen ++ items.filterMap fun i => extremePayload kind i.2) last.acc := by
  induction items generalizing totals seen with
  | nil =>
    cases h
    refine ⟨rfl, rfl, ?_⟩
    rwa [filterMap_nil, append_nil]
  | cons item items ih =>
    obtain ⟨next, hnext, h⟩ := of_andThen h
    obtain ⟨hcounts, hbest⟩ := minMaxStep_ok hkind hnext
    obtain ⟨hcovered, hnonNull, hlast⟩ := ih h (hbest seen hseen)
    have hone := hcounts.covered
    have htwo := hcounts.nonNull
    refine ⟨?_, ?_, ?_⟩
    · rw [map_cons, sum_cons]
      omega
    · simp only [map_cons, sum_cons]
      omega
    · rw [append_assoc] at hlast
      have hfirst : (extremePayload kind item.2).toList ++
          items.filterMap (fun i => extremePayload kind i.2) =
          (item :: items).filterMap fun i => extremePayload kind i.2 := by
        cases hextreme : extremePayload kind item.2 <;> simp [hextreme]
      rwa [hfirst] at hlast

theorem minMaxStep_payload (h : minMaxStep P logical kind totals item = .ok next) :
    ∃ min max, item.2 = .minMax min max := by
  obtain ⟨_, -, h⟩ := of_andThen h
  obtain ⟨_, -, h⟩ := of_andThen h
  obtain ⟨_, -, h⟩ := of_andThen h
  cases hpayload : item.2 with
  | minMax min max => exact ⟨min, max, rfl⟩
  | _ =>
    rw [hpayload] at h
    cases h

theorem foldlM_forall {σ α : Type} {f : σ → α → Attempt σ} {q : α → Prop}
    (hq : ∀ {s t a}, f s a = .ok t → q a) {as : List α} {s t : σ} (h : as.foldlM f s = .ok t) :
    ∀ a ∈ as, q a := by
  induction as generalizing s with
  | nil => exact fun _ ha => absurd ha not_mem_nil
  | cons a as ih =>
    obtain ⟨u, hu, h⟩ := of_andThen h
    exact forall_mem_cons.mpr ⟨hq hu, ih h⟩

theorem extreme_of_describes (hkind : kind = .min ∨ kind = .max) {i : Nat} {rows : List DataRow}
    {values : List TaggedCanonicalValue} {min max : Option TaggedCanonicalValue}
    (h : PayloadDescribes i logical rows values (.minMax min max)) :
    (∀ v ∈ extremePayload kind (.minMax min max), IsExtreme kind v values) ∧
      (extremePayload kind (.minMax min max) = none → values = []) := by
  rcases hkind with rfl | rfl
  · exact h.1
  · exact h.2

end

section

variable {state : DatasetState} {data : List FileData}

variable {i : Nat} {column : Column}

theorem own_column {file : FileMetadata} (hfile : file ∈ state.files)
    (hcolumn : state.columns[i]? = some column) : ∃ own, file.columns[i]? = some own ∧
      own.logical = column.logical ∧ own.physical = column.physical := by
  have hsame : file.columns.map (fun c => (c.logical, c.physical)) =
      state.columns.map fun c => (c.logical, c.physical) := by
    rcases mem_cons.mp hfile with rfl | hrest
    · rfl
    · exact state.compatible file hrest
  have hat := congrArg (·[i]?) hsame
  simp only [List.getElem?_map, hcolumn, Option.map_some] at hat
  obtain ⟨own, hown, heq⟩ := Option.map_eq_some_iff.mp hat
  exact ⟨own, hown, congrArg Prod.fst heq, congrArg Prod.snd heq⟩

variable {kind : SynopsisKind} {itemss : List (List Item)}

section

variable (hstate : state.files = data.map FileData.file)
include hstate

theorem located_describes (htruthful : ∀ d ∈ data, Truthful d)
    (hcolumn : state.columns[i]? = some column) (hids : IdsAgree state i)
    (hentries : Forall₂ (fun d items => exactPayloadEntriesForFile (FileData.file d)
      column.columnId kind = .ok items) data itemss) :
    ∀ p ∈ located data itemss, Describes p.1 i column.logical p.2 := by
  intro p hp
  obtain ⟨hd, hcandidate⟩ := mem_located hentries hp
  have hfile : p.1.file ∈ state.files := hstate ▸ mem_map_of_mem hd
  obtain ⟨own, hown, hlogical, -⟩ := own_column hfile hcolumn
  obtain ⟨synopsis, hsynopsis, j, hentry, hpayload⟩ := hcandidate.stored
  have hid := (hids _ hfile column hcolumn own hown).trans hcandidate.column.symm
  exact hlogical ▸ htruthful p.1 hd synopsis hsynopsis j _ _ hentry hpayload hcandidate.table
    hcandidate.exact i own hown hid

theorem state_rowCount (hwell : ∀ d ∈ data, WellFormed d) :
    state.rowCount = (data.map fun d => d.rows.length).sum := by
  rw [DatasetState.rowCount, hstate, map_map]
  exact congrArg List.sum (map_congr_left fun d hd => (hwell d hd).rowCount)

theorem column_typed (hwell : ∀ d ∈ data, WellFormed d) (hcolumn : state.columns[i]? = some column) :
    ∀ value ∈ columnValues i data, HasType column.logical value := by
  intro value hvalue
  obtain ⟨d, hd, hrows⟩ := mem_flatMap.mp hvalue
  obtain ⟨row, hrow, hat⟩ := mem_filterMap.mp hrows
  obtain ⟨own, hown, hlogical, -⟩ := own_column (hstate ▸ mem_map_of_mem hd) hcolumn
  exact hlogical ▸ (hwell d hd).typed i own hown row hrow value hat

end

theorem covered_values
    (hentries : Forall₂ (fun d items => exactPayloadEntriesForFile (FileData.file d)
      column.columnId kind = .ok items) data itemss)
    (hdescribes : ∀ p ∈ located data itemss, Describes p.1 i column.logical p.2)
    (hsum : (((located data itemss).map Prod.snd).map fun item => item.1.rowCount.toNat).sum =
      (data.map fun d => d.rows.length).sum) :
    ((located data itemss).flatMap fun p => scopeValues i p.1 p.2.1).Perm (columnValues i data) := by
  rw [map_map] at hsum
  exact located_values hentries (fun p hp => (hdescribes p hp).rows) hsum i

theorem nonNull_values {ps : List (FileData × Item)} {logical : CoveLogicalType}
    (hdescribes : ∀ p ∈ ps, Describes p.1 i logical p.2) :
    (ps.flatMap fun p => scopeValues i p.1 p.2.1).length +
        ((ps.map Prod.snd).map fun item => item.1.nullCount.toNat).sum =
      ((ps.map Prod.snd).map fun item => item.1.rowCount.toNat).sum := by
  induction ps with
  | nil => rfl
  | cons p ps ih =>
    obtain ⟨hfirst, hrest⟩ := forall_mem_cons.mp hdescribes
    have hih := ih hrest
    have hrows := hfirst.rows
    have hnulls := hfirst.nulls
    simp only [flatMap_cons, length_append, map_cons, sum_cons]
    omega

end

end CoveFormat.AggregateValues
