import CoveFormat.CanonicalIdentity
import CoveFormat.MorselLookup
import CoveFormat.RangeMerging

namespace CoveFormat.CoviCandidates

open EncodedArrays (CoveArrayValue logicalTypeFixedWidth)
open ByteCodes Canonical CanonicalIdentity CheckedArith CoveTypes ExceptRules Floats JsonValue
  LookupKeys MorselScan MorselLookup NumCodes RangeMerging SortedKeys Wire List

/-- A predicate with the canonical values and keys that its file codes were resolved from. Both
are empty for a predicate that is not on file codes. -/
structure CanonicalPredicate where
  predicate : CovePredicate
  (canonicalValues canonicalKeys : List Bytes)
  deriving DecidableEq

inductive CoviLookupOp
  | eq
  | membership
  deriving DecidableEq

structure CoviLookupRequest where
  (tableId columnId : Nat)
  op : CoviLookupOp
  lowerKey : Bytes
  membershipKeys : List Bytes

namespace CoviLookupRequest

variable (tableId columnId : Nat)

def ofEq (key : Bytes) : CoviLookupRequest :=
  ⟨tableId, columnId, .eq, key, []⟩

def ofMembership (keys : List Bytes) : CoviLookupRequest :=
  ⟨tableId, columnId, .membership, keys.headD [], keys.tail⟩

end CoviLookupRequest

structure RowMorselEntry where
  (morselId firstRowInSegment rowCount : Nat)

structure SegmentEntry where
  (segmentId rowStart : Nat)
  rowMorsels : Except CoveError (List RowMorselEntry)

/-- The table of a dataset view of one file, with the index that is mounted on it. -/
structure TableState where
  tableId : Nat
  columns : Nat → TableColumn
  segments : Except CoveError (List SegmentEntry)
  covi : Option (CoviLookupRequest → Except CoveError (List ScanCandidateRowRange))

def valueTagForLogical : CoveLogicalType → Option ValueTag
  | .utf8 => some .utf8
  | .binary => some .binary
  | .int8 | .int16 | .int32 | .int64 => some .int64
  | .uint8 | .uint16 | .uint32 | .uint64 => some .uint64
  | .float32 => some .float32Bits
  | .float64 => some .float64Bits
  | .dateDays => some .dateDays
  | .timestampMicros => some .timestampMicros
  | .timestampNanos => some .timestampNanos
  | .uuid => some .uuid
  | .json => some .json
  | .decimal64 => some .decimal64
  | .decimal128 => some .decimal128
  | _ => none

def taggedKey (tag : ValueTag) (payload : Bytes) : Bytes := encodeU64Leb128 tag.code ++ payload

def taggedCanonical {P : TextPredicates} (value : CanonicalValue P) : Except CoveError Bytes :=
  (encode value).map (taggedKey value.valueTag)

section

variable (P : TextPredicates)

def numericCanonicalKey (logical : CoveLogicalType) (literal : PredicateLiteral) :
    Except CoveError Bytes :=
  match logical, literal with
  | .int64, .int64 value => taggedCanonical (.int 8 value.toInt : CanonicalValue P)
  | .uint64, .uint64 value => taggedCanonical (.uint 8 value.toNat : CanonicalValue P)
  | .float64, .float64 bits => taggedCanonical (.float64 bits.toBitVec : CanonicalValue P)
  | _, _ => .error .badCovi

def numericInKeys (logical : CoveLogicalType) (literals : List PredicateLiteral) : List Bytes :=
  literals.foldl (fun keys literal =>
    match numericCanonicalKey P logical literal with
    | .error _ => keys
    | .ok key => if key ∈ keys then keys else keys ++ [key]) []

variable (state : TableState)

def lookupKeysForPredicate (predicate : CanonicalPredicate) : Option (Nat × List Bytes) :=
  match predicate.predicate with
  | .fileCodeIn i _ =>
    if predicate.canonicalKeys ≠ [] then some (i, predicate.canonicalKeys)
    else (valueTagForLogical (state.columns i).logical).map fun tag =>
      (i, predicate.canonicalValues.map (taggedKey tag))
  | .varBytesEq i literal =>
    match (state.columns i).logical with
    | .utf8 =>
      if h : P.utf8Valid literal then
        (taggedCanonical (.utf8 ⟨literal, h⟩ : CanonicalValue P)).toOption.map fun key => (i, [key])
      else none
    | .binary =>
      (taggedCanonical (.bytes literal : CanonicalValue P)).toOption.map fun key => (i, [key])
    | _ => none
  | .numeric i .eq literal =>
    (numericCanonicalKey P (state.columns i).logical literal).toOption.map fun key => (i, [key])
  | .numericIn i literals =>
    let keys := numericInKeys P (state.columns i).logical literals
    if keys ≠ [] then some (i, keys) else none
  | _ => none

def lookupRequest (i : Nat) (keys : List Bytes) : CoviLookupRequest :=
  if keys.length = 1 then .ofEq state.tableId (state.columns i).columnId (keys.headD [])
  else .ofMembership state.tableId (state.columns i).columnId keys

def lookup (covi : CoviLookupRequest → Except CoveError (List ScanCandidateRowRange))
    (request : CoviLookupRequest) : Except CoveError (List ScanCandidateRowRange) := do
  rejectIf (request.op = .membership ∧ request.membershipKeys = [] ∧ request.lowerKey = []) .badCovi
  covi request

def coviAnswer (covi : CoviLookupRequest → Except CoveError (List ScanCandidateRowRange)) :
    List (Option CanonicalPredicate) → Option (CanonicalPredicate × List ScanCandidateRowRange)
  | [] => none
  | none :: filters => coviAnswer covi filters
  | some predicate :: filters =>
    match lookupKeysForPredicate P state predicate with
    | none => coviAnswer covi filters
    | some (i, keys) =>
      match lookup covi (lookupRequest state i keys) with
      | .error _ => coviAnswer covi filters
      | .ok rows => some (predicate, rows)

def validateCoviCandidateRange (segments : List SegmentEntry) (row : ScanCandidateRowRange) :
    Except CoveError Unit :=
  -- of two segments of one number the map keeps the later
  match segments.reverse.find? (·.segmentId = row.segmentId) with
  | none => .error .badCovi
  | some segment => do
      let morsels ← segment.rowMorsels
      match morsels.find? (·.morselId = row.morselId) with
      | none => .error .badCovi
      | some morsel =>
        let scopeStart ← checkedAdd segment.rowStart morsel.firstRowInSegment
        let scopeEnd ← checkedAdd scopeStart morsel.rowCount
        let rowEnd ← checkedAdd row.rowStart row.rowCount
        rejectIf (row.rowStart < scopeStart ∨ scopeEnd < rowEnd) .badCovi

def validateCoviCandidateRanges (rows : List ScanCandidateRowRange) : Except CoveError Unit :=
  if rows = [] then .ok ()
  else do
    let segments ← state.segments
    checkAll (validateCoviCandidateRange segments) rows

def coviCandidatesForFilters (filters : List (Option CanonicalPredicate)) :
    Option (List ScanCandidateRowRange) := do
  let covi ← state.covi
  let answer ← coviAnswer P state covi filters
  let rows ← (normalizeScanCandidateRanges answer.2).toOption
  let _ ← (validateCoviCandidateRanges state rows).toOption
  some rows

end

structure TableRow where
  (segmentId morselId row : Nat)
  value : Nat → CoveArrayValue

/-- The rows of the table and the dictionary of its file. -/
structure TableData where
  dictionary : Nat → UInt32 → Option (ValueTag × Bytes)
  rows : List TableRow

section

variable (P : TextPredicates) (state : TableState) (data : TableData)

def numberValue (logical : CoveLogicalType) (code : UInt64) : Option (CanonicalValue P) :=
  match logical with
  | .bool => some (.bool (code ≠ 0))
  | .float32 => some (.float32 (BitVec.ofNat 32 code.toNat))
  | .float64 => some (.float64 code.toBitVec)
  | .decimal64 => some (.decimal64 code.toBitVec)
  | .dateDays => some (.dateDays (BitVec.ofNat 32 code.toNat))
  | .timestampMicros => some (.timestampMicros code.toBitVec)
  | .timestampNanos => some (.timestampNanos code.toBitVec)
  | _ =>
    match signedWidth logical, unsignedWidth logical with
    | some w, _ => some (.int 8 (signed w code.toNat))
    | none, some w => some (.uint 8 (code.toNat % 2 ^ w))
    | none, none => none

def bytesValue (logical : CoveLogicalType) (value : Bytes) : Option (CanonicalValue P) :=
  match logical with
  | .utf8 => if h : P.utf8Valid value then some (.utf8 ⟨value, h⟩) else none
  | .json => if h : P.utf8Valid value then some (.json ⟨value, h⟩) else none
  | .binary => some (.bytes value)
  | .uuid => if h : value.length = 16 then some (.uuid ⟨value, h⟩) else none
  | _ => none

def cellNumber (logical : CoveLogicalType) (value : CoveArrayValue) : Option (CanonicalValue P) :=
  (numCodeOf logical value).bind (numberValue P logical)

def rowKey (row : TableRow) (i : Nat) : Option Bytes :=
  match row.value i with
  | .fileCode code => (data.dictionary i code).map fun entry => taggedKey entry.1 entry.2
  | .bytes value | .ownedBytes value =>
    ((cellNumber P (state.columns i).logical (.bytes value)).or
      (bytesValue P (state.columns i).logical value)).bind fun value =>
        (taggedCanonical value).toOption
  | value =>
    (cellNumber P (state.columns i).logical value).bind fun value => (taggedCanonical value).toOption

/-- The predicate is TRUE on the row. -/
def Holds (predicate : CovePredicate) (row : TableRow) : Prop :=
  isTrueValue (state.columns (predicateColumnIndex predicate)).logical predicate
    (row.value (predicateColumnIndex predicate)) = true

/-- Every answer covers the rows that have a requested key in the column. -/
def Truthful (covi : CoviLookupRequest → Except CoveError (List ScanCandidateRowRange)) : Prop :=
  ∀ request ranges, covi request = .ok ranges → request.tableId = state.tableId →
    ∀ i, (state.columns i).columnId = request.columnId → ∀ row ∈ data.rows,
      ∀ key ∈ request.lowerKey :: request.membershipKeys, rowKey P state data row i = some key →
        Covers ranges row.segmentId row.morselId row.row

/-- The file codes of the predicate are those of its canonical keys or values, where it has any. -/
def Resolved (predicate : CanonicalPredicate) : Prop :=
  match predicate.predicate with
  | .fileCodeIn i codes =>
    predicate.canonicalKeys = [] ∧ predicate.canonicalValues = [] ∨
      ∀ code ∈ codes, ∃ tag payload, data.dictionary i code = some (tag, payload) ∧
        if predicate.canonicalKeys ≠ [] then taggedKey tag payload ∈ predicate.canonicalKeys
        else payload ∈ predicate.canonicalValues ∧
          ∀ t ∈ valueTagForLogical (state.columns i).logical, tag = t
  | _ => True

/-- The literal has a key, and it is that of the code: the kinds agree, and the two are not the
zeros of different signs. -/
def KeyFits (logical : CoveLogicalType) (code : UInt64) (literal : PredicateLiteral) : Prop :=
  match logical, literal with
  | .int64, .int64 _ | .uint64, .uint64 _ => True
  | .float64, .float64 bits =>
    ¬ (f64Magnitude bits.toNat = 0 ∧ f64Magnitude code.toNat = 0 ∧ bits ≠ code)
  | _, _ => False

def equalityLiterals : CovePredicate → List PredicateLiteral
  | .numeric _ .eq literal => [literal]
  | .numericIn _ literals => literals
  | _ => []

/-- The number of the row equals literals of the predicate, none of which has its key. -/
def Misses (predicate : CovePredicate) (row : TableRow) : Prop :=
  ∃ code, numCodeOf (state.columns (predicateColumnIndex predicate)).logical
      (row.value (predicateColumnIndex predicate)) = some code ∧
    (∃ literal ∈ equalityLiterals predicate, compareNativeNumcodeValue
      (state.columns (predicateColumnIndex predicate)).logical code.toNat .eq literal = some true) ∧
    ∀ literal ∈ equalityLiterals predicate,
      compareNativeNumcodeValue (state.columns (predicateColumnIndex predicate)).logical code.toNat
          .eq literal = some true →
        ¬ KeyFits (state.columns (predicateColumnIndex predicate)).logical code literal

end

section

variable {P : TextPredicates} {state : TableState} {data : TableData}

theorem taggedCanonical_int {n : Int} (h : -2 ^ 63 ≤ n ∧ n < 2 ^ 63) :
    ∃ key, taggedCanonical (.int 8 n : CanonicalValue P) = .ok key := by
  refine ⟨_, map_eq_ok_iff.mpr ⟨leBytes 8 (unsigned 64 n), ?_, rfl⟩⟩
  rw [encode, encodeI64Width, if_pos (by decide), if_pos]
  omega

theorem taggedCanonical_uint {n : Nat} (h : n < 2 ^ 64) :
    ∃ key, taggedCanonical (.uint 8 n : CanonicalValue P) = .ok key := by
  refine ⟨_, map_eq_ok_iff.mpr ⟨leBytes 8 (n % 2 ^ 64), ?_, rfl⟩⟩
  rw [encode, encodeU64Width, if_pos (by decide), if_pos]
  omega

variable {code : UInt64}

theorem int64_eq {value : Int64}
    (h : compareNativeNumcodeValue .int64 code.toNat .eq (.int64 value) = some true) :
    signed 64 code.toNat = value.toInt :=
  of_decide_eq_true (Option.some.inj h)

theorem uint64_eq {value : UInt64}
    (h : compareNativeNumcodeValue .uint64 code.toNat .eq (.uint64 value) = some true) :
    code.toNat % 2 ^ 64 = value.toNat :=
  Int.ofNat.inj (of_decide_eq_true (Option.some.inj h))

theorem float64_eq {bits : UInt64}
    (h : compareNativeNumcodeValue .float64 code.toNat .eq (.float64 bits) = some true)
    (hfits : KeyFits .float64 code (.float64 bits)) : code = bits := by
  rw [compareNativeNumcodeValue, typedNativeNumcodeValue, Option.map_some, Option.some.injEq,
    compareNativeTypedNumericValue, predicateLiteralAsF64] at h
  by_cases hnan : f64IsNan bits.toNat = true
  · simp [hnan] at h
  · simp only [hnan, Bool.false_eq_true, if_false, float64_compare] at h
    rcases (f64Key_eq_iff code.toNat_lt bits.toNat_lt).mp (f64Compare_eq_iff.mp h).2 with heq | hzeros
    · exact UInt64.toNat_inj.mp heq
    · by_contra hne
      exact hfits ⟨hzeros.2, hzeros.1, fun heq => hne heq.symm⟩

theorem key_of_fits {logical : CoveLogicalType} {code : UInt64} {literal : PredicateLiteral}
    (heq : compareNativeNumcodeValue logical code.toNat .eq literal = some true)
    (hfits : KeyFits logical code literal) :
    ∃ key, numericCanonicalKey P logical literal = .ok key ∧
      (numberValue P logical code).bind (fun value => (taggedCanonical value).toOption) = some key := by
  match logical, literal, hfits with
  | .int64, .int64 value, _ =>
    have hbounds := signed_bounds 64 code.toNat
    have hvalue := int64_eq heq
    obtain ⟨key, hkey⟩ := @taggedCanonical_int P (signed 64 code.toNat) hbounds
    refine ⟨key, ?_, congrArg Except.toOption hkey⟩
    rw [numericCanonicalKey, ← hvalue, hkey]
  | .uint64, .uint64 value, _ =>
    have hvalue := uint64_eq heq
    obtain ⟨key, hkey⟩ := @taggedCanonical_uint P (code.toNat % 2 ^ 64) (Nat.mod_lt _ (by decide))
    refine ⟨key, ?_, congrArg Except.toOption hkey⟩
    rw [numericCanonicalKey, ← hvalue, hkey]
  | .float64, .float64 bits, hfits =>
    obtain rfl := float64_eq heq hfits
    exact ⟨_, rfl, rfl⟩

variable {literals : List PredicateLiteral}

theorem mem_numericInKeys {logical : CoveLogicalType} {key : Bytes} : key ∈ numericInKeys P logical literals ↔
      ∃ literal ∈ literals, numericCanonicalKey P logical literal = .ok key := by
  have hfold : ∀ keys : List Bytes, key ∈ literals.foldl (fun keys literal =>
      match numericCanonicalKey P logical literal with
      | .error _ => keys
      | .ok key => if key ∈ keys then keys else keys ++ [key]) keys ↔
      key ∈ keys ∨ ∃ literal ∈ literals, numericCanonicalKey P logical literal = .ok key := by
    induction literals with
    | nil => simp
    | cons literal literals ih =>
      intro keys
      rw [foldl_cons, ih, exists_mem_cons_iff, ← or_assoc]
      refine or_congr_left ?_
      cases numericCanonicalKey P logical literal with
      | error e => simp
      | ok added =>
        by_cases hadded : added ∈ keys
        · simp only [if_pos hadded, Except.ok.injEq, iff_self_or]
          rintro rfl
          exact hadded
        · simp [if_neg hadded, eq_comm]
  rw [numericInKeys, hfold]
  simp

variable {i : Nat} {row : TableRow}

theorem holds_numeric {literal : PredicateLiteral} (h : Holds state (.numeric i .eq literal) row) :
    ∃ code, numCodeOf (state.columns i).logical (row.value i) = some code ∧
      compareNativeNumcodeValue (state.columns i).logical code.toNat .eq literal = some true :=
  numberMatches_iff.mp h

theorem holds_numericIn (h : Holds state (.numericIn i literals) row) :
    ∃ code, numCodeOf (state.columns i).logical (row.value i) = some code ∧
      ∃ literal ∈ literals, compareNativeNumcodeValue (state.columns i).logical code.toNat .eq
        literal = some true := by
  obtain ⟨literal, hliteral, hmatches⟩ := any_eq_true.mp h
  obtain ⟨code, hcode, htrue⟩ := numberMatches_iff.mp hmatches
  exact ⟨code, hcode, literal, hliteral, htrue⟩

theorem rowKey_number {code : UInt64} {number : CanonicalValue P}
    (hcode : numCodeOf (state.columns i).logical (row.value i) = some code)
    (hnumber : numberValue P (state.columns i).logical code = some number) :
    rowKey P state data row i = (taggedCanonical number).toOption := by
  have hcell : cellNumber P (state.columns i).logical (row.value i) = some number := by
    rw [cellNumber, hcode, Option.bind_some, hnumber]
  rw [rowKey]
  cases hvalue : row.value i with
  | null | fileCode | dictValue =>
    rw [hvalue] at hcode
    cases hcode
  | bytes value | ownedBytes value =>
    rw [hvalue] at hcell
    have hcell : cellNumber P (state.columns i).logical (.bytes value) = some number := hcell
    simp only [hcell, Option.some_or, Option.bind_some]
  | varint | int64 | numCode | boolean | validityBit =>
    rw [hvalue] at hcell
    simp only [hcell, Option.bind_some]

theorem misses_or_key {p : CovePredicate} {row : TableRow} {code : UInt64}
    {literal : PredicateLiteral} (hvalue : numCodeOf (state.columns (predicateColumnIndex p)).logical
      (row.value (predicateColumnIndex p)) = some code)
    (hliteral : literal ∈ equalityLiterals p) (heq : compareNativeNumcodeValue
      (state.columns (predicateColumnIndex p)).logical code.toNat .eq literal = some true) :
    Misses state p row ∨ ∃ literal ∈ equalityLiterals p, ∃ key,
      numericCanonicalKey P (state.columns (predicateColumnIndex p)).logical literal = .ok key ∧
        rowKey P state data row (predicateColumnIndex p) = some key := by
  by_cases hmisses : Misses state p row
  · exact .inl hmisses
  · obtain ⟨fit, hfit⟩ : ∃ literal ∈ equalityLiterals p, compareNativeNumcodeValue
        (state.columns (predicateColumnIndex p)).logical code.toNat .eq literal = some true ∧
        KeyFits (state.columns (predicateColumnIndex p)).logical code literal := by
      by_contra hnone
      exact hmisses ⟨code, hvalue, ⟨literal, hliteral, heq⟩, fun l hl he hfits =>
        hnone ⟨l, hl, he, hfits⟩⟩
    obtain ⟨hmem, hequal, hfits⟩ := hfit
    obtain ⟨key, hkey, hrow⟩ := @key_of_fits P _ _ _ hequal hfits
    obtain ⟨number, hnumber, hrow⟩ := Option.bind_eq_some_iff.mp hrow
    exact .inr ⟨fit, hmem, key, hkey, (rowKey_number hvalue hnumber).trans hrow⟩

variable {p : CanonicalPredicate} {j : Nat} {keys : List Bytes}

theorem key_fileCodeIn {codes : List UInt32} (hp : p.predicate = .fileCodeIn j codes)
    (hresolved : Resolved state data p) (hkeys : lookupKeysForPredicate P state p = some (i, keys))
    (hne : keys ≠ []) (hholds : Holds state (.fileCodeIn j codes) row) :
    ∃ key ∈ keys, rowKey P state data row i = some key := by
  obtain ⟨code, hvalue, hmem⟩ := compareFileCode_true.mp (eq_of_beq hholds)
  simp only [predicateColumnIndex] at hvalue
  simp only [decide_eq_true_eq] at hmem
  simp only [lookupKeysForPredicate, hp] at hkeys
  simp only [Resolved, hp] at hresolved
  rcases hresolved with ⟨hnoKeys, hnoValues⟩ | hcodes
  · rw [if_neg (not_not.mpr hnoKeys), hnoValues] at hkeys
    obtain ⟨tag, -, heq⟩ := Option.map_eq_some_iff.mp hkeys
    exact absurd (Prod.mk.inj heq).2.symm hne
  · obtain ⟨tag, payload, hentry, hcanonical⟩ := hcodes code hmem
    by_cases hnoKeys : p.canonicalKeys = []
    · rw [if_neg (not_not.mpr hnoKeys)] at hkeys hcanonical
      obtain ⟨t, ht, heq⟩ := Option.map_eq_some_iff.mp hkeys
      obtain ⟨rfl, rfl⟩ := Prod.mk.inj heq
      refine ⟨taggedKey t payload, mem_map_of_mem hcanonical.1, ?_⟩
      rw [rowKey, hvalue, ← hcanonical.2 t ht]
      exact congrArg (Option.map _) hentry
    · rw [if_pos hnoKeys] at hkeys hcanonical
      obtain ⟨rfl, rfl⟩ := Prod.mk.inj (Option.some.inj hkeys)
      refine ⟨taggedKey tag payload, hcanonical, ?_⟩
      rw [rowKey, hvalue]
      exact congrArg (Option.map _) hentry

theorem holds_varBytesEq {literal : Bytes} (h : Holds state (.varBytesEq j literal) row) :
    row.value j = .bytes literal ∨ row.value j = .ownedBytes literal := by
  have hkeeps : compareBytes (fun bytes => bytes = literal) (row.value j) = some true := eq_of_beq h
  cases hvalue : row.value j with
  | bytes value | ownedBytes value =>
    rw [hvalue] at hkeeps
    simpa [compareBytes] using hkeeps
  | null | numCode | fileCode | varint | int64 | dictValue | boolean | validityBit =>
    rw [hvalue] at hkeeps
    cases hkeeps

theorem rowKey_bytes {literal : Bytes}
    (hvalue : row.value j = .bytes literal ∨ row.value j = .ownedBytes literal)
    (hwidth : logicalTypeFixedWidth (state.columns j).logical = none) :
    rowKey P state data row j = (bytesValue P (state.columns j).logical literal).bind fun value =>
      (taggedCanonical value).toOption := by
  have hcell : cellNumber P (state.columns j).logical (.bytes literal) = none := by
    simp [cellNumber, numCodeOf, hwidth]
  rw [rowKey]
  rcases hvalue with hvalue | hvalue <;> simp only [hvalue, hcell, Option.none_or]

theorem key_varBytesEq {literal : Bytes} (hp : p.predicate = .varBytesEq j literal)
    (hkeys : lookupKeysForPredicate P state p = some (i, keys))
    (hholds : Holds state (.varBytesEq j literal) row) :
    ∃ key ∈ keys, rowKey P state data row i = some key := by
  have hvalue := holds_varBytesEq hholds
  simp only [lookupKeysForPredicate, hp] at hkeys
  cases hlogical : (state.columns j).logical with
  | utf8 =>
    simp only [hlogical] at hkeys
    split at hkeys
    · rename_i hvalid
      obtain ⟨key, hkey, heq⟩ := Option.map_eq_some_iff.mp hkeys
      obtain ⟨rfl, rfl⟩ := Prod.mk.inj heq
      refine ⟨key, mem_cons_self, ?_⟩
      rw [rowKey_bytes hvalue (by rw [hlogical]; rfl)]
      simp only [bytesValue, hlogical, dif_pos hvalid, Option.bind_some, hkey]
    · cases hkeys
  | binary =>
    simp only [hlogical] at hkeys
    obtain ⟨key, hkey, heq⟩ := Option.map_eq_some_iff.mp hkeys
    obtain ⟨rfl, rfl⟩ := Prod.mk.inj heq
    refine ⟨key, mem_cons_self, ?_⟩
    rw [rowKey_bytes hvalue (by rw [hlogical]; rfl)]
    simp only [bytesValue, hlogical, Option.bind_some, hkey]
  | _ =>
    simp only [hlogical] at hkeys
    cases hkeys

theorem key_requested (hresolved : Resolved state data p)
    (hkeys : lookupKeysForPredicate P state p = some (i, keys)) (hne : keys ≠ [])
    (hholds : Holds state p.predicate row) :
    Misses state p.predicate row ∨ ∃ key ∈ keys, rowKey P state data row i = some key := by
  cases hp : p.predicate with
  | fileCodeIn j codes =>
    exact .inr (key_fileCodeIn hp hresolved hkeys hne (hp ▸ hholds))
  | varBytesEq j literal => exact .inr (key_varBytesEq hp hkeys (hp ▸ hholds))
  | numeric j op literal =>
    rw [hp] at hholds
    simp only [lookupKeysForPredicate, hp] at hkeys
    cases op with
    | eq =>
      obtain ⟨key, hkey, heq⟩ := Option.map_eq_some_iff.mp hkeys
      obtain ⟨rfl, rfl⟩ := Prod.mk.inj heq
      obtain ⟨code, hvalue, hequal⟩ := holds_numeric hholds
      refine (@misses_or_key P _ data (.numeric j .eq literal) _ _ _ hvalue mem_cons_self
        hequal).imp_right ?_
      rintro ⟨l, hl, k, hk, hrow⟩
      obtain rfl := mem_singleton.mp hl
      obtain rfl := Except.ok.inj ((toOption_eq_some_iff.mp hkey).symm.trans hk)
      exact ⟨_, mem_cons_self, hrow⟩
    | lt | ltEq | gt | gtEq => cases hkeys
  | numericIn j literals =>
    rw [hp] at hholds
    simp only [lookupKeysForPredicate, hp] at hkeys
    split at hkeys
    · obtain ⟨rfl, rfl⟩ := Prod.mk.inj (Option.some.inj hkeys)
      obtain ⟨code, hvalue, literal, hliteral, hequal⟩ := holds_numericIn hholds
      refine (@misses_or_key P _ data (.numericIn j literals) _ _ _ hvalue hliteral
        hequal).imp_right ?_
      rintro ⟨l, hl, k, hk, hrow⟩
      exact ⟨k, mem_numericInKeys.mpr ⟨l, hl, hk⟩, hrow⟩
    · cases hkeys
  | null | numericNotIn | fileCodeNotIn | fixedBytesEq | fixedBytesIn | varBytesIn
  | varBytesPrefix =>
    simp only [lookupKeysForPredicate, hp] at hkeys
    cases hkeys

theorem requested_keys (state : TableState) (i : Nat) (hne : keys ≠ []) :
    (lookupRequest state i keys).lowerKey :: (lookupRequest state i keys).membershipKeys = keys := by
  obtain ⟨key, rest, rfl⟩ := exists_cons_of_ne_nil hne
  rw [lookupRequest]
  split
  · rename_i hone
    rw [length_eq_zero_iff.mp (Nat.succ.inj hone)]
    rfl
  · rfl

variable {covi : CoviLookupRequest → Except CoveError (List ScanCandidateRowRange)}
  {rows : List ScanCandidateRowRange}

theorem lookup_ok (h : lookup covi (lookupRequest state i keys) = .ok rows) :
    keys ≠ [] ∧ covi (lookupRequest state i keys) = .ok rows := by
  obtain ⟨hguard, hrows⟩ := of_reject h
  refine ⟨?_, hrows⟩
  rintro rfl
  exact hguard ⟨rfl, rfl, rfl⟩

theorem request_column (state : TableState) (i : Nat) (keys : List Bytes) :
    (lookupRequest state i keys).tableId = state.tableId ∧
      (lookupRequest state i keys).columnId = (state.columns i).columnId := by
  rw [lookupRequest]
  split <;> exact ⟨rfl, rfl⟩

variable {filters : List (Option CanonicalPredicate)}

theorem coviAnswer_cases (h : coviAnswer P state covi filters = some (p, rows)) :
    some p ∈ filters ∧ ∃ i keys, lookupKeysForPredicate P state p = some (i, keys) ∧
      lookup covi (lookupRequest state i keys) = .ok rows := by
  induction filters with
  | nil => cases h
  | cons filter filters ih =>
    cases filter with
    | none => exact (ih h).imp_left (mem_cons_of_mem _)
    | some predicate =>
      rw [coviAnswer] at h
      split at h
      · exact (ih h).imp_left (mem_cons_of_mem _)
      · rename_i i keys hkeys
        split at h
        · exact (ih h).imp_left (mem_cons_of_mem _)
        · rename_i answer hanswer
          obtain ⟨rfl, rfl⟩ := Prod.mk.inj (Option.some.inj h)
          exact ⟨mem_cons_self, i, keys, hkeys, hanswer⟩

variable {answer : List ScanCandidateRowRange}

theorem answer_covers (htruthful : Truthful P state data covi)
    (hresolved : ∀ p, some p ∈ filters → Resolved state data p)
    (hanswer : coviAnswer P state covi filters = some (p, answer)) (hrow : row ∈ data.rows)
    (hholds : ∀ q, some q ∈ filters → Holds state q.predicate row) :
    Misses state p.predicate row ∨ Covers answer row.segmentId row.morselId row.row := by
  obtain ⟨hmem, i, keys, hkeys, hlookup⟩ := coviAnswer_cases hanswer
  obtain ⟨hne, hcovi⟩ := lookup_ok hlookup
  obtain ⟨htable, hcolumn⟩ := request_column state i keys
  refine (key_requested (hresolved p hmem) hkeys hne (hholds p hmem)).imp_right ?_
  rintro ⟨key, hkey, hrowKey⟩
  exact htruthful _ _ hcovi htable i hcolumn.symm row hrow key
    ((requested_keys state i hne).symm ▸ hkey) hrowKey

theorem candidates_normalized (hcovi : state.covi = some covi) {ranges : List ScanCandidateRowRange}
    (hanswer : coviAnswer P state covi filters = some (p, answer))
    (hranges : coviCandidatesForFilters P state filters = some ranges) :
    normalizeScanCandidateRanges answer = .ok ranges := by
  rw [coviCandidatesForFilters, hcovi] at hranges
  simp only [Option.bind_eq_bind, Option.bind_some, hanswer, Option.bind_eq_some_iff,
    toOption_eq_some_iff] at hranges
  obtain ⟨out, hout, -, -, heq⟩ := hranges
  rw [hout, Option.some.inj heq]

/-- Normalizing keeps the rows exactly where no range ends after the last of its run. The
candidates keep them and lose no row of the filters exactly where that holds of the answer and the
answer covers, beyond what was asked, the rows that the literals of the looked up filter miss. -/
theorem covi_candidates_iff {covi : CoviLookupRequest → Except CoveError (List ScanCandidateRowRange)}
    (hcovi : state.covi = some covi) (htruthful : Truthful P state data covi)
    {filters : List (Option CanonicalPredicate)}
    (hresolved : ∀ p, some p ∈ filters → Resolved state data p) :
    (∀ rows out, normalizeScanCandidateRanges rows = .ok out →
      ((∀ segmentId morselId r, Covers out segmentId morselId r ↔ Covers rows segmentId morselId r) ↔
        EndsInRun (sortByKey rangeKey rows))) ∧
    ∀ p answer, coviAnswer P state covi filters = some (p, answer) →
      ∀ ranges, coviCandidatesForFilters P state filters = some ranges →
        ((∀ row ∈ data.rows, (∀ q, some q ∈ filters → Holds state q.predicate row) →
            Covers ranges row.segmentId row.morselId row.row) ∧
          (∀ segmentId morselId r,
            Covers ranges segmentId morselId r ↔ Covers answer segmentId morselId r) ↔
        EndsInRun (sortByKey rangeKey answer) ∧
          ∀ row ∈ data.rows, (∀ q, some q ∈ filters → Holds state q.predicate row) →
            Misses state p.predicate row → Covers answer row.segmentId row.morselId row.row) := by
  refine ⟨fun rows out => normalizeScanCandidateRanges_covers_iff, ?_⟩
  intro p answer hanswer ranges hranges
  rw [← normalizeScanCandidateRanges_covers_iff (candidates_normalized hcovi hanswer hranges)]
  constructor
  · rintro ⟨hlossless, hcovers⟩
    exact ⟨hcovers, fun row hrow hholds _ => (hcovers _ _ _).mp (hlossless row hrow hholds)⟩
  · rintro ⟨hcovers, hmissed⟩
    refine ⟨fun row hrow hholds => (hcovers _ _ _).mpr ?_, hcovers⟩
    rcases answer_covers htruthful hresolved hanswer hrow hholds with hmiss | hcovered
    · exact hmissed row hrow hholds hmiss
    · exact hcovered

end

/-- The rows 5 and 7 of an `int64` column. -/
def fiveAndSeven : TableData where
  dictionary _ _ := none
  rows := [⟨0, 0, 0, fun _ => .numCode 5⟩, ⟨0, 0, 1, fun _ => .numCode 7⟩]

def keyOfFive : Bytes := [3, 5, 0, 0, 0, 0, 0, 0, 0]

def fiveIndex (request : CoviLookupRequest) : Except CoveError (List ScanCandidateRowRange) :=
  if request.lowerKey = keyOfFive ∧ request.membershipKeys = [] then .ok [⟨0, 0, 0, 1⟩]
  else .error .badCovi

def fiveTable : TableState where
  tableId := 0
  columns _ := ⟨0, .int64⟩
  segments := .ok [⟨0, 0, .ok [⟨0, 0, 2⟩]⟩]
  covi := some fiveIndex

theorem sevenKey : (numberValue asciiText .int64 7).bind
    (fun value => (taggedCanonical value).toOption) = some [3, 7, 0, 0, 0, 0, 0, 0, 0] := by
  decide +kernel

theorem fiveIndex_truthful : Truthful asciiText fiveTable fiveAndSeven fiveIndex := by
  intro request ranges hranges _ i _ row hrow key hkey hrowKey
  rw [fiveIndex] at hranges
  split at hranges
  · rename_i hrequest
    cases hranges
    rw [hrequest.1, hrequest.2, mem_singleton] at hkey
    subst hkey
    rcases mem_cons.mp hrow with rfl | hrow
    · exact ⟨_, mem_cons_self, rfl, rfl, Nat.le_refl _, Nat.one_pos⟩
    · obtain rfl := mem_singleton.mp hrow
      have hseven : rowKey asciiText fiveTable fiveAndSeven ⟨0, 0, 1, fun _ => .numCode 7⟩ i =
          some [3, 7, 0, 0, 0, 0, 0, 0, 0] := sevenKey
      exact absurd (Option.some.inj (hseven.symm.trans hrowKey)) (by decide)
  · cases hranges

/-- A range inside an earlier one cuts it short; a literal of another kind is passed over in a
membership list, and its rows are lost. -/
theorem candidates_lost :
    (∃ rows out, normalizeScanCandidateRanges rows = .ok out ∧ Covers rows 0 0 50 ∧
      ¬ Covers out 0 0 50) ∧
    ∃ filters ranges, (∀ p, some p ∈ filters → Resolved fiveTable fiveAndSeven p) ∧
      Truthful asciiText fiveTable fiveAndSeven fiveIndex ∧
      coviCandidatesForFilters asciiText fiveTable filters = some ranges ∧
      ∃ row ∈ fiveAndSeven.rows, (∀ q, some q ∈ filters → Holds fiveTable q.predicate row) ∧
        ¬ Covers ranges row.segmentId row.morselId row.row := by
  constructor
  · exact ⟨[⟨0, 0, 0, 100⟩, ⟨0, 0, 10, 10⟩], [⟨0, 0, 0, 20⟩], by decide, by decide, by decide⟩
  · refine ⟨[some ⟨.numericIn 0 [.int64 5, .uint64 7], [], []⟩], [⟨0, 0, 0, 1⟩], ?_,
      fiveIndex_truthful, by decide +kernel, ⟨0, 0, 1, fun _ => .numCode 7⟩, ?_, ?_, by decide⟩
    · intro p hp
      obtain rfl := Option.some.inj (mem_singleton.mp hp)
      trivial
    · exact mem_cons_of_mem _ mem_cons_self
    · intro q hq
      obtain rfl := Option.some.inj (mem_singleton.mp hq)
      rfl

def fiveFilter : CanonicalPredicate := ⟨.numeric 0 .eq (.int64 5), [], []⟩

theorem five_candidates :
    coviCandidatesForFilters asciiText fiveTable [some fiveFilter] = some [⟨0, 0, 0, 1⟩] ∧
      ∀ row ∈ fiveAndSeven.rows, (∀ q, some q ∈ [some fiveFilter] → Holds fiveTable q.predicate row) →
        Covers [⟨0, 0, 0, 1⟩] row.segmentId row.morselId row.row := by
  have hresolved : ∀ p, some p ∈ [some fiveFilter] → Resolved fiveTable fiveAndSeven p := by
    intro p hp
    obtain rfl := Option.some.inj (mem_singleton.mp hp)
    trivial
  refine ⟨by decide +kernel, (((covi_candidates_iff rfl fiveIndex_truthful hresolved).2 fiveFilter
    [⟨0, 0, 0, 1⟩] (by decide +kernel) _ (by decide +kernel)).mpr ⟨by decide, ?_⟩).1⟩
  rintro row - - ⟨code, -, ⟨literal, hliteral, hequal⟩, hmisses⟩
  obtain rfl := mem_singleton.mp hliteral
  exact absurd trivial (hmisses _ hliteral hequal)

end CoveFormat.CoviCandidates
