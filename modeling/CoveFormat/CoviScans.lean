import CoveFormat.CoviSums

namespace CoveFormat.CoviScans

open ByteCodes CheckedArith CoviBuildRuns CoviBuilds CoviIntegers CoviSums EncodedArrays ExceptRules
  JsonValue List
open CoviPostings hiding normalizeRowRanges
open DictionarySections (FileDictionary)

section

variable (t : IntegerType)

def dictionaryNumber (dictionary : FileDictionary) (code : UInt32) : Option Int :=
  match dictionary.getEntry code, dictionary.decodeValue code with
  | .ok entry, .ok (.rawBytes bytes) =>
    if entry.valueTag.toNat = (integerTag t).code ∧ bytes.length = 8 ∧
        Fits t (payloadNumber t bytes) then some (payloadNumber t bytes)
    else none
  | _, _ => none

/-- What a value of an integer column is: null, or a number of the type; other values are none of it. -/
def standsFor (source : ColumnSource) : CoveArrayValue → Option (Option Int)
  | .null => some none
  | .numCode code => some (some (t.ofNumcode code.toNat))
  | .varint value => some (some (t.ofNumcode value.toNat))
  | .int64 value => if t.isSigned = true ∧ Fits t value.toInt then some (some value.toInt) else none
  | .bytes bytes | .ownedBytes bytes =>
    if bytes.length = t.width then some (some (t.ofNumcode (leNat bytes))) else none
  | .fileCode code => (source.dictionary.bind fun dict => dictionaryNumber t dict code).map some
  | _ => none

variable {t} {source : ColumnSource} {value : CoveArrayValue} {number : Option Int}

theorem integerPayload_payloadNumber {payload : Bytes} (h : payload.length = 8) :
    integerPayload (payloadNumber t payload) = payload := by
  have hlt : leNat payload < 2 ^ 64 := by
    have hlt := leNat_lt payload
    rwa [h] at hlt
  have hbits : unsigned 64 (payloadNumber t payload) = leNat payload := by
    cases hs : t.isSigned
    · rw [payloadNumber_unsigned hs, unsigned_of_nonneg (Int.natCast_nonneg _) (by exact_mod_cast hlt)]
      rfl
    · rw [payloadNumber_signed hs, unsigned_signed hlt]
  rw [integerPayload, hbits, ← h, leBytes_leNat]

theorem keyFromFileCode_ok {dictionary : FileDictionary} {code : UInt32} {z : Int}
    (h : dictionaryNumber t dictionary code = some z) :
    keyFromFileCode (some dictionary) code = .ok (keyOf t z) ∧ Fits t z := by
  rw [dictionaryNumber] at h
  split at h
  · rename_i entry bytes hentry hbytes
    split at h
    · rename_i hvalue
      obtain ⟨htag, hlength, hfits⟩ := hvalue
      cases h
      refine ⟨?_, hfits⟩
      refine andThen_ok rfl (andThen_ok hentry ?_)
      refine andThen_ok hbytes ?_
      rw [keyOf, integerPayload_payloadNumber hlength, htag]
    · cases h
  · cases h

theorem keyForValue_ok (h : standsFor t source value = some number) :
    keyForValue t source.dictionary source.rawFilecodeMode value = .ok (number.map (keyOf t)) ∧
      ∀ z ∈ number, Fits t z := by
  have hnumcode (code : Nat) (h : some (some (t.ofNumcode code)) = some number) :
      (integerKey t (t.ofNumcode code)).map some = .ok (number.map (keyOf t)) ∧ ∀ z ∈ number, Fits t z := by
    cases h
    refine ⟨?_, fun z hz => Option.mem_some.mp hz ▸ ofNumcode_fits t code⟩
    rw [integerKey_of_fits (ofNumcode_fits t code)]
    rfl
  have hbytes (bytes : Bytes)
      (h : (if bytes.length = t.width then some (some (t.ofNumcode (leNat bytes))) else none) = some number) :
      (keyFromBytes t bytes).map some = .ok (number.map (keyOf t)) ∧ ∀ z ∈ number, Fits t z := by
    split at h
    · rename_i hlength
      have hrun : keyFromBytes t bytes = integerKey t (t.ofNumcode (leNat bytes)) := by
        rw [keyFromBytes, rejectIf, if_neg (not_not.mpr hlength)]
        rfl
      rw [hrun]
      exact hnumcode _ h
    · cases h
  cases value with
  | null =>
    cases h
    exact ⟨rfl, fun _ hz => absurd hz (Option.not_mem_none _)⟩
  | numCode code | varint value => exact hnumcode _ h
  | bytes bytes | ownedBytes bytes => exact hbytes bytes h
  | int64 value =>
    rw [standsFor] at h
    split at h
    · rename_i hvalue
      cases h
      refine ⟨?_, fun z hz => Option.mem_some.mp hz ▸ hvalue.2⟩
      rw [keyForValue, keyFromI64, if_pos hvalue.1, integerKey_of_fits hvalue.2]
      rfl
    · cases h
  | fileCode code =>
    obtain ⟨z, hz, rfl⟩ := Option.map_eq_some_iff.mp h
    obtain ⟨tagged, htagged, hnumber⟩ := Option.bind_eq_some_iff.mp hz
    obtain ⟨hkey, hfits⟩ := keyFromFileCode_ok hnumber
    have hraw : source.rawFilecodeMode = false := by
      rw [ColumnSource.rawFilecodeMode, htagged]
      exact Bool.and_false _
    refine ⟨?_, fun z hz => Option.mem_some.mp hz ▸ hfits⟩
    rw [keyForValue, hraw, htagged, if_neg Bool.false_ne_true, hkey]
    rfl
  | dictValue _ | boolean _ | validityBit _ => cases h

end

section

variable (t : IntegerType) (source : ColumnSource)

def numberOf (value : CoveArrayValue) : Option Int := (standsFor t source value).join

def pageValues (page : DecodedPage) : List CoveArrayValue :=
  match page.rows with
  | .elidedNulls _ => []
  | .decoded values => values

def presentValues (page : DecodedPage) (rows : List (CoveArrayValue × Nat)) : List PresentRow :=
  rows.filterMap fun row => (numberOf t source row.1).map fun z =>
    (z, rowPosting 0 source.tableId page.segmentId page.morselId
      (page.segmentRowStart + page.firstRowInSegment + row.2))

def nullValues (rows : List (CoveArrayValue × Nat)) : Nat :=
  rows.countP fun row => numberOf t source row.1 = none

def pagePresent (page : DecodedPage) : List PresentRow := presentValues t source page (pageValues page).zipIdx

def pageRows (page : DecodedPage) : Nat :=
  match page.rows with
  | .elidedNulls rowCount => rowCount
  | .decoded values => values.length

def pageNulls (page : DecodedPage) : Nat :=
  match page.rows with
  | .elidedNulls rowCount => rowCount
  | .decoded values => nullValues t source values.zipIdx

def present : List PresentRow := source.pages.flatMap (pagePresent t source)

/-- The effect of a stretch of rows on a scan. -/
structure Scanned (rows nulls : Nat) (added : List PresentRow) (scan out : ColumnScan) : Prop where
  rows_lt : scan.rowsSeen + rows < 2 ^ 64
  nulls_lt : scan.nullCount + nulls < 2 ^ 64
  start_lt : ∀ row ∈ added, row.2.rowStart < 2 ^ 64
  rowsSeen : out.rowsSeen = scan.rowsSeen + rows
  nullCount : out.nullCount = scan.nullCount + nulls
  keys : collect scan.keys (keyed t added) = .ok out.keys

variable {t source} {rows rows' nulls nulls' : Nat} {added added' : List PresentRow}
    {scan mid out : ColumnScan}

theorem collect_append {keys out : KeyPostingMap} {first second : List KeyedRow} :
    collect keys (first ++ second) = .ok out ↔
      ∃ mid, collect keys first = .ok mid ∧ collect mid second = .ok out := by
  rw [collect, foldlM_append, andThen_eq_ok_iff]
  rfl

theorem scanned_iff : Scanned t rows nulls added scan out ↔
    scan.rowsSeen + rows < 2 ^ 64 ∧ scan.nullCount + nulls < 2 ^ 64 ∧
      (∀ row ∈ added, row.2.rowStart < 2 ^ 64) ∧
      (do let keys ← collect scan.keys (keyed t added)
          .ok ⟨keys, scan.nullCount + nulls, scan.rowsSeen + rows⟩) = Except.ok (ε := CoveError) out := by
  constructor
  · rintro ⟨hrows, hnulls, hstart, hseen, hcount, hkeys⟩
    refine ⟨hrows, hnulls, hstart, ?_⟩
    rw [hkeys, ← hseen, ← hcount]
    rfl
  · rintro ⟨hrows, hnulls, hstart, h⟩
    obtain ⟨keys, hkeys, h⟩ := of_andThen h
    cases h
    exact ⟨hrows, hnulls, hstart, rfl, rfl, hkeys⟩

theorem scanned_none (hrows : scan.rowsSeen < 2 ^ 64) (hnulls : scan.nullCount < 2 ^ 64) :
    Except.ok (ε := CoveError) scan = .ok out ↔ Scanned t 0 0 [] scan out := by
  rw [scanned_iff]
  exact ⟨fun h => ⟨hrows, hnulls, forall_mem_nil _, h⟩, fun h => h.2.2.2⟩

theorem Scanned.append (h : Scanned t rows nulls added scan mid)
    (h' : Scanned t rows' nulls' added' mid out) :
    Scanned t (rows + rows') (nulls + nulls') (added ++ added') scan out := by
  have hrows := h'.rows_lt
  have hnulls := h'.nulls_lt
  rw [h.rowsSeen, add_assoc] at hrows
  rw [h.nullCount, add_assoc] at hnulls
  refine ⟨hrows, hnulls, forall_mem_append.mpr ⟨h.start_lt, h'.start_lt⟩, ?_, ?_, ?_⟩
  · rw [h'.rowsSeen, h.rowsSeen, add_assoc]
  · rw [h'.nullCount, h.nullCount, add_assoc]
  · rw [keyed, map_append]
    exact collect_append.mpr ⟨mid.keys, h.keys, h'.keys⟩

theorem scanned_append_iff : Scanned t (rows + rows') (nulls + nulls') (added ++ added') scan out ↔
    ∃ mid, Scanned t rows nulls added scan mid ∧ Scanned t rows' nulls' added' mid out := by
  constructor
  · intro h
    have hkeys := h.keys
    rw [keyed, map_append] at hkeys
    obtain ⟨keys, hfirst, hsecond⟩ := collect_append.mp hkeys
    obtain ⟨hstart, hstart'⟩ := forall_mem_append.mp h.start_lt
    have hrows := h.rows_lt
    have hnulls := h.nulls_lt
    refine ⟨⟨keys, scan.nullCount + nulls, scan.rowsSeen + rows⟩,
      ⟨by omega, by omega, hstart, rfl, rfl, hfirst⟩, ?_⟩
    exact ⟨by rw [add_assoc]; exact hrows, by rw [add_assoc]; exact hnulls, hstart',
      by rw [h.rowsSeen, add_assoc], by rw [h.nullCount, add_assoc], hsecond⟩
  · rintro ⟨mid, h, h'⟩
    exact h.append h'

end

section

variable {t : IntegerType} {source : ColumnSource} {page : DecodedPage} {scan out : ColumnScan}
  {row : CoveArrayValue × Nat} {rows : List (CoveArrayValue × Nat)}

section

variable (hrow : (standsFor t source row.1).isSome)
include hrow

theorem keyForValue_numberOf :
    keyForValue t source.dictionary source.rawFilecodeMode row.1 =
      .ok ((numberOf t source row.1).map (keyOf t)) := by
  obtain ⟨number, hnumber⟩ := Option.isSome_iff_exists.mp hrow
  rw [(keyForValue_ok hnumber).1, numberOf, hnumber]
  rfl

theorem addValue_ok_iff (hnulls : scan.nullCount < 2 ^ 64) :
    addValue t source page scan row = .ok out ↔
      Scanned t 1 (nullValues t source [row]) (presentValues t source page [row]) scan out := by
  rw [addValue, scanned_iff, checkedAdd_andThen_iff, nullValues, presentValues, countP_singleton]
  refine and_congr_right fun _ => (andThen_iff_of_ok (keyForValue_numberOf hrow)).trans ?_
  cases hnumber : numberOf t source row.1 with
  | none =>
    rw [filterMap_cons_none (by rw [hnumber]; rfl), filterMap_nil, if_pos (decide_eq_true rfl)]
    refine checkedAdd_andThen_iff.trans (and_congr_right fun _ => ?_)
    exact (and_iff_right (forall_mem_nil _)).symm
  | some z =>
    rw [filterMap_cons_some (by rw [hnumber]; rfl), filterMap_nil, decide_eq_false (Option.some_ne_none z),
      if_neg Bool.false_ne_true, forall_mem_singleton, keyed, map_singleton, collect, foldlM_cons, bind_assoc]
    refine (checkedAdd_andThen_iff.trans (and_congr_right fun _ => checkedAdd_andThen_iff)).trans ?_
    exact ⟨fun h => ⟨hnulls, h.2⟩, fun h => ⟨(Nat.le_add_right _ _).trans_lt h.2.1, h.2⟩⟩

end

theorem addValues_ok_iff (hrows : ∀ row ∈ rows, (standsFor t source row.1).isSome)
    (hseen : scan.rowsSeen < 2 ^ 64) (hnulls : scan.nullCount < 2 ^ 64) :
    rows.foldlM (addValue t source page) scan = .ok out ↔
      Scanned t rows.length (nullValues t source rows) (presentValues t source page rows) scan out := by
  induction rows generalizing scan with
  | nil => exact scanned_none hseen hnulls
  | cons row rows ih =>
    obtain ⟨hrow, hrows⟩ := forall_mem_cons.mp hrows
    have hnull : nullValues t source (row :: rows) =
        nullValues t source [row] + nullValues t source rows := by
      rw [nullValues, nullValues, nullValues, ← countP_append]
      rfl
    have hpresent : presentValues t source page (row :: rows) =
        presentValues t source page [row] ++ presentValues t source page rows := by
      rw [presentValues, presentValues, presentValues, ← filterMap_append]
      rfl
    rw [foldlM_cons, andThen_eq_ok_iff, hnull, hpresent, length_cons, Nat.add_comm rows.length,
      scanned_append_iff]
    refine exists_congr fun mid => ?_
    rw [addValue_ok_iff hrow hnulls]
    refine and_congr_right fun hmid => ih hrows ?_ ?_
    · rw [hmid.rowsSeen]
      exact hmid.rows_lt
    · rw [hmid.nullCount]
      exact hmid.nulls_lt

theorem addPage_ok_iff (hpage : ∀ value ∈ pageValues page, (standsFor t source value).isSome)
    (hseen : scan.rowsSeen < 2 ^ 64) (hnulls : scan.nullCount < 2 ^ 64) :
    addPage t source scan page = .ok out ↔
      Scanned t (pageRows page) (pageNulls t source page) (pagePresent t source page) scan out := by
  rw [addPage, pageRows, pageNulls, pagePresent]
  rw [pageValues] at hpage ⊢
  cases hrows : page.rows with
  | elidedNulls rowCount =>
    rw [scanned_iff]
    refine (checkedAdd_andThen_iff.trans (and_congr_right fun _ => checkedAdd_andThen_iff)).trans ?_
    exact ⟨fun h => ⟨h.2.1, h.1, forall_mem_nil _, h.2.2⟩, fun h => ⟨h.2.1, h.1, h.2.2.2⟩⟩
  | decoded values =>
    rw [hrows] at hpage
    have hrun := @addValues_ok_iff t source page scan out values.zipIdx
      (fun row hrow => hpage row.1 (fst_mem_of_mem_zipIdx hrow)) hseen hnulls
    rwa [length_zipIdx] at hrun

def totalRows (pages : List DecodedPage) : Nat := (pages.map pageRows).sum

def totalNulls (t : IntegerType) (source : ColumnSource) (pages : List DecodedPage) : Nat :=
  (pages.map (pageNulls t source)).sum

theorem addPages_ok_iff {pages : List DecodedPage}
    (hpages : ∀ page ∈ pages, ∀ value ∈ pageValues page, (standsFor t source value).isSome)
    (hseen : scan.rowsSeen < 2 ^ 64) (hnulls : scan.nullCount < 2 ^ 64) :
    pages.foldlM (addPage t source) scan = .ok out ↔
      Scanned t (totalRows pages) (totalNulls t source pages) (pages.flatMap (pagePresent t source))
        scan out := by
  induction pages generalizing scan with
  | nil => exact scanned_none hseen hnulls
  | cons page pages ih =>
    obtain ⟨hpage, hpages⟩ := forall_mem_cons.mp hpages
    rw [foldlM_cons, andThen_eq_ok_iff, totalRows, totalNulls, map_cons, map_cons, sum_cons,
      sum_cons, flatMap_cons, scanned_append_iff]
    refine exists_congr fun mid => ?_
    rw [addPage_ok_iff hpage hseen hnulls]
    refine and_congr_right fun hmid => ih hpages ?_ ?_
    · rw [hmid.rowsSeen]
      exact hmid.rows_lt
    · rw [hmid.nullCount]
      exact hmid.nulls_lt

theorem nulls_add_present (rows : List (CoveArrayValue × Nat)) :
    nullValues t source rows + (presentValues t source page rows).length = rows.length := by
  induction rows with
  | nil => rfl
  | cons row rows ih =>
    rw [nullValues, presentValues] at ih ⊢
    rw [countP_cons, length_cons]
    cases hnumber : numberOf t source row.1 with
    | none =>
      rw [filterMap_cons_none (by rw [hnumber]; rfl), if_pos (decide_eq_true rfl)]
      omega
    | some z =>
      rw [filterMap_cons_some (by rw [hnumber]; rfl), decide_eq_false (Option.some_ne_none z),
        if_neg Bool.false_ne_true, length_cons]
      omega

theorem pageNulls_add_present (page : DecodedPage) :
    pageNulls t source page + (pagePresent t source page).length = pageRows page := by
  rw [pageNulls, pagePresent, pageValues, pageRows]
  cases page.rows with
  | elidedNulls rowCount => rfl
  | decoded values => exact (nulls_add_present values.zipIdx).trans length_zipIdx

theorem totalNulls_add_present (pages : List DecodedPage) :
    totalNulls t source pages + (pages.flatMap (pagePresent t source)).length = totalRows pages := by
  induction pages with
  | nil => rfl
  | cons page pages ih =>
    have hpage := @pageNulls_add_present t source page
    rw [totalNulls, totalRows] at ih ⊢
    rw [flatMap_cons, length_append, map_cons, map_cons, sum_cons, sum_cons]
    omega

end

section

def zeroedValue : CoveArrayValue → CoveArrayValue
  | .null => .null
  | _ => .numCode 0

def zeroedRows : PageRows → PageRows
  | .elidedNulls rowCount => .elidedNulls rowCount
  | .decoded values => .decoded (values.map zeroedValue)

def zeroedPage (page : DecodedPage) : DecodedPage := { page with rows := zeroedRows page.rows }

def zeroed (source : ColumnSource) : ColumnSource := { source with pages := source.pages.map zeroedPage }

variable {t : IntegerType} {source : ColumnSource} {value : CoveArrayValue} {page : DecodedPage}

theorem ofNumcode_zero (t : IntegerType) : t.ofNumcode 0 = 0 := by
  cases t <;> rfl

section

variable (h : (standsFor t source value).isSome)
include h

theorem standsFor_zeroed :
    standsFor t (zeroed source) (zeroedValue value) = some ((numberOf t source value).map fun _ => 0) := by
  obtain ⟨number, hnumber⟩ := Option.isSome_iff_exists.mp h
  have hof : numberOf t source value = number := by
    rw [numberOf, hnumber]
    rfl
  have hpresent (z : Int) (hz : number = some z) :
      standsFor t (zeroed source) (.numCode 0) = some ((numberOf t source value).map fun _ => 0) := by
    rw [hof, hz, standsFor]
    exact congrArg (fun z => some (some z)) (ofNumcode_zero t)
  cases value with
  | null =>
    cases hnumber
    rfl
  | numCode code | varint value => exact hpresent _ (Option.some.inj hnumber).symm
  | int64 value | bytes bytes | ownedBytes bytes =>
    rw [standsFor] at hnumber
    split at hnumber
    · exact hpresent _ (Option.some.inj hnumber).symm
    · cases hnumber
  | fileCode code =>
    obtain ⟨z, -, hz⟩ := Option.map_eq_some_iff.mp hnumber
    exact hpresent z hz.symm
  | dictValue _ | boolean _ | validityBit _ => cases hnumber

theorem numberOf_zeroed :
    numberOf t (zeroed source) (zeroedValue value) = (numberOf t source value).map fun _ => 0 := by
  rw [numberOf, standsFor_zeroed h]
  rfl

end

theorem pageRows_zeroed (page : DecodedPage) : pageRows (zeroedPage page) = pageRows page := by
  rw [pageRows, pageRows, zeroedPage]
  cases page.rows with
  | elidedNulls rowCount => rfl
  | decoded values => exact length_map _

theorem pagePresent_zeroed (hpage : ∀ value ∈ pageValues page, (standsFor t source value).isSome) :
    pagePresent t (zeroed source) (zeroedPage page) = withNumber 0 (pagePresent t source page) := by
  rw [pageValues] at hpage
  rw [pagePresent, pagePresent, pageValues, pageValues, zeroedPage]
  cases hrows : page.rows with
  | elidedNulls rowCount => rfl
  | decoded values =>
    rw [hrows] at hpage
    rw [presentValues, presentValues, zeroedRows, zipIdx_map, filterMap_map, withNumber,
      map_filterMap]
    refine filterMap_congr fun row hrow => ?_
    have hnumber := numberOf_zeroed (hpage row.1 (fst_mem_of_mem_zipIdx hrow))
    rw [Function.comp_apply, Prod.map_fst, hnumber, Option.map_map, Option.map_map]
    rfl

theorem pageValues_zeroed (page : DecodedPage) :
    pageValues (zeroedPage page) = (pageValues page).map zeroedValue := by
  rw [pageValues, pageValues, zeroedPage]
  cases page.rows <;> rfl

theorem present_zeroed
    (h : ∀ page ∈ source.pages, ∀ value ∈ pageValues page, (standsFor t source value).isSome) :
    present t (zeroed source) = withNumber 0 (present t source) := by
  rw [present, present, zeroed, flatMap_map, withNumber, map_flatMap]
  exact flatMap_congr fun page hpage => pagePresent_zeroed (h page hpage)

theorem totalRows_zeroed (pages : List DecodedPage) : totalRows (pages.map zeroedPage) = totalRows pages := by
  rw [totalRows, totalRows, map_map]
  exact congrArg List.sum (map_congr_left fun page _ => pageRows_zeroed page)

theorem values_zeroed
    (h : ∀ page ∈ source.pages, ∀ value ∈ pageValues page, (standsFor t source value).isSome) :
    ∀ page ∈ (zeroed source).pages, ∀ value ∈ pageValues page,
      (standsFor t (zeroed source) value).isSome := by
  refine forall_mem_map.mpr fun page hpage => ?_
  rw [pageValues_zeroed]
  refine forall_mem_map.mpr fun value hvalue => ?_
  rw [standsFor_zeroed (h page hpage value hvalue)]
  rfl

end

section

variable (t : IntegerType) (propertyId : Nat)

def jsonInteger (value : Value) : Option Int :=
  if value.isNull then none else if t.isSigned then jsonI64 value else (jsonU64 value).map Int.ofNat

def propertyValues (record : ObjectRecord) : List Value :=
  (record.properties.filter fun value => value.propertyId = propertyId ∧ ¬ value.redacted).map
    ObjectPropertyValue.value

/-- Each record has at most one value of the property, and the numbers among them are of the type. -/
def IntegerRecords (records : List ObjectRecord) : Prop :=
  ∀ record ∈ records, (propertyValues propertyId record).length ≤ 1 ∧
    ∀ value ∈ propertyValues propertyId record, ∀ z ∈ jsonInteger t value, Fits t z

instance (records : List ObjectRecord) : Decidable (IntegerRecords t propertyId records) :=
  inferInstanceAs (Decidable (∀ record ∈ records, _ ∧ ∀ value ∈ propertyValues propertyId record, _))

def recordPresent (record : ObjectRecord) : List PresentRow :=
  ((propertyValues propertyId record).filterMap (jsonInteger t)).map fun z => (z, recordPosting record)

def recordsPresent (records : List ObjectRecord) : List PresentRow :=
  records.flatMap (recordPresent t propertyId)

variable {t propertyId} {record : ObjectRecord} {records : List ObjectRecord} {scan out : PropertyScan}

theorem keyForJson_ok {value : Value} (h : ∀ z ∈ jsonInteger t value, Fits t z) :
    keyForJsonPropertyValue t value = .ok ((jsonInteger t value).map (keyOf t)) := by
  have hrun : keyForJsonPropertyValue t value =
      (jsonInteger t value).elim (.ok none) fun z => (integerKey t z).map some := by
    rw [keyForJsonPropertyValue, jsonInteger]
    split
    · rfl
    · cases (if t.isSigned then jsonI64 value else (jsonU64 value).map Int.ofNat) <;> rfl
  rw [hrun]
  cases hz : jsonInteger t value with
  | none => rfl
  | some z =>
    show (integerKey t z).map some = _
    rw [integerKey_of_fits (h z hz)]
    rfl

theorem recordKeys_ok (hone : (propertyValues propertyId record).length ≤ 1)
    (hfits : ∀ value ∈ propertyValues propertyId record, ∀ z ∈ jsonInteger t value, Fits t z) :
    recordKeys t propertyId record =
      .ok (((propertyValues propertyId record).filterMap (jsonInteger t)).map (keyOf t)) := by
  rw [propertyValues] at hone hfits ⊢
  rw [recordKeys]
  generalize record.properties.filter _ = values at hone hfits ⊢
  match values with
  | [] => rfl
  | [value] =>
    rw [mapM_cons, mapM_nil, keyForJson_ok (hfits _ (mem_map_of_mem mem_cons_self))]
    rw [map_singleton]
    cases hz : jsonInteger t value.value with
    | none =>
      rw [filterMap_cons_none hz]
      rfl
    | some z =>
      rw [filterMap_cons_some hz]
      rfl
  | _ :: _ :: _ =>
    rw [length_map, length_cons, length_cons] at hone
    omega

theorem recordPresent_length (hone : (propertyValues propertyId record).length ≤ 1) :
    (recordPresent t propertyId record).length ≤ 1 := by
  rw [recordPresent, length_map]
  exact (length_filterMap_le _ _).trans hone

/-- The effect of some records on a scan. -/
structure RecordsScanned (t : IntegerType) (added : List PresentRow) (scan out : PropertyScan) : Prop where
  rows_lt : scan.rowsWithIndexedValue + added.length < 2 ^ 64
  rows_eq : out.rowsWithIndexedValue = scan.rowsWithIndexedValue + added.length
  keys : collect scan.keys (keyed t added) = .ok out.keys

theorem recordsScanned_iff {added : List PresentRow} : RecordsScanned t added scan out ↔
    scan.rowsWithIndexedValue + added.length < 2 ^ 64 ∧
      (do let keys ← collect scan.keys (keyed t added)
          .ok ⟨keys, scan.rowsWithIndexedValue + added.length⟩) = Except.ok (ε := CoveError) out := by
  constructor
  · rintro ⟨hrows, hsum, hkeys⟩
    refine ⟨hrows, ?_⟩
    rw [hkeys, ← hsum]
    rfl
  · rintro ⟨hrows, h⟩
    obtain ⟨keys, hkeys, h⟩ := of_andThen h
    cases h
    exact ⟨hrows, rfl, hkeys⟩

theorem addRecord_ok_iff (hone : (propertyValues propertyId record).length ≤ 1)
    (hfits : ∀ value ∈ propertyValues propertyId record, ∀ z ∈ jsonInteger t value, Fits t z)
    (hrows : scan.rowsWithIndexedValue < 2 ^ 64) :
    addRecord t propertyId scan record = .ok out ↔
      RecordsScanned t (recordPresent t propertyId record) scan out := by
  rw [addRecord, recordKeys_ok hone hfits, recordPresent, recordsScanned_iff]
  have hlength := (length_filterMap_le (jsonInteger t) _).trans hone
  generalize (propertyValues propertyId record).filterMap (jsonInteger t) = numbers at hlength ⊢
  match numbers with
  | [] => exact ⟨fun h => ⟨hrows, h⟩, fun h => h.2⟩
  | [z] => exact checkedAdd_andThen_iff
  | _ :: _ :: _ =>
    rw [length_cons, length_cons] at hlength
    omega

theorem addRecords_ok_iff (h : IntegerRecords t propertyId records)
    (hrows : scan.rowsWithIndexedValue < 2 ^ 64) :
    records.foldlM (addRecord t propertyId) scan = .ok out ↔
      RecordsScanned t (recordsPresent t propertyId records) scan out := by
  induction records generalizing scan with
  | nil =>
    rw [recordsScanned_iff]
    exact ⟨fun h => ⟨hrows, h⟩, fun h => h.2⟩
  | cons record records ih =>
    obtain ⟨⟨hone, hfits⟩, hrecords⟩ := forall_mem_cons.mp h
    rw [foldlM_cons, andThen_eq_ok_iff, recordsPresent, flatMap_cons]
    constructor
    · rintro ⟨mid, hmid, hout⟩
      have hmid := (addRecord_ok_iff hone hfits hrows).mp hmid
      have hout := (ih hrecords (hmid.rows_eq ▸ hmid.rows_lt)).mp hout
      have hlt := hout.rows_lt
      rw [hmid.rows_eq, add_assoc, ← length_append] at hlt
      refine ⟨hlt, ?_, ?_⟩
      · rw [hout.rows_eq, hmid.rows_eq, length_append, add_assoc]
        rfl
      · rw [keyed, map_append]
        exact collect_append.mpr ⟨mid.keys, hmid.keys, hout.keys⟩
    · rintro ⟨hlt, heq, hkeys⟩
      rw [keyed, map_append] at hkeys
      obtain ⟨keys, hfirst, hsecond⟩ := collect_append.mp hkeys
      rw [length_append, ← add_assoc] at hlt heq
      refine ⟨⟨keys, scan.rowsWithIndexedValue + (recordPresent t propertyId record).length⟩,
        (addRecord_ok_iff hone hfits hrows).mpr ⟨by omega, rfl, hfirst⟩, ?_⟩
      exact (ih hrecords (by show _ + _ < _; omega)).mpr ⟨hlt, heq, hsecond⟩

def zeroedRecord (t : IntegerType) (record : ObjectRecord) : ObjectRecord :=
  { record with properties := record.properties.map fun property =>
      { property with value := if (jsonInteger t property.value).isSome then Value.ofInt 0 else .null } }

theorem jsonInteger_zero : jsonInteger t (Value.ofInt 0) = some 0 := by
  rw [jsonInteger]
  cases t.isSigned <;> rfl

theorem propertyValues_zeroed (record : ObjectRecord) : propertyValues propertyId (zeroedRecord t record) =
    (propertyValues propertyId record).map fun value =>
      if (jsonInteger t value).isSome then Value.ofInt 0 else .null := by
  rw [propertyValues, propertyValues, zeroedRecord, filter_map, map_map, map_map]
  rfl

theorem jsonInteger_zeroed (value : Value) :
    jsonInteger t (if (jsonInteger t value).isSome then Value.ofInt 0 else .null) =
      (jsonInteger t value).map fun _ => 0 := by
  cases hz : jsonInteger t value with
  | none => rfl
  | some z => exact jsonInteger_zero

theorem zero_fits (t : IntegerType) : Fits t 0 := by
  have h := ofNumcode_fits t 0
  rwa [ofNumcode_zero] at h

theorem records_zeroed (h : IntegerRecords t propertyId records) :
    IntegerRecords t propertyId (records.map (zeroedRecord t)) := by
  refine forall_mem_map.mpr fun record hrecord => ?_
  rw [propertyValues_zeroed, length_map]
  refine ⟨(h record hrecord).1, forall_mem_map.mpr fun value _ z hz => ?_⟩
  rw [jsonInteger_zeroed] at hz
  obtain ⟨_, -, rfl⟩ := Option.map_eq_some_iff.mp hz
  exact zero_fits t

theorem recordsPresent_zeroed (records : List ObjectRecord) :
    recordsPresent t propertyId (records.map (zeroedRecord t)) =
      withNumber 0 (recordsPresent t propertyId records) := by
  rw [recordsPresent, recordsPresent, flatMap_map, withNumber, map_flatMap]
  refine congrArg (List.flatMap · records) (funext fun record => ?_)
  rw [recordPresent, recordPresent, propertyValues_zeroed, filterMap_map, map_map, map_filterMap,
    map_filterMap]
  refine filterMap_congr fun value _ => ?_
  rw [Function.comp_apply, jsonInteger_zeroed, Option.map_map]
  rfl

theorem recordsPresent_length (h : IntegerRecords t propertyId records) :
    (recordsPresent t propertyId records).length ≤ records.length := by
  induction records with
  | nil => exact le_rfl
  | cons record records ih =>
    obtain ⟨⟨hone, -⟩, hrecords⟩ := forall_mem_cons.mp h
    have hrecord := @recordPresent_length t propertyId record hone
    have hrest := ih hrecords
    rw [recordsPresent] at hrest ⊢
    rw [flatMap_cons, length_append, length_cons]
    omega

end

end CoveFormat.CoviScans
