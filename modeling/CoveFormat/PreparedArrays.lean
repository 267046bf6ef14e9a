import CoveFormat.TransformPayloads

namespace CoveFormat.PreparedArrays

open ExceptRules FixedFields OffsetWalks EncodedArrays EncodedArray TransformPayloads List Except
open CoveTypes (CoveLogicalType CovePhysicalKind)

variable {row : Nat} {v : CoveArrayValue}

inductive VariableOffsetKind
  | plainVarint
  | varBytes
  | canonicalLengthPrefixed

structure VariableOffsets where
  kind : VariableOffsetKind
  rowOffsets : List Nat

namespace VariableOffsets

def collect (kind : VariableOffsetKind) (next : Nat → Except CoveError Nat) (rowCount : UInt64) :
    Except CoveError VariableOffsets := do
  let rowOffsets ← offsets next rowCount.toNat 0
  .ok ⟨kind, rowOffsets⟩

variable (a : EncodedArray)

def plainVarint : Except CoveError VariableOffsets := collect .plainVarint a.nextVarint a.rowCount

def varBytes : Except CoveError VariableOffsets := collect .varBytes a.nextVarBytes a.rowCount

def canonicalLengthPrefixed : Except CoveError VariableOffsets :=
  collect .canonicalLengthPrefixed a.nextLengthPrefixed a.rowCount

def offsetForRow (o : VariableOffsets) (row : Nat) : Except CoveError Nat :=
  match o.rowOffsets[row]? with
  | some offset => .ok offset
  | none => .error .offsetRange

end VariableOffsets

inductive PreparedArrayRepr
  | direct
  | variableOffsets (offsets : VariableOffsets)
  | decodedValues (values : List CoveArrayValue)

structure PreparedEncodedArray where
  array : EncodedArray
  repr : PreparedArrayRepr

def valueAtOffset (a : EncodedArray) : VariableOffsetKind → Nat → Except CoveError CoveArrayValue
  | .plainVarint => a.varintAt
  | .varBytes => a.varBytesAt
  | .canonicalLengthPrefixed => a.lengthPrefixedAt

section

variable (lib : TransformDecoders)

def prepare (a : EncodedArray) : Except CoveError PreparedEncodedArray :=
  match a.encoding with
  | .plainVarint => do
      let offsets ← VariableOffsets.plainVarint a
      .ok ⟨a, .variableOffsets offsets⟩
  | .varBytes => do
      let offsets ← VariableOffsets.varBytes a
      .ok ⟨a, .variableOffsets offsets⟩
  | .canonical =>
    match a.logical with
    | .utf8 | .binary | .json => do
        let offsets ← VariableOffsets.canonicalLengthPrefixed a
        .ok ⟨a, .variableOffsets offsets⟩
    | _ => .ok ⟨a, .direct⟩
  | .localCodebook | .rle | .runEnd | .bitPacked | .delta | .frameOfReference | .patchedBase
  | .sparse => do
      let values ← a.decodeAllRows lib
      .ok ⟨a, .decodedValues values⟩
  | _ => .ok ⟨a, .direct⟩

namespace PreparedEncodedArray

variable (p : PreparedEncodedArray)

def readRow (row : Nat) : Except CoveError CoveArrayValue :=
  match p.repr with
  | .direct => p.array.decodeRow lib row
  | .decodedValues values =>
    match values[row]? with
    | some value => .ok value
    | none => .error .offsetRange
  | .variableOffsets offsets => p.array.nullOr row do
      let offset ← offsets.offsetForRow row
      valueAtOffset p.array offsets.kind offset

def decodeRow (row : Nat) : Except CoveError CoveArrayValue := do
  rejectIf (p.array.rowCount.toNat ≤ row) .offsetRange
  p.readRow lib row

def decodeSelectedRows (selectedRows : List UInt32) : Except CoveError (List CoveArrayValue) :=
  selectedRows.mapM fun row => p.decodeRow lib row.toNat

def decodeAllRows : Except CoveError (List CoveArrayValue) :=
  match p.repr with
  | .decodedValues values => .ok values
  | _ => (range p.array.rowCount.toNat).mapM (p.decodeRow lib)

end PreparedEncodedArray

/-- The three ways to read a page agree: the bulk decoder and a prepared page with the scalar
access to the rows that it reads, and the two with each other on the page as a whole. -/
structure ReadersAgree (a : EncodedArray) : Prop where
  bulk : ∀ vs, a.decodeAllRows lib = .ok vs → vs.length = a.rowCount.toNat ∧
    ∀ row v, vs[row]? = some v → a.decodeRow lib row = .ok v
  prepared : ∀ p, prepare lib a = .ok p → ∀ row v, a.decodeRow lib row = .ok v →
    p.decodeRow lib row = .ok v
  selected : ∀ p, prepare lib a = .ok p → ∀ (rows : List UInt32) vs,
    (rows.mapM fun row => a.decodeRow lib row.toNat) = .ok vs →
      p.decodeSelectedRows lib rows = .ok vs
  all : ∀ p, prepare lib a = .ok p →
    (p.decodeAllRows lib).toOption = (a.decodeAllRows lib).toOption

end

section

variable {lib : TransformDecoders} {a : EncodedArray} {p : PreparedEncodedArray}
  {vs : List CoveArrayValue}

theorem decodeRow_of_lt (h : row < a.rowCount.toNat) :
    a.decodeRow lib row = a.nullOr row (a.decodePresentRow lib row) := by
  rw [EncodedArray.decodeRow, rejectIf, if_neg (not_le.mpr h)]
  rfl

theorem lt_of_decodeRow (h : a.decodeRow lib row = .ok v) : row < a.rowCount.toNat := by
  obtain ⟨hrow, -⟩ := of_reject h
  exact not_le.mp hrow

theorem prepared_decodeRow_of_lt (h : row < p.array.rowCount.toNat) :
    p.decodeRow lib row = p.readRow lib row := by
  rw [PreparedEncodedArray.decodeRow, rejectIf, if_neg (not_le.mpr h)]
  rfl

def rowByRow (lib : TransformDecoders) (a : EncodedArray) : Except CoveError (List CoveArrayValue) :=
  (range a.rowCount.toNat).mapM (a.decodeRow lib)

theorem collectRows_eq_rowByRow : a.collectRows (a.decodePresentRow lib) = rowByRow lib a :=
  (range_mapM_congr fun _ hrow => decodeRow_of_lt hrow).symm

theorem bulk_of_rowByRow (h : ∀ vs, a.decodeAllRows lib = .ok vs → rowByRow lib a = .ok vs)
    (hvs : a.decodeAllRows lib = .ok vs) :
    vs.length = a.rowCount.toNat ∧ ∀ row v, vs[row]? = some v → a.decodeRow lib row = .ok v :=
  range_mapM_ok_iff.mp (h vs hvs)

variable {α : Type}

theorem toOption_eq_iff {x y : Except CoveError α} :
    x.toOption = y.toOption ↔ ∀ v, x = .ok v ↔ y = .ok v := by
  rw [Option.ext_iff]
  simp only [toOption_eq_some_iff]

theorem selected_of_prepared
    (h : ∀ row v, a.decodeRow lib row = .ok v → p.decodeRow lib row = .ok v) {rows : List UInt32}
    (hvs : (rows.mapM fun row => a.decodeRow lib row.toNat) = .ok vs) :
    p.decodeSelectedRows lib rows = .ok vs :=
  mapM_of_forall₂ ((forall₂_of_mapM hvs).imp fun row v hv => h row.toNat v hv)

theorem readersAgree_direct_iff (hprepare : prepare lib a = .ok ⟨a, .direct⟩) :
    ReadersAgree lib a ↔ ∀ vs, a.decodeAllRows lib = .ok vs ↔ rowByRow lib a = .ok vs := by
  have hrow : ∀ row < a.rowCount.toNat,
      (⟨a, .direct⟩ : PreparedEncodedArray).decodeRow lib row = a.decodeRow lib row :=
    fun row hlt => prepared_decodeRow_of_lt hlt
  have hall : (⟨a, .direct⟩ : PreparedEncodedArray).decodeAllRows lib = rowByRow lib a :=
    range_mapM_congr hrow
  have hprepared : ∀ row v, a.decodeRow lib row = .ok v →
      (⟨a, .direct⟩ : PreparedEncodedArray).decodeRow lib row = .ok v := by
    intro row v hv
    rw [hrow row (lt_of_decodeRow hv), hv]
  constructor
  · intro h vs
    have hsame := h.all _ hprepare
    rw [hall] at hsame
    exact (toOption_eq_iff.mp hsame vs).symm
  · intro h
    refine ⟨fun vs => bulk_of_rowByRow fun vs => (h vs).mp, fun p hp => ?_, fun p hp => ?_,
      fun p hp => ?_⟩
    all_goals obtain rfl := ok.inj (hprepare.symm.trans hp)
    · exact hprepared
    · exact fun rows vs => selected_of_prepared hprepared
    · rw [hall]
      exact toOption_eq_iff.mpr fun vs => (h vs).symm

theorem readersAgree_decodedValues (hprepare : prepare lib a = do
      let values ← a.decodeAllRows lib
      .ok ⟨a, .decodedValues values⟩)
    (hbulk : ∀ vs, a.decodeAllRows lib = .ok vs → rowByRow lib a = .ok vs) :
    ReadersAgree lib a := by
  have hvalues : ∀ p, prepare lib a = .ok p →
      ∃ vs, a.decodeAllRows lib = .ok vs ∧ p = ⟨a, .decodedValues vs⟩ := by
    intro p hp
    rw [hprepare] at hp
    obtain ⟨vs, hvs, hp⟩ := of_andThen hp
    exact ⟨vs, hvs, (ok.inj hp).symm⟩
  have hprepared : ∀ p, prepare lib a = .ok p → ∀ row v, a.decodeRow lib row = .ok v →
      p.decodeRow lib row = .ok v := by
    intro p hp row v hv
    obtain ⟨vs, hvs, rfl⟩ := hvalues p hp
    obtain ⟨hlen, hrows⟩ := range_mapM_ok_iff.mp (hbulk vs hvs)
    have hlt := lt_of_decodeRow hv
    have hget := List.getElem?_eq_getElem (show row < vs.length by omega)
    rw [prepared_decodeRow_of_lt hlt, ← hv, hrows row _ hget, PreparedEncodedArray.readRow]
    simp only [hget]
  refine ⟨fun vs => bulk_of_rowByRow hbulk, hprepared,
    fun p hp rows vs => selected_of_prepared (hprepared p hp), fun p hp => ?_⟩
  obtain ⟨vs, hvs, rfl⟩ := hvalues p hp
  rw [hvs]
  rfl

/-- A page of records of varying width, of which the offsets are noted. -/
structure WalkedPage (lib : TransformDecoders) (a : EncodedArray) (kind : VariableOffsetKind)
    (next : Nat → Except CoveError Nat)
    (rows : Nat → Nat → Nat → Except CoveError (List CoveArrayValue)) : Prop where
  prepare_eq : prepare lib a = do
    let offsets ← VariableOffsets.collect kind next a.rowCount
    .ok ⟨a, .variableOffsets offsets⟩
  scan : ∀ row, a.decodePresentRow lib row = (skip next row 0 >>= valueAtOffset a kind)
  bulk : a.decodeAllRows lib = rows a.rowCount.toNat 0 0
  reads : ReadsRecords next (valueAtOffset a kind) (fun row value => a.nullOr row (.ok value)) rows
  read : ∀ pos after, next pos = .ok after → ∃ value, valueAtOffset a kind pos = .ok value

namespace WalkedPage

variable {kind : VariableOffsetKind} {next : Nat → Except CoveError Nat}
  {rows : Nat → Nat → Nat → Except CoveError (List CoveArrayValue)} {offs : List Nat} {offset : Nat}

variable (h : WalkedPage lib a kind next rows)
include h

theorem decodeRow_eq (hoffs : offsets next a.rowCount.toNat 0 = .ok offs)
    (hoffset : offs[row]? = some offset) :
    a.decodeRow lib row = a.nullOr row (valueAtOffset a kind offset) := by
  have hlt := (List.getElem?_eq_some_iff.mp hoffset).1
  rw [offsets_length hoffs] at hlt
  rw [decodeRow_of_lt hlt, h.scan, skip_of_offsets hoffs hoffset]
  rfl

theorem keeps_iff (hoffs : offsets next a.rowCount.toNat 0 = .ok offs)
    (hoffset : offs[row]? = some offset) :
    (∃ x, valueAtOffset a kind offset = .ok x ∧ a.nullOr row (.ok x) = .ok v) ↔
      a.decodeRow lib row = .ok v := by
  obtain ⟨after, hafter⟩ := next_of_offsets hoffs (mem_of_getElem? hoffset)
  obtain ⟨value, hvalue⟩ := h.read offset after hafter
  rw [h.decodeRow_eq hoffs hoffset, hvalue]
  simp only [ok.injEq, exists_eq_left']

theorem bulk_ok_iff (hoffs : offsets next a.rowCount.toNat 0 = .ok offs) :
    a.decodeAllRows lib = .ok vs ↔ rowByRow lib a = .ok vs := by
  have hlen := offsets_length hoffs
  rw [h.bulk, h.reads.ok_iff, rowByRow, range_mapM_ok_iff]
  constructor
  · rintro ⟨offs', hoffs', hkept⟩
    obtain rfl := ok.inj (hoffs.symm.trans hoffs')
    have hsame := hkept.length_eq
    rw [length_zipIdx, hlen] at hsame
    refine ⟨hsame.symm, fun row v hv => ?_⟩
    obtain ⟨hlt, rfl⟩ := List.getElem?_eq_some_iff.mp hv
    have hoffset := List.getElem?_eq_getElem (show row < offs.length by omega)
    have hzip : row < (offs.zipIdx 0).length := by
      rw [length_zipIdx]
      omega
    refine (h.keeps_iff hoffs hoffset).mp ?_
    simpa using hkept.get hzip hlt
  · rintro ⟨hcount, hrows⟩
    refine ⟨offs, hoffs, forall₂_iff_get.mpr ⟨?_, fun row hzip hlt => ?_⟩⟩
    · rw [length_zipIdx, hlen, hcount]
    · have hoffset := List.getElem?_eq_getElem (show row < offs.length by omega)
      simpa using (h.keeps_iff hoffs hoffset).mpr (hrows row _ (List.getElem?_eq_getElem hlt))

theorem prepared_eq (hp : prepare lib a = .ok p) :
    ∃ offs, offsets next a.rowCount.toNat 0 = .ok offs ∧
      p = ⟨a, .variableOffsets ⟨kind, offs⟩⟩ := by
  rw [h.prepare_eq] at hp
  obtain ⟨o, ho, hp⟩ := of_andThen hp
  obtain ⟨offs, hoffs, ho⟩ := of_andThen ho
  cases ho
  exact ⟨offs, hoffs, (ok.inj hp).symm⟩

theorem prepared_decodeRow (hp : prepare lib a = .ok p) (hlt : row < a.rowCount.toNat) :
    p.decodeRow lib row = a.decodeRow lib row := by
  obtain ⟨offs, hoffs, rfl⟩ := h.prepared_eq hp
  have hoffset := List.getElem?_eq_getElem (show row < offs.length by rwa [offsets_length hoffs])
  rw [prepared_decodeRow_of_lt hlt, h.decodeRow_eq hoffs hoffset, PreparedEncodedArray.readRow]
  simp only [VariableOffsets.offsetForRow, hoffset]
  rfl

theorem readersAgree : ReadersAgree lib a := by
  have hprepared : ∀ p, prepare lib a = .ok p → ∀ row v, a.decodeRow lib row = .ok v →
      p.decodeRow lib row = .ok v := by
    intro p hp row v hv
    rw [h.prepared_decodeRow hp (lt_of_decodeRow hv), hv]
  refine ⟨fun vs => bulk_of_rowByRow fun vs hvs => ?_, hprepared,
    fun p hp rows vs => selected_of_prepared (hprepared p hp), fun p hp => ?_⟩
  · obtain ⟨offs, hoffs, -⟩ := h.reads.ok_iff.mp (h.bulk ▸ hvs)
    exact (h.bulk_ok_iff hoffs).mp hvs
  · obtain ⟨offs, hoffs, rfl⟩ := h.prepared_eq hp
    have hall : (⟨a, .variableOffsets ⟨kind, offs⟩⟩ : PreparedEncodedArray).decodeAllRows lib =
        rowByRow lib a := range_mapM_congr fun _ hlt => h.prepared_decodeRow hp hlt
    rw [hall]
    exact toOption_eq_iff.mpr fun vs => (h.bulk_ok_iff hoffs).symm

end WalkedPage

theorem nullOr_ok_iff {value : Except CoveError CoveArrayValue} :
    a.nullOr row value = .ok v ↔
      a.isNull row = .ok true ∧ v = .null ∨ a.isNull row = .ok false ∧ value = .ok v := by
  rw [nullOr]
  cases hnull : a.isNull row with
  | error e =>
    constructor
    · intro h
      cases h
    · rintro (⟨h, -⟩ | ⟨h, -⟩) <;> cases h
  | ok absent =>
    cases absent with
    | true =>
      change ok CoveArrayValue.null = _ ↔ _
      simp [eq_comm]
    | false =>
      change value = _ ↔ _
      simp

theorem valuesFrom_rowByRow {decode : α → Except CoveError CoveArrayValue} {values : List α}
    (hscan : ∀ row, a.decodePresentRow lib row = a.valueFrom decode row values)
    (h : a.valuesFrom decode values = .ok vs) : rowByRow lib a = .ok vs := by
  obtain ⟨hlen, h⟩ := of_reject h
  have hcount : values.length = a.rowCount.toNat := not_not.mp hlen
  have hrows := forall₂_of_mapM h
  have hsame := hrows.length_eq
  rw [length_zipIdx, hcount] at hsame
  refine range_mapM_ok_iff.mpr ⟨hsame.symm, fun row v hv => ?_⟩
  obtain ⟨hlt, rfl⟩ := List.getElem?_eq_some_iff.mp hv
  have hvalue := List.getElem?_eq_getElem (show row < values.length by omega)
  have hfrom : a.valueFrom decode row values = decode values[row] := by
    rw [valueFrom, rejectIf, if_neg (not_not.mpr hcount)]
    simp only [hvalue]
    rfl
  rw [decodeRow_of_lt (by omega), hscan, hfrom]
  simpa using hrows.get (show row < values.zipIdx.length by rw [length_zipIdx]; omega) hlt

/-- The slot of a row of fixed width lies within the data. -/
def SlotInData (a : EncodedArray) (width row : Nat) : Prop :=
  row * width + width < 2 ^ 64 ∧ row * width + width ≤ a.data.length

theorem rowSlice_ok_iff {width : Nat} :
    (∃ bytes, a.rowSlice row width = .ok bytes) ↔ SlotInData a width row := by
  simp only [rowSlice, andThen_eq_ok_iff, rejectIf_eq_ok_iff, checkedRegion_ok_iff, SlotInData]
  constructor
  · rintro ⟨bytes, ⟨⟩, -, hlt, hle, -⟩
    exact ⟨hlt, hle⟩
  · rintro ⟨hlt, hle⟩
    exact ⟨_, (), by omega, hlt, hle, rfl⟩

/-- A row that the scalar access reads in a canonical page of fixed width. -/
def SlotReadable (a : EncodedArray) (width row : Nat) : Prop :=
  a.isNull row = .ok true ∨ a.isNull row = .ok false ∧ SlotInData a width row

/-- Where the readers agree: the bulk decoder of canonical pages does not look at the validity bits
of a Null column, reads the slots of null rows too, and rejects types without a width even where
no value is present. -/
def CanonicalRowsAgree (a : EncodedArray) : Prop :=
  match a.logical with
  | .null => ∀ row < a.rowCount.toNat, ∃ absent, a.isNull row = .ok absent
  | .bool | .utf8 | .binary | .json => True
  | logical =>
    match logicalTypeFixedWidth logical with
    | none => ∃ row < a.rowCount.toNat, a.isNull row ≠ .ok true
    | some width =>
      (∀ row < a.rowCount.toNat, SlotInData a width row) ∨
        ∃ row < a.rowCount.toNat, ¬ SlotReadable a width row

theorem rowByRow_ok_iff :
    (∃ vs, rowByRow lib a = .ok vs) ↔ ∀ row < a.rowCount.toNat, ∃ v, a.decodeRow lib row = .ok v := by
  constructor
  · rintro ⟨vs, hvs⟩ row hlt
    obtain ⟨v, -, hv⟩ := exists_of_mapM hvs (mem_range.mpr hlt)
    exact ⟨v, hv⟩
  · exact fun h => exists_mapM fun row hrow => h row (mem_range.mp hrow)

theorem null_agree_iff (hencoding : a.encoding = .canonical) (hlogical : a.logical = .null) :
    (∀ vs, a.decodeAllRows lib = .ok vs ↔ rowByRow lib a = .ok vs) ↔
      ∀ row < a.rowCount.toNat, ∃ absent, a.isNull row = .ok absent := by
  have hbulk : a.decodeAllRows lib = .ok (replicate a.rowCount.toNat .null) := by
    rw [decodeAllRows, hencoding]
    simp only [canonicalRows, hlogical]
  have hrow : ∀ row < a.rowCount.toNat, ∀ v,
      a.decodeRow lib row = .ok v ↔ (∃ absent, a.isNull row = .ok absent) ∧ .null = v := by
    intro row hlt v
    rw [decodeRow_of_lt hlt, decodePresentRow, hencoding]
    simp only [decodeCanonicalRow, hlogical, nullOr_ok_iff, ok.injEq, Bool.exists_bool]
    tauto
  constructor
  · intro h row hlt
    obtain ⟨v, -, hv⟩ := exists_of_mapM ((h _).mp hbulk) (mem_range.mpr hlt)
    exact ((hrow row hlt v).mp hv).1
  · intro h vs
    have hrows : rowByRow lib a = .ok (replicate a.rowCount.toNat .null) := by
      refine range_mapM_ok_iff.mpr ⟨length_replicate, fun row v hv => ?_⟩
      obtain ⟨hlt, rfl⟩ := List.getElem?_eq_some_iff.mp hv
      rw [length_replicate] at hlt
      exact (hrow row hlt _).mpr ⟨h row hlt, (getElem_replicate ..).symm⟩
    rw [hbulk, hrows]

theorem withoutWidth_agree_iff (hbulk : ∃ e, a.decodeAllRows lib = .error e)
    (hscan : ∀ row, ∃ e, a.decodePresentRow lib row = .error e) :
    (∀ vs, a.decodeAllRows lib = .ok vs ↔ rowByRow lib a = .ok vs) ↔
      ∃ row < a.rowCount.toNat, a.isNull row ≠ .ok true := by
  obtain ⟨e, hbulk⟩ := hbulk
  have hrow : ∀ row < a.rowCount.toNat,
      (∃ v, a.decodeRow lib row = .ok v) ↔ a.isNull row = .ok true := by
    intro row hlt
    obtain ⟨e, he⟩ := hscan row
    rw [decodeRow_of_lt hlt, he]
    simp [nullOr_ok_iff]
  have hnever : (∀ vs, a.decodeAllRows lib = .ok vs ↔ rowByRow lib a = .ok vs) ↔
      ¬ ∃ vs, rowByRow lib a = .ok vs := by
    rw [hbulk]
    simp [iff_def]
  rw [hnever, rowByRow_ok_iff]
  push Not
  constructor
  · rintro ⟨row, hlt, hv⟩
    refine ⟨row, hlt, fun hnull => ?_⟩
    obtain ⟨v, hfound⟩ := (hrow row hlt).mpr hnull
    exact hv v hfound
  · rintro ⟨row, hlt, hnull⟩
    exact ⟨row, hlt, fun v hv => hnull ((hrow row hlt).mp ⟨v, hv⟩)⟩

/-- A page of fixed width as both decoders read it: the bulk decoder takes the slot of a row before
it asks whether the row is null, the scalar access does so after. -/
structure FixedWidthPage (lib : TransformDecoders) (a : EncodedArray) (width : Nat) : Prop where
  bulk : a.decodeAllRows lib = (range a.rowCount.toNat).mapM fun row => do
    let bytes ← a.rowSlice row width
    a.nullOr row (.ok (.bytes bytes))
  scan : ∀ row, a.decodePresentRow lib row = do
    let bytes ← a.rowSlice row width
    .ok (.bytes bytes)

namespace FixedWidthPage

variable {width : Nat}

variable (h : FixedWidthPage lib a width)
include h

theorem slotReadable_iff (hlt : row < a.rowCount.toNat) :
    (∃ v, a.decodeRow lib row = .ok v) ↔ SlotReadable a width row := by
  rw [decodeRow_of_lt hlt, h.scan, SlotReadable, ← rowSlice_ok_iff]
  simp only [nullOr_ok_iff, andThen_eq_ok_iff, ok.injEq]
  constructor
  · rintro ⟨v, ⟨hnull, -⟩ | ⟨hnull, bytes, hbytes, -⟩⟩
    · exact .inl hnull
    · exact .inr ⟨hnull, bytes, hbytes⟩
  · rintro (hnull | ⟨hnull, bytes, hbytes⟩)
    · exact ⟨.null, .inl ⟨hnull, rfl⟩⟩
    · exact ⟨.bytes bytes, .inr ⟨hnull, bytes, hbytes, rfl⟩⟩

theorem bulkRow_ok_iff (hlt : row < a.rowCount.toNat) {v : CoveArrayValue} :
    (a.rowSlice row width >>= fun bytes => a.nullOr row (.ok (.bytes bytes))) = .ok v ↔
      SlotInData a width row ∧ a.decodeRow lib row = .ok v := by
  rw [decodeRow_of_lt hlt, h.scan, ← rowSlice_ok_iff]
  cases hslice : a.rowSlice row width with
  | error e =>
    constructor
    · intro h
      cases h
    · rintro ⟨⟨bytes, hbytes⟩, -⟩
      cases hbytes
  | ok bytes => exact ⟨fun h => ⟨⟨bytes, rfl⟩, h⟩, fun h => h.2⟩

theorem bulk_ok_iff : a.decodeAllRows lib = .ok vs ↔
      (∀ row < a.rowCount.toNat, SlotInData a width row) ∧ rowByRow lib a = .ok vs := by
  rw [h.bulk, rowByRow, range_mapM_ok_iff, range_mapM_ok_iff]
  constructor
  · rintro ⟨hlen, hall⟩
    refine ⟨fun row hlt => ?_, hlen, fun row v hv => ?_⟩
    · have hget := List.getElem?_eq_getElem (show row < vs.length by omega)
      exact ((h.bulkRow_ok_iff hlt).mp (hall row _ hget)).1
    · have hlt := (List.getElem?_eq_some_iff.mp hv).1
      exact ((h.bulkRow_ok_iff (by omega)).mp (hall row v hv)).2
  · rintro ⟨hslots, hlen, hall⟩
    refine ⟨hlen, fun row v hv => ?_⟩
    have hlt := (List.getElem?_eq_some_iff.mp hv).1
    exact (h.bulkRow_ok_iff (by omega)).mpr ⟨hslots row (by omega), hall row v hv⟩

theorem agree_iff :
    (∀ vs, a.decodeAllRows lib = .ok vs ↔ rowByRow lib a = .ok vs) ↔
      (∀ row < a.rowCount.toNat, SlotInData a width row) ∨
        ∃ row < a.rowCount.toNat, ¬ SlotReadable a width row := by
  constructor
  · intro hsame
    by_cases hall : ∀ row < a.rowCount.toNat, SlotReadable a width row
    · obtain ⟨vs, hvs⟩ :=
        rowByRow_ok_iff.mpr fun row hlt => (h.slotReadable_iff hlt).mpr (hall row hlt)
      exact .inl (h.bulk_ok_iff.mp ((hsame vs).mpr hvs)).1
    · push Not at hall
      exact .inr hall
  · rintro (hslots | ⟨row, hlt, hrow⟩) vs
    · rw [h.bulk_ok_iff, and_iff_right hslots]
    · have hnever : rowByRow lib a ≠ .ok vs := fun hvs =>
        hrow ((h.slotReadable_iff hlt).mp (rowByRow_ok_iff.mp ⟨vs, hvs⟩ row hlt))
      exact iff_of_false (fun hvs => hnever (h.bulk_ok_iff.mp hvs).2) hnever

end FixedWidthPage

variable {pos after : Nat}

theorem varintAt_of_next (h : a.nextVarint pos = .ok after) :
    ∃ value, a.varintAt pos = .ok value := by
  obtain ⟨hpos, h⟩ := of_check h
  obtain ⟨read, hread, -⟩ := of_andThen h
  exact ⟨_, andThen_ok hpos (andThen_ok hread rfl)⟩

theorem varBytesAt_of_next (h : a.nextVarBytes pos = .ok after) :
    ∃ value, a.varBytesAt pos = .ok value := by
  obtain ⟨raw, hraw, rfl, hlt, hle⟩ := nextVarBytes_ok_iff.mp h
  exact ⟨_, varBytesAt_ok_iff.mpr ⟨raw, hraw, _, checkedRegion_ok_iff.mpr ⟨hlt, hle, rfl⟩, rfl⟩⟩

theorem lengthPrefixedAt_of_next (h : a.nextLengthPrefixed pos = .ok after) :
    ∃ value, a.lengthPrefixedAt pos = .ok value := by
  obtain ⟨read, hread, rfl, hlt, hle⟩ := nextLengthPrefixed_ok_iff.mp h
  exact ⟨_, lengthPrefixedAt_ok_iff.mpr
    ⟨read, hread, _, checkedRegion_ok_iff.mpr ⟨hlt, hle, rfl⟩, rfl⟩⟩

theorem readersAgree_cascade (hprepare : prepare lib a = do
      let values ← a.decodeAllRows lib
      .ok ⟨a, .decodedValues values⟩)
    (hbulk : a.decodeAllRows lib = do
      let values ← lib.cascade a.encoding a.data
      a.valuesFrom a.valueFromI64 values)
    (hscan : ∀ row, a.decodePresentRow lib row = do
      let values ← lib.cascade a.encoding a.data
      a.valueFrom a.valueFromI64 row values) : ReadersAgree lib a := by
  refine readersAgree_decodedValues hprepare fun vs h => ?_
  rw [hbulk] at h
  obtain ⟨values, hvalues, h⟩ := of_andThen h
  refine valuesFrom_rowByRow (fun row => ?_) h
  rw [hscan, hvalues]
  rfl

theorem readersAgree_collected (hprepare : prepare lib a = .ok ⟨a, .direct⟩)
    (hbulk : a.decodeAllRows lib = a.collectRows (a.decodePresentRow lib)) : ReadersAgree lib a := by
  refine (readersAgree_direct_iff hprepare).mpr fun vs => ?_
  rw [hbulk, collectRows_eq_rowByRow]

theorem plainVarint_walked (hencoding : a.encoding = .plainVarint) :
    WalkedPage lib a .plainVarint a.nextVarint a.plainVarintRows where
  prepare_eq := by
    rw [prepare, hencoding]
    rfl
  scan := fun row => by
    rw [decodePresentRow, hencoding]
    rfl
  bulk := by rw [decodeAllRows, hencoding]
  reads := plainVarintRows_reads
  read := fun _ _ => varintAt_of_next

theorem varBytes_walked (hencoding : a.encoding = .varBytes) :
    WalkedPage lib a .varBytes a.nextVarBytes a.varBytesRows where
  prepare_eq := by
    rw [prepare, hencoding]
    rfl
  scan := fun row => by
    rw [decodePresentRow, hencoding]
    rfl
  bulk := by rw [decodeAllRows, hencoding]
  reads := varBytesRows_reads
  read := fun _ _ => varBytesAt_of_next

theorem lengthPrefixed_walked (hencoding : a.encoding = .canonical)
    (hlogical : a.logical = .utf8 ∨ a.logical = .binary ∨ a.logical = .json) :
    WalkedPage lib a .canonicalLengthPrefixed a.nextLengthPrefixed
      a.canonicalLengthPrefixedRows where
  prepare_eq := by
    rw [prepare, hencoding]
    rcases hlogical with h | h | h <;> simp only [h] <;> rfl
  scan := fun row => by
    rw [decodePresentRow, hencoding]
    rcases hlogical with h | h | h <;> simp only [decodeCanonicalRow, h] <;> rfl
  bulk := by
    rw [decodeAllRows, hencoding]
    rcases hlogical with h | h | h <;> simp only [canonicalRows, h]
  reads := canonicalLengthPrefixedRows_reads
  read := fun _ _ => lengthPrefixedAt_of_next

theorem canonical_readersAgree_iff (hencoding : a.encoding = .canonical) :
    ReadersAgree lib a ↔ CanonicalRowsAgree a := by
  have hbulk : a.decodeAllRows lib = a.canonicalRows lib := by rw [decodeAllRows, hencoding]
  have hscan : ∀ row, a.decodePresentRow lib row = a.decodeCanonicalRow row := by
    intro row
    rw [decodePresentRow, hencoding]
  rw [CanonicalRowsAgree]
  cases hlogical : a.logical with
  | utf8 | binary | json =>
    exact iff_of_true (lengthPrefixed_walked hencoding (by simp [hlogical])).readersAgree trivial
  | bool =>
    refine iff_of_true (readersAgree_collected ?_ ?_) trivial
    · rw [prepare, hencoding]
      simp only [hlogical]
    · rw [hbulk, canonicalRows, hlogical]
  | null =>
    rw [readersAgree_direct_iff (by rw [prepare, hencoding]; simp only [hlogical]),
      null_agree_iff hencoding hlogical]
  | list | struct | map =>
    rw [readersAgree_direct_iff (by rw [prepare, hencoding]; simp only [hlogical])]
    refine withoutWidth_agree_iff ⟨.unsupportedEncoding
      ("Canonical row decode unsupported for " ++ logicalTypeName a.logical), ?_⟩ fun row =>
        ⟨.unsupportedEncoding
          ("Canonical row decode unsupported for " ++ logicalTypeName a.logical), ?_⟩
    · rw [hbulk, canonicalRows, hlogical]
      rfl
    · rw [hscan, decodeCanonicalRow, hlogical]
      rfl
  | _ =>
    rw [readersAgree_direct_iff (by rw [prepare, hencoding]; simp only [hlogical])]
    refine FixedWidthPage.agree_iff ⟨?_, fun row => ?_⟩
    · rw [hbulk, canonicalRows, hlogical]
      rfl
    · rw [hscan, decodeCanonicalRow, hlogical]
      rfl

/-- The three ways to read a page agree exactly where those of a canonical page do. -/
theorem readersAgree_iff (a : EncodedArray) :
    ReadersAgree transforms a ↔ (a.encoding = .canonical → CanonicalRowsAgree a) := by
  cases hencoding : a.encoding with
  | canonical => simpa using canonical_readersAgree_iff hencoding
  | plainVarint => exact iff_of_true (plainVarint_walked hencoding).readersAgree nofun
  | varBytes => exact iff_of_true (varBytes_walked hencoding).readersAgree nofun
  | localCodebook =>
    refine iff_of_true (readersAgree_decodedValues ?_ fun vs h => ?_) nofun
    · rw [prepare, hencoding]
    · rw [decodeAllRows, hencoding] at h
      obtain ⟨values, hvalues, h⟩ := of_andThen h
      refine valuesFrom_rowByRow (fun row => ?_) h
      rw [decodePresentRow, hencoding]
      change (transforms.codebook a.data >>= _) = _
      rw [hvalues]
      rfl
  | rle | runEnd | bitPacked | delta | frameOfReference | patchedBase | sparse =>
    refine iff_of_true (readersAgree_cascade ?_ ?_ fun row => ?_) nofun
    · rw [prepare, hencoding]
    · rw [decodeAllRows, hencoding]
    · rw [decodePresentRow, hencoding]
  | _ =>
    refine iff_of_true (readersAgree_collected ?_ ?_) nofun
    · rw [prepare, hencoding]
    · rw [decodeAllRows, hencoding]

def nullWithoutSlot : EncodedArray where
  logical := .int32
  physical := .fixedBytes
  rowCount := 1
  encoding := .canonical
  validity := some ⟨[1], 1⟩
  data := []
  dictionary := none

/-- The scalar access and a prepared page return the null, the bulk decoder an error. -/
theorem null_without_slot_rejected : nullWithoutSlot.decodeRow transforms 0 = .ok .null ∧
      prepare transforms nullWithoutSlot = .ok ⟨nullWithoutSlot, .direct⟩ ∧
      (⟨nullWithoutSlot, .direct⟩ : PreparedEncodedArray).decodeAllRows transforms = .ok [.null] ∧
      nullWithoutSlot.decodeAllRows transforms = .error .offsetRange ∧
      ¬ ReadersAgree transforms nullWithoutSlot := by
  have hprepare : prepare transforms nullWithoutSlot = .ok ⟨nullWithoutSlot, .direct⟩ := rfl
  have hall : (⟨nullWithoutSlot, .direct⟩ : PreparedEncodedArray).decodeAllRows transforms =
      .ok [.null] := by decide
  have hbulk : nullWithoutSlot.decodeAllRows transforms = .error .offsetRange := by decide
  refine ⟨by decide, hprepare, hall, hbulk, fun h => ?_⟩
  have hsame := h.all _ hprepare
  rw [hall, hbulk] at hsame
  cases hsame

end

end CoveFormat.PreparedArrays
