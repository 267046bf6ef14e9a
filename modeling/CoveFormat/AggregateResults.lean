import CoveFormat.AggregateValues
import CoveFormat.LookupKeys

namespace CoveFormat.AggregateResults

open AggregateCoverage AggregateSynopses AggregateValues ByteCodes CheckedArith CoveTypes Except
  ExceptRules List MetadataAggregates
open Canonical (ValueTag TextPredicates)

variable {P : TextPredicates} {state : DatasetState} {data : List FileData} {i : Nat}
  {column : Column} {logical : CoveLogicalType} {value : Option PlanValue}

/-- The rows of the files of a dataset, which their entries describe. -/
structure Holds (state : DatasetState) (data : List FileData) : Prop where
  files : state.files = data.map FileData.file
  truthful : ∀ d ∈ data, Truthful d
  wellFormed : ∀ d ∈ data, WellFormed d

/-- The entries that are used for a column, file by file. -/
def Used (data : List FileData) (columnId : UInt32) (kind : SynopsisKind)
    (itemss : List (List Item)) : Prop :=
  Forall₂ (fun d items => exactPayloadEntriesForFile (FileData.file d) columnId kind = .ok items)
    data itemss

/-- The value of a plan is an extreme of the values, and NULL where there is none. -/
def RightExtreme (kind : MetadataSynopsisAggregateKind) (values : List TaggedCanonicalValue) :
    Option PlanValue → Prop
  | none => values = []
  | some (.canonical payload) => ∃ value, value.payload = payload ∧ IsExtreme kind value values
  | some (.real _) => False

/-- One of the values comes first both in the order of the column and in that of the payloads. -/
def ExtremeInBoth (kind : MetadataSynopsisAggregateKind) (values : List TaggedCanonicalValue) : Prop :=
  values = [] ∨ ∃ value ∈ values, ∀ other ∈ values,
    Before kind (readKey value) (readKey other) ∧ Before kind (orderKey value) (orderKey other)

def usedExtremes (kind : MetadataSynopsisAggregateKind) (data : List FileData)
    (itemss : List (List Item)) : List TaggedCanonicalValue :=
  ((located data itemss).map Prod.snd).filterMap fun item => extremePayload kind item.2

section

variable {kind : MetadataSynopsisAggregateKind}

theorem Before.antisymm {α : Type} [PartialOrder α] {a b : α} (hab : Before kind a b)
    (hba : Before kind b a) : a = b := by
  cases kind with
  | max => exact le_antisymm hba hab
  | min | sum | avg => exact le_antisymm hab hba

variable {synopsisKind : SynopsisKind}

theorem used_unique {columnId : UInt32} {a b : List (List Item)}
    (ha : Used data columnId synopsisKind a) (hb : Used data columnId synopsisKind b) : a = b := by
  induction ha generalizing b with
  | nil => cases hb; rfl
  | cons hfirst _ ih =>
    cases hb with
    | cons hother hrest => rw [ih hrest, ok.inj (hfirst.symm.trans hother)]

variable {a b : TaggedCanonicalValue}

theorem same_of_payload (hbool : logical ≠ .bool) (ha : HasType logical a) (hb : HasType logical b)
    (h : a.payload = b.payload) : a = b := by
  obtain ⟨atag, apayload⟩ := a
  obtain ⟨btag, bpayload⟩ := b
  obtain rfl : apayload = bpayload := h
  obtain rfl : atag = btag := (ha.resolve_left hbool).trans (hb.resolve_left hbool).symm
  rfl

theorem orderKey_of_readKey (hbool : logical ≠ .bool) (ha : HasType logical a)
    (hb : HasType logical b) (h : readKey a = readKey b) : orderKey a = orderKey b := by
  have htag := (ha.resolve_left hbool).trans (hb.resolve_left hbool).symm
  rw [readKey, readKey, ← htag] at h
  split at h
  · have hpayload : a.payload = b.payload := (Prod.mk.inj (toLex.injective h)).2
    rw [same_of_payload hbool ha hb hpayload]
  · exact h

theorem minMax_ok (hcolumn : state.columns[i]? = some column)
    (h : exactSynopsisMinMax P state i kind = .ok value) : column.logical ≠ .bool ∧
      ∃ totals, state.files.foldlM
          (foldFile column.columnId .minMax (minMaxStep P column.logical kind)) ⟨0, 0, none⟩ =
            .ok totals ∧ totals.coveredRows = state.rowCount ∧
        if totals.nonNullRows = 0 then value = none
        else ∃ best, totals.acc = some best ∧ value = some (.canonical best.payload) := by
  simp only [exactSynopsisMinMax, hcolumn] at h
  obtain ⟨hbool, h⟩ := of_reject h
  obtain ⟨totals, htotals, h⟩ := of_andThen h
  obtain ⟨hcovered, h⟩ := of_reject h
  refine ⟨hbool, totals, htotals, not_not.mp hcovered, ?_⟩
  split
  · rename_i hzero
    rw [if_pos hzero] at h
    exact (ok.inj h).symm
  · rename_i hzero
    rw [if_neg hzero] at h
    split at h
    · cases h
    · rename_i best hbest
      exact ⟨best, hbest, (ok.inj h).symm⟩

variable {itemss : List (List Item)}

theorem used_values (hdata : Holds state data) (hcolumn : state.columns[i]? = some column)
    (hids : IdsAgree state i) (hused : Used data column.columnId synopsisKind itemss)
    (hsum : (((located data itemss).map Prod.snd).map fun item => item.1.rowCount.toNat).sum =
      state.rowCount) :
    (∀ p ∈ located data itemss, Describes p.1 i column.logical p.2) ∧
      ((located data itemss).flatMap fun p => scopeValues i p.1 p.2.1).Perm (columnValues i data) ∧
      (columnValues i data).length +
        (((located data itemss).map Prod.snd).map fun item => item.1.nullCount.toNat).sum =
          state.rowCount := by
  have hdescribes := located_describes hdata.files hdata.truthful hcolumn hids hused
  have hperm := covered_values hused hdescribes
    (hsum.trans (state_rowCount hdata.files hdata.wellFormed))
  refine ⟨hdescribes, hperm, ?_⟩
  rw [← hperm.length_eq, nonNull_values hdescribes, hsum]

/-- The best of the extremes of the entries is one of the column where some entry's extreme comes
first in both orders. -/
theorem rightExtreme_iff (hbool : logical ≠ .bool) {values extremes : List TaggedCanonicalValue}
    (htyped : ∀ v ∈ values, HasType logical v) (hmem : ∀ c ∈ extremes, c ∈ values)
    (hcover : ∀ v ∈ values, ∃ c ∈ extremes, Before kind (orderKey c) (orderKey v))
    {acc : Option TaggedCanonicalValue} (hbest : BestOf kind extremes acc)
    (hvalue : if values.length = 0 then value = none else ∃ best, acc = some best ∧
      value = some (.canonical best.payload)) :
    RightExtreme kind values value ↔ ExtremeInBoth kind extremes := by
  by_cases hempty : values = []
  · subst hempty
    subst hvalue
    refine iff_of_true rfl (.inl (eq_nil_iff_forall_not_mem.mpr fun c hc => ?_))
    exact absurd (hmem c hc) not_mem_nil
  · rw [if_neg (fun hzero => hempty (length_eq_zero_iff.mp hzero))] at hvalue
    obtain ⟨best, rfl, rfl⟩ := hvalue
    obtain ⟨hin, hfirst⟩ := hbest
    constructor
    · rintro ⟨v, hpayload, hv, hextreme⟩
      obtain rfl := same_of_payload hbool (htyped v hv) (htyped best (hmem best hin)) hpayload
      exact .inr ⟨v, hin, fun other hother => ⟨hfirst other hother, hextreme other (hmem other hother)⟩⟩
    · rintro (hnone | ⟨c, hc, hboth⟩)
      · rw [hnone] at hin
        exact absurd hin not_mem_nil
      · have hread := Before.antisymm (hfirst c hc) (hboth best hin).1
        have horder := orderKey_of_readKey hbool (htyped best (hmem best hin)) (htyped c (hmem c hc)) hread
        refine ⟨best, rfl, hmem best hin, fun v hv => ?_⟩
        obtain ⟨e, he, hev⟩ := hcover v hv
        rw [horder]
        exact (hboth e he).2.trans hev

theorem used_extremes (hkind : kind = .min ∨ kind = .max)
    (hdescribes : ∀ p ∈ located data itemss, Describes p.1 i column.logical p.2)
    (hperm : ((located data itemss).flatMap fun p => scopeValues i p.1 p.2.1).Perm (columnValues i data))
    (hpayloads : ∀ item ∈ (located data itemss).map Prod.snd, ∃ min max, item.2 = .minMax min max) :
    (∀ c ∈ usedExtremes kind data itemss, c ∈ columnValues i data) ∧
      ∀ v ∈ columnValues i data, ∃ c ∈ usedExtremes kind data itemss,
        Before kind (orderKey c) (orderKey v) := by
  have heach : ∀ p ∈ located data itemss,
      (∀ c ∈ extremePayload kind p.2.2, IsExtreme kind c (scopeValues i p.1 p.2.1)) ∧
        (extremePayload kind p.2.2 = none → scopeValues i p.1 p.2.1 = []) := by
    intro p hp
    obtain ⟨min, max, hpayload⟩ := hpayloads p.2 (mem_map_of_mem hp)
    have hdescribe := (hdescribes p hp).payload
    rw [hpayload] at hdescribe ⊢
    exact extreme_of_describes hkind hdescribe
  constructor
  · intro c hc
    obtain ⟨item, hitem, hextreme⟩ := mem_filterMap.mp hc
    obtain ⟨p, hp, rfl⟩ := mem_map.mp hitem
    exact hperm.mem_iff.mp (mem_flatMap.mpr ⟨p, hp, ((heach p hp).1 c hextreme).1⟩)
  · intro v hv
    obtain ⟨p, hp, hscope⟩ := mem_flatMap.mp (hperm.mem_iff.mpr hv)
    cases hextreme : extremePayload kind p.2.2 with
    | none =>
      rw [(heach p hp).2 hextreme] at hscope
      exact absurd hscope not_mem_nil
    | some c =>
      exact ⟨c, mem_filterMap.mpr ⟨p.2, mem_map_of_mem hp, hextreme⟩,
        ((heach p hp).1 c hextreme).2 v hscope⟩

theorem minMax_iff (hdata : Holds state data) (hkind : kind = .min ∨ kind = .max)
    (hcolumn : state.columns[i]? = some column) (hids : IdsAgree state i)
    (h : exactSynopsisMinMax P state i kind = .ok value) :
    RightExtreme kind (columnValues i data) value ↔
      ∀ itemss, Used data column.columnId .minMax itemss →
        ExtremeInBoth kind (usedExtremes kind data itemss) := by
  obtain ⟨hbool, totals, htotals, hcovered, hvalue⟩ := minMax_ok hcolumn h
  rw [hdata.files] at htotals
  obtain ⟨itemss, hused, hfold⟩ := foldFiles_ok htotals
  have hunique : (∀ itemss', Used data column.columnId .minMax itemss' →
      ExtremeInBoth kind (usedExtremes kind data itemss')) ↔
        ExtremeInBoth kind (usedExtremes kind data itemss) := by
    refine ⟨fun hall => hall itemss hused, fun hone itemss' hused' => ?_⟩
    rwa [used_unique hused' hused]
  rw [hunique]
  obtain ⟨hrows, hnulls, hbest⟩ := @minMax_run P column.logical kind hkind _ _ _ [] hfold rfl
  simp only [Nat.zero_add] at hrows hnulls
  obtain ⟨hdescribes, hperm, hlength⟩ := used_values hdata hcolumn hids hused (hrows.symm.trans hcovered)
  have hpayloads := @foldlM_forall _ _ _ (fun item : Item => ∃ min max, item.2 = .minMax min max)
    (fun hstep => minMaxStep_payload hstep) _ _ _ hfold
  obtain ⟨hmem, hcover⟩ := used_extremes hkind hdescribes hperm hpayloads
  have hcount : totals.nonNullRows = (columnValues i data).length := by omega
  rw [hcount] at hvalue
  exact rightExtreme_iff hbool (column_typed hdata.files hdata.wellFormed hcolumn) hmem hcover hbest
    hvalue

end

def planNumber (logical : CoveLogicalType) : PlanValue → Option ℚ
  | .real number => number
  | .canonical payload =>
    match logical with
    | .decimal64 | .decimal128 => some (signed 128 (leNat payload))
    | .uint8 | .uint16 | .uint32 | .uint64 => some (leNat payload)
    | _ => some (signed 64 (leNat payload))

/-- The value of a plan is the sum of the values, and NULL where there is none. -/
def RightSum (logical : CoveLogicalType) (values : List TaggedCanonicalValue) :
    Option PlanValue → Prop
  | none => values = []
  | some value => values ≠ [] ∧ planNumber logical value = some (values.map number).sum

def RightAvg (values : List TaggedCanonicalValue) : Option PlanValue → Prop
  | none => values = []
  | some (.real average) => values ≠ [] ∧ average = some ((values.map number).sum / values.length)
  | some (.canonical _) => False

/-- The accumulator is one of the sums of the column. -/
def Accumulates (logical : CoveLogicalType) : SumAccumulator → Prop
  | .empty => True
  | .int _ => IsSumTag logical .int64
  | .uint _ => IsSumTag logical .uint64
  | .decimal total => IsSumTag logical .decimal128 ∧ -2 ^ 127 ≤ total ∧ total < 2 ^ 127
  | .float _ => IsSumTag logical .float64Bits

def sumPayload (isAvg : Bool) : AggregatePayloadV2 → Option TaggedCanonicalValue
  | .sum overflowPolicy sum => if !isAvg && overflowPolicy = .checkedExact then some sum else none
  | .sumAndCount overflowPolicy _ sum =>
    if isAvg && overflowPolicy = .checkedExact then some sum else none
  | _ => none

section

variable {isAvg : Bool}

theorem of_fixedValueBytes {α : Type} {width : Nat} {bytes : Bytes} {f : Nat → Except CoveError α} {y : α}
    (h : (fixedValueBytes width bytes >>= f) = .ok y) : f (leNat bytes) = .ok y := by
  obtain ⟨n, hn, h⟩ := of_andThen h
  rw [fixedValueBytes] at hn
  split at hn
  · cases hn
    exact h
  · cases hn

theorem float_sumTag {tag : ValueTag} (htag : IsSumTag logical tag)
    (h : tag = .float32Bits ∨ tag = .float64Bits) : IsSumTag logical .float64Bits := by
  cases logical <;> rcases h with rfl | rfl <;> first | exact .inr rfl | cases htag

theorem addFloat_ok {acc next : SumAccumulator} {number : Option ℚ} {q r : ℚ} (h : (match acc with
      | .empty => .ok (.float number)
      | .float total => .ok (.float (addNumbers total number))
      | _ => .error .badIndex : Except CoveError SumAccumulator) = .ok next)
    (htag : IsSumTag logical .float64Bits) (hnumber : number = some r) (hacc : acc.asF64 = some q) :
    next.asF64 = some (q + r) ∧ Accumulates logical next ∧ next ≠ .empty := by
  cases acc with
  | empty =>
    cases h
    cases hacc
    exact ⟨hnumber.trans (congrArg some (zero_add r).symm), htag, SumAccumulator.noConfusion⟩
  | float total =>
    cases h
    refine ⟨?_, htag, SumAccumulator.noConfusion⟩
    rw [SumAccumulator.asF64, show total = some q from hacc, hnumber]
    rfl
  | int total | uint total | decimal total => cases h

variable {acc : SumAccumulator} {q : ℚ}

theorem add_ok {next : SumAccumulator} {value : TaggedCanonicalValue} {r : ℚ}
    (h : acc.add value = .ok next) (htag : IsSumTag logical value.valueTag)
    (hvalue : numberOf value = some r) (hacc : acc.asF64 = some q) :
    next.asF64 = some (q + r) ∧ Accumulates logical next ∧ next ≠ .empty := by
  obtain ⟨tag, payload⟩ := value
  cases tag with
  | int64 =>
    replace h := of_fixedValueBytes h
    cases hvalue
    cases acc with
    | empty =>
      cases h
      cases hacc
      exact ⟨congrArg some (zero_add _).symm, htag, SumAccumulator.noConfusion⟩
    | int total =>
      simp only at h
      split at h
      · cases h
        cases hacc
        exact ⟨congrArg some (Int.cast_add _ _), htag, SumAccumulator.noConfusion⟩
      · cases h
    | _ => cases h
  | uint64 =>
    replace h := of_fixedValueBytes h
    cases hvalue
    cases acc with
    | empty =>
      cases h
      cases hacc
      exact ⟨congrArg some (zero_add _).symm, htag, SumAccumulator.noConfusion⟩
    | uint total =>
      simp only at h
      split at h
      · cases h
        cases hacc
        exact ⟨congrArg some (Nat.cast_add _ _), htag, SumAccumulator.noConfusion⟩
      · cases h
    | _ => cases h
  | decimal128 =>
    replace h := of_fixedValueBytes h
    cases hvalue
    cases acc with
    | empty =>
      cases h
      cases hacc
      exact ⟨congrArg some (zero_add _).symm, ⟨htag, LookupKeys.signed_bounds 128 _⟩,
        SumAccumulator.noConfusion⟩
    | decimal total =>
      simp only at h
      split at h
      · rename_i hrange
        cases h
        cases hacc
        exact ⟨congrArg some (Int.cast_add _ _), ⟨htag, hrange⟩, SumAccumulator.noConfusion⟩
      · cases h
    | _ => cases h
  | float32Bits | float64Bits =>
    exact addFloat_ok (of_fixedValueBytes h) (float_sumTag htag (by simp)) hvalue hacc
  | _ => cases h

variable {item : Item}

theorem declaredSum_ok {declared : Nat × TaggedCanonicalValue}
    (h : declaredSum isAvg item = .ok declared) : sumPayload isAvg item.2 = some declared.2 := by
  rw [declaredSum] at h
  cases hpayload : item.2 with
  | sum overflowPolicy sum =>
    rw [hpayload] at h
    simp only at h
    split at h
    · rename_i hpolicy
      obtain ⟨count, -, h⟩ := of_andThen h
      cases h
      rw [sumPayload, if_pos hpolicy]
    · cases h
  | sumAndCount overflowPolicy count sum =>
    rw [hpayload] at h
    simp only at h
    split at h
    · rename_i hpolicy
      cases h
      rw [sumPayload, if_pos hpolicy]
    · cases h
  | _ =>
    rw [hpayload] at h
    cases h

theorem sum_of_describes {rows : List DataRow} {values : List TaggedCanonicalValue}
    {payload : AggregatePayloadV2} (h : PayloadDescribes i logical rows values payload)
    {sum : TaggedCanonicalValue} (hsum : sumPayload isAvg payload = some sum) :
    SumsTo logical sum values := by
  cases payload with
  | sum overflowPolicy sum' | sumAndCount overflowPolicy count sum' =>
    simp only [sumPayload, Option.ite_none_right_eq_some, Bool.and_eq_true, decide_eq_true_eq] at hsum
    obtain ⟨⟨-, hpolicy⟩, heq⟩ := hsum
    exact Option.some.inj heq ▸ h hpolicy
  | _ => cases hsum

variable {totals : Totals SumAccumulator}

theorem sumStep_ok {next : Totals SumAccumulator} (h : sumStep P isAvg totals item = .ok next) :
    Counts totals next item ∧
      ∃ sum, sumPayload isAvg item.2 = some sum ∧ totals.acc.add sum = .ok next.acc := by
  obtain ⟨covered, hcovered, h⟩ := of_andThen h
  obtain ⟨declared, hdeclared, h⟩ := of_andThen h
  obtain ⟨count, hcount, h⟩ := of_andThen h
  obtain ⟨hsame, h⟩ := of_check h
  obtain ⟨nonNull, hnonNull, h⟩ := of_andThen h
  replace h := rest_ok h
  obtain ⟨acc, hacc, h⟩ := of_andThen h
  cases h
  obtain ⟨-, rfl⟩ := checkedAdd_ok_iff.mp (attempt_ok.mp hcovered)
  obtain ⟨-, rfl⟩ := checkedAdd_ok_iff.mp (attempt_ok.mp hnonNull)
  have hcount := nonNullCount_ok (attempt_ok.mp hcount)
  have hsame := not_not.mp (of_rejectIf hsame)
  refine ⟨⟨rfl, ?_⟩, declared.2, declaredSum_ok hdeclared, attempt_ok.mp hacc⟩
  simp only
  omega

theorem sum_run {ps : List (FileData × Item)} (hdescribes : ∀ p ∈ ps, Describes p.1 i logical p.2)
    {last : Totals SumAccumulator} (hacc : totals.acc.asF64 = some q)
    (hshape : Accumulates logical totals.acc)
    (h : (ps.map Prod.snd).foldlM (sumStep P isAvg) totals = .ok last) :
    last.coveredRows = totals.coveredRows + ((ps.map Prod.snd).map fun i => i.1.rowCount.toNat).sum ∧
      last.nonNullRows + ((ps.map Prod.snd).map fun i => i.1.nullCount.toNat).sum =
        totals.nonNullRows + ((ps.map Prod.snd).map fun i => i.1.rowCount.toNat).sum ∧
      last.acc.asF64 = some (q + ((ps.flatMap fun p => scopeValues i p.1 p.2.1).map number).sum) ∧
      Accumulates logical last.acc ∧ (last.acc = .empty → ps = []) := by
  induction ps generalizing totals q with
  | nil =>
    cases h
    exact ⟨rfl, rfl, hacc.trans (congrArg some (add_zero q).symm), hshape, fun _ => rfl⟩
  | cons p ps ih =>
    obtain ⟨hfirst, hrest⟩ := forall_mem_cons.mp hdescribes
    obtain ⟨next, hnext, h⟩ := of_andThen h
    obtain ⟨hcounts, sum, hsum, hadd⟩ := sumStep_ok hnext
    have hsums := sum_of_describes hfirst.payload hsum
    obtain ⟨hvalue, hshape', hne⟩ := add_ok hadd hsums.tag hsums.total hacc
    obtain ⟨hcovered, hnonNull, hlast, hshape'', hempty⟩ := ih hrest hvalue hshape' h
    have hone := hcounts.covered
    have htwo := hcounts.nonNull
    refine ⟨?_, ?_, ?_, hshape'', ?_⟩
    · simp only [map_cons, sum_cons]
      omega
    · simp only [map_cons, sum_cons]
      omega
    · rw [hlast, flatMap_cons, map_append, sum_append, add_assoc]
    · intro hlast'
      have hnil := hempty hlast'
      subst hnil
      cases h
      exact absurd hlast' hne

theorem signed_leBytes {w : Nat} {n : Int} (hl : -2 ^ (8 * w - 1) ≤ n) (hu : n < 2 ^ (8 * w - 1))
    (hw : 0 < 8 * w) : signed (8 * w) (leNat (leBytes w (unsigned (8 * w) n))) = n := by
  have hlt : unsigned (8 * w) n < 256 ^ w := (unsigned_lt (8 * w) n).trans_eq (Nat.pow_mul 2 8 w)
  rw [leNat_leBytes, Nat.mod_eq_of_lt hlt, signed_unsigned hw hl hu]

theorem planNumber_int (h : IsSumTag logical .int64) (payload : Bytes) :
    planNumber logical (.canonical payload) = some (signed 64 (leNat payload) : ℚ) := by
  cases logical <;> simp only [IsSumTag, reduceCtorEq, or_self] at h <;> rfl

theorem planNumber_uint (h : IsSumTag logical .uint64) (payload : Bytes) :
    planNumber logical (.canonical payload) = some (leNat payload : ℚ) := by
  cases logical <;> simp only [IsSumTag, reduceCtorEq, or_self] at h <;> rfl

theorem planNumber_decimal (h : IsSumTag logical .decimal128) (payload : Bytes) :
    planNumber logical (.canonical payload) = some (signed 128 (leNat payload) : ℚ) := by
  cases logical <;> simp only [IsSumTag, reduceCtorEq, or_self] at h <;> rfl

theorem finish_ok (h : acc.finish = .ok value) (hacc : acc.asF64 = some q)
    (hshape : Accumulates logical acc) (hne : acc ≠ .empty) :
      ∃ v, value = some v ∧ planNumber logical v = some q := by
  cases acc with
  | empty => exact absurd rfl hne
  | int n =>
    rw [SumAccumulator.finish] at h
    split at h
    · rename_i hrange
      cases h
      cases hacc
      have hread : signed 64 (leNat (leBytes 8 (unsigned 64 n))) = n :=
        @signed_leBytes 8 n hrange.1 hrange.2 (by decide)
      exact ⟨_, rfl, by rw [planNumber_int hshape, hread]⟩
    · cases h
  | uint n =>
    rw [SumAccumulator.finish] at h
    split at h
    · rename_i hrange
      cases h
      cases hacc
      have hread : leNat (leBytes 8 n) = n := (leNat_leBytes 8 n).trans (Nat.mod_eq_of_lt hrange)
      exact ⟨_, rfl, by rw [planNumber_uint hshape, hread]⟩
    · cases h
  | decimal n =>
    cases h
    cases hacc
    have hread : signed 128 (leNat (leBytes 16 (unsigned 128 n))) = n :=
      @signed_leBytes 16 n hshape.2.1 hshape.2.2 (by decide)
    exact ⟨_, rfl, by rw [planNumber_decimal hshape.1, hread]⟩
  | float total =>
    cases h
    exact ⟨_, rfl, hacc⟩

theorem sum_ok (hcolumn : state.columns[i]? = some column)
    (h : exactSynopsisSum P state i isAvg = .ok value) : ∃ totals,
      state.files.foldlM (foldFile column.columnId (if isAvg then .sumAndCount else .sum)
        (sumStep P isAvg)) ⟨0, 0, .empty⟩ = .ok totals ∧ totals.coveredRows = state.rowCount ∧
      if totals.nonNullRows = 0 then value = none
      else if isAvg then
        value = some (.real (totals.acc.asF64.map (· / (totals.nonNullRows : ℚ))))
      else totals.acc.finish = .ok value := by
  simp only [exactSynopsisSum, hcolumn] at h
  obtain ⟨totals, htotals, h⟩ := of_andThen h
  obtain ⟨hcovered, h⟩ := of_reject h
  refine ⟨totals, htotals, not_not.mp hcovered, ?_⟩
  split
  · rename_i hzero
    rw [if_pos hzero] at h
    exact (ok.inj h).symm
  · rename_i hzero
    rw [if_neg hzero] at h
    split
    · rename_i havg
      rw [if_pos havg] at h
      exact (ok.inj h).symm
    · rename_i havg
      rw [if_neg havg] at h
      exact attempt_ok.mp h

variable (hdata : Holds state data)
include hdata

theorem sum_values (hcolumn : state.columns[i]? = some column) (hids : IdsAgree state i)
    {kind : SynopsisKind}
    (h : state.files.foldlM (foldFile column.columnId kind (sumStep P isAvg)) ⟨0, 0, .empty⟩ = .ok totals)
    (hcovered : totals.coveredRows = state.rowCount) :
    totals.nonNullRows = (columnValues i data).length ∧
      totals.acc.asF64 = some ((columnValues i data).map number).sum ∧
      Accumulates column.logical totals.acc ∧ (totals.acc = .empty → columnValues i data = []) := by
  rw [hdata.files] at h
  obtain ⟨itemss, hused, hfold⟩ := foldFiles_ok h
  have hdescribes := located_describes hdata.files hdata.truthful hcolumn hids hused
  obtain ⟨hrows, hnulls, hsum, hshape, hempty⟩ := sum_run hdescribes rfl
    (show Accumulates column.logical .empty from trivial) hfold
  simp only [zero_add] at hrows hnulls hsum
  obtain ⟨-, hperm, hlength⟩ := used_values hdata hcolumn hids hused (hrows.symm.trans hcovered)
  refine ⟨by omega, ?_, hshape, fun hacc => ?_⟩
  · rw [hsum, (hperm.map number).sum_eq]
  · rw [hempty hacc] at hperm
    exact nil_perm.mp hperm

theorem sum_right (hcolumn : state.columns[i]? = some column) (hids : IdsAgree state i)
    (h : exactSynopsisSum P state i false = .ok value) :
    RightSum column.logical (columnValues i data) value := by
  obtain ⟨totals, htotals, hcovered, hvalue⟩ := sum_ok hcolumn h
  obtain ⟨hcount, hsum, hshape, hempty⟩ := sum_values hdata hcolumn hids htotals hcovered
  rw [hcount] at hvalue
  split at hvalue
  · rename_i hzero
    subst hvalue
    exact length_eq_zero_iff.mp hzero
  · rename_i hzero
    have hne : columnValues i data ≠ [] := fun hnil => hzero (length_eq_zero_iff.mpr hnil)
    obtain ⟨v, rfl, hnumber⟩ := finish_ok hvalue hsum hshape fun hacc => hne (hempty hacc)
    exact ⟨hne, hnumber⟩

theorem avg_right (hcolumn : state.columns[i]? = some column) (hids : IdsAgree state i)
    (h : exactSynopsisSum P state i true = .ok value) : RightAvg (columnValues i data) value := by
  obtain ⟨totals, htotals, hcovered, hvalue⟩ := sum_ok hcolumn h
  obtain ⟨hcount, hsum, -, -⟩ := sum_values hdata hcolumn hids htotals hcovered
  rw [hcount] at hvalue
  split at hvalue
  · rename_i hzero
    subst hvalue
    exact length_eq_zero_iff.mp hzero
  · rename_i hzero
    rw [if_pos rfl, hsum] at hvalue
    subst hvalue
    exact ⟨fun hnil => hzero (length_eq_zero_iff.mpr hnil), rfl⟩

end

end CoveFormat.AggregateResults
