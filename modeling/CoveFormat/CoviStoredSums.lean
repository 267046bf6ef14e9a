import CoveFormat.CoviKeyBlocks

namespace CoveFormat.CoviStoredSums

open AppendedRanges ByteCodes Canonical CoviAnswerBlocks CoviAnswers CoviBuildRuns CoviBuilds
  CoviIntegers CoviKeyBlocks CoviScans CoviSums EncodedArrays ExceptRules JsonValue OrderedMaps
open CoviPostings hiding normalizeRowRanges
open ScopedRanges (ScopedRange)

section

variable {t : IntegerType} {present : List PresentRow} {keys : KeyPostingMap}

def rowsOf (value : Int) (present : List PresentRow) : List (ScopedRange RowScope) :=
  (present.filter fun row => row.1 = value).map fun row => row.2.range

/-- Among the rows of a number none lies before the one that was met just before it. -/
def NeverStepsBack (present : List PresentRow) : Prop := ∀ value, (rowsOf value present).IsChain Follows

def distinctNumbers (present : List PresentRow) : Nat := (present.map Prod.fst).dedup.length

/-- Rows of single positions that each hold a number of the type. -/
structure SingleRows (t : IntegerType) (present : List PresentRow) : Prop where
  fits : ∀ row ∈ present, Fits t row.1
  one : ∀ row ∈ present, row.2.rowCount = 1
  length_lt : present.length < 2 ^ 64

/-- The positions of the rows can be written, and are met once each. -/
structure Placed (present : List PresentRow) : Prop where
  finish_lt : ∀ row ∈ present, row.2.range.finish < 2 ^ 64
  nodup : ((present.map fun row => row.2.range).flatMap points).Nodup

variable {value : Int}

theorem underKey_keyed (hfits : ∀ row ∈ present, Fits t row.1) (hvalue : Fits t value) :
    underKey (keyOf t value) (keyed t present) = rowsOf value present := by
  rw [underKey, keyed, List.filter_map, List.map_map, rowsOf]
  refine congrArg (List.map _) (List.filter_congr fun row hrow => ?_)
  exact decide_eq_decide.mpr ⟨keyOf_injective (hfits row hrow) hvalue, congrArg (keyOf t)⟩

theorem underKey_withNumber (value : Int) :
    underKey (keyOf t value) (keyed t (withNumber value present)) = present.map fun row => row.2.range := by
  rw [underKey, keyed, withNumber, List.map_map, List.filter_eq_self.mpr, List.map_map]
  · rfl
  · intro row hrow
    obtain ⟨_, -, rfl⟩ := List.mem_map.mp hrow
    exact decide_eq_true rfl

theorem neverStepsBack_iff (h : SingleRows t present) :
    (∀ key, (underKey key (keyed t present)).IsChain Follows) ↔ NeverStepsBack present := by
  constructor
  · intro hchain value
    by_cases hvalue : Fits t value
    · exact underKey_keyed h.fits hvalue ▸ hchain (keyOf t value)
    · have hnone : rowsOf value present = [] := by
        refine List.map_eq_nil_iff.mpr (List.filter_eq_nil_iff.mpr fun row hrow heq => hvalue ?_)
        exact of_decide_eq_true heq ▸ h.fits row hrow
      rw [hnone]
      exact .nil
  · intro hchain key
    by_cases hkey : ∃ row ∈ present, keyOf t row.1 = key
    · obtain ⟨row, hrow, rfl⟩ := hkey
      rw [underKey_keyed h.fits (h.fits row hrow)]
      exact hchain row.1
    · have hnone : underKey key (keyed t present) = [] := by
        refine List.map_eq_nil_iff.mpr (List.filter_eq_nil_iff.mpr fun row hrow heq => hkey ?_)
        obtain ⟨number, hnumber, rfl⟩ := List.mem_map.mp hrow
        exact ⟨number, hnumber, of_decide_eq_true heq⟩
      rw [hnone]
      exact .nil

theorem integerKeys_collected (h : Collected (keyed t present) keys) : IntegerKeys t keys.entries := by
  intro e he
  obtain ⟨row, -, hkey⟩ := collected_key h he
  exact ⟨row.1, hkey.symm⟩

theorem entries_length (hrows : SingleRows t present) (h : Collected (keyed t present) keys) :
    keys.entries.length = distinctNumbers present := by
  have hnodup : keys.keys.Nodup := keys.sorted.imp fun hlt => hlt.ne
  have hdedup : ((present.map Prod.fst).dedup.map (keyOf t)).Nodup := by
    refine (List.nodup_dedup _).map_on fun a ha b hb heq => ?_
    obtain ⟨row, hrow, rfl⟩ := List.mem_map.mp (List.mem_dedup.mp ha)
    obtain ⟨other, hother, rfl⟩ := List.mem_map.mp (List.mem_dedup.mp hb)
    exact keyOf_injective (hrows.fits row hrow) (hrows.fits other hother) heq
  have hperm : keys.keys.Perm ((present.map Prod.fst).dedup.map (keyOf t)) := by
    refine (List.perm_ext_iff_of_nodup hnodup hdedup).mpr fun key => (h.mem_keys key).trans ?_
    simp only [keyed, List.map_map, List.mem_map, List.mem_dedup, Function.comp_apply,
      exists_exists_and_eq_and]
  rw [distinctNumbers, ← List.length_map (f := keyOf t), ← hperm.length_eq, OrderedMap.keys, List.length_map]

theorem writable_of_collected (hrows : SingleRows t present) (hplaced : Placed present)
    (h : Collected (keyed t present) keys) : ∀ e ∈ keys.entries, Writable e.2 := by
  intro e he
  obtain ⟨row, hrow, hkey⟩ := collected_key h he
  have happended := h.appended e.1
  rw [OrderedMap.mem_entries_iff.mp he, Option.getD_some, ← hkey,
    underKey_keyed hrows.fits (hrows.fits row hrow)]
    at happended
  have hsub : (rowsOf row.1 present).Sublist (present.map fun row => row.2.range) :=
    List.filter_sublist.map _
  have hfinish : ∀ range ∈ rowsOf row.1 present, range.finish < 2 ^ 64 := fun range hrange => by
    obtain ⟨row', hrow', rfl⟩ := List.mem_map.mp (hsub.subset hrange)
    exact hplaced.finish_lt row' hrow'
  have hpos : ∀ range ∈ rowsOf row.1 present, 0 < range.count := fun range hrange => by
    obtain ⟨row', hrow', rfl⟩ := List.mem_map.mp (hsub.subset hrange)
    exact Nat.one_pos.trans_eq (hrows.one row' hrow').symm
  have hends : ∀ range ∈ e.2, range.range.finish < 2 ^ 64 := fun range hrange => by
    obtain ⟨row', hrow', heq⟩ := happended.finish_mem range.range (List.mem_map_of_mem hrange)
    exact heq ▸ hfinish row' hrow'
  have hcounts : ∀ range ∈ e.2, 0 < range.rowCount := fun range hrange =>
    happended.count_pos hpos range.range (List.mem_map_of_mem hrange)
  have hnodup : ((e.2.map CoviRowRangePostingV2.range).flatMap points).Nodup := by
    rw [happended.points_eq]
    exact hplaced.nodup.sublist (hsub.flatMap points)
  obtain ⟨out, hout⟩ := exists_normalizeRowRanges hends hcounts hnodup
  have hnormalized := normalizeRowRanges_ok hout
  refine ⟨out, hout, fun range hrange => ⟨?_, ?_⟩⟩
  · have hsorted : ∀ range ∈ sortedRanges e.2, 0 < range.count := fun range hrange => by
      obtain ⟨range', hrange', rfl⟩ := List.mem_map.mp ((sortedRanges_perm e.2).mem_iff.mp hrange)
      exact hcounts range' hrange'
    exact (hnormalized.count_pos hsorted range.range (List.mem_map_of_mem hrange)).ne'
  · obtain ⟨range', hrange', heq⟩ := hnormalized.finish_mem range.range (List.mem_map_of_mem hrange)
    obtain ⟨original, horiginal, rfl⟩ := List.mem_map.mp ((sortedRanges_perm e.2).mem_iff.mp hrange')
    exact heq ▸ hends original horiginal

theorem placed_of_writable (hone : ∀ row ∈ present, row.2.rowCount = 1)
    (h : Collected (keyed t (withNumber value present)) keys)
    (hwritable : ∀ e ∈ keys.entries, Writable e.2) : Placed present := by
  by_cases hnil : present = []
  · subst hnil
    exact ⟨List.forall_mem_nil _, .nil⟩
  · obtain ⟨ranges, hranges⟩ : ∃ ranges, keys.get (keyOf t value) = some ranges := by
      obtain ⟨row, rest, rfl⟩ := List.exists_cons_of_ne_nil hnil
      have hmem := (h.mem_keys (keyOf t value)).mpr List.mem_cons_self
      exact Option.isSome_iff_exists.mp (OrderedMap.mem_keys_iff.mp hmem)
    obtain ⟨out, hout, hextent⟩ := hwritable _ (OrderedMap.mem_entries_iff.mpr hranges)
    have happended := h.appended (keyOf t value)
    rw [hranges, Option.getD_some, underKey_withNumber] at happended
    have hpoints : ((out.map CoviRowRangePostingV2.range).flatMap points).Perm
        ((present.map fun row => row.2.range).flatMap points) := by
      rw [(normalizeRowRanges_ok hout).points_eq, ← happended.points_eq]
      exact (sortedRanges_perm ranges).flatMap_right points
    refine ⟨fun row hrow => ?_, happended.points_eq ▸ nodup_of_normalizeRowRanges hout⟩
    have hcount : row.2.range.count = 1 := hone row hrow
    have hmem : (row.2.range.scope, row.2.range.start)
        ∈ (present.map fun row => row.2.range).flatMap points := by
      refine List.mem_flatMap.mpr ⟨row.2.range, List.mem_map_of_mem hrow, mem_points.mpr ⟨rfl, le_rfl, ?_⟩⟩
      rw [ScopedRange.finish, hcount]
      exact Nat.lt_succ_self _
    obtain ⟨range, hrange, hpoint⟩ := List.mem_flatMap.mp (hpoints.mem_iff.mpr hmem)
    obtain ⟨posting, hposting, rfl⟩ := List.mem_map.mp hrange
    obtain ⟨-, -, hlt⟩ := mem_points.mp hpoint
    have hfinish := (hextent posting hposting).2
    rw [ScopedRange.finish, hcount]
    omega

end

section

variable {P : TextPredicates} {t : IntegerType} {present : List PresentRow} {keys : KeyPostingMap}
  {params : BuildBlocksParams} {options : CoviBuildOptions} {valueCount : Nat} {index : ColumnIndex}

def finishIndex (P : TextPredicates) (t : IntegerType) (options : CoviBuildOptions) (valueCount : Nat)
    (params : BuildBlocksParams) (keys : KeyPostingMap) : Except CoveError ColumnIndex := do
  let sumPayload ← indexOnlySumPayloadFromKeys t keys
  let built ← buildBlocksFromKeys P t keys params
  answerIndex t options valueCount { built with sumPayload := sumPayload }

def exactSum (present : List PresentRow) : Option Int := if present = [] then none else some (sumOf present)

theorem finishIndex_writable (h : finishIndex P t options valueCount params keys = .ok index) :
    ∀ e ∈ keys.entries, Writable e.2 := by
  obtain ⟨sum, -, h⟩ := of_andThen h
  obtain ⟨built, hbuilt, -⟩ := of_andThen h
  exact (buildBlocks_ok hbuilt).writable

variable (hrows : SingleRows t present) (hkeys : Collected (keyed t present) keys)
  (hnulls : params.nullCount + present.length = valueCount) (hvalues : valueCount < 2 ^ 64)

include hrows hkeys hnulls hvalues

theorem exists_answers {sum : Option Bytes} {built : BuiltColumnIndex}
    (hsum : indexOnlySumPayloadFromKeys t keys = .ok sum)
      (hbuilt : buildBlocksFromKeys P t keys params = .ok built) :
    ∃ index, answerIndex t options valueCount { built with sumPayload := sum } = .ok index ∧
      (options.includeIndexOnlySumAvg = true →
        ∃ payload, index.storedAnswer .sum = some (.ok payload) ∧
          payload.map (payloadNumber t) = exactSum present) := by
  obtain ⟨hfits, rfl⟩ := (indexOnlySum_ok_iff hrows.fits hrows.one hrows.length_lt hkeys).mp hsum
  have hblocks := buildBlocks_ok hbuilt
  have hkey (key : Bytes) (h : ∃ e ∈ keys.entries, e.1 = key) : ∃ value, key = keyOf t value := by
    obtain ⟨e, he, rfl⟩ := h
    exact integerKeys_collected hkeys e he
  have hnull : built.nullCount + present.length = valueCount := hblocks.null_eq ▸ hnulls
  have hlength : 60 * built.entries.length < 2 ^ 32 := hblocks.length_eq ▸ hblocks.count
  obtain ⟨index, hindex, hstored⟩ := @exists_answerIndex t options valueCount
    { built with sumPayload := if present = [] then none else some (integerPayload (sumOf present)) }
    hlength (by show built.nullCount ≤ _; omega) hvalues (fun key h => hkey key (hblocks.minKey_mem key h))
    (fun key h => hkey key (hblocks.maxKey_mem key h)) (fun value hvalue => by
      by_cases hnil : present = []
      · rw [if_pos hnil] at hvalue
        cases hvalue
      · rw [if_neg hnil] at hvalue
        exact Option.mem_some.mp hvalue ▸ integerPayload_length)
  refine ⟨index, hindex, fun hinclude => ⟨_, hstored ?_, ?_⟩⟩
  · show (options.includeIndexOnlySumAvg && (_ || decide (built.nullCount = valueCount))) = true
    by_cases hnil : present = []
    · have hall : built.nullCount = valueCount := by
        rw [hnil] at hnull
        exact hnull
      rw [hinclude, decide_eq_true hall, Bool.or_true]
      rfl
    · rw [hinclude, if_neg hnil]
      rfl
  · rw [exactSum]
    by_cases hnil : present = []
    · rw [if_pos hnil, if_pos hnil]
      rfl
    · rw [if_neg hnil, if_neg hnil, Option.map_some, payloadNumber_integerPayload hfits]

theorem exists_finishIndex_iff (hplaced : Placed present) (hparams : OrdersIntegers params) :
    (∃ index, finishIndex P t options valueCount params keys = .ok index) ↔
      FitsSum t (sumOf present) ∧ 60 * distinctNumbers present < 2 ^ 32 := by
  have hsums {sum : Option Bytes} : indexOnlySumPayloadFromKeys t keys = .ok sum ↔ _ :=
    indexOnlySum_ok_iff hrows.fits hrows.one hrows.length_lt hkeys
  constructor
  · rintro ⟨index, h⟩
    obtain ⟨sum, hsum, h⟩ := of_andThen h
    obtain ⟨built, hbuilt, -⟩ := of_andThen h
    exact ⟨(hsums.mp hsum).1, entries_length hrows hkeys ▸ (buildBlocks_ok hbuilt).count⟩
  · rintro ⟨hfits, hcount⟩
    have hsum := hsums.mpr ⟨hfits, rfl⟩
    obtain ⟨built, hbuilt⟩ := @exists_buildBlocks P t keys params (integerKeys_collected hkeys) hparams
      (writable_of_collected hrows hplaced hkeys) (by rwa [entries_length hrows hkeys])
    obtain ⟨index, hindex, -⟩ :=
        @exists_answers P t present keys params options valueCount hrows hkeys hnulls hvalues
      _ _ hsum hbuilt
    exact ⟨index, andThen_ok hsum (andThen_ok hbuilt hindex)⟩

theorem finishIndex_stores (h : finishIndex P t options valueCount params keys = .ok index)
    (hinclude : options.includeIndexOnlySumAvg = true) :
    ∃ payload, index.storedAnswer .sum = some (.ok payload) ∧
      payload.map (payloadNumber t) = exactSum present := by
  obtain ⟨sum, hsum, h⟩ := of_andThen h
  obtain ⟨built, hbuilt, h⟩ := of_andThen h
  obtain ⟨index', hindex, hstored⟩ :=
      @exists_answers P t present keys params options valueCount hrows hkeys hnulls
    hvalues _ _ hsum hbuilt
  obtain rfl := Except.ok.inj (h.symm.trans hindex)
  exact hstored hinclude

end

variable {row : PresentRow}

section

variable {P : TextPredicates} {t : IntegerType} {options : CoviBuildOptions} {source : ColumnSource}
  {index : ColumnIndex} {scan : ColumnScan}

/-- Every value of the column is null or a number of the type. -/
def IntegerColumn (t : IntegerType) (source : ColumnSource) : Prop :=
  ∀ page ∈ source.pages, ∀ value ∈ pageValues page, (standsFor t source value).isSome

instance (t : IntegerType) (source : ColumnSource) : Decidable (IntegerColumn t source) :=
  inferInstanceAs (Decidable (∀ page ∈ source.pages, ∀ value ∈ pageValues page, _))

theorem columnIndex_ok_iff : columnIndex P t options source = .ok index ↔
    ∃ scan, source.pages.foldlM (addPage t source) ⟨.empty, 0, 0⟩ = .ok scan ∧
      scan.rowsSeen = source.rowCount ∧
      finishIndex P t options source.rowCount (ColumnSource.params source scan.nullCount)
        scan.keys = .ok index := by
  constructor
  · intro h
    obtain ⟨built, hbuilt, h⟩ := of_andThen h
    obtain ⟨scan, hscan, hbuilt⟩ := of_andThen hbuilt
    obtain ⟨hseen, hbuilt⟩ := of_check hbuilt
    obtain ⟨sum, hsum, hbuilt⟩ := of_andThen hbuilt
    obtain ⟨blocks, hblocks, hbuilt⟩ := of_andThen hbuilt
    cases hbuilt
    refine ⟨scan, hscan, not_not.mp (of_rejectIf hseen), ?_⟩
    exact andThen_ok hsum (andThen_ok hblocks h)
  · rintro ⟨scan, hscan, hseen, h⟩
    obtain ⟨sum, hsum, h⟩ := of_andThen h
    obtain ⟨blocks, hblocks, h⟩ := of_andThen h
    refine andThen_ok (andThen_ok hscan ?_) h
    refine unless_andThen hseen ?_
    exact andThen_ok hsum (andThen_ok hblocks rfl)

theorem scan_ok_iff (h : IntegerColumn t source) :
    source.pages.foldlM (addPage t source) ⟨.empty, 0, 0⟩ = .ok scan ↔ Scanned t (totalRows source.pages)
      (totalNulls t source source.pages) (present t source) ⟨.empty, 0, 0⟩ scan :=
  addPages_ok_iff h (by decide) (by decide)

theorem orders_params (source : ColumnSource) (nullCount : Nat) :
    OrdersIntegers (ColumnSource.params source nullCount) := by
  rw [ColumnSource.params]
  split
  · exact .inr ⟨nofun, nofun⟩
  · exact .inl rfl

theorem params_nullCount (source : ColumnSource) (nullCount : Nat) :
    (ColumnSource.params source nullCount).nullCount = nullCount := by
  rw [ColumnSource.params]
  split <;> rfl

theorem mem_present (h : row ∈ present t source) :
    ∃ page ∈ source.pages, ∃ value ∈ pageValues page, numberOf t source value = some row.1 ∧
      row.2.rowCount = 1 := by
  obtain ⟨page, hpage, hrow⟩ := List.mem_flatMap.mp h
  obtain ⟨item, hitem, heq⟩ := List.mem_filterMap.mp hrow
  obtain ⟨z, hz, rfl⟩ := Option.map_eq_some_iff.mp heq
  exact ⟨page, hpage, item.1, List.fst_mem_of_mem_zipIdx hitem, hz, rfl⟩

theorem singleRows_present (h : IntegerColumn t source) (hrows : totalRows source.pages < 2 ^ 64) :
    SingleRows t (present t source) := by
  refine ⟨fun row hrow => ?_, fun row hrow => ?_, ?_⟩
  · obtain ⟨page, hpage, value, hvalue, hnumber, -⟩ := mem_present hrow
    obtain ⟨number, hstands⟩ := Option.isSome_iff_exists.mp (h page hpage value hvalue)
    rw [numberOf, hstands] at hnumber
    exact (keyForValue_ok hstands).2 row.1 hnumber
  · obtain ⟨_, -, _, -, -, hone⟩ := mem_present hrow
    exact hone
  · have htotal := @totalNulls_add_present t source source.pages
    rw [present]
    omega

/-- The sum has room in eight bytes, the keys are not too many, and the rows are met in order. -/
structure Buildable (t : IntegerType) (present : List PresentRow) : Prop where
  sum_fits : FitsSum t (sumOf present)
  keys_fit : 60 * distinctNumbers present < 2 ^ 32
  ordered : NeverStepsBack present

theorem collect_of_ordered {present : List PresentRow} (hrows : SingleRows t present)
    (hplaced : Placed present)
    (hordered : NeverStepsBack present) : ∃ keys, collect .empty (keyed t present) = .ok keys :=
  exists_collect (List.forall_mem_map.mpr hplaced.finish_lt) ((neverStepsBack_iff hrows).mpr hordered)

theorem ordered_of_collect {present : List PresentRow} {keys : KeyPostingMap} (hrows : SingleRows t present)
    (h : collect .empty (keyed t present) = .ok keys) : NeverStepsBack present :=
  (neverStepsBack_iff hrows).mp fun key => (collect_ok h).chain key

variable (h : IntegerColumn t source)
include h

theorem zeroed_column (hzero : columnIndex P t options (zeroed source) = .ok index) :
    totalRows source.pages < 2 ^ 64 ∧ totalRows source.pages = source.rowCount ∧
      (∀ row ∈ present t source, row.2.rowStart < 2 ^ 64) ∧ Placed (present t source) := by
  obtain ⟨scan, hscan, hseen, hfinish⟩ := columnIndex_ok_iff.mp hzero
  have hscan := (scan_ok_iff (values_zeroed h)).mp hscan
  rw [present_zeroed h] at hscan
  have hrows := hscan.rows_lt
  have hrowsSeen := hscan.rowsSeen
  rw [zeroed, totalRows_zeroed, Nat.zero_add] at hrows hrowsSeen
  have hone : ∀ row ∈ present t source, row.2.rowCount = 1 := (singleRows_present h hrows).one
  exact ⟨hrows, hrowsSeen.symm.trans hseen, List.forall_mem_map.mp hscan.start_lt,
    placed_of_writable hone (collect_ok hscan.keys) (finishIndex_writable hfinish)⟩

theorem column_builds
    (hzero : ∃ index, columnIndex P t { options with includeIndexOnlySumAvg := false }
      (zeroed source) = .ok index) :
    ((∃ index, columnIndex P t options source = .ok index) ↔ Buildable t (present t source)) ∧
      ∀ index, columnIndex P t options source = .ok index → options.includeIndexOnlySumAvg = true →
        ∃ payload, index.storedAnswer .sum = some (.ok payload) ∧
          payload.map (payloadNumber t) = exactSum (present t source) := by
  obtain ⟨index₀, hzero⟩ := hzero
  obtain ⟨hrows, hcount, hstart, hplaced⟩ := zeroed_column h hzero
  have hsingle := singleRows_present h hrows
  have htotal := @totalNulls_add_present t source source.pages
  have hnulls (nullCount : Nat) (hn : nullCount = totalNulls t source source.pages) :
      (ColumnSource.params source nullCount).nullCount + (present t source).length = source.rowCount := by
    rw [params_nullCount, hn, present, htotal, hcount]
  have hvalues : source.rowCount < 2 ^ 64 := hcount ▸ hrows
  refine ⟨⟨?_, fun hbuildable => ?_⟩, fun index hindex hinclude => ?_⟩
  · rintro ⟨index, hindex⟩
    obtain ⟨scan, hscan, -, hfinish⟩ := columnIndex_ok_iff.mp hindex
    have hscan := (scan_ok_iff h).mp hscan
    obtain ⟨hfits, hkeys⟩ := (exists_finishIndex_iff hsingle (collect_ok hscan.keys)
      (hnulls _ (hscan.nullCount.trans (Nat.zero_add _))) hvalues hplaced
        (orders_params source _)).mp ⟨index, hfinish⟩
    exact ⟨hfits, hkeys, ordered_of_collect hsingle hscan.keys⟩
  · obtain ⟨keys, hkeys⟩ := collect_of_ordered hsingle hplaced hbuildable.ordered
    obtain ⟨index, hfinish⟩ := (@exists_finishIndex_iff P t _ keys _ options _ hsingle (collect_ok hkeys)
      (hnulls _ rfl) hvalues hplaced (orders_params source _)).mpr ⟨hbuildable.sum_fits, hbuildable.keys_fit⟩
    refine ⟨index, columnIndex_ok_iff.mpr
      ⟨⟨keys, totalNulls t source source.pages, totalRows source.pages⟩, ?_,
      hcount, hfinish⟩⟩
    exact (scan_ok_iff h).mpr ⟨(Nat.zero_add _).trans_lt hrows, (Nat.zero_add _).trans_lt (by omega), hstart,
      (Nat.zero_add _).symm, (Nat.zero_add _).symm, hkeys⟩
  · obtain ⟨scan, hscan, -, hfinish⟩ := columnIndex_ok_iff.mp hindex
    have hscan := (scan_ok_iff h).mp hscan
    exact finishIndex_stores hsingle (collect_ok hscan.keys)
      (hnulls _ (hscan.nullCount.trans (Nat.zero_add _))) hvalues hfinish hinclude

end

section

variable {P : TextPredicates} {t : IntegerType} {options : CoviBuildOptions} {propertyId : Nat}
  {records : List ObjectRecord} {index : ColumnIndex}

def propertyParams (nullCount : Nat) : BuildBlocksParams :=
  ⟨.sorted, .canonicalValueBytes, .canonicalOrdering, true, nullCount⟩

theorem objectPropertyIndex_ok_iff : objectPropertyIndex P t options propertyId records = .ok index ↔
    ∃ scan, records.foldlM (addRecord t propertyId) ⟨.empty, 0⟩ = .ok scan ∧ records.length < 2 ^ 64 ∧
      scan.rowsWithIndexedValue ≤ records.length ∧ finishIndex P t options records.length
        (propertyParams (records.length - scan.rowsWithIndexedValue)) scan.keys = .ok index := by
  constructor
  · intro h
    obtain ⟨built, hbuilt, h⟩ := of_andThen h
    obtain ⟨scan, hscan, hbuilt⟩ := of_andThen hbuilt
    obtain ⟨hlength, hbuilt⟩ := of_check hbuilt
    obtain ⟨hindexed, hbuilt⟩ := of_check hbuilt
    obtain ⟨sum, hsum, hbuilt⟩ := of_andThen hbuilt
    obtain ⟨blocks, hblocks, hbuilt⟩ := of_andThen hbuilt
    cases hbuilt
    refine ⟨scan, hscan, not_le.mp (of_rejectIf hlength), not_lt.mp (of_rejectIf hindexed), ?_⟩
    exact andThen_ok hsum (andThen_ok hblocks h)
  · rintro ⟨scan, hscan, hlength, hindexed, h⟩
    obtain ⟨sum, hsum, h⟩ := of_andThen h
    obtain ⟨blocks, hblocks, h⟩ := of_andThen h
    refine andThen_ok (andThen_ok hscan ?_) h
    refine rejectIf_andThen (not_le.mpr hlength) ?_
    refine rejectIf_andThen (not_lt.mpr hindexed) ?_
    exact andThen_ok hsum (andThen_ok hblocks rfl)

theorem mem_recordsPresent (h : row ∈ recordsPresent t propertyId records) :
    ∃ record ∈ records, ∃ value ∈ propertyValues propertyId record, jsonInteger t value = some row.1 ∧
      row.2.rowCount = 1 := by
  obtain ⟨record, hrecord, hrow⟩ := List.mem_flatMap.mp h
  obtain ⟨z, hz, rfl⟩ := List.mem_map.mp hrow
  obtain ⟨value, hvalue, hnumber⟩ := List.mem_filterMap.mp hz
  exact ⟨record, hrecord, value, hvalue, hnumber, rfl⟩

theorem singleRows_records (h : IntegerRecords t propertyId records) (hlength : records.length < 2 ^ 64) :
    SingleRows t (recordsPresent t propertyId records) := by
  refine ⟨fun row hrow => ?_, fun row hrow => ?_, (recordsPresent_length h).trans_lt hlength⟩
  · obtain ⟨record, hrecord, value, hvalue, hnumber, -⟩ := mem_recordsPresent hrow
    exact (h record hrecord).2 value hvalue row.1 hnumber
  · obtain ⟨_, -, _, -, -, hone⟩ := mem_recordsPresent hrow
    exact hone

theorem zeroed_records (h : IntegerRecords t propertyId records)
    (hzero : objectPropertyIndex P t options propertyId (records.map (zeroedRecord t)) = .ok index) :
    records.length < 2 ^ 64 ∧ Placed (recordsPresent t propertyId records) := by
  obtain ⟨scan, hscan, hlength, -, hfinish⟩ := objectPropertyIndex_ok_iff.mp hzero
  have hscan := (addRecords_ok_iff (records_zeroed h) (by decide)).mp hscan
  rw [recordsPresent_zeroed] at hscan
  rw [List.length_map] at hlength
  exact ⟨hlength, placed_of_writable (singleRows_records h hlength).one (collect_ok hscan.keys)
    (finishIndex_writable hfinish)⟩

theorem property_builds (h : IntegerRecords t propertyId records)
    (hzero : ∃ index, objectPropertyIndex P t { options with includeIndexOnlySumAvg := false } propertyId
      (records.map (zeroedRecord t)) = .ok index) :
    ((∃ index, objectPropertyIndex P t options propertyId records = .ok index) ↔
      Buildable t (recordsPresent t propertyId records)) ∧
      ∀ index, objectPropertyIndex P t options propertyId records = .ok index →
        options.includeIndexOnlySumAvg = true → ∃ payload, index.storedAnswer .sum = some (.ok payload) ∧
          payload.map (payloadNumber t) = exactSum (recordsPresent t propertyId records) := by
  obtain ⟨index₀, hzero⟩ := hzero
  obtain ⟨hlength, hplaced⟩ := zeroed_records h hzero
  have hsingle := singleRows_records h hlength
  have hle := recordsPresent_length h
  have hnulls (rows : Nat) (hn : rows = 0 + (recordsPresent t propertyId records).length) :
      (propertyParams (records.length - rows)).nullCount + (recordsPresent t propertyId records).length =
        records.length := by
    rw [hn, Nat.zero_add]
    exact Nat.sub_add_cancel hle
  have horders (nullCount : Nat) : OrdersIntegers (propertyParams nullCount) := .inl rfl
  refine ⟨⟨?_, fun hbuildable => ?_⟩, fun index hindex hinclude => ?_⟩
  · rintro ⟨index, hindex⟩
    obtain ⟨scan, hscan, -, -, hfinish⟩ := objectPropertyIndex_ok_iff.mp hindex
    have hscan := (addRecords_ok_iff h (by decide)).mp hscan
    obtain ⟨hfits, hkeys⟩ := (exists_finishIndex_iff hsingle (collect_ok hscan.keys) (hnulls _ hscan.rows_eq)
      hlength hplaced (horders _)).mp ⟨index, hfinish⟩
    exact ⟨hfits, hkeys, ordered_of_collect hsingle hscan.keys⟩
  · obtain ⟨keys, hkeys⟩ := collect_of_ordered hsingle hplaced hbuildable.ordered
    obtain ⟨index, hfinish⟩ := (@exists_finishIndex_iff P t _ keys _ options _ hsingle (collect_ok hkeys)
      (hnulls _ rfl) hlength hplaced (horders _)).mpr ⟨hbuildable.sum_fits, hbuildable.keys_fit⟩
    refine ⟨index, objectPropertyIndex_ok_iff.mpr
      ⟨⟨keys, 0 + (recordsPresent t propertyId records).length⟩, ?_, hlength,
        (Nat.zero_add _).trans_le hle, hfinish⟩⟩
    exact (addRecords_ok_iff h (by decide)).mpr ⟨(Nat.zero_add _).trans_lt (by omega), rfl, hkeys⟩
  · obtain ⟨scan, hscan, -, -, hfinish⟩ := objectPropertyIndex_ok_iff.mp hindex
    have hscan := (addRecords_ok_iff h (by decide)).mp hscan
    exact finishIndex_stores hsingle (collect_ok hscan.keys) (hnulls _ hscan.rows_eq) hlength hfinish hinclude

end

section

/-- Where the build with zeros for the numbers and without sums succeeds, the build succeeds exactly when
the sum of the numbers has room in eight bytes, whether it is asked for or not, the keys are not too
many, and no row of a number lies before the one met just before it; a sum that is stored is exact. -/
theorem index_builds_iff (P : TextPredicates) (t : IntegerType) (options : CoviBuildOptions) :
    (∀ source, IntegerColumn t source →
      (∃ index, columnIndex P t { options with includeIndexOnlySumAvg := false } (zeroed source) =
        .ok index) →
      ((∃ index, columnIndex P t options source = .ok index) ↔ Buildable t (present t source)) ∧
        ∀ index, columnIndex P t options source = .ok index → options.includeIndexOnlySumAvg = true →
          ∃ payload, index.storedAnswer .sum = some (.ok payload) ∧
            payload.map (payloadNumber t) = exactSum (present t source)) ∧
    ∀ propertyId records, IntegerRecords t propertyId records →
      (∃ index, objectPropertyIndex P t { options with includeIndexOnlySumAvg := false } propertyId
        (records.map (zeroedRecord t)) = .ok index) →
      ((∃ index, objectPropertyIndex P t options propertyId records = .ok index) ↔
        Buildable t (recordsPresent t propertyId records)) ∧
        ∀ index, objectPropertyIndex P t options propertyId records = .ok index →
          options.includeIndexOnlySumAvg = true → ∃ payload, index.storedAnswer .sum = some (.ok payload) ∧
            payload.map (payloadNumber t) = exactSum (recordsPresent t propertyId records) :=
  ⟨fun _ h hzero => column_builds h hzero, fun _ _ h hzero => property_builds h hzero⟩

def allAnswers : CoviBuildOptions := ⟨true, true, true, true, true⟩

def noAnswers : CoviBuildOptions := ⟨false, false, false, false, false⟩

def oneSegment (values : List CoveArrayValue) : ColumnSource :=
  ⟨7, values.length, false, none, [⟨1, 0, 0, 0, .decoded values⟩]⟩

def mixedColumn : ColumnSource := oneSegment [.numCode 1, .null, .numCode 5, .numCode 1]

def largeColumn : ColumnSource := oneSegment [.numCode 0x7fffffffffffffff, .numCode 1]

theorem exists_ok {α : Type} {r : Except CoveError α} (h : r.isOk = true) : ∃ a, r = .ok a := by
  cases r with
  | error _ => cases h
  | ok a => exact ⟨a, rfl⟩

theorem index_builds_iff_mixed : Buildable .int64 (present .int64 mixedColumn) ∧
    Buildable .int64 (recordsPresent .int64 3 [⟨1, 0, [⟨3, false, Value.ofInt 2⟩]⟩]) := by
  have hcolumn := (index_builds_iff CanonicalIdentity.asciiText .int64 allAnswers).1 mixedColumn
    (by decide) (exists_ok (by decide +kernel))
  have hrecords := (index_builds_iff CanonicalIdentity.asciiText .int64 allAnswers).2 3
    [⟨1, 0, [⟨3, false, Value.ofInt 2⟩]⟩] (by decide) (exists_ok (by decide +kernel))
  exact ⟨hcolumn.1.mp (exists_ok (by decide +kernel)), hrecords.1.mp (exists_ok (by decide +kernel))⟩

/-- The largest number and one more: no sum is asked for, and the build fails for it. -/
theorem unasked_sum_fails : IntegerColumn .int64 largeColumn ∧
    (columnIndex CanonicalIdentity.asciiText .int64 noAnswers (zeroed largeColumn)).isOk = true ∧
    (columnIndex CanonicalIdentity.asciiText .int64 noAnswers largeColumn).map (fun _ => ()) =
      .error .arithOverflow :=
  ⟨by decide, by decide +kernel, by decide +kernel⟩

end

end CoveFormat.CoviStoredSums
