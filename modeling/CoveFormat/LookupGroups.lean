import CoveFormat.FileCodeGroups

namespace CoveFormat.LookupGroups

open AggregateCoverage AggregateSynopses AggregateResults AggregateValues ExceptRules FileCodeCounts
  FileCodeGroups MetadataAggregates List
open Canonical (TextPredicates)
open MorselScan (LookupIndex LookupEntry RowRef)

variable {i : Nat} {groups : Groups}

def entryRows (file : FileMetadata) (entry : LookupEntry) : List RowRef :=
  (entry.rows.filter fun row => row.tableId = file.tableId.toNat).dedup

/-- An entry of the column's look-up index is for a value with the payload. -/
def Indexed (d : FileData) (i : Nat) (p : ByteCodes.Bytes) : Prop :=
  ∃ column ∈ d.file.columns[i]?, ∃ index ∈ d.file.lookupFor column.columnId,
    ∃ dictionary ∈ d.file.dictionary, ∃ entry ∈ index.entries,
      hasPayload dictionary p entry.key = true

section

variable {dictionary : FileDictionary} {d : FileData} {last : Groups}

variable {s t : List RowRef × Groups}

theorem addEntry_ok {entry : LookupEntry} (h : addEntry d.file dictionary s entry = .ok t) : ∃ value,
      dictionary.entries[entry.key]? = some (some value) ∧
        addToGroup value.payload (entryRows d.file entry).length s.2 = .ok t.2 ∧
        t.1 = s.1 ++ entryRows d.file entry := by
  obtain ⟨⟨⟩, hbound, h⟩ := of_andThen h
  obtain ⟨value, hvalue, h⟩ := of_andThen h
  have hfound := entry_of_decodeValue (of_rejectIf hbound) hvalue
  cases value with
  | none => cases h
  | some value =>
    obtain ⟨next, hadd, h⟩ := of_andThen h
    obtain rfl := Except.ok.inj h
    exact ⟨value, hfound, hadd, rfl⟩

theorem entries_run {entries : List LookupEntry}
    (h : entries.foldlM (addEntry d.file dictionary) s = .ok t) :
    t.1 = s.1 ++ entries.flatMap (entryRows d.file) ∧ GroupRun dictionary
      (entries.map fun entry => (entry.key, (entryRows d.file entry).length)) s.2 t.2 := by
  induction entries generalizing s with
  | nil =>
    cases h
    exact ⟨(append_nil _).symm, rfl⟩
  | cons entry entries ih =>
    obtain ⟨next, hnext, h⟩ := of_andThen h
    obtain ⟨value, hvalue, hadd, hrows⟩ := addEntry_ok hnext
    obtain ⟨hlast, hrun⟩ := ih h
    refine ⟨?_, value, next.2, hvalue, hadd, hrun⟩
    rw [hlast, hrows, flatMap_cons, append_assoc]

theorem filter_key (index : LookupIndex) (key : Nat) :
    index.entries.filter (fun entry => entry.key = key) =
      (index.entries.find? fun entry => entry.key = key).toList := by
  have hsorted := index.sorted
  generalize index.entries = entries at hsorted
  induction entries with
  | nil => rfl
  | cons entry entries ih =>
    obtain ⟨hfirst, hrest⟩ := pairwise_cons.mp hsorted
    by_cases hkey : entry.key = key
    · rw [filter_cons_of_pos (by simpa using hkey), List.find?_cons_of_pos (by simpa using hkey)]
      have hnone : entries.filter (fun other => other.key = key) = [] := by
        refine filter_eq_nil_iff.mpr fun other hother heq => ?_
        have hlt := hfirst other hother
        rw [hkey, of_decide_eq_true heq] at hlt
        exact lt_irrefl _ hlt
      rw [hnone]
      rfl
    · rw [filter_cons_of_neg (by simpa using hkey), List.find?_cons_of_neg (by simpa using hkey),
        ih hrest]

theorem mem_rowsWithCode {code : UInt32} {rows : List DataRow} {row : DataRow} :
    row ∈ rowsWithCode i code rows ↔ row ∈ rows ∧ row.cell i = .fileCode code := by
  rw [rowsWithCode, mem_filter, decide_eq_true_eq]

variable {index : LookupIndex}

theorem posted_length (hcoded : Coded d i) (hlookup : TruthfulLookup d i index) (code : UInt32) :
    (postedRefs d.file index code.toNat).dedup.length =
      (rowsWithCode i code d.rows).length := by
  have hnodup : ((rowsWithCode i code d.rows).map (rowRef d.file)).Nodup :=
    hcoded.refs.sublist (filter_sublist.map _)
  have hperm : (postedRefs d.file index code.toNat).dedup.Perm
      ((rowsWithCode i code d.rows).map (rowRef d.file)) := by
    refine (perm_ext_iff_of_nodup (nodup_dedup _) hnodup).mpr fun ref => ?_
    rw [mem_dedup, hlookup, mem_map]
    constructor
    · rintro ⟨row, hrow, href, c, hc, hcell⟩
      obtain rfl := UInt32.toNat_inj.mp hc
      exact ⟨row, mem_rowsWithCode.mpr ⟨hrow, hcell⟩, href⟩
    · rintro ⟨row, hrow, href⟩
      obtain ⟨hin, hcell⟩ := mem_rowsWithCode.mp hrow
      exact ⟨row, hin, href, code, rfl, hcell⟩
  rw [hperm.length_eq, length_map]

theorem entries_counts (hcoded : Coded d i) (hlookup : TruthfulLookup d i index) (code : UInt32) :
    (((index.entries.map fun entry => (entry.key, (entryRows d.file entry).length)).filter
      fun b => b.1 = code.toNat).map Prod.snd).sum = (rowsWithCode i code d.rows).length := by
  have hkey := filter_key index code.toNat
  have hposted := posted_length hcoded hlookup code
  rw [postedRefs, LookupIndex.rowsFor] at hposted
  rw [filter_map, map_map, ← hposted]
  simp only [Function.comp_def]
  rw [hkey]
  cases index.entries.find? fun entry => entry.key = code.toNat with
  | none => rfl
  | some entry => exact Nat.add_zero _

theorem mem_entryRows (hlookup : TruthfulLookup d i index) {ref : RowRef}
    (h : ref ∈ index.entries.flatMap (entryRows d.file)) : ∃ row ∈ d.rows, rowRef d.file row = ref ∧
      ∃ code, row.cell i = .fileCode code := by
  obtain ⟨entry, hentry, href⟩ := mem_flatMap.mp h
  have hin : entry ∈ index.entries.filter fun other => other.key = entry.key :=
    mem_filter.mpr ⟨hentry, by simp⟩
  rw [filter_key, Option.mem_toList] at hin
  have hposted : ref ∈ postedRefs d.file index entry.key := by
    rw [postedRefs, LookupIndex.rowsFor, hin]
    exact mem_dedup.mp href
  obtain ⟨row, hrow, heq, code, -, hcell⟩ := (hlookup _ _).mp hposted
  exact ⟨row, hrow, heq, code, hcell⟩

theorem posted_full (hcoded : Coded d i) (hlookup : TruthfulLookup d i index)
    (h : (index.entries.flatMap (entryRows d.file)).dedup.length = d.rows.length) :
    (d.rows.filterMap (valueAt d.file i)).length = d.rows.length := by
  refine Nat.le_antisymm (length_filterMap_le _ _) ?_
  have hvalues : (d.rows.filterMap (valueAt d.file i)).length =
      (d.rows.filter fun row => (valueAt d.file i row).isSome).length := by
    have hall := length_filter_filterMap (valueAt d.file i) (fun _ => true) d.rows
    rw [filter_true] at hall
    refine hall.trans (congrArg List.length (filter_congr fun row _ => ?_))
    cases valueAt d.file i row <;> rfl
  rw [hvalues, ← h, ← @length_map _ _ (d.rows.filter _) (rowRef d.file)]
  refine (subperm_of_subset (nodup_dedup _) fun ref href => ?_).length_le
  obtain ⟨row, hrow, heq, code, hcell⟩ := mem_entryRows hlookup (mem_dedup.mp href)
  refine mem_map.mpr ⟨row, mem_filter.mpr ⟨hrow, ?_⟩, heq⟩
  rcases hcoded.coded row hrow with hnull | ⟨c, dictionary, value, hc, hdictionary, hvalue⟩
  · rw [hnull] at hcell
    cases hcell
  · rw [valueAt, hc, hdictionary]
    simp [hvalue]

theorem lookupGroupFile_ok (hwell : WellFormed d) (hcoded : Coded d i) (hposts : Posts d i)
    (h : lookupGroupFile i groups d.file = .ok last) {done : List FileData}
    (hdone : Counted i done groups) : Counted i (done ++ [d]) last ∧
      ∀ p, p ∈ last.map Prod.fst ↔ p ∈ groups.map Prod.fst ∨ Indexed d i p := by
  rw [lookupGroupFile] at h
  split at h
  · cases h
  · rename_i column hcolumn
    split at h
    · cases h
    · rename_i index hindex
      obtain ⟨hkind, h⟩ := of_reject h
      have hlookup := hposts column hcolumn index hindex (not_not.mp hkind)
      split at h
      · cases h
      · rename_i dictionary hdictionary
        obtain ⟨s, hs, h⟩ := of_andThen h
        obtain ⟨hlength, h⟩ := of_reject h
        cases h
        obtain ⟨hrows, hrun⟩ := entries_run hs
        have hcovered := not_not.mp hlength
        rw [hrows, hwell.rowCount] at hcovered
        have hgrouped := run_grouped hrun hcoded hdictionary (fun _ hrow => hrow)
          (entries_counts hcoded hlookup) hdone.grouped
        refine ⟨hdone.snoc hgrouped (posted_full hcoded hlookup hcovered), fun p => ?_⟩
        rw [run_keys hrun]
        refine or_congr_right ⟨?_, ?_⟩
        · rintro ⟨b, hb, hpayload⟩
          obtain ⟨entry, hentry, rfl⟩ := mem_map.mp hb
          exact ⟨column, hcolumn, index, hindex, dictionary, hdictionary, entry, hentry, hpayload⟩
        · rintro ⟨own, hown, other, hother, entries, hentries, entry, hentry, hpayload⟩
          obtain rfl := Option.some.inj (hcolumn.symm.trans hown)
          obtain rfl := Option.some.inj (hindex.symm.trans hother)
          obtain rfl := Option.some.inj (hdictionary.symm.trans hentries)
          exact ⟨_, mem_map_of_mem hentry, hpayload⟩

end

section

variable {state : DatasetState} {data : List FileData}

theorem foldlM_files {f : Groups → FileMetadata → Attempt Groups}
    {inv : List FileData → Groups → Prop} {todo : List FileData} (hstep : ∀ d ∈ todo,
      ∀ done s t, f s d.file = .ok t → inv done s → inv (done ++ [d]) t) {done : List FileData}
    {s t : Groups} (hs : inv done s) (h : (todo.map FileData.file).foldlM f s = .ok t) :
    inv (done ++ todo) t := by
  induction todo generalizing done s with
  | nil =>
    cases h
    rwa [append_nil]
  | cons d todo ih =>
    obtain ⟨hfirst, hrest⟩ := forall_mem_cons.mp hstep
    obtain ⟨u, hu, h⟩ := of_andThen h
    have hlast := ih hrest (hfirst done s u hu hs) h
    rwa [append_assoc, singleton_append] at hlast

theorem Counted.nil : Counted i [] [] := ⟨Grouped.nil, fun _ hd => absurd hd not_mem_nil⟩

theorem histogramGroups_ok (hdata : Holds state data) (hcoded : ∀ d ∈ data, Coded d i)
    (h : exactFilecodeHistogramGroupCounts state i = .ok groups) :
    Counted i data groups ∧ ∀ g ∈ groups, 0 < g.2 := by
  rw [exactFilecodeHistogramGroupCounts, hdata.files] at h
  exact @foldlM_files _ (fun done s => Counted i done s ∧ ∀ g ∈ s, 0 < g.2) data
    (fun d hd done s t hstep hs => histogramGroupFile_ok (hdata.truthful d hd) (hdata.wellFormed d hd)
      (hcoded d hd) hstep hs.1 hs.2) [] _ _ ⟨Counted.nil, fun _ hg => absurd hg not_mem_nil⟩ h

theorem lookupGroups_ok (hdata : Holds state data) (hcoded : ∀ d ∈ data, Coded d i)
    (hposts : ∀ d ∈ data, Posts d i) (h : state.files.foldlM (lookupGroupFile i) [] = .ok groups) :
    Counted i data groups ∧ ∀ p, p ∈ groups.map Prod.fst ↔ ∃ d ∈ data, Indexed d i p := by
  rw [hdata.files] at h
  refine @foldlM_files _ (fun done s => Counted i done s ∧
    ∀ p, p ∈ s.map Prod.fst ↔ ∃ d ∈ done, Indexed d i p) data ?_ [] _ _ ⟨Counted.nil, ?_⟩ h
  · rintro d hd done s t hstep ⟨hcounted, hkeys⟩
    obtain ⟨hnext, hlast⟩ := lookupGroupFile_ok (hdata.wellFormed d hd) (hcoded d hd) (hposts d hd)
      hstep hcounted
    refine ⟨hnext, fun p => ?_⟩
    rw [hlast, hkeys]
    simp only [mem_append, mem_singleton, or_and_right, exists_or, exists_eq_left]
  · intro p
    simp

/-- A look-up index that is used for the groups has entries only for values that some row has. -/
def OnlyPresent (state : DatasetState) (data : List FileData) (i : Nat) : Prop :=
  exactFilecodeHistogramGroupCounts state i = unavailable →
    ∀ d ∈ data, ∀ p, Indexed d i p → ∃ value ∈ columnValues i data, value.payload = p

theorem groupCounts_ok (h : exactFilecodeGroupCounts state i = .ok groups) :
    exactFilecodeHistogramGroupCounts state i = .ok groups ∨
      exactFilecodeHistogramGroupCounts state i = unavailable ∧
        state.files.foldlM (lookupGroupFile i) [] = .ok groups := by
  replace h := rest_ok h
  split at h
  · cases h
  · obtain ⟨⟨⟩, -, h⟩ := of_andThen h
    exact orElse_ok h

theorem groupCounts_right (hdata : Holds state data) (hcoded : ∀ d ∈ data, Coded d i)
    (hposts : ∀ d ∈ data, Posts d i) (h : exactFilecodeGroupCounts state i = .ok groups) :
    (RightGroups (columnValues i data) groups ↔ OnlyPresent state data i) ∧
      (columnValues i data).length = (data.map fun d => d.rows.length).sum := by
  have hlength : ∀ {groups}, Counted i data groups →
      (columnValues i data).length = (data.map fun d => d.rows.length).sum := by
    intro groups hcounted
    rw [columnValues, length_flatMap]
    exact congrArg List.sum (map_congr_left hcounted.full)
  rcases groupCounts_ok h with hfirst | ⟨hnone, hsecond⟩
  · obtain ⟨hcounted, hpositive⟩ := histogramGroups_ok hdata hcoded hfirst
    refine ⟨iff_of_true (hcounted.grouped.right_iff.mpr hpositive) ?_, hlength hcounted⟩
    rw [OnlyPresent, hfirst]
    intro hnone
    cases hnone
  · obtain ⟨hcounted, hkeys⟩ := lookupGroups_ok hdata hcoded hposts hsecond
    refine ⟨?_, hlength hcounted⟩
    rw [hcounted.grouped.right_iff, OnlyPresent, forall_prop_of_true hnone]
    constructor
    · intro hpositive d hd p hindexed
      obtain ⟨g, hg, rfl⟩ := mem_map.mp ((hkeys p).mpr ⟨d, hd, hindexed⟩)
      refine payloadCount_pos.mp ?_
      rw [← hcounted.grouped.counts, groupCount_eq hcounted.grouped.sorted hg]
      exact hpositive g hg
    · intro hpresent g hg
      obtain ⟨d, hd, hindexed⟩ := (hkeys g.1).mp (mem_map_of_mem hg)
      rw [← groupCount_eq hcounted.grouped.sorted hg, hcounted.grouped.counts]
      exact payloadCount_pos.mpr (hpresent d hd g.1 hindexed)

end

end CoveFormat.LookupGroups
