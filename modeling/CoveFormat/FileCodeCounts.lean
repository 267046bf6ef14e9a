import CoveFormat.AggregateResults
import Mathlib.Data.List.Dedup

namespace CoveFormat.FileCodeCounts

open AggregateCoverage AggregateSynopses AggregateResults AggregateValues ByteCodes CheckedArith
  ExceptRules MetadataAggregates Wire List Except
open MorselScan (LookupIndex LookupEntry RowRef)

def rowRef (file : FileMetadata) (row : DataRow) : RowRef :=
  ⟨file.tableId.toNat, row.segmentId.toNat, row.morselId.toNat, row.rowInMorsel⟩

/-- The rows of a column of file codes: each is null or an entry of the dictionary. -/
structure Coded (d : FileData) (i : Nat) : Prop where
  refs : (d.rows.map (rowRef d.file)).Nodup
  coded : ∀ row ∈ d.rows, row.cell i = .null ∨ ∃ code dictionary value,
    row.cell i = .fileCode code ∧ d.file.dictionary = some dictionary ∧
      dictionary.entries[code.toNat]? = some (some value)

/-- The index posts each row under its code, and nothing else of the table. -/
def TruthfulLookup (d : FileData) (i : Nat) (index : LookupIndex) : Prop :=
  ∀ code ref, ref ∈ postedRefs d.file index code ↔
    ∃ row ∈ d.rows, rowRef d.file row = ref ∧ ∃ c : UInt32, c.toNat = code ∧ row.cell i = .fileCode c

def matchesKeys (file : FileMetadata) (i : Nat) (keys : List Bytes) (row : DataRow) : Bool :=
  (valueAt file i row).any fun value => canonicalKey value ∈ keys

def hasCode (i : Nat) (codes : List UInt32) (row : DataRow) : Bool :=
  codes.any fun code => row.cell i = .fileCode code

section

variable {d : FileData} {i : Nat} {codes : List UInt32} {keys : List Bytes}

theorem canonicalKey_inj {a b : TaggedCanonicalValue} (h : canonicalKey a = canonicalKey b) : a = b := by
  have hsmall : ∀ tag : Canonical.ValueTag, encodeU64Leb128 tag.code = [UInt8.ofNat tag.code] := by
    intro tag
    have hlt := Canonical.code_lt tag
    rw [encodeU64Leb128_eq_varint, varint_small (by omega)]
  rw [canonicalKey, canonicalKey, hsmall, hsmall, singleton_append, singleton_append] at h
  obtain ⟨htag, hpayload⟩ := List.cons.inj h
  have hcode := congrArg UInt8.toNat htag
  have ha := Canonical.code_lt a.valueTag
  have hb := Canonical.code_lt b.valueTag
  simp only [UInt8.toNat_ofNat'] at hcode
  have heq := Canonical.code_inj (show a.valueTag.code = b.valueTag.code by omega)
  obtain ⟨atag, apayload⟩ := a
  obtain ⟨btag, bpayload⟩ := b
  obtain rfl : atag = btag := heq
  obtain rfl : apayload = bpayload := hpayload
  rfl

variable {dictionary : FileDictionary} {code : UInt32}

section

variable (hdictionary : d.file.dictionary = some dictionary)
include hdictionary

theorem fileCode_some {key : Bytes} : fileCodeForCanonicalKey d.file key = some code ↔
      ∃ value, dictionary.entries[code.toNat]? = some (some value) ∧ canonicalKey value = key := by
  rw [fileCodeForCanonicalKey, hdictionary, Option.bind_some, Option.map_eq_some_iff]
  constructor
  · rintro ⟨j, hj, rfl⟩
    obtain ⟨hlt, hfound, -⟩ := List.findIdx?_eq_some_iff_getElem.mp hj
    obtain ⟨value, hvalue, hkey⟩ := Option.map_eq_some_iff.mp (of_decide_eq_true hfound)
    have hbound := dictionary.bounded
    refine ⟨value, ?_, hkey⟩
    rw [UInt32.toNat_ofNat', Nat.mod_eq_of_lt (by omega), List.getElem?_eq_getElem hlt, hvalue]
  · rintro ⟨value, hvalue, rfl⟩
    obtain ⟨hlt, hat⟩ := List.getElem?_eq_some_iff.mp hvalue
    cases hfind : dictionary.entries.findIdx? fun v => v.map canonicalKey = some (canonicalKey value) with
    | none =>
      have hnone := List.findIdx?_eq_none_iff.mp hfind _ (getElem_mem hlt)
      rw [hat] at hnone
      simp at hnone
    | some j =>
      obtain ⟨hj, hfound, -⟩ := List.findIdx?_eq_some_iff_getElem.mp hfind
      obtain ⟨other, hother, hkey⟩ := Option.map_eq_some_iff.mp (of_decide_eq_true hfound)
      obtain rfl := canonicalKey_inj hkey
      have hsame := dictionary.distinct j code.toNat other
        ((List.getElem?_eq_getElem hj).trans (congrArg some hother)) hvalue
      exact ⟨j, rfl, by rw [hsame, UInt32.ofNat_toNat]⟩

theorem mem_requestedCodes : code ∈ requestedCodes d.file keys ↔
      ∃ value, dictionary.entries[code.toNat]? = some (some value) ∧ canonicalKey value ∈ keys := by
  rw [requestedCodes, mem_filterMap]
  constructor
  · rintro ⟨key, hkey, hcode⟩
    obtain ⟨value, hvalue, rfl⟩ := (fileCode_some hdictionary).mp hcode
    exact ⟨value, hvalue, hkey⟩
  · rintro ⟨value, hvalue, hkey⟩
    exact ⟨_, hkey, (fileCode_some hdictionary).mpr ⟨value, hvalue, rfl⟩⟩

end

theorem hasCode_requested (hcoded : Coded d i) {row : DataRow} (hrow : row ∈ d.rows) :
    hasCode i (requestedCodes d.file keys) row = matchesKeys d.file i keys row := by
  rw [hasCode, matchesKeys, valueAt, Bool.eq_iff_iff, any_eq_true]
  rcases hcoded.coded row hrow with hnull | ⟨code, dictionary, value, hcell, hdictionary, hvalue⟩
  · simp [hnull]
  · simp only [hcell, hdictionary, hvalue, Option.bind_some, Option.join_some, Option.any_some,
      decide_eq_true_eq, Cell.fileCode.injEq]
    constructor
    · rintro ⟨c, hc, rfl⟩
      obtain ⟨other, hother, hkey⟩ := (mem_requestedCodes hdictionary).mp hc
      obtain rfl := Option.some.inj (Option.some.inj (hvalue.symm.trans hother))
      exact hkey
    · intro hkey
      exact ⟨code, (mem_requestedCodes hdictionary).mpr ⟨value, hvalue, hkey⟩, rfl⟩

theorem count_codes {β : Type} {key count : β → Nat} {buckets : List β} {rows : List DataRow}
    (hcodes : codes.Nodup) (h : ∀ code : UInt32,
      ((buckets.filter fun b => key b = code.toNat).map count).sum = (rowsWithCode i code rows).length) :
    ((buckets.filter fun b => codes.any fun code => key b = code.toNat).map count).sum =
      (rows.filter (hasCode i codes)).length := by
  induction codes with
  | nil =>
    have hnone : rows.filter (hasCode i []) = [] := filter_false rows
    rw [hnone]
    simp
  | cons code codes ih =>
    obtain ⟨hnot, hrest⟩ := nodup_cons.mp hcodes
    have hbuckets := @filter_or_perm β (fun b => key b = code.toNat)
      (fun b => codes.any fun code => key b = code.toNat) (by
        intro b hfirst hany
        obtain ⟨other, hother, hkey⟩ := any_eq_true.mp hany
        have hsame := UInt32.toNat_inj.mp
          ((of_decide_eq_true hfirst).symm.trans (of_decide_eq_true hkey))
        exact hnot (hsame ▸ hother)) buckets
    have hrows := @filter_or_perm DataRow (fun row => row.cell i = .fileCode code) (hasCode i codes) (by
        intro row hfirst hany
        obtain ⟨other, hother, hcell⟩ := any_eq_true.mp hany
        have hsame := Cell.fileCode.inj ((of_decide_eq_true hfirst).symm.trans (of_decide_eq_true hcell))
        exact hnot (hsame ▸ hother)) rows
    have hsum := (hbuckets.map count).sum_eq
    have hlength := hrows.length_eq
    rw [map_append, sum_append, h code, ih hrest] at hsum
    rw [length_append] at hlength
    simp only [any_cons]
    rw [← hsum]
    exact hlength

theorem any_dedup (f : UInt32 → Bool) (codes : List UInt32) : codes.dedup.any f = codes.any f := by
  rw [Bool.eq_iff_iff, any_eq_true, any_eq_true]
  simp only [mem_dedup]

variable {total last : Nat}

theorem countBuckets_ok {buckets : List HistogramBucket}
    (h : countBuckets codes total buckets = .ok last) :
    last = total + ((buckets.filter fun b => codes.any fun code => b.key.toNat = code.toNat).map
      fun b => b.count.toNat).sum := by
  induction buckets generalizing total with
  | nil => exact (ok.inj h).symm
  | cons bucket buckets ih =>
    rw [countBuckets, foldlM_cons] at h
    obtain ⟨next, hnext, h⟩ := of_andThen h
    have hrest := ih h
    by_cases hcode : ∃ code ∈ codes, bucket.key.toNat = code.toNat
    · rw [if_pos hcode] at hnext
      obtain ⟨-, rfl⟩ := checkedAdd_ok_iff.mp (attempt_ok.mp hnext)
      rw [filter_cons_of_pos (by simpa using hcode), map_cons, sum_cons, hrest]
      omega
    · rw [if_neg hcode] at hnext
      cases hnext
      rw [filter_cons_of_neg (by simpa using hcode), hrest]

variable {column : Column} {kind : SynopsisKind} {items : List Item}

theorem file_describes (htruthful : Truthful d) (hcolumn : d.file.columns[i]? = some column)
    (hitems : exactPayloadEntriesForFile d.file column.columnId kind = .ok items) :
    ∀ item ∈ items, Describes d i column.logical item := by
  intro item hitem
  obtain ⟨⟨synopsis, hsynopsis, j, hentry, hpayload⟩, htable, hid, -, hexact⟩ :=
    (exactPayloadEntries_spec hitems).1 item hitem
  exact htruthful synopsis hsynopsis j _ _ hentry hpayload htable hexact i column hcolumn hid.symm

theorem file_covered (hwell : WellFormed d)
    (hitems : exactPayloadEntriesForFile d.file column.columnId kind = .ok items)
    (hdescribes : ∀ item ∈ items, Describes d i column.logical item)
    (hsum : (items.map fun item => item.1.rowCount.toNat).sum = d.file.rowCount) :
    (coveredBy d items).Perm d.rows := by
  refine coveredBy_all (exactPayloadEntries_spec hitems).2 ?_
  rw [← hwell.rowCount, ← hsum, coveredBy, length_flatMap]
  exact congrArg List.sum (map_congr_left fun item hitem => (hdescribes item hitem).rows.symm)

theorem histogramCount_run {s t : Nat × Nat} {logical : CoveTypes.CoveLogicalType}
    (hdescribes : ∀ item ∈ items, Describes d i logical item)
    (h : items.foldlM (histogramCountStep codes) s = .ok t) :
    t.1 = s.1 + (items.map fun item => item.1.rowCount.toNat).sum ∧
      t.2 = s.2 + ((coveredBy d items).filter (hasCode i codes)).length := by
  induction items generalizing s with
  | nil =>
    cases h
    exact ⟨rfl, rfl⟩
  | cons item items ih =>
    obtain ⟨hfirst, hrest⟩ := forall_mem_cons.mp hdescribes
    obtain ⟨next, hnext, h⟩ := of_andThen h
    obtain ⟨hone, htwo⟩ := ih hrest h
    obtain ⟨covered, hcovered, hnext⟩ := of_andThen hnext
    obtain ⟨-, rfl⟩ := checkedAdd_ok_iff.mp (attempt_ok.mp hcovered)
    cases hpayload : item.2 with
    | fileCodeHistogram buckets =>
      rw [hpayload] at hnext
      obtain ⟨total, htotal, hnext⟩ := of_andThen hnext
      cases hnext
      have hdescribe := hfirst.payload
      rw [hpayload] at hdescribe
      have hcount := count_codes (nodup_dedup codes) hdescribe.2
      have hsame : hasCode i codes.dedup = hasCode i codes := funext fun row => any_dedup _ _
      simp only [any_dedup, hsame] at hcount
      rw [countBuckets_ok htotal, hcount] at htwo
      refine ⟨?_, ?_⟩
      · rw [hone, map_cons, sum_cons, Nat.add_assoc]
      · have hcons : coveredBy d (item :: items) = scopeRows d item.1 ++ coveredBy d items := rfl
        rw [htwo, hcons, filter_append, length_append, Nat.add_assoc]
    | _ =>
      rw [hpayload] at hnext
      cases hnext

def matching (i : Nat) (keys : List Bytes) (d : FileData) : Nat :=
  (d.rows.filter (matchesKeys d.file i keys)).length

theorem histogramCountFile_ok (htruthful : Truthful d) (hwell : WellFormed d) (hcoded : Coded d i)
    (h : histogramCountFile i keys total d.file = .ok last) : last = total + matching i keys d := by
  rw [histogramCountFile] at h
  split at h
  · cases h
  · rename_i column hcolumn
    obtain ⟨t, ht, h⟩ := of_andThen h
    obtain ⟨hcovered, h⟩ := of_reject h
    cases h
    obtain ⟨items, hitems, -, hfold⟩ := foldFile_ok ht
    have hdescribes := file_describes htruthful hcolumn hitems
    obtain ⟨hone, htwo⟩ := histogramCount_run hdescribes hfold
    rw [Nat.zero_add] at hone
    have hperm := file_covered hwell hitems hdescribes (hone.symm.trans (not_not.mp hcovered))
    rw [htwo, (hperm.filter _).length_eq, matching,
      filter_congr fun row hrow => hasCode_requested hcoded hrow]

theorem mem_selected {index : LookupIndex} (hlookup : TruthfulLookup d i index) {ref : RowRef} :
    ref ∈ (codes.flatMap fun code => postedRefs d.file index code.toNat).dedup ↔
      ref ∈ (d.rows.filter (hasCode i codes)).map (rowRef d.file) := by
  rw [mem_dedup, mem_flatMap, mem_map]
  constructor
  · rintro ⟨code, hcode, hposted⟩
    obtain ⟨row, hrow, href, c, hc, hcell⟩ := (hlookup _ _).mp hposted
    obtain rfl := UInt32.toNat_inj.mp hc
    exact ⟨row, mem_filter.mpr ⟨hrow, any_eq_true.mpr ⟨c, hcode, decide_eq_true hcell⟩⟩, href⟩
  · rintro ⟨row, hrow, href⟩
    obtain ⟨hin, hany⟩ := mem_filter.mp hrow
    obtain ⟨code, hcode, hcell⟩ := any_eq_true.mp hany
    exact ⟨code, hcode, (hlookup _ _).mpr ⟨row, hin, href, code, rfl, of_decide_eq_true hcell⟩⟩

theorem lookupCountFile_ok (hcoded : Coded d i)
    (hlookup : ∀ column ∈ d.file.columns[i]?, ∀ index ∈ d.file.lookupFor column.columnId,
      index.keyKind = .fileCode → TruthfulLookup d i index)
    (h : lookupCountFile i keys total d.file = .ok last) : last = total + matching i keys d := by
  rw [lookupCountFile] at h
  split at h
  · cases h
  · rename_i column hcolumn
    split at h
    · cases h
    · rename_i index hindex
      obtain ⟨hkind, h⟩ := of_reject h
      have htruthful := hlookup column hcolumn index hindex (not_not.mp hkind)
      obtain ⟨-, rfl⟩ := checkedAdd_ok_iff.mp (attempt_ok.mp h)
      have hnodup : ((d.rows.filter (hasCode i (requestedCodes d.file keys))).map
          (rowRef d.file)).Nodup := hcoded.refs.sublist (filter_sublist.map _)
      have hperm := (perm_ext_iff_of_nodup (nodup_dedup _) hnodup).mpr
        fun ref => mem_selected htruthful
      rw [hperm.length_eq, length_map, matching,
        filter_congr fun row hrow => hasCode_requested hcoded hrow]

variable {data : List FileData}

theorem foldlM_total {f : Nat → FileMetadata → Attempt Nat} {g : FileData → Nat}
    (hf : ∀ d ∈ data, ∀ total last, f total d.file = .ok last → last = total + g d)
    (h : (data.map FileData.file).foldlM f total = .ok last) : last = total + (data.map g).sum := by
  induction data generalizing total with
  | nil => exact (ok.inj h).symm
  | cons d data ih =>
    obtain ⟨hfirst, hrest⟩ := forall_mem_cons.mp hf
    obtain ⟨next, hnext, h⟩ := of_andThen h
    rw [ih hrest h, hfirst _ _ hnext, map_cons, sum_cons, Nat.add_assoc]

theorem orElse_ok {α : Type} {first second : Attempt α} {a : α} (h : orElse first second = .ok a) :
    first = .ok a ∨ first = .error none ∧ second = .ok a := by
  cases first with
  | ok b => exact .inl h
  | error e =>
    cases e with
    | none => exact .inr ⟨rfl, h⟩
    | some e => cases h

/-- A look-up index of the column that is used posts the rows of its file truthfully. -/
def Posts (d : FileData) (i : Nat) : Prop :=
  ∀ column ∈ d.file.columns[i]?, ∀ index ∈ d.file.lookupFor column.columnId,
    index.keyKind = .fileCode → TruthfulLookup d i index

theorem filteredCount_right {state : DatasetState} (hdata : Holds state data)
    (hcoded : ∀ d ∈ data, Coded d i) (hposts : ∀ d ∈ data, Posts d i) {counts : List Nat}
    (h : exactFilecodeFilteredCount state i keys = .ok counts) :
    counts = [(data.map (matching i keys)).sum] := by
  replace h := rest_ok h
  obtain ⟨total, htotal, h⟩ := of_andThen h
  cases h
  rcases orElse_ok htotal with hfirst | ⟨-, hsecond⟩
  · rw [exactFilecodeHistogramFilteredCount, hdata.files] at hfirst
    have htotal := foldlM_total (fun d hd total last hstep => histogramCountFile_ok
      (hdata.truthful d hd) (hdata.wellFormed d hd) (hcoded d hd) hstep) hfirst
    rw [htotal, Nat.zero_add]
  · rw [hdata.files] at hsecond
    have htotal := foldlM_total (fun d hd total last hstep => lookupCountFile_ok
      (hcoded d hd) (hposts d hd) hstep) hsecond
    rw [htotal, Nat.zero_add]

end

end CoveFormat.FileCodeCounts
