import CoveFormat.CanonicalIdentity
import CoveFormat.LookupGroups

namespace CoveFormat.MetadataPlans

open AggregateCoverage AggregateSynopses AggregateResults AggregateValues ByteCodes CoveTypes
  ExceptRules FileCodeCounts FileCodeGroups LookupGroups MetadataAggregates List Option
open Canonical (TextPredicates)
open CanonicalIdentity (asciiText)
open MorselScan (LookupIndex)

def IntegerOrFloat (logical : CoveLogicalType) : Prop :=
  IsSumTag logical .int64 ∨ IsSumTag logical .uint64 ∨ IsSumTag logical .float64Bits

/-- The value of a plan is the aggregate of the column over all rows. -/
def RightValue (state : DatasetState) (data : List FileData)
    (request : Nat × MetadataSynopsisAggregateKind) (value : MetadataAggregateValue) : Prop :=
  ∀ column ∈ state.columns[request.1]?,
    match request.2 with
    | .min | .max => RightExtreme request.2 (columnValues request.1 data) value.value
    | .sum => RightSum column.logical (columnValues request.1 data) value.value
    | .avg => IntegerOrFloat column.logical → RightAvg (columnValues request.1 data) value.value

/-- Of the extremes that a request uses, one comes first in both orders. -/
def OrdersAgree (state : DatasetState) (data : List FileData)
    (request : Nat × MetadataSynopsisAggregateKind) : Prop :=
  request.2 = .min ∨ request.2 = .max → ∀ column ∈ state.columns[request.1]?, ∀ itemss,
    Used data column.columnId .minMax itemss →
      ExtremeInBoth request.2 (usedExtremes request.2 data itemss)

/-- The file codes of a column, its dictionaries and its look-up indexes. -/
structure FileCodes (data : List FileData) (i : Nat) : Prop where
  coded : ∀ d ∈ data, Coded d i
  posts : ∀ d ∈ data, Posts d i

section

variable {P : TextPredicates} {state : DatasetState} {data : List FileData}

theorem synopsisValue_iff (hdata : Holds state data) {request : Nat × MetadataSynopsisAggregateKind}
    (hids : IdsAgree state request.1) {value : MetadataAggregateValue}
    (h : synopsisValue P state request = .ok value) :
    RightValue state data request value ↔ OrdersAgree state data request := by
  obtain ⟨i, kind⟩ := request
  rw [synopsisValue] at h
  split at h
  · cases h
  · rename_i column hcolumn
    cases kind with
    | min | max =>
      obtain ⟨found, hfound, h⟩ := of_andThen h
      cases h
      rw [RightValue, OrdersAgree, hcolumn]
      simp only [reduceCtorEq, true_or, or_true, forall_true_left, mem_some_iff, forall_eq']
      exact minMax_iff hdata (by simp) hcolumn hids hfound
    | sum =>
      obtain ⟨found, hfound, h⟩ := of_andThen h
      cases h
      refine iff_of_true (fun own hown => ?_) fun hkind => hkind.elim nofun nofun
      obtain rfl := some.inj (hcolumn.symm.trans hown)
      exact sum_right hdata hcolumn hids hfound
    | avg =>
      obtain ⟨found, hfound, h⟩ := of_andThen h
      cases h
      refine iff_of_true (fun own hown => ?_) fun hkind => hkind.elim nofun nofun
      exact fun _ => avg_right hdata hcolumn hids hfound

theorem forall₂_iff {α β : Type} {r : α → β → Prop} {p : α → Prop} {as : List α} {bs : List β}
    (h : Forall₂ (fun a b => r a b ↔ p a) as bs) : Forall₂ r as bs ↔ ∀ a ∈ as, p a := by
  induction h with
  | nil => simp
  | cons hfirst _ ih => rw [forall₂_cons, forall_mem_cons, hfirst, ih]

/-- MIN and MAX are right where one of the entries' extremes comes first in both orders, as long as
the column has one id in all files; SUM, AVG and the counts of file codes are right, and the groups
are where no group is of a value without rows. -/
theorem metadata_aggregates_iff (hdata : Holds state data) :
    (∀ requests values, (∀ request ∈ requests, IdsAgree state request.1) →
      exactUnfilteredAggregateSynopses P state requests = .ok values →
        (List.Forall₂ (RightValue state data) requests values ↔
          ∀ request ∈ requests, OrdersAgree state data request)) ∧
    (∀ i keys counts, FileCodes data i → exactFilecodeFilteredCount state i keys = .ok counts →
      counts = [(data.map fun d => (d.rows.filter (matchesKeys d.file i keys)).length).sum]) ∧
    ∀ i groups, FileCodes data i → exactFilecodeGroupCounts state i = .ok groups →
      (RightGroups (columnValues i data) groups ↔ OnlyPresent state data i) ∧
        (columnValues i data).length = (data.map fun d => d.rows.length).sum := by
  refine ⟨fun requests values hids h => ?_, fun i keys counts hcodes h => ?_,
    fun i groups hcodes h => ?_⟩
  · obtain ⟨⟨⟩, -, h⟩ := of_andThen h
    refine forall₂_iff ((forall₂_iff_zip.mpr ⟨(mapM_eq_ok_iff.mp h).length_eq, ?_⟩))
    intro request value hzip
    exact synopsisValue_iff hdata (hids request (of_mem_zip hzip).1)
      ((forall₂_iff_zip.mp (mapM_eq_ok_iff.mp h)).2 hzip)
  · exact filteredCount_right hdata hcodes.coded hcodes.posts h
  · exact groupCounts_right hdata hcodes.coded hcodes.posts h

end

variable {d : FileData}

theorem truthful_of_zip
    (h : ∀ synopsis ∈ d.file.aggregates, ∀ item ∈ synopsis.entries.zip synopsis.payloads,
      ∀ c ∈ d.file.columns.zipIdx, c.1.columnId = item.1.columnId →
        Describes d c.2 c.1.logical item) : Truthful d := by
  intro synopsis hsynopsis j entry payload hentry hpayload _ _ i column hcolumn hid
  refine h synopsis hsynopsis (entry, payload) (mem_iff_getElem?.mpr ⟨j, ?_⟩) (column, i)
    (mk_mem_zipIdx_iff_getElem?.mpr hcolumn) hid
  rw [List.getElem?_zip_eq_some]
  exact ⟨hentry, hpayload⟩

theorem distinct_of_nodup {entries : List (Option TaggedCanonicalValue)} (h : entries.Nodup) :
    ∀ (i j : Nat) v, entries[i]? = some (some v) → entries[j]? = some (some v) → i = j := by
  intro i j v hi hj
  obtain ⟨hilt, -⟩ := List.getElem?_eq_some_iff.mp hi
  exact (List.getElem?_inj hilt h).mp (hi.trans hj.symm)

def entryOf (segmentId columnId : UInt32) (kind : SynopsisKind) : AggregateEntry :=
  ⟨1, segmentId, absent, columnId, kind, 0, .exact, 0, 1, 0, 0, 0, 0⟩

theorem isExtreme_singleton (kind : MetadataSynopsisAggregateKind) (value : TaggedCanonicalValue) :
    IsExtreme kind value [value] := by
  refine ⟨mem_singleton_self _, fun other hother => ?_⟩
  rw [mem_singleton.mp hother]
  exact Before.refl _

theorem describes_one {i : Nat} {logical : CoveLogicalType} {entry : AggregateEntry}
    {value : TaggedCanonicalValue} (hrows : entry.rowCount.toNat = (scopeRows d entry).length)
    (hnulls : entry.nullCount = 0) (hvalues : scopeValues i d entry = [value])
    (hone : (scopeRows d entry).length = 1) :
    Describes d i logical (entry, .minMax (some value) (some value)) := by
  refine ⟨hrows, by rw [hvalues, hone, hnulls]; rfl, ?_⟩
  rw [hvalues]
  refine ⟨⟨fun v hv => ?_, nofun⟩, fun v hv => ?_, nofun⟩
  · cases hv
    exact isExtreme_singleton .min _
  · cases hv
    exact isExtreme_singleton .max _

def smallFile (columns : List Column) (rows : List DataRow) (aggregates : List AggregateSynopsis)
    (lookup : Option LookupIndex) (dictionary : Option FileDictionary) : FileData where
  file :=
    { tableId := 1
      columns := columns
      rowCount := rows.length
      segments := rows.map fun row => ⟨row.segmentId, 1, 1, .ok [⟨0, 1⟩]⟩
      aggregates := aggregates
      lookupFor := fun _ => lookup
      dictionary := dictionary
      visibleAll := true
      hasRedaction := false }
  rows := rows

def oneFile (d : FileData) : DatasetState := ⟨d.file, [], nofun⟩

theorem oneFile_holds (htruthful : Truthful d) (hwell : WellFormed d) : Holds (oneFile d) [d] := by
  refine ⟨rfl, fun e he => ?_, fun e he => ?_⟩
  · rwa [mem_singleton.mp he]
  · rwa [mem_singleton.mp he]

def dictionaryOf (a b : TaggedCanonicalValue) (h : a ≠ b) : FileDictionary :=
  ⟨[some a, some b], by simp, distinct_of_nodup (by simp [h])⟩

def binary (bytes : Bytes) : TaggedCanonicalValue := ⟨.binary, UInt8.ofNat bytes.length :: bytes⟩

def text (bytes : Bytes) : TaggedCanonicalValue := ⟨.utf8, UInt8.ofNat bytes.length :: bytes⟩

def twoWords : FileData :=
  smallFile [⟨10, .binary, .fileCode⟩]
    [⟨0, 0, 0, fun _ => .fileCode 0⟩, ⟨1, 0, 0, fun _ => .fileCode 1⟩]
    [⟨[entryOf 0 10 .minMax, entryOf 1 10 .minMax],
      [.minMax (some (binary [97, 97])) (some (binary [97, 97])),
        .minMax (some (binary [98])) (some (binary [98]))]⟩]
    none (some (dictionaryOf (binary [97, 97]) (binary [98]) (by decide)))

theorem twoWords_holds : Holds (oneFile twoWords) [twoWords] := by
  refine oneFile_holds (truthful_of_zip ?_) ⟨rfl, ?_⟩
  · intro synopsis hsynopsis item hitem c hc _
    rw [mem_singleton.mp hsynopsis] at hitem
    rcases mem_cons.mp hitem with rfl | hitem
    · exact describes_one rfl rfl rfl rfl
    · obtain rfl := mem_singleton.mp hitem
      exact describes_one rfl rfl rfl rfl
  · intro i column hcolumn row hrow value hvalue
    obtain rfl : column = ⟨10, .binary, .fileCode⟩ := by
      cases i with
      | zero => exact (some.inj hcolumn).symm
      | succ i => cases hcolumn
    rcases mem_cons.mp hrow with rfl | hrow
    · cases hvalue
      exact .inr rfl
    · obtain rfl := mem_singleton.mp hrow
      cases hvalue
      exact .inr rfl

def oneIndex : LookupIndex := ⟨.fileCode, [⟨0, [⟨1, 0, 0, 0⟩]⟩, ⟨1, []⟩], by simp⟩

def oneText : FileData :=
  smallFile [⟨10, .utf8, .fileCode⟩] [⟨0, 0, 0, fun _ => .fileCode 0⟩] [] (some oneIndex)
    (some (dictionaryOf (text [97]) (text [98]) (by decide)))

theorem oneText_codes : FileCodes [oneText] 0 := by
  constructor
  · intro d hd
    obtain rfl := mem_singleton.mp hd
    refine ⟨nodup_singleton _, fun row hrow => .inr ?_⟩
    obtain rfl := mem_singleton.mp hrow
    exact ⟨0, _, _, rfl, rfl, rfl⟩
  · intro d hd column _ index hindex _ code ref
    obtain rfl := mem_singleton.mp hd
    cases hindex
    match code with
    | 0 =>
      refine ⟨fun href => ?_, ?_⟩
      · obtain rfl := mem_singleton.mp href
        exact ⟨_, mem_singleton_self _, rfl, 0, rfl, rfl⟩
      · rintro ⟨row, hrow, rfl, -⟩
        obtain rfl := mem_singleton.mp hrow
        exact mem_singleton_self _
    | n + 1 =>
      have hnone : postedRefs oneText.file oneIndex (n + 1) = [] := by cases n <;> rfl
      refine ⟨fun href => ?_, ?_⟩
      · rw [hnone] at href
        cases href
      · rintro ⟨row, hrow, -, c, hc, hcell⟩
        obtain rfl := mem_singleton.mp hrow
        obtain rfl := Cell.fileCode.inj hcell
        cases hc

theorem oneText_holds : Holds (oneFile oneText) [oneText] := by
  refine oneFile_holds nofun ⟨rfl, ?_⟩
  intro i column hcolumn row hrow value hvalue
  obtain rfl := mem_singleton.mp hrow
  cases hvalue
  cases i with
  | zero =>
    cases hcolumn
    exact .inr rfl
  | succ i => cases hcolumn

def int64 (n : Nat) : TaggedCanonicalValue := ⟨.int64, leBytes 8 n⟩

def twoNumbers (firstId secondId : UInt32) (a b : Nat) : FileData :=
  smallFile [⟨firstId, .int64, .numCode⟩, ⟨secondId, .int64, .numCode⟩]
    [⟨0, 0, 0, fun i => .value (if i = 0 then int64 a else int64 b)⟩]
    [⟨[entryOf 0 firstId .minMax, entryOf 0 secondId .minMax],
      [.minMax (some (int64 a)) (some (int64 a)), .minMax (some (int64 b)) (some (int64 b))]⟩]
    none none

theorem twoNumbers_truthful {firstId secondId : UInt32} (h : firstId ≠ secondId) (a b : Nat) :
    Truthful (twoNumbers firstId secondId a b) := by
  refine truthful_of_zip fun synopsis hsynopsis item hitem c hc hid => ?_
  rw [mem_singleton.mp hsynopsis] at hitem
  rcases mem_cons.mp hitem with rfl | hitem
  · rcases mem_cons.mp hc with rfl | hc
    · exact describes_one rfl rfl rfl rfl
    · obtain rfl := mem_singleton.mp hc
      exact absurd hid.symm h
  · obtain rfl := mem_singleton.mp hitem
    rcases mem_cons.mp hc with rfl | hc
    · exact absurd hid h
    · obtain rfl := mem_singleton.mp hc
      exact describes_one rfl rfl rfl rfl

theorem twoNumbers_wellFormed (firstId secondId : UInt32) (a b : Nat) :
    WellFormed (twoNumbers firstId secondId a b) := by
  refine ⟨rfl, fun i column hcolumn row hrow value hvalue => ?_⟩
  obtain rfl := mem_singleton.mp hrow
  match i with
  | 0 | 1 =>
    cases hcolumn
    cases hvalue
    exact .inr rfl
  | i + 2 => cases hcolumn

def swappedIds : DatasetState :=
  ⟨(twoNumbers 10 11 5 100).file, [(twoNumbers 11 10 1 100).file], fun file hfile => by
    rw [List.mem_singleton.mp hfile]
    rfl⟩

theorem swappedIds_holds : Holds swappedIds [twoNumbers 10 11 5 100, twoNumbers 11 10 1 100] := by
  refine ⟨rfl, fun d hd => ?_, fun d hd => ?_⟩
  · rcases mem_cons.mp hd with rfl | hd
    · exact twoNumbers_truthful (by decide) 5 100
    · rw [mem_singleton.mp hd]
      exact twoNumbers_truthful (by decide) 1 100
  · rcases mem_cons.mp hd with rfl | hd
    · exact twoNumbers_wellFormed _ _ _ _
    · rw [mem_singleton.mp hd]
      exact twoNumbers_wellFormed _ _ _ _

/-- Of the bytes aa and b the plan takes b for the first; of a second file whose columns have other
ids it takes the wrong column; a group without rows is among the groups. -/
theorem plans_wrong : (Holds (oneFile twoWords) [twoWords] ∧ ∃ payload,
      exactUnfilteredAggregateSynopses asciiText (oneFile twoWords) [(0, .min)] =
        .ok [⟨.binary, some (.canonical payload)⟩] ∧
      ¬ RightExtreme .min (columnValues 0 [twoWords]) (some (.canonical payload))) ∧
    (∃ data, Holds swappedIds data ∧ ∃ payload,
      exactUnfilteredAggregateSynopses asciiText swappedIds [(0, .min)] =
        .ok [⟨.int64, some (.canonical payload)⟩] ∧
      ¬ RightExtreme .min (columnValues 0 data) (some (.canonical payload))) ∧
    Holds (oneFile oneText) [oneText] ∧ FileCodes [oneText] 0 ∧ ∃ groups,
      exactFilecodeGroupCounts (oneFile oneText) 0 = .ok groups ∧
      ¬ RightGroups (columnValues 0 [oneText]) groups := by
  refine ⟨⟨twoWords_holds, [1, 98], by decide +kernel, ?_⟩,
    ⟨_, swappedIds_holds, leBytes 8 5, by decide +kernel, ?_⟩, oneText_holds, oneText_codes,
    [([1, 97], 1), ([1, 98], 0)], by decide +kernel, ?_⟩
  · rintro ⟨value, hpayload, hvalue, hfirst⟩
    have hvalues : columnValues 0 [twoWords] = [binary [97, 97], binary [98]] := by decide +kernel
    rw [hvalues] at hvalue hfirst
    rcases mem_cons.mp hvalue with rfl | hvalue
    · cases hpayload
    · obtain rfl := mem_singleton.mp hvalue
      have hbefore : orderKey (binary [98]) ≤ orderKey (binary [97, 97]) :=
        hfirst (binary [97, 97]) mem_cons_self
      revert hbefore
      decide +kernel
  · rintro ⟨value, hpayload, hvalue, hfirst⟩
    have hvalues : columnValues 0 [twoNumbers 10 11 5 100, twoNumbers 11 10 1 100] =
        [int64 5, int64 1] := by decide +kernel
    rw [hvalues] at hvalue hfirst
    rcases mem_cons.mp hvalue with rfl | hvalue
    · have hbefore : orderKey (int64 5) ≤ orderKey (int64 1) :=
        hfirst (int64 1) (mem_cons_of_mem _ mem_cons_self)
      revert hbefore
      decide +kernel
    · obtain rfl := mem_singleton.mp hvalue
      cases hpayload
  · intro hright
    exact absurd ((hright.groups [1, 98] 0).mp (by simp)).1 (Nat.lt_irrefl 0)

def numberAndText (n : Nat) (code : UInt32) : FileData :=
  smallFile [⟨10, .int64, .numCode⟩, ⟨11, .utf8, .fileCode⟩]
    [⟨0, 0, 0, fun i => if i = 0 then .value (int64 n) else .fileCode code⟩]
    [⟨[entryOf 0 10 .minMax, entryOf 0 11 .fileCodeHistogram],
      [.minMax (some (int64 n)) (some (int64 n)), .fileCodeHistogram [⟨code.toUInt64, 1⟩]]⟩]
    none (some (dictionaryOf (text [97]) (text [98]) (by decide)))

theorem numberAndText_truthful (n : Nat) {code : UInt32} (hcode : code = 0 ∨ code = 1) :
    Truthful (numberAndText n code) := by
  refine truthful_of_zip fun synopsis hsynopsis item hitem c hc hid => ?_
  rw [mem_singleton.mp hsynopsis] at hitem
  rcases mem_cons.mp hitem with rfl | hitem
  · rcases mem_cons.mp hc with rfl | hc
    · exact describes_one rfl rfl rfl rfl
    · obtain rfl := mem_singleton.mp hc
      cases hid
  · obtain rfl := mem_singleton.mp hitem
    rcases mem_cons.mp hc with rfl | hc
    · cases hid
    · obtain rfl := mem_singleton.mp hc
      refine ⟨rfl, by rcases hcode with rfl | rfl <;> rfl, ?_, fun other => ?_⟩
      · intro bucket hbucket
        obtain rfl := mem_singleton.mp hbucket
        rcases hcode with rfl | rfl <;> decide
      · by_cases hother : other = code
        · subst hother
          simp [rowsWithCode, scopeRows, numberAndText, smallFile, inScope, entryOf]
        · have hne : ¬ code.toNat = other.toNat := fun h => hother (UInt32.toNat_inj.mp h.symm)
          have hcell : ¬ code = other := fun h => hother h.symm
          simp [rowsWithCode, scopeRows, numberAndText, smallFile, inScope, entryOf, hne, hcell]

theorem numberAndText_wellFormed (n : Nat) {code : UInt32} (hcode : code = 0 ∨ code = 1) :
    WellFormed (numberAndText n code) := by
  refine ⟨rfl, fun i column hcolumn row hrow value hvalue => ?_⟩
  obtain rfl := mem_singleton.mp hrow
  rcases i with _ | _ | i
  · cases hcolumn
    cases hvalue
    exact .inr rfl
  · cases hcolumn
    rcases hcode with rfl | rfl
    all_goals
      cases hvalue
      exact .inr rfl
  · cases hcolumn

def numbersAndTexts : DatasetState :=
  ⟨(numberAndText 5 0).file, [(numberAndText 3 1).file], fun file hfile => by
    rw [List.mem_singleton.mp hfile]
    rfl⟩

theorem numbersAndTexts_holds :
    Holds numbersAndTexts [numberAndText 5 0, numberAndText 3 1] := by
  refine ⟨rfl, fun d hd => ?_, fun d hd => ?_⟩
  · rcases mem_cons.mp hd with rfl | hd
    · exact numberAndText_truthful 5 (by decide)
    · rw [mem_singleton.mp hd]
      exact numberAndText_truthful 3 (by decide)
  · rcases mem_cons.mp hd with rfl | hd
    · exact numberAndText_wellFormed _ (by decide)
    · rw [mem_singleton.mp hd]
      exact numberAndText_wellFormed _ (by decide)

theorem numbersAndTexts_codes : FileCodes [numberAndText 5 0, numberAndText 3 1] 1 := by
  constructor
  · intro d hd
    rcases mem_cons.mp hd with rfl | hd
    · refine ⟨nodup_singleton _, fun row hrow => .inr ?_⟩
      obtain rfl := mem_singleton.mp hrow
      exact ⟨0, _, _, rfl, rfl, rfl⟩
    · obtain rfl := mem_singleton.mp hd
      refine ⟨nodup_singleton _, fun row hrow => .inr ?_⟩
      obtain rfl := mem_singleton.mp hrow
      exact ⟨1, _, _, rfl, rfl, rfl⟩
  · intro d hd column _ index hindex
    rcases mem_cons.mp hd with rfl | hd
    · cases hindex
    · obtain rfl := mem_singleton.mp hd
      cases hindex

/-- Of the rows 5, a and 3, b in two files: the least number, the rows with a, and the groups. -/
theorem numbersAndTexts_plans :
    RightValue numbersAndTexts [numberAndText 5 0, numberAndText 3 1] (0, .min)
      ⟨.int64, some (.canonical (leBytes 8 3))⟩ ∧
    [1] = [((List.map (fun d => (d.rows.filter
      (matchesKeys d.file 1 [canonicalKey (text [97])])).length)
        [numberAndText 5 0, numberAndText 3 1]).sum)] ∧
    RightGroups (columnValues 1 [numberAndText 5 0, numberAndText 3 1])
      [([1, 97], 1), ([1, 98], 1)] := by
  obtain ⟨hvalues, hcount, hgroups⟩ :=
    @metadata_aggregates_iff asciiText _ _ numbersAndTexts_holds
  have hused : Used [numberAndText 5 0, numberAndText 3 1] 10 .minMax
      [[(entryOf 0 10 .minMax, .minMax (some (int64 5)) (some (int64 5)))],
        [(entryOf 0 10 .minMax, .minMax (some (int64 3)) (some (int64 3)))]] :=
    .cons (by decide +kernel) (.cons (by decide +kernel) .nil)
  have hids : IdsAgree numbersAndTexts 0 := by
    intro file hfile column hcolumn own hown
    rcases mem_cons.mp hfile with rfl | hfile
    · exact congrArg Column.columnId (some.inj (hown.symm.trans hcolumn))
    · rw [mem_singleton.mp hfile] at hown
      exact congrArg Column.columnId (some.inj (hown.symm.trans hcolumn))
  refine ⟨?_, hcount 1 _ _ numbersAndTexts_codes (by decide +kernel),
    (hgroups 1 _ numbersAndTexts_codes (by decide +kernel)).1.mpr ?_⟩
  · refine (forall₂_cons.mp ((hvalues [(0, .min)] [⟨.int64, some (.canonical (leBytes 8 3))⟩]
      (fun request hrequest => mem_singleton.mp hrequest ▸ hids) (by decide +kernel)).mpr ?_)).1
    intro request hrequest _ column hcolumn itemss hitemss
    obtain rfl := mem_singleton.mp hrequest
    cases hcolumn
    obtain rfl := used_unique hused hitemss
    refine .inr ⟨int64 3, mem_cons_of_mem _ mem_cons_self, fun other hother => ?_⟩
    rcases mem_cons.mp hother with rfl | hother
    · have hread : readKey (int64 3) ≤ readKey (int64 5) := by decide +kernel
      have horder : orderKey (int64 3) ≤ orderKey (int64 5) := by decide +kernel
      exact ⟨hread, horder⟩
    · obtain rfl := mem_singleton.mp hother
      exact ⟨Before.refl _, Before.refl _⟩
  · intro hnone
    have hfirst : exactFilecodeHistogramGroupCounts numbersAndTexts 1 =
        .ok [([1, 97], 1), ([1, 98], 1)] := by decide +kernel
    rw [hfirst] at hnone
    cases hnone

end CoveFormat.MetadataPlans
