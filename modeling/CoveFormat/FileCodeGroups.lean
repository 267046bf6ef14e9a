import CoveFormat.FileCodeCounts
import Mathlib.Data.List.Dedup

namespace CoveFormat.FileCodeGroups

open AggregateCoverage AggregateSynopses AggregateValues ByteCodes CheckedArith ExceptRules
  FileCodeCounts MetadataAggregates List
open MorselScan (LookupIndex LookupEntry RowRef)

variable {dictionary : FileDictionary} {d : FileData} {i : Nat}

section

variable {κ : Type} [LinearOrder κ] {value : κ} {count : Nat} {groups next : List (κ × Nat)}

def groupCount (p : κ) (groups : List (κ × Nat)) : Nat :=
  ((groups.filter fun g => g.1 = p).map Prod.snd).sum

def Sorted (groups : List (κ × Nat)) : Prop := (groups.map Prod.fst).Pairwise (· < ·)

theorem groupCount_cons (p : κ) (g : κ × Nat) (groups : List (κ × Nat)) :
    groupCount p (g :: groups) = (if g.1 = p then g.2 else 0) + groupCount p groups := by
  rw [groupCount, groupCount]
  by_cases h : g.1 = p
  · rw [filter_cons_of_pos (by simpa using h), if_pos h, map_cons, sum_cons]
  · rw [filter_cons_of_neg (by simpa using h), if_neg h, Nat.zero_add]

theorem addToGroup_cases {v : κ} {n : Nat} (h : addToGroup value count ((v, n) :: groups) = .ok next) :
    (value < v ∧ next = (value, count) :: (v, n) :: groups) ∨
      (value = v ∧ next = (v, n + count) :: groups) ∨
      (v < value ∧ ∃ rest, addToGroup value count groups = .ok rest ∧ next = (v, n) :: rest) := by
  rw [addToGroup] at h
  rcases lt_trichotomy value v with hlt | heq | hgt
  · rw [if_pos hlt] at h
    obtain ⟨sum, hsum, h⟩ := of_andThen h
    obtain ⟨-, rfl⟩ := checkedAdd_ok_iff.mp (attempt_ok.mp hsum)
    rw [Nat.zero_add] at h
    exact .inl ⟨hlt, (Except.ok.inj h).symm⟩
  · rw [if_neg heq.not_lt, if_pos heq] at h
    obtain ⟨sum, hsum, h⟩ := of_andThen h
    obtain ⟨-, rfl⟩ := checkedAdd_ok_iff.mp (attempt_ok.mp hsum)
    exact .inr (.inl ⟨heq, (Except.ok.inj h).symm⟩)
  · rw [if_neg hgt.not_gt, if_neg hgt.ne'] at h
    obtain ⟨rest, hrest, h⟩ := of_andThen h
    exact .inr (.inr ⟨hgt, rest, hrest, (Except.ok.inj h).symm⟩)

theorem addToGroup_nil (h : addToGroup value count [] = .ok next) : next = [(value, count)] := by
  obtain ⟨sum, hsum, h⟩ := of_andThen h
  obtain ⟨-, rfl⟩ := checkedAdd_ok_iff.mp (attempt_ok.mp hsum)
  rw [Nat.zero_add] at h
  exact (Except.ok.inj h).symm

section

variable (h : addToGroup value count groups = .ok next)
include h

theorem groupCount_add (p : κ) :
    groupCount p next = groupCount p groups + if value = p then count else 0 := by
  induction groups generalizing next with
  | nil =>
    rw [addToGroup_nil h, groupCount_cons]
    exact Nat.add_comm _ _
  | cons g groups ih =>
    rcases addToGroup_cases h with ⟨-, rfl⟩ | ⟨rfl, rfl⟩ | ⟨-, rest, hrest, rfl⟩
    · rw [groupCount_cons]
      exact Nat.add_comm _ _
    · rw [groupCount_cons, groupCount_cons]
      split <;> omega
    · rw [groupCount_cons, groupCount_cons, ih hrest, Nat.add_assoc]

theorem mem_keys_add (p : κ) : p ∈ next.map Prod.fst ↔ p = value ∨ p ∈ groups.map Prod.fst := by
  induction groups generalizing next with
  | nil =>
    rw [addToGroup_nil h]
    simp
  | cons g groups ih =>
    rcases addToGroup_cases h with ⟨-, rfl⟩ | ⟨rfl, rfl⟩ | ⟨-, rest, hrest, rfl⟩
    · simp
    · simp
    · rw [map_cons, map_cons, mem_cons, mem_cons, ih hrest]
      exact or_left_comm

theorem sorted_add (hsorted : Sorted groups) : Sorted next := by
  induction groups generalizing next with
  | nil =>
    rw [addToGroup_nil h]
    exact pairwise_singleton _ _
  | cons g groups ih =>
    obtain ⟨hfirst, hrest⟩ := pairwise_cons.mp hsorted
    rcases addToGroup_cases h with ⟨hlt, rfl⟩ | ⟨-, rfl⟩ | ⟨hlt, rest, hadd, rfl⟩
    · refine pairwise_cons.mpr ⟨fun p hp => ?_, hsorted⟩
      rcases mem_cons.mp hp with rfl | hp
      · exact hlt
      · exact hlt.trans (hfirst p hp)
    · exact hsorted
    · refine pairwise_cons.mpr ⟨fun p hp => ?_, ih hadd hrest⟩
      rcases (mem_keys_add hadd p).mp hp with rfl | hp
      · exact hlt
      · exact hfirst p hp

theorem positive_add (hcount : 0 < count) (hpositive : ∀ g ∈ groups, 0 < g.2) : ∀ g ∈ next, 0 < g.2 := by
  induction groups generalizing next with
  | nil =>
    rw [addToGroup_nil h]
    exact fun g hg => mem_singleton.mp hg ▸ hcount
  | cons g groups ih =>
    obtain ⟨hfirst, hrest⟩ := forall_mem_cons.mp hpositive
    rcases addToGroup_cases h with ⟨-, rfl⟩ | ⟨-, rfl⟩ | ⟨-, rest, hadd, rfl⟩
    · exact forall_mem_cons.mpr ⟨hcount, hpositive⟩
    · exact forall_mem_cons.mpr ⟨Nat.add_pos_left hfirst _, hrest⟩
    · exact forall_mem_cons.mpr ⟨hfirst, ih hadd hrest⟩

end

theorem groupCount_eq (hsorted : Sorted groups) {g : κ × Nat} (hg : g ∈ groups) :
    groupCount g.1 groups = g.2 := by
  induction groups with
  | nil => cases hg
  | cons first groups ih =>
    obtain ⟨hfirst, hrest⟩ := pairwise_cons.mp hsorted
    have hnone : ∀ p, p ∉ groups.map Prod.fst → groupCount p groups = 0 := by
      intro p hp
      have hfilter : groups.filter (fun g => g.1 = p) = [] := by
        refine filter_eq_nil_iff.mpr fun other hother heq => ?_
        exact hp (of_decide_eq_true heq ▸ mem_map_of_mem hother)
      rw [groupCount, hfilter]
      rfl
    rw [groupCount_cons]
    rcases mem_cons.mp hg with rfl | hg
    · rw [if_pos rfl, hnone _ (fun hin => lt_irrefl _ (hfirst _ hin)), Nat.add_zero]
    · rw [if_neg (hfirst _ (mem_map_of_mem hg)).ne, Nat.zero_add, ih hrest hg]

theorem mem_keys_of_count {p : κ} (h : 0 < groupCount p groups) : p ∈ groups.map Prod.fst := by
  by_contra hnot
  have hfilter : groups.filter (fun g => g.1 = p) = [] := by
    refine filter_eq_nil_iff.mpr fun other hother heq => ?_
    exact hnot (of_decide_eq_true heq ▸ mem_map_of_mem hother)
  rw [groupCount, hfilter] at h
  exact absurd h (Nat.lt_irrefl 0)

end

/-! The values of a column, counted by their payloads. -/

def payloadCount (p : Bytes) (values : List TaggedCanonicalValue) : Nat :=
  (values.filter fun value => value.payload = p).length

/-- The map counts the values that were seen. -/
structure Grouped (seen : List TaggedCanonicalValue) (groups : Groups) : Prop where
  sorted : Sorted groups
  counts : ∀ p, groupCount p groups = payloadCount p seen

/-- One group for each value that occurs, in order and with the number of its rows. -/
structure RightGroups (values : List TaggedCanonicalValue) (groups : Groups) : Prop where
  sorted : Sorted groups
  groups : ∀ p n, (p, n) ∈ groups ↔ 0 < n ∧ payloadCount p values = n

variable {values : List TaggedCanonicalValue} {groups : Groups}

theorem Grouped.right_iff (h : Grouped values groups) :
    RightGroups values groups ↔ ∀ g ∈ groups, 0 < g.2 := by
  constructor
  · intro hright g hg
    exact ((hright.groups g.1 g.2).mp hg).1
  · intro hpositive
    refine ⟨h.sorted, fun p n => ⟨fun hg => ⟨hpositive _ hg, ?_⟩, ?_⟩⟩
    · rw [← h.counts]
      exact groupCount_eq h.sorted hg
    · rintro ⟨hn, rfl⟩
      rw [← h.counts] at hn ⊢
      obtain ⟨g, hg, rfl⟩ := mem_map.mp (mem_keys_of_count hn)
      rw [groupCount_eq h.sorted hg]
      exact hg

theorem Grouped.nil : Grouped [] [] := ⟨.nil, fun _ => rfl⟩

theorem payloadCount_append (p : Bytes) (as bs : List TaggedCanonicalValue) :
    payloadCount p (as ++ bs) = payloadCount p as + payloadCount p bs := by
  rw [payloadCount, filter_append, length_append]
  rfl

theorem payloadCount_pos {p : Bytes} :
    0 < payloadCount p values ↔ ∃ value ∈ values, value.payload = p := by
  rw [payloadCount, length_pos_iff_exists_mem]
  simp only [mem_filter, decide_eq_true_eq]

theorem Grouped.perm {as bs : List TaggedCanonicalValue} (h : Grouped as groups)
    (hperm : as.Perm bs) : Grouped bs groups :=
  ⟨h.sorted, fun p => (h.counts p).trans (hperm.filter _).length_eq⟩

/-- Each code adds its count to the group of the value that it stands for. -/
def GroupRun (dictionary : FileDictionary) : List (Nat × Nat) → Groups → Groups → Prop
  | [], s, t => s = t
  | posted :: rest, s, t => ∃ value next, dictionary.entries[posted.1]? = some (some value) ∧
      addToGroup value.payload posted.2 s = .ok next ∧ GroupRun dictionary rest next t

def hasPayload (dictionary : FileDictionary) (p : Bytes) (code : Nat) : Bool :=
  dictionary.entries[code]?.join.any fun value => value.payload = p

section

variable {posted : List (Nat × Nat)} {s t : Groups}

variable {code : Nat}

theorem hasPayload_of_entry {value : TaggedCanonicalValue} (p : Bytes)
    (h : dictionary.entries[code]? = some (some value)) :
    hasPayload dictionary p code = decide (value.payload = p) := by
  rw [hasPayload, h]
  rfl

section

variable (h : GroupRun dictionary posted s t)
include h

theorem run_counts (p : Bytes) : groupCount p t =
    groupCount p s + ((posted.filter fun b => hasPayload dictionary p b.1).map Prod.snd).sum := by
  induction posted generalizing s with
  | nil =>
    obtain rfl : s = t := h
    rfl
  | cons b posted ih =>
    obtain ⟨value, next, hvalue, hadd, hrest⟩ := h
    have hcode := hasPayload_of_entry p hvalue
    rw [ih hrest, groupCount_add hadd]
    by_cases hp : value.payload = p
    · rw [if_pos hp, filter_cons_of_pos (by simpa [hcode] using hp), map_cons,
        sum_cons, Nat.add_assoc]
    · rw [if_neg hp, filter_cons_of_neg (by simpa [hcode] using hp), Nat.add_zero]

theorem run_keys (p : Bytes) : p ∈ t.map Prod.fst ↔
    p ∈ s.map Prod.fst ∨ ∃ b ∈ posted, hasPayload dictionary p b.1 := by
  induction posted generalizing s with
  | nil =>
    obtain rfl : s = t := h
    simp
  | cons b posted ih =>
    obtain ⟨value, next, hvalue, hadd, hrest⟩ := h
    rw [ih hrest, mem_keys_add hadd, exists_mem_cons_iff, hasPayload_of_entry p hvalue,
      decide_eq_true_eq, or_comm (b := p ∈ s.map Prod.fst), or_assoc, eq_comm]

theorem run_sorted (hs : Sorted s) : Sorted t := by
  induction posted generalizing s with
  | nil =>
    obtain rfl : s = t := h
    exact hs
  | cons b posted ih =>
    obtain ⟨value, next, -, hadd, hrest⟩ := h
    exact ih hrest (sorted_add hadd hs)

theorem run_positive (hposted : ∀ b ∈ posted, 0 < b.2) (hs : ∀ g ∈ s, 0 < g.2) : ∀ g ∈ t, 0 < g.2 := by
  induction posted generalizing s with
  | nil =>
    obtain rfl : s = t := h
    exact hs
  | cons b posted ih =>
    obtain ⟨value, next, -, hadd, hrest⟩ := h
    obtain ⟨hfirst, hlater⟩ := forall_mem_cons.mp hposted
    exact ih hrest hlater (positive_add hadd hfirst hs)

end

def payloadCodes (dictionary : FileDictionary) (p : Bytes) : List UInt32 :=
  ((range dictionary.entries.length).filter (hasPayload dictionary p)).map UInt32.ofNat

variable {p : Bytes}

theorem code_bounded (h : hasPayload dictionary p code) : code < dictionary.entries.length := by
  by_contra hnot
  rw [hasPayload, List.getElem?_eq_none (Nat.le_of_not_lt hnot)] at h
  cases h

theorem mem_payloadCodes {code : UInt32} :
    code ∈ payloadCodes dictionary p ↔ hasPayload dictionary p code.toNat := by
  have hbound := dictionary.bounded
  rw [payloadCodes, mem_map]
  constructor
  · rintro ⟨n, hn, rfl⟩
    obtain ⟨hrange, hpayload⟩ := mem_filter.mp hn
    have hlt := mem_range.mp hrange
    rwa [UInt32.toNat_ofNat', Nat.mod_eq_of_lt (by omega)]
  · intro h
    exact ⟨code.toNat, mem_filter.mpr ⟨mem_range.mpr (code_bounded h), h⟩, UInt32.ofNat_toNat⟩

theorem payloadCodes_nodup (p : Bytes) : (payloadCodes dictionary p).Nodup := by
  have hbound := dictionary.bounded
  refine List.Nodup.map_on ?_ (nodup_range.filter _)
  intro a ha b hb h
  have ha := mem_range.mp (mem_filter.mp ha).1
  have hb := mem_range.mp (mem_filter.mp hb).1
  have hnat := congrArg UInt32.toNat h
  rwa [UInt32.toNat_ofNat', UInt32.toNat_ofNat', Nat.mod_eq_of_lt (by omega),
    Nat.mod_eq_of_lt (by omega)] at hnat

theorem any_payloadCodes (p : Bytes) (n : Nat) :
    ((payloadCodes dictionary p).any fun code => n = code.toNat) = hasPayload dictionary p n := by
  rw [Bool.eq_iff_iff, any_eq_true]
  constructor
  · rintro ⟨code, hcode, hn⟩
    rw [show n = code.toNat from of_decide_eq_true hn]
    exact mem_payloadCodes.mp hcode
  · intro h
    have hlt := code_bounded h
    have hbound := dictionary.bounded
    have hnat : (UInt32.ofNat n).toNat = n := by
      rw [UInt32.toNat_ofNat', Nat.mod_eq_of_lt (by omega)]
    exact ⟨UInt32.ofNat n, mem_payloadCodes.mpr (hnat.symm ▸ h), by simp [hnat]⟩

theorem length_filter_filterMap {α β : Type} (f : α → Option β) (q : β → Bool) (xs : List α) :
    ((xs.filterMap f).filter q).length = (xs.filter fun x => (f x).any q).length := by
  induction xs with
  | nil => rfl
  | cons x xs ih =>
    cases hx : f x with
    | none =>
      rw [filterMap_cons_none hx, ih, filter_cons_of_neg (by simp [hx])]
    | some b =>
      rw [filterMap_cons_some hx]
      by_cases hb : q b
      · rw [filter_cons_of_pos hb, filter_cons_of_pos (by simpa [hx] using hb),
          length_cons, length_cons, ih]
      · rw [filter_cons_of_neg hb, filter_cons_of_neg (by simpa [hx] using hb), ih]

theorem hasCode_payload (hcoded : Coded d i) (hdictionary : d.file.dictionary = some dictionary)
    {row : DataRow} (hrow : row ∈ d.rows) (p : Bytes) : hasCode i (payloadCodes dictionary p) row =
      (valueAt d.file i row).any fun value => value.payload = p := by
  rw [hasCode, valueAt, Bool.eq_iff_iff, any_eq_true]
  rcases hcoded.coded row hrow with hnull | ⟨code, other, value, hcell, hother, hvalue⟩
  · simp [hnull]
  · obtain rfl := Option.some.inj (hdictionary.symm.trans hother)
    simp only [hcell, hdictionary, hvalue, Option.bind_some, Option.join_some, Option.any_some,
      decide_eq_true_eq, Cell.fileCode.injEq]
    rw [← decide_eq_true_eq (p := value.payload = p), ← hasPayload_of_entry p hvalue,
      ← mem_payloadCodes]
    constructor
    · rintro ⟨c, hc, rfl⟩
      exact hc
    · exact fun hc => ⟨code, hc, rfl⟩

theorem run_grouped (h : GroupRun dictionary posted s t) (hcoded : Coded d i)
    (hdictionary : d.file.dictionary = some dictionary) {rows : List DataRow}
    (hrows : ∀ row ∈ rows, row ∈ d.rows)
    (hposted : ∀ code : UInt32, ((posted.filter fun b => b.1 = code.toNat).map Prod.snd).sum =
      (rowsWithCode i code rows).length) {seen : List TaggedCanonicalValue} (hs : Grouped seen s) :
    Grouped (seen ++ rows.filterMap (valueAt d.file i)) t := by
  refine ⟨run_sorted h hs.sorted, fun p => ?_⟩
  have hcount := count_codes (@payloadCodes_nodup dictionary p) hposted
  simp only [any_payloadCodes] at hcount
  rw [run_counts h, hs.counts, payloadCount_append, hcount]
  rw [filter_congr fun row hrow => hasCode_payload hcoded hdictionary (hrows row hrow) p]
  rw [← length_filter_filterMap]
  rfl

end

/-! The two ways to the groups of a file. -/

section

variable {groups last : Groups}

theorem entry_of_decodeValue {key : Nat} {value : Option TaggedCanonicalValue}
    (hlt : ¬ 2 ^ 32 ≤ key)
    (h : attempt (dictionary.decodeValue (UInt32.ofNat key)) = .ok value) :
    dictionary.entries[key]? = some value := by
  have hdecode := attempt_ok.mp h
  rw [FileDictionary.decodeValue, UInt32.toNat_ofNat', Nat.mod_eq_of_lt (Nat.lt_of_not_le hlt)]
    at hdecode
  split at hdecode
  · cases hdecode
  · rename_i found hfound
    rw [hfound, Except.ok.inj hdecode]

theorem addBucket_ok {bucket : HistogramBucket} (h : addBucket dictionary groups bucket = .ok last) :
    ∃ value, dictionary.entries[bucket.key.toNat]? = some (some value) ∧
      addToGroup value.payload bucket.count.toNat groups = .ok last := by
  obtain ⟨⟨⟩, hbound, h⟩ := of_andThen h
  obtain ⟨value, hvalue, h⟩ := of_andThen h
  have hfound := entry_of_decodeValue (of_rejectIf hbound) hvalue
  cases value with
  | none => cases h
  | some value => exact ⟨value, hfound, h⟩

theorem buckets_run {buckets : List HistogramBucket}
    (h : buckets.foldlM (addBucket dictionary) groups = .ok last) :
    GroupRun dictionary (buckets.map fun b => (b.key.toNat, b.count.toNat)) groups last := by
  induction buckets generalizing groups with
  | nil => exact Except.ok.inj h
  | cons bucket buckets ih =>
    obtain ⟨next, hnext, h⟩ := of_andThen h
    obtain ⟨value, hvalue, hadd⟩ := addBucket_ok hnext
    exact ⟨value, next, hvalue, hadd, ih h⟩

variable {s t : Totals Groups}

theorem histogramGroupStep_ok {item : Item} (h : histogramGroupStep dictionary s item = .ok t) : ∃ buckets,
      item.2 = .fileCodeHistogram buckets ∧ t.coveredRows = s.coveredRows + item.1.rowCount.toNat ∧
        t.nonNullRows = s.nonNullRows + item.1.nullCount.toNat ∧
        GroupRun dictionary (buckets.map fun b => (b.key.toNat, b.count.toNat)) s.acc t.acc := by
  obtain ⟨covered, hcovered, h⟩ := of_andThen h
  obtain ⟨nulls, hnulls, h⟩ := of_andThen h
  obtain ⟨-, rfl⟩ := checkedAdd_ok_iff.mp (attempt_ok.mp hcovered)
  obtain ⟨-, rfl⟩ := checkedAdd_ok_iff.mp (attempt_ok.mp hnulls)
  cases hpayload : item.2 with
  | fileCodeHistogram buckets =>
    rw [hpayload] at h
    obtain ⟨acc, hacc, h⟩ := of_andThen h
    cases h
    exact ⟨buckets, rfl, rfl, rfl, buckets_run hacc⟩
  | _ =>
    rw [hpayload] at h
    cases h

variable {logical : CoveTypes.CoveLogicalType} {items : List Item}

theorem histogramGroup_run (hcoded : Coded d i) (hdictionary : d.file.dictionary = some dictionary)
    (hdescribes : ∀ item ∈ items, Describes d i logical item)
    (h : items.foldlM (histogramGroupStep dictionary) s = .ok t) {seen : List TaggedCanonicalValue}
    (hs : Grouped seen s.acc) (hpositive : ∀ g ∈ s.acc, 0 < g.2) :
    t.coveredRows = s.coveredRows + (items.map fun item => item.1.rowCount.toNat).sum ∧
      t.nonNullRows = s.nonNullRows + (items.map fun item => item.1.nullCount.toNat).sum ∧
      Grouped (seen ++ (coveredBy d items).filterMap (valueAt d.file i)) t.acc ∧
      ∀ g ∈ t.acc, 0 < g.2 := by
  induction items generalizing s seen with
  | nil =>
    cases h
    refine ⟨rfl, rfl, ?_, hpositive⟩
    rwa [show coveredBy d [] = [] from rfl, filterMap_nil, append_nil]
  | cons item items ih =>
    obtain ⟨hfirst, hrest⟩ := forall_mem_cons.mp hdescribes
    obtain ⟨next, hnext, h⟩ := of_andThen h
    obtain ⟨buckets, hpayload, hrows, hnulls, hrun⟩ := histogramGroupStep_ok hnext
    have hdescribe := hfirst.payload
    rw [hpayload] at hdescribe
    obtain ⟨hbuckets, hcounts⟩ := hdescribe
    have hgrouped := run_grouped hrun hcoded hdictionary
      (fun row hrow => (mem_filter.mp hrow).1) (fun code => by
        rw [filter_map, map_map]
        exact hcounts code) hs
    have hnext := run_positive hrun (fun b hb => by
        obtain ⟨bucket, hbucket, rfl⟩ := mem_map.mp hb
        have hne := (hbuckets bucket hbucket).2
        exact Nat.pos_of_ne_zero fun hzero => hne (UInt64.toNat_inj.mp hzero)) hpositive
    obtain ⟨hcovered, hnull, hlast, hall⟩ := ih hrest h hgrouped hnext
    refine ⟨?_, ?_, ?_, hall⟩
    · rw [hcovered, hrows, map_cons, sum_cons, Nat.add_assoc]
    · rw [hnull, hnulls, map_cons, sum_cons, Nat.add_assoc]
    · have hcons : coveredBy d (item :: items) = scopeRows d item.1 ++ coveredBy d items := rfl
      rwa [hcons, filterMap_append, ← append_assoc]

theorem no_nulls (hdescribes : ∀ item ∈ items, Describes d i logical item)
    (hnulls : (items.map fun item => item.1.nullCount.toNat).sum = 0) :
    ((coveredBy d items).filterMap (valueAt d.file i)).length = (coveredBy d items).length := by
  rw [coveredBy, List.filterMap_flatMap, List.length_flatMap, List.length_flatMap]
  refine congrArg List.sum (List.map_congr_left fun item hitem => ?_)
  have hzero := List.sum_eq_zero_iff_forall_eq_nat.mp hnulls _ (List.mem_map_of_mem hitem)
  have hrows := (hdescribes item hitem).nulls
  rw [hzero, Nat.zero_add] at hrows
  exact hrows

/-- What the groups of some files are: all values counted, no row null. -/
structure Counted (i : Nat) (data : List FileData) (groups : Groups) : Prop where
  grouped : Grouped (columnValues i data) groups
  full : ∀ d ∈ data, (d.rows.filterMap (valueAt d.file i)).length = d.rows.length

variable {done : List FileData}

theorem Counted.snoc (hdone : Counted i done groups)
    (hgrouped : Grouped (columnValues i done ++ d.rows.filterMap (valueAt d.file i)) last)
    (hfull : (d.rows.filterMap (valueAt d.file i)).length = d.rows.length) :
    Counted i (done ++ [d]) last := by
  constructor
  · rw [columnValues, flatMap_append, flatMap_singleton]
    exact hgrouped
  · intro other hother
    rcases mem_append.mp hother with hin | hin
    · exact hdone.full other hin
    · rw [mem_singleton.mp hin]
      exact hfull

theorem histogramGroupFile_ok (htruthful : Truthful d) (hwell : WellFormed d) (hcoded : Coded d i)
    (h : histogramGroupFile i groups d.file = .ok last) (hdone : Counted i done groups)
    (hpositive : ∀ g ∈ groups, 0 < g.2) : Counted i (done ++ [d]) last ∧ ∀ g ∈ last, 0 < g.2 := by
  rw [histogramGroupFile] at h
  split at h
  · cases h
  · rename_i column hcolumn
    split at h
    · cases h
    · rename_i dictionary hdictionary
      obtain ⟨t, ht, h⟩ := of_andThen h
      obtain ⟨hguard, h⟩ := of_reject h
      cases h
      obtain ⟨hcovered, hnulls⟩ := not_or.mp hguard
      obtain ⟨items, hitems, -, hfold⟩ := foldFile_ok ht
      have hdescribes := file_describes htruthful hcolumn hitems
      obtain ⟨hrows, hnull, hgrouped, hall⟩ :=
        histogramGroup_run hcoded hdictionary hdescribes hfold hdone.grouped hpositive
      rw [Nat.zero_add] at hrows hnull
      have hperm := file_covered hwell hitems hdescribes (hrows.symm.trans (not_not.mp hcovered))
      have hvalues := hperm.filterMap (valueAt d.file i)
      have hfull := no_nulls hdescribes (hnull.symm.trans (not_not.mp hnulls))
      rw [hvalues.length_eq, hperm.length_eq] at hfull
      exact ⟨hdone.snoc (hgrouped.perm (hvalues.append_left _)) hfull, hall⟩

end

end CoveFormat.FileCodeGroups
