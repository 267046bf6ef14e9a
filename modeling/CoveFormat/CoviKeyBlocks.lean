import CoveFormat.CoviAnswerBlocks
import CoveFormat.CoviScans

namespace CoveFormat.CoviKeyBlocks

open AppendedRanges ByteCodes Canonical CheckedArith CoviAnswers CoviBuildRuns CoviBuilds
  CoviIntegers ExceptRules List Option OrderedMaps SortedKeys
open CoviPostings hiding normalizeRowRanges
open ScopedRanges (ScopedRange Sorted)

section

variable {P : TextPredicates} {t : IntegerType} {item : KeyRanges} {items out : List KeyRanges}
  {indexKind : CoviComparators.CoviIndexKindV2} {comparatorKind : CoviComparators.CoviComparatorKindV2}

theorem insertItem_perm (h : insertItem P t comparatorKind item items = .ok out) :
    out.Perm (item :: items) := by
  induction items generalizing out with
  | nil =>
    cases h
    exact .refl _
  | cons other others ih =>
    obtain ⟨ordering, -, h⟩ := of_andThen h
    split at h
    · cases h
      exact .refl _
    · obtain ⟨rest, hrest, rfl⟩ := map_eq_ok_iff.mp h
      exact ((ih hrest).cons other).trans (.swap item other others)

variable {before : List KeyRanges}

theorem insertItems_perm
    (h : items.foldlM (fun sorted item => insertItem P t comparatorKind item sorted) before = .ok out) :
    out.Perm (items ++ before) := by
  induction items generalizing before with
  | nil =>
    cases h
    exact .refl _
  | cons item items ih =>
    obtain ⟨next, hnext, h⟩ := of_andThen h
    exact (ih h).trans (((insertItem_perm hnext).append_left items).trans List.perm_middle)

theorem orderKeyItems_perm (h : orderKeyItems P t indexKind comparatorKind items = .ok out) :
    out.Perm items := by
  rw [orderKeyItems] at h
  split at h
  · exact (insertItems_perm h).trans (.of_eq (append_nil _))
  · cases h
    exact .refl _

/-- Items under the keys of numbers. -/
def IntegerKeys (t : IntegerType) (items : List KeyRanges) : Prop :=
  ∀ item ∈ items, ∃ value, item.1 = keyOf t value

theorem IntegerKeys.perm (h : IntegerKeys t items) (hperm : out.Perm items) : IntegerKeys t out :=
  fun item hitem => h item (hperm.mem_iff.mp hitem)

theorem exists_insertItem (hitem : ∃ value, item.1 = keyOf t value) (h : IntegerKeys t items) :
    ∃ out, insertItem P t .canonicalOrdering item items = .ok out := by
  induction items with
  | nil => exact ⟨_, rfl⟩
  | cons other others ih =>
    obtain ⟨⟨value', hother⟩, hothers⟩ := forall_mem_cons.mp h
    obtain ⟨value, hvalue⟩ := hitem
    obtain ⟨ordering, hordering⟩ := exists_compare_keyOf (t := t) P value value'
    rw [insertItem, hvalue, hother, hordering]
    by_cases hlt : ordering = .lt
    · exact ⟨_, if_pos hlt⟩
    · obtain ⟨rest, hrest⟩ := ih hothers
      exact ⟨_, (if_neg hlt).trans (map_eq_ok_iff.mpr ⟨rest, hrest, rfl⟩)⟩

theorem exists_insertItems (hbefore : IntegerKeys t before) (h : IntegerKeys t items) :
    ∃ out, items.foldlM (fun sorted item => insertItem P t .canonicalOrdering item sorted) before =
      .ok out := by
  induction items generalizing before with
  | nil => exact ⟨before, rfl⟩
  | cons item items ih =>
    obtain ⟨hitem, hitems⟩ := forall_mem_cons.mp h
    obtain ⟨next, hnext⟩ := exists_insertItem (P := P) hitem hbefore
    obtain ⟨out, hout⟩ := ih (IntegerKeys.perm (forall_mem_cons.mpr ⟨hitem, hbefore⟩)
      (insertItem_perm hnext)) hitems
    exact ⟨out, andThen_ok hnext hout⟩

/-- Ordered by the values of their keys, or not at all. -/
def OrdersIntegers (params : BuildBlocksParams) : Prop :=
  params.comparatorKind = .canonicalOrdering ∨ (params.indexKind ≠ .sorted ∧ params.indexKind ≠ .sparseSorted)

theorem exists_orderKeyItems {params : BuildBlocksParams} (hparams : OrdersIntegers params)
    (h : IntegerKeys t items) :
    ∃ out, orderKeyItems P t params.indexKind params.comparatorKind items = .ok out := by
  rw [orderKeyItems]
  rcases hparams with hcanonical | ⟨hsorted, hsparse⟩
  · rw [hcanonical]
    split
    · exact exists_insertItems (forall_mem_nil _) h
    · exact ⟨items, rfl⟩
  · exact ⟨items, if_neg (by rintro (h | h) <;> contradiction)⟩

variable {ranges out : List CoviRowRangePostingV2}

theorem normalizeRowRanges_ok (h : normalizeRowRanges ranges = .ok out) :
    Appended (sortedRanges ranges) (out.map CoviRowRangePostingV2.range) :=
  appendRows_ok h

theorem exists_normalizeRowRanges (hends : ∀ row ∈ ranges, row.range.finish < 2 ^ 64)
    (hpos : ∀ row ∈ ranges, 0 < row.rowCount)
    (h : ((ranges.map CoviRowRangePostingV2.range).flatMap points).Nodup) :
    ∃ out, normalizeRowRanges ranges = .ok out := by
  have hperm := sortedRanges_perm ranges
  refine exists_appendRows (fun row hrow => hends row ((sortByKey_perm rowKey ranges).mem_iff.mp hrow)) ?_
  refine chain_of_nodup_points (sortedRanges_sorted ranges) (fun range hrange => ?_)
    ((hperm.flatMap_right points).nodup_iff.mpr h)
  obtain ⟨row, hrow, rfl⟩ := mem_map.mp (hperm.mem_iff.mp hrange)
  exact hpos row hrow

theorem nodup_of_normalizeRowRanges (h : normalizeRowRanges ranges = .ok out) :
    ((ranges.map CoviRowRangePostingV2.range).flatMap points).Nodup :=
  (((sortedRanges_perm ranges).flatMap_right points).nodup_iff).mp
    (nodup_points (sortedRanges_sorted ranges) (normalizeRowRanges_ok h).isChain)

theorem checkExtent_ok_iff {start length : Nat} {u : Unit} :
    checkExtent start length = .ok u ↔ length ≠ 0 ∧ start + length < 2 ^ 64 := by
  rw [checkExtent, andThen_eq_ok_iff]
  simp only [rejectIf_eq_ok_iff, map_eq_ok_iff, checkedAdd_ok_iff]
  constructor
  · rintro ⟨-, hne, _, ⟨hlt, -⟩, -⟩
    exact ⟨hne, hlt⟩
  · rintro ⟨hne, hlt⟩
    exact ⟨(), hne, _, ⟨hlt, rfl⟩, trivial⟩

theorem validateRowRangePostings_ok {previous : Option CoviRowRangePostingV2}
    (hextent : ∀ row ∈ out, row.rowCount ≠ 0 ∧ row.range.finish < 2 ^ 64)
    (hsorted : Sorted ((previous.toList ++ out).map CoviRowRangePostingV2.range))
    (hgaps : ((previous.toList ++ out).map CoviRowRangePostingV2.range).IsChain Gap)
    (hprevious : ∀ row ∈ previous, row.range.finish < 2 ^ 64) :
    validateRowRangePostings previous out = .ok () := by
  induction out generalizing previous with
  | nil => rfl
  | cons row rows ih =>
    obtain ⟨hrow, hrows⟩ := forall_mem_cons.mp hextent
    have htail : validateRowRangePostings (some row) rows = .ok () := by
      refine ih hrows ?_ ?_ fun last hlast => mem_some.mp hlast ▸ hrow.2
      · cases previous with
        | none => exact hsorted
        | some last => exact hsorted.tail
      · cases previous with
        | none => exact hgaps
        | some last => exact hgaps.tail
    refine andThen_eq_ok_iff.mpr ⟨(), checkExtent_ok_iff.mpr hrow, andThen_eq_ok_iff.mpr ⟨(), ?_, htail⟩⟩
    cases previous with
    | none => rfl
    | some last =>
      have hle := hsorted.head_le (mem_map_of_mem mem_cons_self)
      have hgap : Gap last.range row.range := (isChain_cons_cons.mp hgaps).1
      refine checkAll_eq_ok_iff.mpr (forall_mem_singleton.mpr ?_)
      refine andThen_eq_ok_iff.mpr ⟨(), rejectIf_ok ?_, whenever_eq_ok_iff.mpr fun hscope => ?_⟩
      · rcases ScopedRanges.place_le_iff.mp hle with hlt | ⟨heq, -⟩
        · exact not_lt.mpr hlt.le
        · exact not_lt.mpr heq.le
      · have hsame : row.scope = last.scope := of_decide_eq_true hscope
        refine andThen_eq_ok_iff.mpr ⟨_, checkedAdd_ok_iff.mpr ⟨hprevious last rfl, rfl⟩, ?_⟩
        exact rejectIf_ok (not_le.mpr (hgap hsame.symm))

/-- The ranges of a key can be written. -/
def Writable (ranges : List CoviRowRangePostingV2) : Prop :=
  ∃ out, normalizeRowRanges ranges = .ok out ∧ ∀ row ∈ out, row.rowCount ≠ 0 ∧ row.range.finish < 2 ^ 64

theorem buildEntry_ok_iff {item : KeyRanges × Nat} {entry : KeyRanges} :
    buildEntry item = .ok entry ↔ entry.1 = item.1.1 ∧ normalizeRowRanges item.1.2 = .ok entry.2 ∧
      item.2 < 2 ^ 32 ∧ item.1.1.length < 2 ^ 32 ∧
      ∀ row ∈ entry.2, row.rowCount ≠ 0 ∧ row.range.finish < 2 ^ 64 := by
  rw [buildEntry, andThen_eq_ok_iff]
  constructor
  · rintro ⟨ranges, hranges, h⟩
    obtain ⟨hindex, h⟩ := of_check h
    obtain ⟨hlength, h⟩ := of_check h
    obtain ⟨hextent, h⟩ := of_check h
    cases h
    exact ⟨rfl, hranges, not_le.mp (of_rejectIf hindex), not_le.mp (of_rejectIf hlength),
      fun row hrow => checkExtent_ok_iff.mp (checkAll_eq_ok_iff.mp hextent row hrow)⟩
  · obtain ⟨key, ranges⟩ := entry
    rintro ⟨rfl, hranges, hindex, hlength, hextent⟩
    refine ⟨ranges, hranges, ?_⟩
    refine andThen_eq_ok_iff.mpr ⟨(), rejectIf_ok (not_le.mpr hindex), ?_⟩
    refine andThen_eq_ok_iff.mpr ⟨(), rejectIf_ok (not_le.mpr hlength), ?_⟩
    exact andThen_eq_ok_iff.mpr ⟨(), checkAll_eq_ok_iff.mpr fun row hrow =>
      checkExtent_ok_iff.mpr (hextent row hrow), rfl⟩

theorem validate_normalized (h : normalizeRowRanges ranges = .ok out)
    (hextent : ∀ row ∈ out, row.rowCount ≠ 0 ∧ row.range.finish < 2 ^ 64) :
    validateRowRangePostings none out = .ok () := by
  have happended := normalizeRowRanges_ok h
  exact validateRowRangePostings_ok hextent (happended.sorted (sortedRanges_sorted ranges)) happended.gaps
    fun _ hrow => absurd hrow (not_mem_none _)

variable {keys : KeyPostingMap} {params : BuildBlocksParams} {built : BuiltColumnIndex}

/-- What the blocks of a map of keys hold. -/
structure Blocks (keys : KeyPostingMap) (params : BuildBlocksParams) (built : BuiltColumnIndex) : Prop where
  writable : ∀ e ∈ keys.entries, Writable e.2
  count : 60 * keys.entries.length < 2 ^ 32
  length_eq : built.entries.length = keys.entries.length
  distinct_eq : built.distinctCount = keys.entries.length
  null_eq : built.nullCount = params.nullCount
  minKey_mem : ∀ key ∈ built.minKey, ∃ e ∈ keys.entries, e.1 = key
  maxKey_mem : ∀ key ∈ built.maxKey, ∃ e ∈ keys.entries, e.1 = key

theorem key_mem_of_perm {items : List KeyRanges} (hperm : items.Perm keys.entries) {found : Option KeyRanges}
    (hfound : ∀ e ∈ found, e ∈ items) {supportsRange : Bool} :
    ∀ key ∈ (if supportsRange then found.map Prod.fst else none), ∃ e ∈ keys.entries, e.1 = key := by
  intro key hkey
  split at hkey
  · obtain ⟨e, he, rfl⟩ := map_eq_some_iff.mp hkey
    exact ⟨e, hperm.mem_iff.mp (hfound e he), rfl⟩
  · cases hkey

theorem buildBlocks_ok (h : buildBlocksFromKeys P t keys params = .ok built) : Blocks keys params built := by
  obtain ⟨items, hitems, h⟩ := of_andThen h
  obtain ⟨entries, hentries, h⟩ := of_andThen h
  obtain ⟨hentryBlock, h⟩ := of_check h
  replace h := rest_ok h
  cases h
  have hperm := orderKeyItems_perm hitems
  have hlength : entries.length = keys.entries.length := by
    rw [← (forall₂_of_mapM hentries).length_eq, length_zipIdx, hperm.length_eq]
  obtain ⟨⟨⟩, -, hcount⟩ := of_andThen hentryBlock
  refine ⟨fun e he => ?_, ?_, hlength, rfl, rfl, key_mem_of_perm hperm fun e he => mem_of_head? he,
    key_mem_of_perm hperm fun e he => mem_of_getLast? he⟩
  · obtain ⟨index, hindex⟩ : ∃ index, (e, index) ∈ items.zipIdx := by
      obtain ⟨index, hlt, heq⟩ := mem_iff_getElem.mp (hperm.mem_iff.mpr he)
      exact ⟨index, mem_zipIdx_iff_getElem?.mpr (List.getElem?_eq_some_iff.mpr ⟨hlt, heq⟩)⟩
    obtain ⟨entry, -, hentry⟩ := exists_of_mapM hentries hindex
    obtain ⟨-, hnormalized, -, -, hextent⟩ := buildEntry_ok_iff.mp hentry
    exact ⟨entry.2, hnormalized, hextent⟩
  · rw [← hlength]
    exact not_le.mp (of_rejectIf hcount)

theorem exists_buildBlocks (hkeys : IntegerKeys t keys.entries) (hparams : OrdersIntegers params)
    (hwritable : ∀ e ∈ keys.entries, Writable e.2) (hcount : 60 * keys.entries.length < 2 ^ 32) :
    ∃ built, buildBlocksFromKeys P t keys params = .ok built := by
  obtain ⟨items, hitems⟩ := exists_orderKeyItems (P := P) hparams hkeys
  have hperm := orderKeyItems_perm hitems
  obtain ⟨entries, hentries⟩ : ∃ entries, items.zipIdx.mapM buildEntry = .ok entries := by
    refine exists_mapM fun item hitem => ?_
    have hmem := fst_mem_of_mem_zipIdx hitem
    obtain ⟨out, hout, hextent⟩ := hwritable item.1 (hperm.mem_iff.mp hmem)
    obtain ⟨value, hvalue⟩ := hkeys item.1 (hperm.mem_iff.mp hmem)
    have hindex : item.2 < items.length := snd_lt_of_mem_zipIdx hitem
    rw [hperm.length_eq] at hindex
    exact ⟨(item.1.1, out), buildEntry_ok_iff.mpr ⟨rfl, hout, by omega, hvalue ▸ keyOf_length, hextent⟩⟩
  have hlength : entries.length = keys.entries.length := by
    rw [← (forall₂_of_mapM hentries).length_eq, length_zipIdx, hperm.length_eq]
  have hentryBlock : serializeEntryBlock entries = .ok () :=
    rejectIf_andThen (by omega) (rejectIf_ok (by omega))
  have hpostings : serializePostingsBlock entries = .ok () := by
    refine rejectIf_andThen (by omega) ?_
    refine rejectIf_andThen (by omega) (checkAll_eq_ok_iff.mpr fun e he => ?_)
    obtain ⟨item, -, hitem⟩ := exists_of_mem_mapM hentries he
    obtain ⟨-, hnormalized, -, -, hextent⟩ := buildEntry_ok_iff.mp hitem
    exact validate_normalized hnormalized hextent
  simp only [buildBlocksFromKeys, hitems, hentries, hentryBlock, hpostings, bind, Except.bind]
  exact ⟨_, rfl⟩

end

end CoveFormat.CoviKeyBlocks
