import CoveFormat.MetadataAggregates

namespace CoveFormat.AggregateCoverage

open AggregateSynopses ExceptRules List MetadataAggregates

/-- What a row holds in a column. -/
inductive Cell
  | null
  | fileCode (code : UInt32)
  | value (value : TaggedCanonicalValue)
  deriving DecidableEq

structure DataRow where
  (segmentId morselId : UInt32)
  rowInMorsel : Nat
  cell : Nat → Cell

/-- A file with the rows of its table. -/
structure FileData where
  file : FileMetadata
  rows : List DataRow

def valueAt (file : FileMetadata) (i : Nat) (row : DataRow) : Option TaggedCanonicalValue :=
  match row.cell i with
  | .null => none
  | .value value => some value
  | .fileCode code => file.dictionary.bind fun dictionary => dictionary.entries[code.toNat]?.join

def inScope (entry : AggregateEntry) (row : DataRow) : Bool :=
  (entry.segmentId = absent || entry.segmentId = row.segmentId) &&
    (entry.morselId = absent || entry.morselId = row.morselId)

def scopeRows (d : FileData) (entry : AggregateEntry) : List DataRow := d.rows.filter (inScope entry)

def Apart (a b : AggregateEntry) : Prop := ∀ row, inScope a row = true → inScope b row = true → False

/-- The entry is one of the column's in the file, with its payload. -/
structure Candidate (file : FileMetadata) (columnId : UInt32) (kind : SynopsisKind) (item : Item) :
    Prop where
  stored : ∃ synopsis ∈ file.aggregates, ∃ i : Nat,
    synopsis.entries[i]? = some item.1 ∧ synopsis.payloads[i]? = some item.2
  table : item.1.tableId = file.tableId
  column : item.1.columnId = columnId
  kind : item.1.synopsisKind = kind
  exact : item.1.accuracy = .exact

theorem forall₂_mem_right {α β : Type} {r : α → β → Prop} {as : List α} {bs : List β}
    (h : Forall₂ r as bs) {b : β} (hb : b ∈ bs) : ∃ a ∈ as, r a b :=
  forall₂_mem_left (Forall₂.flip (R := flip r) h) hb

section

variable {κ : Type} [DecidableEq κ] {key : AggregateEntry → κ}

variable {wanted : List (κ × UInt32)} {items : List Item}

theorem takeCovering_spec {remaining : List Item}
    (h : takeCovering key wanted remaining = some items) :
    (∀ item ∈ items, item ∈ remaining) ∧ items.Pairwise fun a b => key a.1 ≠ key b.1 := by
  induction wanted generalizing remaining items with
  | nil =>
    cases h
    exact ⟨fun _ hitem => absurd hitem not_mem_nil, .nil⟩
  | cons first wanted ih =>
    rw [takeCovering] at h
    split at h
    · cases h
    · rename_i item hfound
      split at h
      · cases h
      · obtain ⟨later, hlater, rfl⟩ := Option.map_eq_some_iff.mp h
        obtain ⟨hmem, hpairs⟩ := ih hlater
        have hitem := mem_of_find?_eq_some hfound
        have hkey : key item.1 = first.1 := by simpa using List.find?_some hfound
        refine ⟨?_, pairwise_cons.mpr ⟨fun other hother => ?_, hpairs⟩⟩
        · intro other hother
          rcases mem_cons.mp hother with rfl | hother
          · exact hitem
          · exact (mem_filter.mp (hmem other hother)).1
        · have hne := of_decide_eq_true (mem_filter.mp (hmem other hother)).2
          rw [hkey]
          exact hne.symm

theorem coveringEntries_spec (key : AggregateEntry → κ) (wanted : List (κ × UInt32))
    (entries : List Item) : (∀ item ∈ coveringEntries key wanted entries, item ∈ entries) ∧
      (coveringEntries key wanted entries).Pairwise fun a b => key a.1 ≠ key b.1 := by
  have hnone : (∀ item ∈ ([] : List Item), item ∈ entries) ∧
      ([] : List Item).Pairwise fun a b => key a.1 ≠ key b.1 :=
    ⟨fun _ hitem => absurd hitem not_mem_nil, .nil⟩
  rw [coveringEntries]
  split
  · cases htake : takeCovering key wanted entries with
    | none => exact hnone
    | some items => exact takeCovering_spec htake
  · exact hnone

theorem coveringEntries_apart {entries : List Item}
    (hkey : ∀ a ∈ entries, ∀ b ∈ entries, key a.1 ≠ key b.1 → Apart a.1 b.1) :
    (∀ item ∈ coveringEntries key wanted entries, item ∈ entries) ∧
      (coveringEntries key wanted entries).Pairwise fun a b => Apart a.1 b.1 := by
  obtain ⟨hmem, hpairs⟩ := coveringEntries_spec key wanted entries
  exact ⟨hmem, hpairs.imp_of_mem fun ha hb => hkey _ (hmem _ ha) _ (hmem _ hb)⟩

theorem inScope_iff {entry : AggregateEntry} {row : DataRow} : inScope entry row = true ↔
    (entry.segmentId = absent ∨ entry.segmentId = row.segmentId) ∧
      (entry.morselId = absent ∨ entry.morselId = row.morselId) := by
  simp only [inScope, Bool.and_eq_true, Bool.or_eq_true, decide_eq_true_eq]

variable {file : FileMetadata}

theorem selected_apart {candidates : List Item}
    (h : selectExactCoverageEntries file candidates = .ok items) :
    (∀ item ∈ items, item ∈ candidates) ∧ items.Pairwise fun a b => Apart a.1 b.1 := by
  have hnone : (∀ item ∈ ([] : List Item), item ∈ candidates) ∧
      ([] : List Item).Pairwise fun a b => Apart a.1 b.1 :=
    ⟨fun _ hitem => absurd hitem not_mem_nil, .nil⟩
  rw [selectExactCoverageEntries] at h
  split at h
  · cases h
    exact hnone
  · simp only at h
    split at h
    · split at h
      · rename_i hsingle
        cases h
        obtain ⟨item, hitem⟩ := length_eq_one_iff.mp hsingle.1
        refine ⟨fun item hitem => (mem_filter.mp hitem).1, ?_⟩
        rw [hitem]
        exact pairwise_singleton _ _
      · cases h
        exact hnone
    · split at h
      · cases h
        rw [selectSegmentCoverageEntries]
        split
        · exact hnone
        · refine (coveringEntries_apart ?_).imp_left fun hmem item hitem =>
            (mem_filter.mp (hmem item hitem)).1
          intro a ha b hb hne row hina hinb
          have ha := of_decide_eq_true (mem_filter.mp ha).2
          have hb := of_decide_eq_true (mem_filter.mp hb).2
          exact hne (((inScope_iff.mp hina).1.resolve_left ha.1).trans
            ((inScope_iff.mp hinb).1.resolve_left hb.1).symm)
      · rw [selectMorselCoverageEntries] at h
        replace h := rest_ok h
        split at h
        · cases h
          exact hnone
        · split at h
          · cases h
            exact hnone
          · cases h
            refine (coveringEntries_apart ?_).imp_left fun hmem item hitem =>
              (mem_filter.mp (hmem item hitem)).1
            intro a ha b hb hne row hina hinb
            have ha := of_decide_eq_true (mem_filter.mp ha).2
            have hb := of_decide_eq_true (mem_filter.mp hb).2
            obtain ⟨hsegA, hmorA⟩ := inScope_iff.mp hina
            obtain ⟨hsegB, hmorB⟩ := inScope_iff.mp hinb
            refine hne (Prod.ext ?_ ?_)
            · exact (hsegA.resolve_left ha.1).trans (hsegB.resolve_left hb.1).symm
            · exact (hmorA.resolve_left ha.2).trans (hmorB.resolve_left hb.2).symm

variable {columnId : UInt32} {kind : SynopsisKind}

theorem candidate_of_synopsis {synopsis : AggregateSynopsis}
    (hsynopsis : synopsis ∈ file.aggregates)
    (h : synopsisCandidates file columnId kind synopsis = .ok items) {item : Item}
    (hitem : item ∈ items) : Candidate file columnId kind item := by
  rw [synopsisCandidates, mapM_eq_ok_iff] at h
  obtain ⟨⟨entry, i⟩, he, heq⟩ := forall₂_mem_right h hitem
  obtain ⟨hmem, hfilter⟩ := mem_filter.mp he
  obtain ⟨htable, hcolumn, hkind, hexact⟩ := of_decide_eq_true hfilter
  have hentry := mk_mem_zipIdx_iff_getElem?.mp hmem
  split at heq
  · cases heq
  · rename_i payload hpayload
    cases heq
    exact ⟨⟨synopsis, hsynopsis, i, hentry, hpayload⟩, htable, hcolumn, hkind, hexact⟩

theorem exactPayloadEntries_spec (h : exactPayloadEntriesForFile file columnId kind = .ok items) :
    (∀ item ∈ items, Candidate file columnId kind item) ∧
      items.Pairwise fun a b => Apart a.1 b.1 := by
  obtain ⟨found, hfound, h⟩ := of_andThen h
  obtain ⟨hmem, hapart⟩ := selected_apart h
  refine ⟨fun item hitem => ?_, hapart⟩
  obtain ⟨group, hgroup, hin⟩ := mem_flatten.mp (hmem item hitem)
  obtain ⟨synopsis, hsynopsis, hcandidates⟩ := forall₂_mem_right (mapM_eq_ok_iff.mp hfound) hgroup
  exact candidate_of_synopsis hsynopsis hcandidates hin

theorem filter_or_perm {α : Type} {p q : α → Bool} (h : ∀ x, p x = true → q x = true → False)
    (xs : List α) : (xs.filter p ++ xs.filter q).Perm (xs.filter fun x => p x || q x) := by
  induction xs with
  | nil => exact .nil
  | cons x xs ih =>
    by_cases hp : p x = true
    · have hq : q x = false := Bool.eq_false_iff.mpr (h x hp)
      rw [filter_cons_of_pos hp, filter_cons_of_neg (by simp [hq]),
        filter_cons_of_pos (by simp [hp])]
      exact ih.cons x
    · by_cases hq : q x = true
      · rw [filter_cons_of_neg hp, filter_cons_of_pos hq,
          filter_cons_of_pos (by simp [hq])]
        exact List.perm_middle.trans (ih.cons x)
      · rw [filter_cons_of_neg hp, filter_cons_of_neg hq,
          filter_cons_of_neg (by simp [hp, hq])]
        exact ih

variable {d : FileData} {items : List Item}

def coveredBy (d : FileData) (items : List Item) : List DataRow :=
  items.flatMap fun item => scopeRows d item.1

theorem coveredBy_perm (h : items.Pairwise fun a b => Apart a.1 b.1) : (coveredBy d items).Perm
    (d.rows.filter fun row => items.any fun item => inScope item.1 row) := by
  induction items with
  | nil => simp [coveredBy]
  | cons item items ih =>
    obtain ⟨hitem, hitems⟩ := pairwise_cons.mp h
    have hrest := (ih hitems).append_left (scopeRows d item.1)
    refine hrest.trans ((filter_or_perm ?_ d.rows).trans (.of_eq ?_))
    · intro row hrow hany
      obtain ⟨other, hother, hin⟩ := any_eq_true.mp hany
      exact hitem other hother row hrow hin
    · rfl

theorem coveredBy_length_le (h : items.Pairwise fun a b => Apart a.1 b.1) :
    (coveredBy d items).length ≤ d.rows.length :=
  (coveredBy_perm h).length_eq.trans_le (length_filter_le _ _)

theorem coveredBy_all (h : items.Pairwise fun a b => Apart a.1 b.1)
    (hlength : (coveredBy d items).length = d.rows.length) : (coveredBy d items).Perm d.rows := by
  have hperm := @coveredBy_perm d items h
  have hall := length_filter_eq_length_iff.mp (hperm.length_eq.symm.trans hlength)
  rwa [filter_eq_self.mpr hall] at hperm

theorem coveredBy_each {data : List FileData} {itemss : List (List Item)}
    (h : Forall₂ (fun _ items => items.Pairwise fun a b => Apart a.1 b.1) data itemss)
    (hsum : ((data.zip itemss).map fun p => (coveredBy p.1 p.2).length).sum =
      (data.map fun d => d.rows.length).sum) :
    Forall₂ (fun d items => (coveredBy d items).Perm d.rows) data itemss := by
  have hle : ∀ {data : List FileData} {itemss : List (List Item)},
      Forall₂ (fun _ items => items.Pairwise fun a b => Apart a.1 b.1) data itemss →
      ((data.zip itemss).map fun p => (coveredBy p.1 p.2).length).sum ≤
        (data.map fun d => d.rows.length).sum := by
    intro data itemss h
    induction h with
    | nil => exact Nat.le_refl _
    | cons hfirst _ ih => exact Nat.add_le_add (coveredBy_length_le hfirst) ih
  induction h with
  | nil => exact .nil
  | @cons d items _ _ hfirst hrest ih =>
    simp only [zip_cons_cons, map_cons, sum_cons] at hsum
    have hone := @coveredBy_length_le d items hfirst
    have hmany := hle hrest
    exact .cons (coveredBy_all hfirst (by omega)) (ih (by omega))

variable {σ : Type} {step : σ → Item → Attempt σ}

variable {s t : σ}

theorem foldFile_ok {file : FileMetadata} (h : foldFile columnId kind step s file = .ok t) : ∃ items,
      exactPayloadEntriesForFile file columnId kind = .ok items ∧ items ≠ [] ∧
        items.foldlM step s = .ok t := by
  obtain ⟨items, hitems, h⟩ := of_andThen h
  obtain ⟨hne, h⟩ := of_reject h
  exact ⟨items, hitems, hne, h⟩

theorem foldlM_append_ok {α : Type} {f : σ → α → Attempt σ} {xs ys : List α} :
    (xs ++ ys).foldlM f s = .ok t ↔ ∃ u, xs.foldlM f s = .ok u ∧ ys.foldlM f u = .ok t := by
  rw [foldlM_append]
  exact andThen_eq_ok_iff

def located (data : List FileData) (itemss : List (List Item)) : List (FileData × Item) :=
  (data.zip itemss).flatMap fun p => p.2.map fun item => (p.1, item)

theorem foldFiles_ok {data : List FileData}
    (h : (data.map FileData.file).foldlM (foldFile columnId kind step) s = .ok t) : ∃ itemss,
      Forall₂ (fun d items => exactPayloadEntriesForFile (FileData.file d) columnId kind = .ok items)
        data itemss ∧ ((located data itemss).map Prod.snd).foldlM step s = .ok t := by
  induction data generalizing s with
  | nil => exact ⟨[], .nil, h⟩
  | cons d data ih =>
    obtain ⟨u, hu, h⟩ := of_andThen h
    obtain ⟨items, hitems, -, hfold⟩ := foldFile_ok hu
    obtain ⟨itemss, hrest, hlast⟩ := ih h
    refine ⟨items :: itemss, .cons hitems hrest, ?_⟩
    have hmap : ((located (d :: data) (items :: itemss)).map Prod.snd) =
        items ++ (located data itemss).map Prod.snd := by
      simp [located, map_map, Function.comp_def]
    rw [hmap]
    exact foldlM_append_ok.mpr ⟨u, hfold, hlast⟩

end

def scopeValues (i : Nat) (d : FileData) (entry : AggregateEntry) : List TaggedCanonicalValue :=
  (scopeRows d entry).filterMap (valueAt d.file i)

def columnValues (i : Nat) (data : List FileData) : List TaggedCanonicalValue :=
  data.flatMap fun d => d.rows.filterMap (valueAt d.file i)

section

variable {columnId : UInt32} {kind : SynopsisKind} {data : List FileData} {itemss : List (List Item)}

theorem mem_located (h : Forall₂
    (fun d items => exactPayloadEntriesForFile (FileData.file d) columnId kind = .ok items) data itemss)
    {p : FileData × Item} (hp : p ∈ located data itemss) :
    p.1 ∈ data ∧ Candidate p.1.file columnId kind p.2 := by
  obtain ⟨⟨d, items⟩, hzip, hmap⟩ := mem_flatMap.mp hp
  obtain ⟨item, hitem, rfl⟩ := mem_map.mp hmap
  have hentries := (forall₂_iff_zip.mp h).2 hzip
  exact ⟨(of_mem_zip hzip).1, (exactPayloadEntries_spec hentries).1 item hitem⟩

/-- Entries that count the rows of their scope, and together those of all files, have between them
every value of the column. -/
theorem located_values (h : Forall₂
    (fun d items => exactPayloadEntriesForFile (FileData.file d) columnId kind = .ok items) data itemss)
    (hcount : ∀ p ∈ located data itemss, p.2.1.rowCount.toNat = (scopeRows p.1 p.2.1).length)
    (hsum : ((located data itemss).map fun p => p.2.1.rowCount.toNat).sum =
      (data.map fun d => d.rows.length).sum) (i : Nat) :
    ((located data itemss).flatMap fun p => scopeValues i p.1 p.2.1).Perm (columnValues i data) := by
  have hlength : ((data.zip itemss).map fun p => (coveredBy p.1 p.2).length).sum =
      (data.map fun d => d.rows.length).sum := by
    rw [← hsum, map_congr_left hcount]
    rw [located, map_flatMap, flatMap_def, sum_flatten, map_map]
    simp only [map_map, Function.comp_def, coveredBy, length_flatMap]
  have heach := coveredBy_each (h.imp fun _ _ hitems => (exactPayloadEntries_spec hitems).2) hlength
  have hvalues : ((located data itemss).flatMap fun p => scopeValues i p.1 p.2.1) =
      (data.zip itemss).flatMap fun p => (coveredBy p.1 p.2).filterMap (valueAt p.1.file i) := by
    simp only [located, flatMap_assoc, flatMap_map, coveredBy, filterMap_flatMap,
      scopeValues]
  rw [hvalues]
  clear hcount hsum hlength hvalues h
  induction heach with
  | nil => exact .nil
  | cons hfirst _ ih =>
    exact (hfirst.filterMap _).append ih

end

end CoveFormat.AggregateCoverage
