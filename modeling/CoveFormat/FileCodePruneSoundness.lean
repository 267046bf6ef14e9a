import CoveFormat.FileCodePruning

namespace CoveFormat.FileCodePruneSoundness

open ByteCodes Except ExceptRules FileCodePruning FileCodeRequests Kleene List Option ResolvedQuery

variable {executionMap : ExecutionCodeMap} {key : ExecutionCodeLiteralKey}
  {resolve : ExecutionCodeLiteralKey → Except BuildExecutionError (Option Nat)}
  {bitmapFor : ExecutionCodePredicateRequest → List Nat → Except BuildExecutionError (Finset Nat × Nat)}
  {requests : List ExecutionCodePredicateRequest} {other : Nat → ResolvedPredicate → Truth}
  {predicate : ResolvedPredicate}

variable {R : TextReading} {segments : List SegmentPages}
variable {surface : KernelRows} {scope : PlannedScope} {root : Nat}
variable {dictionary : FileDictionary} {request : ExecutionCodePredicateRequest}

/-- Each canonical key has at most one FileCode. -/
def OneCodePerKey (dictionary : FileDictionary) : Prop :=
  ∀ c d key, codeKey dictionary c = some key → codeKey dictionary d = some key → c = d

/-- Every key that an including request asks for is in the dictionary. -/
def LiteralsPresent (dictionary : FileDictionary)
    (requests : List ExecutionCodePredicateRequest) : Prop :=
  ∀ request ∈ requests, request.matchMode = .includes →
    ∀ key ∈ request.canonicalLiterals, ∃ c, codeKey dictionary c = some key

theorem oneCodePerKey_of_nodup (h : (dictionary.map DictionaryEntry.key).Nodup) :
    OneCodePerKey dictionary := by
  have hget : ∀ c key, codeKey dictionary c = some key →
      (dictionary.map DictionaryEntry.key)[c]? = some (some key) := by
    intro c key hc
    obtain ⟨entry, hentry, hkey⟩ := bind_eq_some_iff.mp hc
    rw [List.getElem?_map, hentry, map_some, hkey]
  intro c d key hc hd
  have hlt := (List.getElem?_eq_some_iff.mp (hget c key hc)).1
  exact (List.getElem?_inj hlt h).mp ((hget c key hc).trans (hget d key hd).symm)

theorem unsignedExecutionCode_injective (h : executionMap.Nodup) (c d e : Nat)
    (hc : unsignedExecutionCode executionMap c = .ok e)
    (hd : unsignedExecutionCode executionMap d = .ok e) : c = d := by
  have hget : ∀ c, unsignedExecutionCode executionMap c = .ok e →
      executionMap[c]? = some (.unsigned e) := by
    intro c hc
    unfold unsignedExecutionCode at hc
    split at hc
    · cases hc
    · rename_i value hvalue
      rw [hvalue, ok.inj hc]
    · cases hc
  have hlt := (List.getElem?_eq_some_iff.mp (hget c hc)).1
  exact (List.getElem?_inj hlt h).mp ((hget c hc).trans (hget d hd).symm)

variable {errorCode sourceLabel : String}

theorem searchFileCode_spec {fileCode : Nat} {entries : List DictionaryEntry} {found : Option Nat}
    (h : searchFileCode errorCode sourceLabel key fileCode entries = .ok found) :
    match found with
    | some c => fileCode ≤ c ∧ entries[c - fileCode]?.bind DictionaryEntry.key = some key
    | none => ∀ entry ∈ entries, entry.key ≠ some key := by
  induction entries generalizing fileCode with
  | nil =>
    cases h
    simp
  | cons entry rest ih =>
    rw [searchFileCode] at h
    split at h
    · rename_i bytes hvalue
      have hkey : entry.key = some ⟨entry.valueTag, bytes⟩ := by simp [DictionaryEntry.key, hvalue]
      split at h
      · rename_i hmatch
        cases h
        simp [hkey, hmatch]
      · rename_i hmatch
        have hne : entry.key ≠ some key := by
          rw [hkey]
          rintro ⟨⟩
          exact hmatch ⟨rfl, rfl⟩
        have hrest := ih h
        cases found with
        | none => simpa [hne] using hrest
        | some c =>
          obtain ⟨hle, hget⟩ := hrest
          refine ⟨by omega, ?_⟩
          rwa [show c - fileCode = c - (fileCode + 1) + 1 by omega, List.getElem?_cons_succ]
    · cases h
    · cases h

variable {c : Nat}

theorem fileCodeForCanonical_some
    (h : fileCodeForCanonical dictionary key errorCode sourceLabel = .ok (some c)) :
    codeKey dictionary c = some key :=
  (searchFileCode_spec h).2

theorem fileCodeForCanonical_none
    (h : fileCodeForCanonical dictionary key errorCode sourceLabel = .ok none) (c : Nat) :
    codeKey dictionary c ≠ some key := by
  intro hc
  obtain ⟨entry, hentry, hkey⟩ := bind_eq_some_iff.mp hc
  exact searchFileCode_spec h entry (mem_of_getElem? hentry) hkey

section

variable {matchMode : ExecutionCodeMatchMode} {keys : List ExecutionCodeLiteralKey}

theorem targetCodes_none (h : targetCodes resolve matchMode keys = .ok none) :
    matchMode = .includes ∧ ∃ key ∈ keys, resolve key = .ok none := by
  induction keys with
  | nil => cases h
  | cons key rest ih =>
    obtain ⟨code?, hkey, h⟩ := of_andThen h
    cases code? with
    | some code =>
      obtain ⟨codes?, hcodes, hmap⟩ := map_eq_ok_iff.mp h
      obtain rfl := map_eq_none_iff.mp hmap
      obtain ⟨hmode, absent, hmem, habsent⟩ := ih hcodes
      exact ⟨hmode, absent, mem_cons_of_mem _ hmem, habsent⟩
    | none =>
      dsimp only at h
      split at h
      · rename_i hmode
        exact ⟨hmode, key, mem_cons_self, hkey⟩
      · obtain ⟨hmode, absent, hmem, habsent⟩ := ih h
        exact ⟨hmode, absent, mem_cons_of_mem _ hmem, habsent⟩

theorem targetCodes_some {codes : List Nat}
    (h : targetCodes resolve matchMode keys = .ok (some codes)) :
    (∀ code, code ∈ codes ↔ ∃ key ∈ keys, resolve key = .ok (some code)) ∧
      (matchMode = .includes → ∀ key ∈ keys, ∃ code, resolve key = .ok (some code)) := by
  induction keys generalizing codes with
  | nil =>
    cases h
    simp
  | cons key rest ih =>
    obtain ⟨code?, hkey, h⟩ := of_andThen h
    cases code? with
    | some code =>
      obtain ⟨codes?, hcodes, hmap⟩ := map_eq_ok_iff.mp h
      obtain ⟨others, rfl, rfl⟩ := map_eq_some_iff.mp hmap
      obtain ⟨hmem, hall⟩ := ih hcodes
      constructor
      · intro c
        simp only [mem_cons, hmem, exists_eq_or_imp, hkey, ok.injEq, some.injEq]
        exact or_congr_left eq_comm
      · intro hmode
        exact forall_mem_cons.mpr ⟨⟨code, hkey⟩, hall hmode⟩
    | none =>
      dsimp only at h
      split at h
      · cases h
      · rename_i hmode
        obtain ⟨hmem, -⟩ := ih h
        refine ⟨fun c => ?_, fun hmode' => absurd hmode' hmode⟩
        simp [hmem, hkey]

theorem pruneRequests_some {predicateCount totalPages : Nat} {combined : Option (Finset Nat)}
    {requests : List ExecutionCodePredicateRequest} {prune : LiteralPrune}
    (h : pruneRequests resolve bitmapFor predicateCount combined totalPages requests =
      .ok (some prune)) :
    (prune.bitmap = ∅ ∧ ∃ request ∈ requests,
        targetCodes resolve request.matchMode request.canonicalLiterals = .ok none) ∨
      ((∀ request ∈ requests, ∃ codes bitmap pageCount,
          targetCodes resolve request.matchMode request.canonicalLiterals = .ok (some codes) ∧
          bitmapFor request codes = .ok (bitmap, pageCount)) ∧
        ∀ row, (∀ existing, combined = some existing → row ∈ existing) →
          (∀ request ∈ requests, ∀ codes bitmap pageCount,
            targetCodes resolve request.matchMode request.canonicalLiterals = .ok (some codes) →
            bitmapFor request codes = .ok (bitmap, pageCount) → row ∈ bitmap) →
          row ∈ prune.bitmap) := by
  induction requests generalizing combined totalPages with
  | nil =>
    obtain ⟨bitmap, rfl, rfl⟩ := map_eq_some_iff.mp (ok.inj h)
    exact .inr ⟨by simp, fun row hrow _ => hrow bitmap rfl⟩
  | cons request rest ih =>
    obtain ⟨codes?, hcodes, h⟩ := of_andThen h
    cases codes? with
    | none =>
      cases h
      exact .inl ⟨rfl, request, mem_cons_self, hcodes⟩
    | some codes =>
      obtain ⟨⟨bitmap, pageCount⟩, hbitmap, h⟩ := of_andThen h
      dsimp only at h
      split at h
      · cases h
      · rcases ih h with ⟨hempty, absent, hmem, habsent⟩ | ⟨hall, hrows⟩
        · exact .inl ⟨hempty, absent, mem_cons_of_mem _ hmem, habsent⟩
        · refine .inr ⟨forall_mem_cons.mpr ⟨⟨codes, bitmap, pageCount, hcodes, hbitmap⟩,
            hall⟩, fun row hexisting hrow => hrows row (fun found hfound => ?_)
            fun request' hmem => hrow request' (mem_cons_of_mem _ hmem)⟩
          cases hfound
          have hin := hrow request mem_cons_self codes bitmap pageCount hcodes hbitmap
          cases combined with
          | none => exact hin
          | some existing => exact Finset.mem_inter.mpr ⟨hexisting existing rfl, hin⟩

end

variable {row segmentId rowIndex : Nat}

theorem surfaceRowLookup_self (h : surface.rows[row]? = some ⟨root, segmentId, rowIndex⟩) :
    surfaceRowLookup surface root segmentId rowIndex = some row := by
  have hlt : row < surface.rows.length := (List.getElem?_eq_some_iff.mp h).1
  rw [surfaceRowLookup]
  cases hfound : (List.range surface.rows.length).reverse.find? fun row =>
      surface.rows[row]? = some ⟨root, segmentId, rowIndex⟩ with
  | none =>
    have hnone := List.find?_eq_none.mp hfound row (by simpa using hlt)
    simp [h] at hnone
  | some found =>
    have hrow : surface.rows[found]? = some ⟨root, segmentId, rowIndex⟩ := by
      simpa using List.find?_some hfound
    exact congrArg some (List.getElem?_inj (List.getElem?_eq_some_iff.mp hrow).1
      surface.distinct |>.mp (hrow.trans h.symm))

variable {localRow : Nat}

theorem mem_selectValid {matchMode : ExecutionCodeMatchMode} {contains : Nat → Bool}
    {values : List (Option Nat)} {value : Nat} (hvalue : values[localRow]?.join = some value)
    (hselected : isSelected matchMode (contains value)) :
    localRow ∈ selectValid matchMode contains values := by
  have hlt : localRow < values.length := by
    by_contra hge
    simp [List.getElem?_eq_none (not_lt.mp hge)] at hvalue
  exact mem_filter.mpr ⟨mem_range.mpr hlt, by simpa [hvalue] using hselected⟩

variable {rows : Finset Nat}

theorem mem_setSurfaceRows {start : Nat} {localRows : List Nat}
    (h : setSurfaceRows surface root segmentId start localRows = .ok rows)
    (hlocal : localRow ∈ localRows)
    (hlookup : surfaceRowLookup surface root segmentId (start + localRow) = some row) :
    row ∈ rows := by
  replace h := rest_ok h
  rw [← ok.inj h, List.mem_toFinset]
  exact mem_filterMap.mpr ⟨localRow, hlocal, hlookup⟩

/-- The page is a FileCode page of the requested property and type. -/
def IsRequested (request : ExecutionCodePredicateRequest) (page : PropertyPage) : Prop :=
  page.propertyId = request.propertyId ∧
    some page.logicalType = logicalTypeToCove request.logicalType ∧ page.physicalKind = .fileCode

variable {page : PropertyPage}

theorem not_elided_code {nullCount : Nat} {allNull allNonNull : Bool} {constant : Option Nat}
    (hlane : page.lane = .elided nullCount allNull allNonNull constant)
    (hcode : page.codeAt localRow = some c) : allNull = false ∧ nullCount ≠ page.rowCount := by
  simp only [PropertyPage.codeAt, hlane] at hcode
  split at hcode
  · cases hcode
  · rename_i h
    exact ⟨by simpa using fun ha => h (.inl ha), fun hn => h (.inr hn)⟩

theorem decodeBoundary_error {reason : String} (h : reason ≠ allNullElided) :
    decodeBoundary reason ≠ .ok rows := by
  rw [decodeBoundary, if_neg h]
  nofun

variable {targets : List Nat} {segment : SegmentPages} {found : Option (Finset Nat)}

theorem fileCodePage_sets (hpage : IsRequested request page) (hcode : page.codeAt localRow = some c)
    (hselected : isSelected request.matchMode (decide (c ∈ targets)))
    (hlookup : surfaceRowLookup surface root segment.segmentId (segment.pageStart page + localRow) = some row)
    (h : fileCodePage surface request targets root segment page = .ok found) :
    ∃ rows, found = some rows ∧ row ∈ rows := by
  obtain ⟨hproperty, htype, hkind⟩ := hpage
  have hcounted : ¬ (page.propertyId ≠ request.propertyId ∨
      page.logicalType ≠ (logicalTypeToCove request.logicalType).getD .utf8 ∨
      page.physicalKind ≠ .fileCode) := by
    rw [← htype]
    simp [hproperty, hkind]
  simp only [fileCodePage, if_neg hcounted] at h
  obtain ⟨rows, hrows, rfl⟩ := map_eq_ok_iff.mp h
  refine ⟨rows, rfl, ?_⟩
  split at hrows
  · rename_i codes hlane
    simp only [PropertyPage.codeAt, hlane] at hcode
    exact mem_setSurfaceRows hrows (mem_selectValid hcode hselected) hlookup
  · rename_i values localToGlobal hlane
    simp only [PropertyPage.codeAt, hlane] at hcode
    obtain ⟨value, hvalue, hglobal⟩ := bind_eq_some_iff.mp hcode
    exact mem_setSurfaceRows hrows (mem_selectValid hvalue (by simpa [hglobal] using hselected))
      hlookup
  · rename_i reason hlane
    exact absurd hrows (decodeBoundary_error reason.property)
  · rename_i nullCount allNull allNonNull constant hlane
    obtain ⟨rfl, -⟩ := not_elided_code hlane hcode
    refine absurd hrows (decodeBoundary_error ?_)
    rw [decodeBoundaryReasonForElidedPage]
    split
    · contradiction
    · split <;> decide

theorem executionCodePage_sets (hpage : IsRequested request page) (hrow : localRow < page.rowCount)
    (hcode : page.codeAt localRow = some c)
    (hlookup : surfaceRowLookup surface root segment.segmentId (segment.pageStart page + localRow) = some row)
    (h : executionCodePage surface request targets executionMap root segment page = .ok found) :
    ∃ e rows, unsignedExecutionCode executionMap c = .ok e ∧ found = some rows ∧
      (isSelected request.matchMode (decide (e ∈ targets)) → row ∈ rows) := by
  obtain ⟨hproperty, htype, hkind⟩ := hpage
  have hcounted : ¬ (page.propertyId ≠ request.propertyId ∨
      some page.logicalType ≠ logicalTypeToCove request.logicalType ∨
      page.physicalKind ≠ .fileCode) := by
    simp [hproperty, htype, hkind]
  rw [executionCodePage, if_neg hcounted] at h
  replace h := rest_ok h
  have hdecoded : ((List.range page.rowCount).mapM
      (executionCodeRow surface request targets executionMap root segment page)).map
        (fun rows => some (rows.filterMap id).toFinset) = .ok found := by
    split at h
    · rename_i nullCount allNull allNonNull constant hlane
      rw [if_neg (not_elided_code hlane hcode).2] at h
      cases h
    · exact h
  obtain ⟨set, hset, rfl⟩ := map_eq_ok_iff.mp hdecoded
  obtain ⟨surfaceRow, hmem, hsurface⟩ := exists_of_mapM hset (mem_range.mpr hrow)
  rw [executionCodeRow, hlookup, hcode] at hsurface
  obtain ⟨e, he, rfl⟩ := map_eq_ok_iff.mp hsurface
  refine ⟨e, _, he, rfl, fun hselected => List.mem_toFinset.mpr ?_⟩
  rw [if_pos hselected] at hmem
  exact mem_filterMap.mpr ⟨some row, hmem, rfl⟩

variable {bitmap : Finset Nat} {pageCount : Nat}

theorem scanPages_ok {scan : PropertyPage → Except BuildExecutionError (Option (Finset Nat))}
    {pages : List PropertyPage} (h : scanPages scan pages = .ok (bitmap, pageCount))
    (hpage : page ∈ pages) :
    ∃ found, scan page = .ok found ∧ ∀ rows, found = some rows → rows ⊆ bitmap := by
  induction pages generalizing bitmap pageCount with
  | nil => cases hpage
  | cons first rest ih =>
    obtain ⟨found, hfirst, h⟩ := of_andThen h
    obtain ⟨⟨others, count⟩, hrest, h⟩ := of_andThen h
    have hresult := ok.inj h
    rcases mem_cons.mp hpage with rfl | hpage
    · refine ⟨found, hfirst, ?_⟩
      rintro rows rfl
      obtain ⟨rfl, -⟩ := Prod.mk.inj hresult
      exact Finset.subset_union_left
    · obtain ⟨found', hfound', hin⟩ := ih hrest hpage
      refine ⟨found', hfound', fun rows hrows => (hin rows hrows).trans ?_⟩
      cases found with
      | none =>
        obtain ⟨rfl, -⟩ := Prod.mk.inj hresult
        exact subset_rfl
      | some _ =>
        obtain ⟨rfl, -⟩ := Prod.mk.inj hresult
        exact Finset.subset_union_right

theorem scanSegments_ok {scan : SegmentPages → Except BuildExecutionError (Finset Nat × Nat)}
    (h : scanSegments scan segments = .ok (bitmap, pageCount)) (hsegment : segment ∈ segments) :
    ∃ rows pages, scan segment = .ok (rows, pages) ∧ rows ⊆ bitmap := by
  induction segments generalizing bitmap pageCount with
  | nil => cases hsegment
  | cons first rest ih =>
    obtain ⟨⟨rows, pages⟩, hfirst, h⟩ := of_andThen h
    obtain ⟨⟨others, count⟩, hrest, h⟩ := of_andThen h
    obtain ⟨rfl, -⟩ := Prod.mk.inj (ok.inj h)
    rcases mem_cons.mp hsegment with rfl | hsegment
    · exact ⟨rows, pages, hfirst, Finset.subset_union_left⟩
    · obtain ⟨rows', pages', hscan, hin⟩ := ih hrest hsegment
      exact ⟨rows', pages', hscan, hin.trans Finset.subset_union_right⟩

/-- The pages of a requested property are FileCode pages of the requested logical type. -/
def PagesTyped (segments : List SegmentPages) (root : Nat)
    (requests : List ExecutionCodePredicateRequest) : Prop :=
  ∀ request ∈ requests, ∀ segment ∈ segments, segment.objectTypeId = root →
    ∀ page ∈ segment.propertyPages, page.propertyId = request.propertyId → IsRequested request page

variable {address : SurfaceRow}

theorem exists_page {propertyId : Nat} (h : storedCode segments address propertyId = some c) :
    ∃ segment ∈ segments, segment.segmentId = address.segmentId ∧
      segment.objectTypeId = address.objectTypeId ∧ ∃ page ∈ segment.propertyPages,
        page.propertyId = propertyId ∧ ∃ localRow < page.rowCount,
          address.rowIndex = segment.pageStart page + localRow ∧ page.codeAt localRow = some c := by
  obtain ⟨segment, hsegment, h⟩ := bind_eq_some_iff.mp h
  obtain ⟨page, hpage, hcode⟩ := bind_eq_some_iff.mp h
  have hsegment' := List.find?_some hsegment
  have hpage' := List.find?_some hpage
  simp only [decide_eq_true_eq] at hsegment' hpage'
  obtain ⟨hproperty, hstart, hend⟩ := hpage'
  exact ⟨segment, mem_of_find?_eq_some hsegment, hsegment'.1, hsegment'.2, page,
    mem_of_find?_eq_some hpage, hproperty, address.rowIndex - segment.pageStart page, by omega,
    by omega, hcode⟩

section

variable (htyped : PagesTyped segments root requests)
include htyped

theorem fileCodeBitmap_sets (hrequest : request ∈ requests) (hobject : request.objectTypeId = root)
    (hrow : surface.rows[row]? = some ⟨root, segmentId, rowIndex⟩)
    (hcode : storedCode segments ⟨root, segmentId, rowIndex⟩ request.propertyId = some c)
    (hselected : isSelected request.matchMode (decide (c ∈ targets)))
    (h : fileCodeBitmapForRequest segments surface root request targets = .ok (bitmap, pageCount)) :
    row ∈ bitmap := by
  obtain ⟨segment, hsegment, hid, htype, page, hpage, hproperty, localRow, -, hindex, hlocal⟩ :=
    exists_page hcode
  have hlookup := surfaceRowLookup_self hrow
  dsimp only at hid hindex
  rw [← hid, hindex] at hlookup
  obtain ⟨rows, pages, hscan, hin⟩ := scanSegments_ok h hsegment
  rw [if_neg (by simp [htype, hobject])] at hscan
  replace hscan := rest_ok hscan
  obtain ⟨found, hfound, hpages⟩ := scanPages_ok hscan hpage
  obtain ⟨rows', hrows', hrow'⟩ :=
    fileCodePage_sets (htyped request hrequest segment hsegment htype page hpage hproperty) hlocal
      hselected hlookup hfound
  exact hin (hpages rows' hrows' hrow')

theorem executionCodeBitmap_sets (hrequest : request ∈ requests)
    (hobject : request.objectTypeId = root)
    (hrow : surface.rows[row]? = some ⟨root, segmentId, rowIndex⟩)
    (hcode : storedCode segments ⟨root, segmentId, rowIndex⟩ request.propertyId = some c)
    (h : executionCodeBitmapForRequest segments surface root request targets executionMap =
      .ok (bitmap, pageCount)) :
    ∃ e, unsignedExecutionCode executionMap c = .ok e ∧
      (isSelected request.matchMode (decide (e ∈ targets)) → row ∈ bitmap) := by
  obtain ⟨segment, hsegment, hid, htype, page, hpage, hproperty, localRow, hlt, hindex, hlocal⟩ :=
    exists_page hcode
  have hlookup := surfaceRowLookup_self hrow
  dsimp only at hid hindex
  rw [← hid, hindex] at hlookup
  obtain ⟨rows, pages, hscan, hin⟩ := scanSegments_ok h hsegment
  rw [if_neg (by simp [htype, hobject])] at hscan
  obtain ⟨found, hfound, hpages⟩ := scanPages_ok hscan hpage
  obtain ⟨e, rows', he, hrows', hset⟩ :=
    executionCodePage_sets (htyped request hrequest segment hsegment htype page hpage hproperty) hlt
      hlocal hlookup hfound
  exact ⟨e, he, fun hselected => hin (hpages rows' hrows' (hset hselected))⟩

end

/-- The stored values of the row make the predicate TRUE. -/
def MakesTrue (R : TextReading) (segments : List SegmentPages)
    (surface : KernelRows) (root : Nat) (dictionary : FileDictionary)
    (other : Nat → ResolvedPredicate → Truth) (predicate : ResolvedPredicate) (row : Nat) : Prop :=
  ∃ segmentId rowIndex, surface.rows[row]? = some ⟨root, segmentId, rowIndex⟩ ∧
    truth R root (storedKey dictionary segments ⟨root, segmentId, rowIndex⟩) (other row) predicate =
      .yes

section

variable {codeOf : Nat → Except BuildExecutionError Nat}

theorem selected_of_matches {targets : List Nat} {c e : Nat} {key : ExecutionCodeLiteralKey}
    (hdistinct : OneCodePerKey dictionary)
    (hinjective : ∀ c d e, codeOf c = .ok e → codeOf d = .ok e → c = d)
    (hresolve : ∀ key e, resolve key = .ok (some e) → ∃ c, codeKey dictionary c = some key ∧ codeOf c = .ok e)
    (htargets : targetCodes resolve request.matchMode request.canonicalLiterals = .ok (some targets))
    (hmatches : Matches (storedKey dictionary segments address) request)
    (hcode : storedCode segments address request.propertyId = some c)
    (hkey : codeKey dictionary c = some key) (he : codeOf c = .ok e) :
    isSelected request.matchMode (decide (e ∈ targets)) := by
  obtain ⟨hmem, hall⟩ := targetCodes_some htargets
  obtain ⟨value, hvalue, hiff⟩ := hmatches
  obtain rfl : key = value := by
    rw [storedKey, hcode, bind_some, hkey] at hvalue
    exact some.inj hvalue
  cases hmode : request.matchMode with
  | includes =>
    obtain ⟨found, hfound⟩ := hall hmode key (hiff.mp hmode)
    obtain ⟨d, hd, hfound'⟩ := hresolve key found hfound
    obtain rfl := hdistinct d c key hd hkey
    obtain rfl := ok.inj (he.symm.trans hfound')
    simpa [isSelected] using (hmem e).mpr ⟨key, hiff.mp hmode, hfound⟩
  | excludes =>
    rw [isSelected, Bool.not_eq_true', decide_eq_false_iff_not]
    intro hin
    obtain ⟨literal, hliteral, hfound⟩ := (hmem e).mp hin
    obtain ⟨d, hd, hfound'⟩ := hresolve literal e hfound
    obtain rfl := hinjective c d e he hfound'
    rw [hkey] at hd
    cases hd
    rw [hiff.mpr hliteral] at hmode
    cases hmode

/-- The prune keeps the rows that make the predicate TRUE exactly when it does not stop early at a
missing literal, or there is no such row. -/
theorem pruneRequests_sound_iff {prune : LiteralPrune} {predicateCount : Nat}
    (hdistinct : OneCodePerKey dictionary)
    (hinjective : ∀ c d e, codeOf c = .ok e → codeOf d = .ok e → c = d)
    (hresolve : ∀ key e, resolve key = .ok (some e) →
      ∃ c, codeKey dictionary c = some key ∧ codeOf c = .ok e)
    (hmissing : ∀ key, resolve key = .ok none → ∀ c, codeKey dictionary c ≠ some key)
    (hsets : ∀ request ∈ requests, request.objectTypeId = root →
      ∀ targets bitmap pageCount row segmentId rowIndex c,
        bitmapFor request targets = .ok (bitmap, pageCount) →
        surface.rows[row]? = some ⟨root, segmentId, rowIndex⟩ →
        storedCode segments ⟨root, segmentId, rowIndex⟩ request.propertyId = some c →
        ∃ e, codeOf c = .ok e ∧
          (isSelected request.matchMode (decide (e ∈ targets)) → row ∈ bitmap))
    (hcollect : collectExecutionCodePredicateRequests R root predicate = .ok requests)
    (h : pruneRequests resolve bitmapFor predicateCount none 0 requests = .ok (some prune)) :
    (∀ row, MakesTrue R segments surface root dictionary other predicate row → row ∈ prune.bitmap) ↔
      LiteralsPresent dictionary requests ∨
        ∀ row, ¬ MakesTrue R segments surface root dictionary other predicate row := by
  rcases pruneRequests_some h with ⟨hempty, request, hrequest, hnone⟩ | ⟨hall, hrows⟩
  · have habsent : ¬ LiteralsPresent dictionary requests := by
      intro hpresent
      obtain ⟨hmode, key, hkey, hresolved⟩ := targetCodes_none hnone
      obtain ⟨c, hc⟩ := hpresent request hrequest hmode key hkey
      exact hmissing key hresolved c hc
    simp [hempty, habsent]
  · have hpresent : LiteralsPresent dictionary requests := by
      intro request hrequest hmode key hkey
      obtain ⟨codes, bitmap, pageCount, htargets, -⟩ := hall request hrequest
      obtain ⟨e, he⟩ := (targetCodes_some htargets).2 hmode key hkey
      obtain ⟨c, hc, -⟩ := hresolve key e he
      exact ⟨c, hc⟩
    refine iff_of_true ?_ (.inl hpresent)
    rintro row ⟨segmentId, rowIndex, hrow, htrue⟩
    refine hrows row nofun fun request hrequest targets bitmap pageCount htargets hbitmap => ?_
    obtain ⟨hobject, hmatches⟩ := collected_matches predicate requests hcollect htrue request hrequest
    obtain ⟨value, hvalue, -⟩ := id hmatches
    obtain ⟨c, hcode, hkey⟩ := bind_eq_some_iff.mp hvalue
    obtain ⟨e, he, hset⟩ := hsets request hrequest hobject targets bitmap pageCount row segmentId
      rowIndex c hbitmap hrow hcode
    exact hset (selected_of_matches hdistinct hinjective hresolve htargets hmatches hcode hkey he)

variable {prune : LiteralPrune}

/-- Every row that makes the predicate TRUE is in the bitmap of the prune. -/
def KeepsTrueRows (R : TextReading) (segments : List SegmentPages)
    (surface : KernelRows) (root : Nat) (dictionary : FileDictionary)
    (other : Nat → ResolvedPredicate → Truth) (predicate : ResolvedPredicate)
    (prune : LiteralPrune) : Prop :=
  ∀ row, MakesTrue R segments surface root dictionary other predicate row → row ∈ prune.bitmap

theorem executionCodeForCanonical_some {e : Nat}
    (h : executionCodeForCanonical dictionary executionMap key = .ok (some e)) :
    ∃ c, codeKey dictionary c = some key ∧ unsignedExecutionCode executionMap c = .ok e := by
  obtain ⟨fileCode?, hfileCode, h⟩ := of_andThen h
  cases fileCode? with
  | none => cases h
  | some c =>
    obtain ⟨found, hfound, hsome⟩ := map_eq_ok_iff.mp h
    cases hsome
    exact ⟨c, fileCodeForCanonical_some hfileCode, hfound⟩

theorem executionCodeForCanonical_none
    (h : executionCodeForCanonical dictionary executionMap key = .ok none) (c : Nat) :
    codeKey dictionary c ≠ some key := by
  obtain ⟨fileCode?, hfileCode, h⟩ := of_andThen h
  cases fileCode? with
  | none => exact fileCodeForCanonical_none hfileCode c
  | some d =>
    obtain ⟨found, -, hnone⟩ := map_eq_ok_iff.mp h
    cases hnone

section

variable (hdistinct : OneCodePerKey dictionary) (hwhere : scope.wherePredicate = some predicate)
  (hcollect : collectExecutionCodePredicateRequests R root predicate = .ok requests)
  (htyped : PagesTyped segments root requests)
include hdistinct hwhere hcollect htyped

theorem file_prune_keeps_iff
    (h : tryFileCodeLiteralPrune R segments surface scope root (.ok (some dictionary)) =
      .ok (some prune)) :
    KeepsTrueRows R segments surface root dictionary other predicate prune ↔
      LiteralsPresent dictionary requests ∨
        ∀ row, ¬ MakesTrue R segments surface root dictionary other predicate row := by
  unfold tryFileCodeLiteralPrune at h
  split at h
  · cases h
  · simp only [hwhere, hcollect] at h
    obtain ⟨found, hfound, h⟩ := of_andThen h
    cases hfound
    split at h
    · cases h
    · obtain ⟨mounted, hmounted, h⟩ := of_andThen h
      cases hmounted
      have hresolve : ∀ key e, fileCodeForCanonical dictionary key "E_FILE_CODE_LITERAL_PRUNE"
          "single-file FileCode literal prune" = .ok (some e) →
          ∃ c, codeKey dictionary c = some key ∧ ok c = ok (ε := BuildExecutionError) e :=
        fun key e hkey => ⟨e, fileCodeForCanonical_some hkey, rfl⟩
      refine pruneRequests_sound_iff hdistinct (fun c d e hc hd => ?_) hresolve
        (fun key hkey => fileCodeForCanonical_none hkey)
        (fun request hrequest hobject targets bitmap pageCount row segmentId rowIndex c hbitmap hrow
          hcode => ⟨c, rfl, fun hselected => fileCodeBitmap_sets htyped hrequest hobject hrow hcode
            hselected hbitmap⟩) hcollect h
      exact ok.inj (hc.trans hd.symm)

theorem execution_prune_keeps_iff {options : ExecutionRequest} {mount : ExecutionMount}
    (hinjective : ∀ c d e, unsignedExecutionCode executionMap c = .ok e →
      unsignedExecutionCode executionMap d = .ok e → c = d)
    (hdictionary : mount.dictionary = some dictionary)
    (hmap : mount.executionCodeMap = some executionMap)
    (h : tryExecutionCodeFilecodePrune R segments surface scope root (.ok mount) options = .ok (some prune)) :
    KeepsTrueRows R segments surface root dictionary other predicate prune ↔
      LiteralsPresent dictionary requests ∨
        ∀ row, ¬ MakesTrue R segments surface root dictionary other predicate row := by
  unfold tryExecutionCodeFilecodePrune at h
  split at h
  · cases h
  · simp only [hwhere, hcollect] at h
    obtain ⟨found, hfound, h⟩ := of_andThen h
    cases hfound
    split at h
    · cases h
    · obtain ⟨mounted, hmounted, h⟩ := of_andThen h
      cases hmounted
      split at h
      · cases h
      · simp only [hdictionary, hmap] at h
        exact pruneRequests_sound_iff hdistinct hinjective
          (fun key e hkey => executionCodeForCanonical_some hkey)
          (fun key hkey => executionCodeForCanonical_none hkey)
          (fun request hrequest hobject targets bitmap pageCount row segmentId rowIndex c hbitmap
            hrow hcode => executionCodeBitmap_sets htyped hrequest hobject hrow hcode hbitmap)
          hcollect h

end

/-- Neither prune drops a row that makes the predicate TRUE, unless a literal of an including
request is not in the dictionary while some row still makes the predicate TRUE. -/
theorem code_prunes_keep_iff (executionMap : ExecutionCodeMap) (options : ExecutionRequest)
    (mount : ExecutionMount) (hdistinct : OneCodePerKey dictionary)
    (hinjective : ∀ c d e, unsignedExecutionCode executionMap c = .ok e →
      unsignedExecutionCode executionMap d = .ok e → c = d)
    (hdictionary : mount.dictionary = some dictionary)
    (hmap : mount.executionCodeMap = some executionMap)
    (hwhere : scope.wherePredicate = some predicate)
    (hcollect : collectExecutionCodePredicateRequests R root predicate = .ok requests)
    (htyped : PagesTyped segments root requests)
    (h : tryFileCodeLiteralPrune R segments surface scope root (.ok (some dictionary)) =
        .ok (some prune) ∨
      tryExecutionCodeFilecodePrune R segments surface scope root (.ok mount) options =
        .ok (some prune)) :
    KeepsTrueRows R segments surface root dictionary other predicate prune ↔
      LiteralsPresent dictionary requests ∨
        ∀ row, ¬ MakesTrue R segments surface root dictionary other predicate row := by
  rcases h with h | h
  · exact file_prune_keeps_iff hdistinct hwhere hcollect htyped h
  · exact execution_prune_keeps_iff hdistinct hwhere hcollect htyped hinjective hdictionary hmap h

end

/-- Nothing is taken from outside: every byte string is text and none is JSON. -/
def plainText : TextReading where
  utf8Valid := fun _ => true
  jsonValid := fun _ => false
  json_utf8 := nofun
  utf8_string := fun _ => rfl

def levelPath : ResolvedPath := ⟨"level", some 1, some 7, none, "int64", "file_code", none⟩

/-- `level in [1, 2]`. -/
def levelOneOrTwo : ResolvedPredicate :=
  .inList (.path levelPath) [⟨"int64", .signedInteger 1⟩, ⟨"int64", .signedInteger 2⟩]

def levelScope : PlannedScope :=
  ⟨1, true, false, false, false, false, false, false, some 1, some levelOneOrTwo⟩

/-- A dictionary of `Int64` values. -/
def int64Dictionary (values : List Nat) : FileDictionary :=
  values.map fun value => ⟨3, .ok (.rawBytes (leBytes 8 value))⟩

def levelSegments : List SegmentPages :=
  [⟨0, 1, 1, 1, [⟨7, 0, 1, .int64, .fileCode, .fileCodeU32 [some 0]⟩]⟩]

def levelSurface : KernelRows := ⟨[⟨1, 0, 0⟩], by simp⟩

def nothingElse : Nat → ResolvedPredicate → Truth := fun _ _ => .unknown

/-- The row with level 1 matches `level in [1, 2]` and is dropped because 2 is not in the file. -/
theorem absent_literal_drops_match : OneCodePerKey (int64Dictionary [1]) ∧
      MakesTrue plainText levelSegments levelSurface 1 (int64Dictionary [1]) nothingElse
        levelOneOrTwo 0 ∧
      ∃ prune, tryFileCodeLiteralPrune plainText levelSegments levelSurface levelScope 1
        (.ok (some (int64Dictionary [1]))) = .ok (some prune) ∧ 0 ∉ prune.bitmap := by
  refine ⟨oneCodePerKey_of_nodup (by decide), ⟨0, 0, rfl, rfl⟩, ⟨∅, 1, 0, 0⟩, rfl, by decide⟩

/-- With both literals in the dictionary the execution codes keep the row. -/
theorem code_prunes_keep_iff_present :
    KeepsTrueRows plainText levelSegments levelSurface 1 (int64Dictionary [1, 2]) nothingElse
      levelOneOrTwo ⟨{0}, 1, 1, 1⟩ := by
  let mount : ExecutionMount :=
    ⟨true, true, some (int64Dictionary [1, 2]), some [.unsigned 10, .unsigned 20]⟩
  have hcollect : collectExecutionCodePredicateRequests plainText 1 levelOneOrTwo =
      .ok [⟨1, 7, "int64", .includes, [⟨3, leBytes 8 1⟩, ⟨3, leBytes 8 2⟩]⟩] := rfl
  have htyped : PagesTyped levelSegments 1
      [⟨1, 7, "int64", .includes, [⟨3, leBytes 8 1⟩, ⟨3, leBytes 8 2⟩]⟩] := by
    simp [PagesTyped, levelSegments, IsRequested, logicalTypeToCove]
  have hwhere : levelScope.wherePredicate = some levelOneOrTwo := rfl
  refine (code_prunes_keep_iff [.unsigned 10, .unsigned 20] ⟨true, false, true⟩ mount
    (oneCodePerKey_of_nodup (by decide)) (unsignedExecutionCode_injective (by decide)) rfl rfl
    hwhere hcollect htyped (.inr rfl)).mpr (.inl ?_)
  intro request hrequest _ key hkey
  obtain rfl := mem_singleton.mp hrequest
  rcases mem_cons.mp hkey with rfl | hkey
  · exact ⟨0, rfl⟩
  · obtain rfl := mem_singleton.mp hkey
    exact ⟨1, rfl⟩

end CoveFormat.FileCodePruneSoundness
