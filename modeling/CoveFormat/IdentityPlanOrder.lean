import CoveFormat.PlanOrder

namespace CoveFormat.IdentityPlanOrder

open ExceptRules SortedKeys Grouping IdentityKeys IdentityPlanning IdentityComponents GoidSeparation
  PlanOrder List

variable {context : MappingContext} {lib : KeyLibrary}

theorem split_last {α : Type} {c : α} {xs ys ds es : List α} (hd : c ∉ ds) (he : c ∉ es)
    (h : xs ++ c :: ds = ys ++ c :: es) : xs = ys ∧ ds = es := by
  rcases append_eq_append_iff.mp h with ⟨zs, rfl, hzs⟩ | ⟨zs, rfl, hzs⟩
  · cases zs with
    | nil => exact ⟨(append_nil xs).symm, (List.cons.inj hzs).2⟩
    | cons z zs =>
      rw [(List.cons.inj hzs).2] at hd
      exact absurd (mem_append_right _ mem_cons_self) hd
  · cases zs with
    | nil => exact ⟨append_nil ys, (List.cons.inj hzs).2.symm⟩
    | cons z zs =>
      rw [(List.cons.inj hzs).2] at he
      exact absurd (mem_append_right _ mem_cons_self) he

variable {row row' : SourceRow}

theorem sourceRowIdentity_inj (h : sourceRowIdentity row = sourceRowIdentity row') :
    row.sourceId = row'.sourceId ∧ row.rowIndex = row'.rowIndex := by
  have hdigits : ∀ n, ':' ∉ Nat.toDigits 10 n := by
    intro n hmem
    have hdigit := Nat.isDigit_of_mem_toDigits (by decide) (by decide) hmem
    exact absurd hdigit (by decide)
  have htext : ∀ row, (sourceRowIdentity row).toList =
      row.sourceId.toList ++ ':' :: Nat.toDigits 10 row.rowIndex := by
    intro row
    simp [sourceRowIdentity, toString]
  have hlist := congrArg String.toList h
  rw [htext, htext] at hlist
  obtain ⟨hsource, hindex⟩ := split_last (hdigits _) (hdigits _) hlist
  refine ⟨String.toList_inj.mp hsource, ?_⟩
  have hvalue := congrArg (Nat.ofDigitChars 10 · 0) hindex
  simpa only [Nat.ofDigitChars_toDigits (by decide : 1 < 10) (by decide)] using hvalue

def outputsOf (context : MappingContext) (lib : KeyLibrary) (row : SourceRow) : List RowOutput :=
  (planRow lib context row).toOption.getD []

variable {outputs : List RowOutput}

theorem outputsOf_eq (h : planRow lib context row = .ok outputs) : outputsOf context lib row = outputs := by
  rw [outputsOf, h]
  rfl

theorem rowOutputs_eq_ok_iff {rows : List SourceRow} :
    rowOutputs context lib rows = .ok outputs ↔
      (∀ row ∈ rows, ∃ found, planRow lib context row = .ok found) ∧
        outputs = rows.flatMap (outputsOf context lib) := by
  rw [rowOutputs, map_eq_ok_iff]
  simp only [mapM_eq_ok_iff]
  constructor
  · rintro ⟨found, hfound, rfl⟩
    refine ⟨fun row hrow => ?_, ?_⟩
    · obtain ⟨outputs, -, hrow⟩ := forall₂_mem_left hfound hrow
      exact ⟨outputs, hrow⟩
    · rw [flatMap_def]
      congr 1
      induction hfound with
      | nil => rfl
      | cons hrow _ ih => rw [map_cons, outputsOf_eq hrow, ← ih]
  · rintro ⟨hall, rfl⟩
    refine ⟨rows.map (outputsOf context lib), ?_, (flatMap_def).symm⟩
    rw [forall₂_map_right_iff, forall₂_same]
    intro row hrow
    obtain ⟨found, hfound⟩ := hall row hrow
    rw [outputsOf_eq hfound, hfound]

/-- An identity that a row asserts through one of its row rules. -/
def Asserts (context : MappingContext) (lib : KeyLibrary) (row : SourceRow) (a : IdentityKey) : Prop :=
  ∃ rowRule rule objectTypeId evaluation, context.identityRule rowRule.identityRuleId = some rule ∧
    context.typeId rule.objectType = some objectTypeId ∧
    joinKeyTupleFromRule lib rule row objectTypeId = .ok evaluation ∧
    a = identityKey lib context row rowRule rule objectTypeId evaluation

def Matches (lib : KeyLibrary) (row : SourceRow) (candidate : CandidateMatch) : Prop :=
  ∃ rowRule rule evaluation, candidate = candidateMatch lib row rowRule rule evaluation

theorem planRow_output (h : planRow lib context row = .ok outputs) {output : RowOutput}
    (ho : output ∈ outputs) :
    (∃ candidate, output = .candidate candidate ∧ Matches lib row candidate) ∨
      ∃ a, output = .key a ∧ Asserts context lib row a := by
  simp only [planRow, andThen_eq_ok_iff, mapM_eq_ok_iff] at h
  obtain ⟨-, -, h⟩ := h
  obtain ⟨rowRule, -, hrule⟩ := forall₂_mem_left h.flip ho
  simp only [planRowRule, andThen_eq_ok_iff, okOr_eq_ok_iff] at hrule
  obtain ⟨rule, hrule, objectTypeId, htype, evaluation, hevaluation, hout⟩ := hrule
  split at hout
  · exact .inl ⟨_, (Except.ok.inj hout).symm, rowRule, rule, evaluation, rfl⟩
  · exact .inr ⟨_, (Except.ok.inj hout).symm, rowRule, rule, objectTypeId, evaluation, hrule, htype,
      hevaluation, rfl⟩

def rowKeys (context : MappingContext) (lib : KeyLibrary) (row : SourceRow) : List IdentityKey :=
  (outputsOf context lib row).filterMap (·.key?)

def rowCandidates (context : MappingContext) (lib : KeyLibrary) (row : SourceRow) :
    List CandidateMatch :=
  (outputsOf context lib row).filterMap (·.candidate?)

variable {a : IdentityKey}

theorem rowKeys_asserts (h : a ∈ rowKeys context lib row) : Asserts context lib row a := by
  obtain ⟨output, ho, hkey⟩ := mem_filterMap.mp h
  cases hrow : planRow lib context row with
  | error e =>
    rw [outputsOf, hrow] at ho
    cases ho
  | ok outputs =>
    rw [outputsOf_eq hrow] at ho
    rcases planRow_output hrow ho with ⟨candidate, rfl, -⟩ | ⟨b, rfl, hb⟩
    · cases hkey
    · cases hkey
      exact hb

theorem rowCandidates_matches {candidate : CandidateMatch}
    (h : candidate ∈ rowCandidates context lib row) : Matches lib row candidate := by
  obtain ⟨output, ho, hcandidate⟩ := mem_filterMap.mp h
  cases hrow : planRow lib context row with
  | error e =>
    rw [outputsOf, hrow] at ho
    cases ho
  | ok outputs =>
    rw [outputsOf_eq hrow] at ho
    rcases planRow_output hrow ho with ⟨found, rfl, hfound⟩ | ⟨b, rfl, -⟩
    · cases hcandidate
      exact hfound
    · cases hcandidate

theorem identityRule_ruleId {ruleId : String} {rule : MapIdentityRule}
    (h : context.identityRule ruleId = some rule) : rule.ruleId = ruleId := by
  simpa using List.find?_some h

variable {b : IdentityKey}

theorem asserts_twin (ha : Asserts context lib row a) (hb : Asserts context lib row b)
    (hrule : a.identityRuleId = b.identityRuleId) : Twin a b := by
  obtain ⟨rowRule, rule, objectTypeId, evaluation, hra, hta, hea, rfl⟩ := ha
  obtain ⟨rowRule', rule', objectTypeId', evaluation', hrb, htb, heb, rfl⟩ := hb
  have hid : rowRule.identityRuleId = rowRule'.identityRuleId := by
    rw [← identityRule_ruleId hra, ← identityRule_ruleId hrb]
    exact hrule
  obtain rfl := Option.some.inj (hra.symm.trans (hid ▸ hrb))
  obtain rfl := Option.some.inj (hta.symm.trans htb)
  obtain rfl := Except.ok.inj (hea.symm.trans heb)
  rfl

theorem asserts_row (h : Asserts context lib row a) :
    a.sourceId = row.sourceId ∧ a.rowIndex = row.rowIndex ∧
      a.sourceRowIdentity = sourceRowIdentity row := by
  obtain ⟨_, _, _, _, -, -, -, rfl⟩ := h
  exact ⟨rfl, rfl, rfl⟩

theorem asserts_ruleOrder (ha : Asserts context lib row a) (hb : Asserts context lib row' b)
    (h : a.ruleOrder = b.ruleOrder) : a.identityRuleId = b.identityRuleId := by
  obtain ⟨_, rule, _, _, hra, -, -, rfl⟩ := ha
  obtain ⟨_, rule', _, _, -, -, -, rfl⟩ := hb
  have hmem : rule.ruleId ∈ context.identityRules.map (·.ruleId) :=
    mem_map_of_mem (mem_of_find?_eq_some hra)
  exact (idxOf_inj hmem).mp h

section

variable {rows rows' : List SourceRow}

theorem row_unique (hdistinct : (rows.map fun row => (row.sourceId, row.rowIndex)).Nodup)
    {row row' : SourceRow} (hr : row ∈ rows) (hr' : row' ∈ rows)
    (hsource : row.sourceId = row'.sourceId) (hindex : row.rowIndex = row'.rowIndex) : row = row' :=
  inj_on_of_nodup_map hdistinct hr hr' (Prod.ext hsource hindex)

theorem rowKeys_ok (hdistinct : (rows.map fun row => (row.sourceId, row.rowIndex)).Nodup) :
    RowKeys (rows.flatMap (rowKeys context lib)) := by
  constructor
  · intro a ha b hb hanchor
    obtain ⟨row, hr, ha⟩ := mem_flatMap.mp ha
    obtain ⟨row', hr', hb⟩ := mem_flatMap.mp hb
    have ha := rowKeys_asserts ha
    have hb := rowKeys_asserts hb
    simp only [IdentityKey.anchorSortKey, EmbeddingLike.apply_eq_iff_eq, Prod.mk.injEq] at hanchor
    obtain ⟨-, horder, -, -, hidentity⟩ := hanchor
    rw [(asserts_row ha).2.2, (asserts_row hb).2.2] at hidentity
    obtain ⟨hsource, hindex⟩ := sourceRowIdentity_inj hidentity
    obtain rfl := row_unique hdistinct hr hr' hsource hindex
    exact asserts_twin ha hb (asserts_ruleOrder ha hb horder)
  · intro a ha b hb hsource hindex hrule
    obtain ⟨row, hr, ha⟩ := mem_flatMap.mp ha
    obtain ⟨row', hr', hb⟩ := mem_flatMap.mp hb
    have ha := rowKeys_asserts ha
    have hb := rowKeys_asserts hb
    rw [(asserts_row ha).1, (asserts_row hb).1] at hsource
    rw [(asserts_row ha).2.1, (asserts_row hb).2.1] at hindex
    obtain rfl := row_unique hdistinct hr hr' hsource hindex
    exact asserts_twin ha hb hrule

theorem filter_rowKeys (hperm : rows.Perm rows')
    (hdistinct : (rows.map fun row => (row.sourceId, row.rowIndex)).Nodup)
    (sourceId : String) (rowIndex : Nat) (identityRuleId : String) :
    (rows.flatMap (rowKeys context lib)).filter (ofRow sourceId rowIndex identityRuleId) =
      (rows'.flatMap (rowKeys context lib)).filter (ofRow sourceId rowIndex identityRuleId) := by
  refine filter_flatMap_perm (i := (sourceId, rowIndex)) hperm hdistinct fun row _ a ha hof => ?_
  obtain ⟨hsource, hindex, -⟩ := ofRow_iff.mp hof
  obtain ⟨hsource', hindex', -⟩ := asserts_row (rowKeys_asserts ha)
  exact Prod.ext (hsource'.symm.trans hsource) (hindex'.symm.trans hindex)

theorem sort_rowCandidates (hperm : rows.Perm rows')
    (hdistinct : (rows.map fun row => (row.sourceId, row.rowIndex)).Nodup) :
    sortByKey candidateSortKey (rows.flatMap (rowCandidates context lib)) =
      sortByKey candidateSortKey (rows'.flatMap (rowCandidates context lib)) := by
  refine sortByKey_eq_of_under fun sortKey => ?_
  refine filter_flatMap_perm (i := (sortKey.1, sortKey.2.1)) hperm hdistinct
    fun row _ candidate hcandidate hkey => ?_
  obtain ⟨_, _, _, rfl⟩ := rowCandidates_matches hcandidate
  obtain rfl := of_decide_eq_true hkey
  rfl

variable {Goid : Type} [LinearOrder Goid] {goids : GoidLibrary Goid}

theorem planIdentities_of_perm (hperm : rows.Perm rows')
    (hdistinct : (rows.map fun row => (row.sourceId, row.rowIndex)).Nodup)
    {plan : IdentityPlan Goid} (h : planIdentities goids context lib rows = .ok plan) :
    planIdentities goids context lib rows' = .ok plan := by
  simp only [planIdentities, andThen_eq_ok_iff, rowOutputs_eq_ok_iff] at h ⊢
  obtain ⟨_, ⟨hrows, rfl⟩, planned, hplanned, hplan⟩ := h
  cases hplan
  rw [filterMap_flatMap] at hplanned
  obtain ⟨planned', hplanned', hsort⟩ := planKeys_congr (rowKeys_ok hdistinct)
    (filter_rowKeys hperm hdistinct) hplanned
  refine ⟨_, ⟨fun row hrow => hrows row (hperm.mem_iff.mpr hrow), rfl⟩, planned', ?_, ?_⟩
  · rw [filterMap_flatMap]
    exact hplanned'
  · rw [hsort, filterMap_flatMap, filterMap_flatMap]
    congr 2
    exact (sort_rowCandidates hperm hdistinct).symm

/-- Planning does not depend on the order of the rows. -/
theorem planIdentities_perm_iff (hperm : rows.Perm rows')
    (hdistinct : (rows.map fun row => (row.sourceId, row.rowIndex)).Nodup)
    (plan : IdentityPlan Goid) :
    planIdentities goids context lib rows = .ok plan ↔
      planIdentities goids context lib rows' = .ok plan :=
  ⟨planIdentities_of_perm hperm hdistinct,
    planIdentities_of_perm hperm.symm ((hperm.map _).nodup_iff.mp hdistinct)⟩

end

theorem planIdentities_perm_iff_reversed :
    ∃ plan, planIdentities unhashed accountMapping shortTexts accountRows = .ok plan ∧
      planIdentities unhashed accountMapping shortTexts accountRows.reverse = .ok plan := by
  have hok : (planIdentities unhashed accountMapping shortTexts accountRows).toOption.isSome := by
    decide +kernel
  obtain ⟨plan, hplan⟩ := Option.isSome_iff_exists.mp hok
  have hplan := toOption_eq_some_iff.mp hplan
  exact ⟨plan, hplan,
    (planIdentities_perm_iff (reverse_perm accountRows).symm (by decide) plan).mp hplan⟩

end CoveFormat.IdentityPlanOrder
