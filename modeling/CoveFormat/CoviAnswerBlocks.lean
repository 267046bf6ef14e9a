import CoveFormat.CoviIntegers

namespace CoveFormat.CoviAnswerBlocks

open ByteCodes CheckedArith CoviAnswers CoviBuilds CoviIntegers ExceptRules List Option

variable {rowCount nullCount : Nat} {block : CoviAggregateAnswerBlockV2}

section

variable {answer : Answer} {answers : List Answer}

def pushed (rowCount nullCount : Nat) (block : CoviAggregateAnswerBlockV2) (answer : Answer) :
    CoviAggregateAnswerBlockV2 where
  answers := block.answers ++ [⟨block.answers.length, answer.1, rowCount, nullCount, rowCount - nullCount,
    (answer.2.map fun _ => block.payload.length).getD absentRef⟩]
  payload := block.payload ++ answer.2.getD []

theorem pushAggregateAnswer_ok (hpayload : block.payload.length < 2 ^ 32)
    (hcount : block.answers.length < 2 ^ 32) :
    pushAggregateAnswer rowCount nullCount block answer = .ok (pushed rowCount nullCount block answer) := by
  refine andThen_eq_ok_iff.mpr ⟨((answer.2.map fun _ => block.payload.length).getD absentRef,
    block.payload ++ answer.2.getD []), ?_, ?_⟩
  · cases answer.2 with
    | none => exact congrArg (fun payload => Except.ok (absentRef, payload)) (append_nil _).symm
    | some value => exact rejectIf_andThen (not_le.mpr hpayload) rfl
  · exact rejectIf_andThen (not_le.mpr hcount) rfl

/-- An answer whose value, if it has one, is at most eight bytes long. -/
def Short (answer : Answer) : Prop := (answer.2.getD []).length ≤ 8

theorem pushed_payload_length (h : Short answer) :
    (pushed rowCount nullCount block answer).payload.length ≤ block.payload.length + 8 := by
  rw [pushed, length_append]
  exact Nat.add_le_add_left h _

theorem pushed_answers_length :
    (pushed rowCount nullCount block answer).answers.length = block.answers.length + 1 := by
  rw [pushed, length_append, length_singleton]

theorem pushAnswers_ok (hshort : ∀ answer ∈ answers, Short answer)
    (hpayload : block.payload.length + 8 * answers.length < 2 ^ 32)
    (hcount : block.answers.length + answers.length < 2 ^ 32) :
    answers.foldlM (pushAggregateAnswer rowCount nullCount) block =
      .ok (answers.foldl (pushed rowCount nullCount) block) := by
  induction answers generalizing block with
  | nil => rfl
  | cons answer answers ih =>
    obtain ⟨hanswer, hanswers⟩ := forall_mem_cons.mp hshort
    have hnext := @pushed_payload_length rowCount nullCount block answer hanswer
    rw [length_cons] at hpayload hcount
    rw [foldlM_cons, pushAggregateAnswer_ok (by omega) (by omega), foldl_cons]
    exact ih hanswers (by omega) (by rw [pushed_answers_length]; omega)

/-- Every answer counts the rows, and its value, if it has one, begins inside the payload. -/
structure Pushed (rowCount nullCount : Nat) (block : CoviAggregateAnswerBlockV2) : Prop where
  counts : ∀ answer ∈ block.answers, answer.rowCount = rowCount ∧ answer.nullCount = nullCount ∧
    answer.nonNullCount = rowCount - nullCount
  refs : ∀ answer ∈ block.answers, answer.valueRef = absentRef ∨ answer.valueRef ≤ block.payload.length

theorem Pushed.push (h : Pushed rowCount nullCount block) :
    Pushed rowCount nullCount (pushed rowCount nullCount block answer) := by
  constructor
  · exact forall_mem_append.mpr ⟨h.counts, forall_mem_singleton.mpr ⟨rfl, rfl, rfl⟩⟩
  · obtain ⟨kind, value⟩ := answer
    have hle : block.payload.length ≤ (block.payload ++ value.getD []).length := by
      rw [length_append]
      exact Nat.le_add_right _ _
    refine forall_mem_append.mpr ⟨fun a ha => (h.refs a ha).imp_right hle.trans', ?_⟩
    refine forall_mem_singleton.mpr ?_
    cases value with
    | none => exact .inl rfl
    | some value => exact .inr hle

theorem Pushed.foldl (h : Pushed rowCount nullCount block) :
    Pushed rowCount nullCount (answers.foldl (pushed rowCount nullCount) block) := by
  induction answers generalizing block with
  | nil => exact h
  | cons answer answers ih => exact ih h.push

theorem foldl_kinds : (answers.foldl (pushed rowCount nullCount) block).answers.map
    CoviAggregateAnswerV2.aggregateKind =
      block.answers.map CoviAggregateAnswerV2.aggregateKind ++ answers.map Prod.fst := by
  induction answers generalizing block with
  | nil => exact (append_nil _).symm
  | cons answer answers ih =>
    rw [foldl_cons, ih, pushed, map_append, append_assoc]
    rfl

theorem foldl_payload_length (hshort : ∀ answer ∈ answers, Short answer) :
    (answers.foldl (pushed rowCount nullCount) block).payload.length ≤
      block.payload.length + 8 * answers.length := by
  induction answers generalizing block with
  | nil => exact le_rfl
  | cons answer answers ih =>
    obtain ⟨hanswer, hanswers⟩ := forall_mem_cons.mp hshort
    have hrest := @ih (pushed rowCount nullCount block answer) hanswers
    have hnext := @pushed_payload_length rowCount nullCount block answer hanswer
    rw [foldl_cons, length_cons]
    omega

theorem validateCounts_ok (hnull : nullCount ≤ rowCount) (hrows : rowCount < 2 ^ 64)
    (h : Pushed rowCount nullCount block) :
    checkAll CoviAggregateAnswerV2.validateCounts block.answers = .ok () := by
  refine checkAll_eq_ok_iff.mpr fun answer hanswer => ?_
  obtain ⟨hr, hn, hnn⟩ := h.counts answer hanswer
  refine rejectIf_andThen (by omega) ?_
  exact andThen_ok (checkedAdd_ok_iff.mpr ⟨by omega, rfl⟩) (rejectIf_ok (by omega))

variable {answer : CoviAggregateAnswerV2} {before value rest : Bytes} {sum : Option Bytes}

theorem aggregateValuePayload_ok (hpayload : block.payload = before ++ value ++ rest)
    (href : answer.valueRef = before.length) (hvalue : value ≠ [])
      (hsmall : (before ++ value).length < absentRef)
    (hnext : (before ++ value).length ∈ block.answers.map CoviAggregateAnswerV2.valueRef)
    (hothers : ∀ offset ∈ block.answers.map CoviAggregateAnswerV2.valueRef,
      offset = absentRef ∨ offset ≤ before.length ∨ (before ++ value).length ≤ offset) :
    aggregateValuePayload answer block = .ok (some value) := by
  have hpos : 0 < value.length := length_pos_iff.mpr hvalue
  have hfinish : ((block.answers.map CoviAggregateAnswerV2.valueRef).filter fun offset =>
      offset ≠ absentRef ∧ answer.valueRef < offset).min? = some (before ++ value).length := by
    rw [List.min?_eq_some_iff, href]
    rw [length_append] at hsmall hnext hothers ⊢
    refine ⟨mem_filter.mpr ⟨hnext, decide_eq_true ⟨by omega, by omega⟩⟩, fun offset hoffset => ?_⟩
    obtain ⟨hmem, hlater⟩ := mem_filter.mp hoffset
    obtain ⟨hne, hlt⟩ := of_decide_eq_true hlater
    rcases hothers offset hmem with habsent | hle | hge
    · exact absurd habsent hne
    · omega
    · exact hge
  have hne : answer.valueRef ≠ absentRef := by
    rw [length_append] at hsmall
    omega
  rw [aggregateValuePayload, if_neg hne]
  refine rejectIf_andThen ?_ ?_
  · rw [hpayload, href, length_append, length_append]
    omega
  · dsimp only
    rw [hfinish, getD_some, hpayload, take_left, href, drop_left]

theorem storedSum (h : Pushed rowCount nullCount block)
    (hkinds : ∀ answer ∈ block.answers, answer.aggregateKind ≠ .sum)
      (hsmall : block.payload.length + 8 < absentRef)
    (hsum : ∀ value ∈ sum, value.length = 8) (built : BuiltColumnIndex) :
    (ColumnIndex.mk built (some (pushed rowCount nullCount (pushed rowCount nullCount block (.sum, sum))
      (.avg, sum)))).storedAnswer .sum = some (.ok sum) := by
  have hnone : block.answers.find? (fun answer => answer.aggregateKind = .sum) = none :=
    List.find?_eq_none.mpr fun answer hanswer heq => hkinds answer hanswer (of_decide_eq_true heq)
  rw [ColumnIndex.storedAnswer, bind_eq_bind, bind_some]
  have hfind : (pushed rowCount nullCount (pushed rowCount nullCount block (.sum, sum))
      (.avg, sum)).answers.find?
      (fun answer => answer.aggregateKind = .sum) = some ⟨block.answers.length, .sum, rowCount, nullCount,
        rowCount - nullCount, (sum.map fun _ => block.payload.length).getD absentRef⟩ := by
    rw [pushed, pushed, append_assoc, List.find?_append, hnone]
    rfl
  rw [hfind, bind_eq_bind, bind_some]
  refine congrArg some ?_
  cases sum with
  | none => exact if_pos rfl
  | some value =>
    have hlength : value.length = 8 := hsum value rfl
    have hpayload : (pushed rowCount nullCount (pushed rowCount nullCount block (.sum, some value))
        (.avg, some value)).payload = block.payload ++ value ++ value := rfl
    refine aggregateValuePayload_ok hpayload rfl ?_ ?_ ?_ ?_
    · rintro rfl
      cases hlength
    · rwa [length_append, hlength]
    · rw [pushed, map_append]
      exact mem_append_right _ mem_cons_self
    · rw [pushed, pushed, map_append, map_append]
      refine forall_mem_append.mpr ⟨forall_mem_append.mpr ⟨?_, ?_⟩, ?_⟩
      · refine forall_mem_map.mpr fun answer hanswer => ?_
        exact (h.refs answer hanswer).imp_right .inl
      · exact forall_mem_singleton.mpr (.inr (.inl le_rfl))
      · exact forall_mem_singleton.mpr (.inr (.inr le_rfl))

variable {t : IntegerType} {options : CoviBuildOptions} {valueCount : Nat}
  {built : BuiltColumnIndex} {params : AggregateAnswerBlockParams}

/-- An answer that is not the sum, with a short value. -/
def Plain (answer : Answer) : Prop := Short answer ∧ answer.1 ≠ .sum

theorem minMaxPayload_ok {key : Option Bytes} (h : ∀ k ∈ key, ∃ value, k = keyOf t value) :
    ∃ payload, minMaxPayload t key = .ok payload ∧ (payload.getD []).length ≤ 8 := by
  cases key with
  | none => exact ⟨none, rfl, Nat.zero_le _⟩
  | some key =>
    obtain ⟨value, rfl⟩ := h key rfl
    exact ⟨_, map_eq_ok_iff.mpr ⟨_, canonicalPayload_keyOf t value, rfl⟩, (@integerPayload_length value).le⟩

theorem exists_minMaxAnswers (hmin : ∀ key ∈ built.minKey, ∃ value, key = keyOf t value)
    (hmax : ∀ key ∈ built.maxKey, ∃ value, key = keyOf t value) :
    ∃ minMax, minMaxAnswers t params built = .ok minMax ∧ (∀ answer ∈ minMax, Plain answer) ∧
      minMax.length ≤ 2 := by
  rw [minMaxAnswers]
  cases params.includeMinMaxAnswers
  · exact ⟨[], rfl, forall_mem_nil _, Nat.zero_le _⟩
  · obtain ⟨low, hlow, hlowShort⟩ := minMaxPayload_ok hmin
    obtain ⟨high, hhigh, hhighShort⟩ := minMaxPayload_ok hmax
    refine ⟨[(.min, low), (.max, high)], ?_, ?_, le_rfl⟩
    · rw [if_pos rfl, hlow, hhigh]
      rfl
    · exact forall_mem_cons.mpr ⟨⟨hlowShort, nofun⟩, forall_mem_singleton.mpr ⟨hhighShort, nofun⟩⟩

theorem exists_aggregateAnswers (hmin : ∀ key ∈ built.minKey, ∃ value, key = keyOf t value)
    (hmax : ∀ key ∈ built.maxKey, ∃ value, key = keyOf t value) :
    ∃ front, aggregateAnswers t params built = .ok (front ++
      if params.includeSumAvgAnswers then [(.sum, built.sumPayload), (.avg, built.sumPayload)] else []) ∧
      (∀ answer ∈ front, Plain answer) ∧ front.length ≤ 5 := by
  obtain ⟨minMax, hrun, hplain, hlength⟩ := @exists_minMaxAnswers t built params hmin hmax
  have hoption (included : Bool) (answer : Answer) (h : Plain answer) :
      (∀ a ∈ (if included then [answer] else []), Plain a) ∧
        (if included then [answer] else []).length ≤ 1 := by
    cases included
    · exact ⟨forall_mem_nil _, Nat.zero_le _⟩
    · exact ⟨forall_mem_singleton.mpr h, le_rfl⟩
  obtain ⟨hcounts, hcountsLength⟩ :=
      hoption params.options.includeIndexOnlyCounts (.count, none) ⟨Nat.zero_le _, nofun⟩
  obtain ⟨hexists, hexistsLength⟩ :=
    hoption params.options.includeIndexOnlyExists (.existence, none) ⟨Nat.zero_le _, nofun⟩
  obtain ⟨hdistinct, hdistinctLength⟩ := hoption params.options.includeIndexOnlyDistinctCount
    (.distinctCount, some (leBytes 8 built.distinctCount)) ⟨(leBytes_length 8 _).le, nofun⟩
  refine ⟨_, andThen_ok hrun rfl, ?_, ?_⟩
  · exact forall_mem_append.mpr ⟨forall_mem_append.mpr
      ⟨forall_mem_append.mpr ⟨hcounts, hexists⟩, hplain⟩, hdistinct⟩
  · rw [length_append, length_append, length_append]
    omega

theorem exists_answerIndex (hentries : 60 * built.entries.length < 2 ^ 32)
    (hnull : built.nullCount ≤ valueCount)
    (hvalues : valueCount < 2 ^ 64) (hmin : ∀ key ∈ built.minKey, ∃ value, key = keyOf t value)
    (hmax : ∀ key ∈ built.maxKey, ∃ value, key = keyOf t value)
    (hsum : ∀ value ∈ built.sumPayload, value.length = 8) :
    ∃ index, answerIndex t options valueCount built = .ok index ∧
      ((answerParams options valueCount built).includeSumAvgAnswers = true →
        index.storedAnswer .sum = some (.ok built.sumPayload)) := by
  set params := answerParams options valueCount built with hparams
  by_cases hinclude : params.includeAggregateBlock = true
  · obtain ⟨front, hanswers, hplain, hfront⟩ := @exists_aggregateAnswers t built params hmin hmax
    have hentryBlock : serializeEntryBlock built.entries = .ok () :=
      rejectIf_andThen (by omega) (rejectIf_ok (by omega))
    set stored : List Answer :=
      if params.includeSumAvgAnswers then [(.sum, built.sumPayload), (.avg, built.sumPayload)]
      else [] with hstored
    have hsumShort : Short (.sum, built.sumPayload) := by
      cases hpayload : built.sumPayload with
      | none => exact Nat.zero_le _
      | some value => exact (hsum value hpayload).le
    have hstoredShort : (∀ answer ∈ stored, Short answer) ∧ stored.length ≤ 2 := by
      rw [hstored]
      cases params.includeSumAvgAnswers
      · exact ⟨forall_mem_nil _, Nat.zero_le _⟩
      · exact ⟨forall_mem_cons.mpr ⟨hsumShort, forall_mem_singleton.mpr hsumShort⟩, le_rfl⟩
    have hshort : ∀ answer ∈ front ++ stored, Short answer :=
      forall_mem_append.mpr ⟨fun answer hanswer => (hplain answer hanswer).1, hstoredShort.1⟩
    have hlength : (front ++ stored).length ≤ 7 := by
      rw [length_append]
      omega
    set before := front.foldl (pushed valueCount built.nullCount) ⟨[], []⟩ with hbefore
    have hpushed : Pushed valueCount built.nullCount before :=
      Pushed.foldl ⟨forall_mem_nil _, forall_mem_nil _⟩
    have hpushes := @pushAnswers_ok valueCount built.nullCount ⟨[], []⟩ (front ++ stored) hshort
      (by simp only [length_nil]; omega) (by simp only [length_nil]; omega)
    rw [List.foldl_append, ← hbefore] at hpushes
    have hblock : aggregateAnswerBlock t params built =
        .ok (stored.foldl (pushed valueCount built.nullCount) before) := by
      refine rejectIf_andThen (not_lt.mpr hnull) ?_
      refine andThen_ok hanswers (andThen_ok hpushes ?_)
      exact andThen_ok (validateCounts_ok hnull hvalues hpushed.foldl) rfl
    refine ⟨⟨built, some (stored.foldl (pushed valueCount built.nullCount) before)⟩, ?_, fun hincluded => ?_⟩
    · refine (if_pos hinclude).trans ?_
      rw [hentryBlock, hblock]
      rfl
    · rw [hstored, if_pos hincluded]
      refine storedSum hpushed (fun answer hanswer => ?_) ?_ hsum built
      · have hkind := mem_map_of_mem (f := CoviAggregateAnswerV2.aggregateKind) hanswer
        rw [hbefore, foldl_kinds] at hkind
        obtain ⟨plain, hplainMem, heq⟩ := mem_map.mp hkind
        exact heq ▸ (hplain plain hplainMem).2
      · have hle := @foldl_payload_length valueCount built.nullCount ⟨[], []⟩ front fun answer hanswer =>
          (hplain answer hanswer).1
        rw [← hbefore] at hle
        rw [absentRef]
        simp only [length_nil] at hle
        omega
  · have hnone : params.includeSumAvgAnswers = false := by
      rw [AggregateAnswerBlockParams.includeAggregateBlock, Bool.or_eq_true, not_or] at hinclude
      exact Bool.eq_false_iff.mpr hinclude.2
    exact ⟨⟨built, none⟩, if_neg hinclude, fun h => absurd (hnone.symm.trans h) Bool.false_ne_true⟩

end

end CoveFormat.CoviAnswerBlocks
