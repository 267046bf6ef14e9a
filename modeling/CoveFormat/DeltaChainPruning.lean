import CoveFormat.DeltaChainOrder

namespace CoveFormat.DeltaChainPruning

open ExceptRules DeltaFile DeltaChain DeltaChainOrder List Option

variable {computeDigest : Digests} {e : CovmDeltaChainExtensionV1} {s : CovmDeltaChainSummaryV1}
  {artifacts : List DeltaArtifact} {files : List CoveDeltaFile} {request : CovmDeltaPruneRequest}
  {d : CovmDeltaPruneDecision} {entries : List DeltaChainSummaryEntryV1}

def fileAt (files : List CoveDeltaFile) (ordinal : Nat) : Option CoveDeltaFile :=
  files[ordinal - 1]?

def declaredRange (f : CoveDeltaFile) : Option (Int × Int) :=
  if sourcePublishFlag f then
    some (f.header.sourcePublishRangeStartUs, f.header.sourcePublishRangeEndUs)
  else none

def Disjoint (p q : Int × Int) : Prop := p.2 < q.1 ∨ q.2 < p.1

/-- Every skip is justified by the header of the skipped file. -/
structure PruneSound (files : List CoveDeltaFile) (request : CovmDeltaPruneRequest)
    (d : CovmDeltaPruneDecision) : Prop where
  partition : (d.selectedChainOrdinals ++ d.skipped.map CovmDeltaPruneSkip.chainOrdinal).Perm
    (List.range' 1 files.length)
  csn : ∀ skip ∈ d.skipped, skip.reason = .asOfCsnBeforeDelta →
    ∃ asOf ∈ request.asOfCsn, ∃ f ∈ fileAt files skip.chainOrdinal, asOf < f.header.csnMin
  commit : ∀ skip ∈ d.skipped, skip.reason = .asOfCommitBeforeDelta →
    ∃ asOf ∈ request.asOfCommitTimestampUs, ∃ f ∈ fileAt files skip.chainOrdinal,
      asOf < f.header.commitTimeRangeStartUs
  publish : ∀ skip ∈ d.skipped, skip.reason = .sourcePublishRangeOutsideDelta →
    ∃ wanted ∈ request.sourcePublishRangeUs, ∃ f ∈ fileAt files skip.chainOrdinal,
      ∃ declared ∈ declaredRange f, Disjoint wanted declared
  initial : request.sourcePublishRangeUs = none → ∃ k, d.selectedChainOrdinals = List.range' 1 k

def cutByCsn (request : CovmDeltaPruneRequest) (a : DeltaChainSummaryEntryV1) : Bool :=
  request.asOfCsn.any (· < a.csnMin)

def cutByCommit (request : CovmDeltaPruneRequest) (a : DeltaChainSummaryEntryV1) : Bool :=
  request.asOfCommitTimestampUs.any (· < a.commitTimeStartUs)

def outsidePublish (request : CovmDeltaPruneRequest) (a : DeltaChainSummaryEntryV1) : Bool :=
  request.sourcePublishRangeUs.any fun wanted =>
    wanted.2 < a.sourcePublishRangeStartUs || a.sourcePublishRangeEndUs < wanted.1

/-- A file whose header declares no source-publish range, though its summary entry does
and the entry is neither cut off by the as-of bounds nor in the requested range. -/
def UndeclaredSkip (request : CovmDeltaPruneRequest) (f : CoveDeltaFile)
    (a : DeltaChainSummaryEntryV1) : Prop :=
  sourcePublishFlag f = false ∧ cutByCsn request a = false ∧ cutByCommit request a = false ∧
    outsidePublish request a = true

def reasonFor (request : CovmDeltaPruneRequest) (a : DeltaChainSummaryEntryV1) :
    Option CovmDeltaPruneReason :=
  if cutByCsn request a then some .asOfCsnBeforeDelta
  else if cutByCommit request a then some .asOfCommitBeforeDelta
  else if outsidePublish request a then some .sourcePublishRangeOutsideDelta
  else none

variable {a : DeltaChainSummaryEntryV1} {reason : Option CovmDeltaPruneReason}

theorem pruneBySourcePublish_ok (h : pruneBySourcePublish request a = .ok reason) :
    reason = if outsidePublish request a then some .sourcePublishRangeOutsideDelta else none := by
  rw [pruneBySourcePublish] at h
  split at h
  · rename_i hnone
    cases h
    simp [outsidePublish, hnone]
  · rename_i start finish hsome
    iterate 2 replace h := rest_ok h
    cases h
    simp [outsidePublish, hsome]

theorem pruneEntry_ok (h : pruneEntry request a = .ok reason) : reason = reasonFor request a := by
  rw [pruneEntry] at h
  rw [reasonFor, cutByCsn]
  split at h
  · rename_i hcut
    rw [if_pos hcut, Except.ok.inj h]
  · rename_i hcut
    rw [if_neg hcut]
    rw [pruneByCommit] at h
    split at h
    · rename_i hnone
      rw [cutByCommit, hnone, pruneBySourcePublish_ok h]
      rfl
    · rename_i asOf hsome
      replace h := rest_ok h
      rw [cutByCommit, hsome, any_some]
      split at h
      · rename_i hlt
        rw [if_pos (decide_eq_true hlt), Except.ok.inj h]
      · rename_i hlt
        rw [if_neg (by simpa using hlt), pruneBySourcePublish_ok h]

theorem pruneEntries_ok (h : pruneEntries request entries = .ok d) : d.selectedChainOrdinals =
      (entries.filter fun a => reasonFor request a = none).map
        DeltaChainSummaryEntryV1.chainOrdinal ∧
    d.skipped = entries.filterMap fun a =>
      (reasonFor request a).map fun why => ⟨a.chainOrdinal, why⟩ := by
  induction entries generalizing d with
  | nil =>
    cases h
    exact ⟨rfl, rfl⟩
  | cons a entries ih =>
    obtain ⟨reason, hreason, h⟩ := of_andThen h
    obtain ⟨rest, hrest, h⟩ := of_andThen h
    obtain ⟨hsel, hskip⟩ := ih hrest
    obtain rfl := pruneEntry_ok hreason
    cases hr : reasonFor request a with
    | none | some why =>
      rw [hr] at h
      cases h
      simp [hr, hsel, hskip]

variable {α δ : Type}

theorem map_filterMap_eq {β γ : Type} {r : α → Option β} {f : α → β → γ} {g : γ → δ} {k : α → δ}
    (h : ∀ a b, g (f a b) = k a) (as : List α) :
    (as.filterMap fun a => (r a).map (f a)).map g = (as.filter fun a => r a ≠ none).map k := by
  induction as with
  | nil => rfl
  | cons a as ih =>
    cases hr : r a with
    | none => simpa [hr] using ih
    | some b => simpa [hr, h] using ih

theorem filter_split_perm (p : α → Prop) [DecidablePred p] (k : α → δ) (as : List α) :
    ((as.filter fun a => p a).map k ++ (as.filter fun a => ¬ p a).map k).Perm (as.map k) := by
  rw [← map_append]
  refine List.Perm.map k ?_
  have hsplit := filter_append_perm (fun a => decide (p a)) as
  simpa using hsplit

theorem filter_isInitial {p : α → Bool} {as : List α}
    (h : as.Pairwise fun a b => p b = true → p a = true) : as.filter p <+: as := by
  induction as with
  | nil => exact ⟨[], rfl⟩
  | cons a as ih =>
    obtain ⟨ha, has⟩ := pairwise_cons.mp h
    cases hp : p a with
    | true =>
      rw [filter_cons_of_pos hp]
      exact (prefix_cons_inj a).mpr (ih has)
    | false =>
      have hnone : (a :: as).filter p = [] := by
        refine filter_eq_nil_iff.mpr (forall_mem_cons.mpr ⟨by simp [hp], ?_⟩)
        intro b hb hpb
        rw [ha b hb hpb] at hp
        cases hp
      rw [hnone]
      exact ⟨a :: as, rfl⟩

theorem range'_of_initial {n : Nat} {xs : List Nat} (h : xs <+: List.range' 1 n) :
    ∃ k, xs = List.range' 1 k := by
  obtain ⟨ys, hys⟩ := h
  obtain ⟨k, -, hk, -⟩ := List.range'_eq_append_iff.mp hys.symm
  exact ⟨k, hk⟩

variable {supported : UInt64} {idx : Nat} {previousCsnMax : Option Nat}
  {previousCommit : Option (Int × Int)}

theorem validateSummaryEntries_ordinals
    (h : validateSummaryEntries supported idx previousCsnMax previousCommit entries = .ok ()) :
    entries.map DeltaChainSummaryEntryV1.chainOrdinal = List.range' (idx + 1) entries.length := by
  induction entries generalizing idx previousCsnMax previousCommit with
  | nil => rfl
  | cons a entries ih =>
    obtain ⟨-, hord, -, -, h⟩ := validateSummaryEntries_cons h
    rw [map_cons, hord, ih h, length_cons, List.range'_succ]

theorem entry_csn_le (h : a.validate supported = .ok ()) : a.csnMin ≤ a.csnMax := by
  iterate 4 replace h := rest_ok h
  obtain ⟨hle, -⟩ := of_reject h
  exact not_lt.mp hle

def StartsBefore (a b : DeltaChainSummaryEntryV1) : Prop :=
  a.csnMin ≤ b.csnMin ∧ a.commitTimeStartUs ≤ b.commitTimeStartUs

theorem validateSummaryEntries_starts
    (h : validateSummaryEntries supported idx previousCsnMax previousCommit entries = .ok ())
    (hpresent : ∀ a ∈ entries, a.commitRangePresent = true) : entries.IsChain StartsBefore := by
  induction entries generalizing idx previousCsnMax previousCommit with
  | nil => exact .nil
  | cons a entries ih =>
    obtain ⟨ha, hpresent⟩ := forall_mem_cons.mp hpresent
    obtain ⟨hvalid, -, -, -, h⟩ := validateSummaryEntries_cons h
    refine isChain_cons.mpr ⟨?_, ih h hpresent⟩
    intro b hb
    cases entries with
    | nil => cases hb
    | cons b' entries =>
      obtain rfl := some.inj hb
      obtain ⟨-, -, hcsn, hcommit, -⟩ := validateSummaryEntries_cons h
      have hlt := hcsn a.csnMax rfl
      have hle := entry_csn_le hvalid
      rw [if_pos ha] at hcommit
      exact ⟨by omega, hcommit _ rfl (hpresent b' mem_cons_self)⟩

instance : IsTrans DeltaChainSummaryEntryV1 StartsBefore :=
  ⟨fun _ _ _ h h' => ⟨h.1.trans h'.1, h.2.trans h'.2⟩⟩

theorem cut_starts {b : DeltaChainSummaryEntryV1} (h : StartsBefore a b)
    (hpublish : request.sourcePublishRangeUs = none) (hb : reasonFor request b = none) :
    reasonFor request a = none := by
  have hcsn : cutByCsn request a = true → cutByCsn request b = true := by
    rw [cutByCsn, cutByCsn]
    cases request.asOfCsn with
    | none => exact id
    | some asOf =>
      intro hlt
      exact decide_eq_true (lt_of_lt_of_le (of_decide_eq_true hlt) h.1)
  have hcommit : cutByCommit request a = true → cutByCommit request b = true := by
    rw [cutByCommit, cutByCommit]
    cases request.asOfCommitTimestampUs with
    | none => exact id
    | some asOf =>
      intro hlt
      exact decide_eq_true (lt_of_lt_of_le (of_decide_eq_true hlt) h.2)
  have hout : ∀ x, outsidePublish request x = false := fun x => by rw [outsidePublish, hpublish]; rfl
  rw [reasonFor] at hb ⊢
  split at hb
  · cases hb
  · rename_i hbc
    split at hb
    · cases hb
    · rename_i hbt
      rw [if_neg fun hc => hbc (hcsn hc), if_neg fun hc => hbt (hcommit hc), hout a]
      rfl

variable {f : CoveDeltaFile}

theorem summarized_commit (h : Summarized f a) :
    a.commitRangePresent = true ∧ a.commitTimeStartUs ≤ f.header.commitTimeRangeStartUs := by
  replace h := rest_ok h
  obtain ⟨hm, -⟩ := of_check h
  have hm := of_rejectIf hm
  simp only [not_or, not_not, not_lt] at hm
  exact ⟨hm.1, hm.2.1⟩

theorem summarized_publish (h : Summarized f a) (hflag : sourcePublishFlag f = true) :
    a.sourcePublishRangeStartUs ≤ f.header.sourcePublishRangeStartUs ∧
      f.header.sourcePublishRangeEndUs ≤ a.sourcePublishRangeEndUs := by
  iterate 2 replace h := rest_ok h
  have hm := of_rejectIf h
  simp only [hflag, true_and, not_or, not_lt] at hm
  exact hm.2.2

theorem file_of_entry (hsum : Forall₂ Summarized files entries)
    (hord : entries.map DeltaChainSummaryEntryV1.chainOrdinal = List.range' 1 entries.length)
    (ha : a ∈ entries) : ∃ f ∈ fileAt files a.chainOrdinal, Summarized f a := by
  obtain ⟨i, hi, rfl⟩ := getElem_of_mem ha
  have hlen := hsum.length_eq
  have ho : entries[i].chainOrdinal = i + 1 := by
    have hget := congrArg (fun xs => xs[i]?) hord
    simp only [List.getElem?_map, List.getElem?_eq_getElem hi, map_some,
      List.getElem?_range' hi, some.injEq] at hget
    omega
  have hif : i < files.length := by omega
  refine ⟨files[i], ?_, ?_⟩
  · rw [fileAt, ho]
    exact List.getElem?_eq_getElem hif
  · exact (forall₂_iff_get.mp hsum).2 i hif hi

theorem mem_skipped (h : pruneEntries request entries = .ok d) {skip : CovmDeltaPruneSkip} :
    skip ∈ d.skipped ↔
      ∃ a ∈ entries, reasonFor request a = some skip.reason ∧ a.chainOrdinal = skip.chainOrdinal := by
  rw [(pruneEntries_ok h).2, mem_filterMap]
  constructor
  · rintro ⟨a, ha, hmap⟩
    obtain ⟨why, hwhy, rfl⟩ := map_eq_some_iff.mp hmap
    exact ⟨a, ha, hwhy, rfl⟩
  · rintro ⟨a, ha, hwhy, hord⟩
    exact ⟨a, ha, map_eq_some_iff.mpr ⟨_, hwhy, by rw [hord]⟩⟩

theorem reason_csn :
    reasonFor request a = some .asOfCsnBeforeDelta ↔ cutByCsn request a = true := by
  rw [reasonFor]
  grind

theorem reason_commit (h : reasonFor request a = some .asOfCommitBeforeDelta) :
    cutByCommit request a = true := by
  rw [reasonFor] at h
  grind

theorem reason_publish :
    reasonFor request a = some .sourcePublishRangeOutsideDelta ↔
      cutByCsn request a = false ∧ cutByCommit request a = false ∧
        outsidePublish request a = true := by
  rw [reasonFor]
  grind

section

variable (hsum : Summarized f a)
include hsum

theorem publish_sound (hflag : sourcePublishFlag f = true) (hout : outsidePublish request a = true) :
    ∃ wanted ∈ request.sourcePublishRangeUs, ∃ declared ∈ declaredRange f,
      Disjoint wanted declared := by
  rw [outsidePublish] at hout
  cases hr : request.sourcePublishRangeUs with
  | none =>
    rw [hr] at hout
    cases hout
  | some wanted =>
    rw [hr, any_some, Bool.or_eq_true, decide_eq_true_eq, decide_eq_true_eq] at hout
    obtain ⟨hstart, hend⟩ := summarized_publish hsum hflag
    refine ⟨wanted, rfl, _, by rw [declaredRange, if_pos hflag]; exact rfl, ?_⟩
    exact hout.imp (lt_of_lt_of_le · hstart) (lt_of_le_of_lt hend ·)

theorem csn_sound (hcut : cutByCsn request a = true) : ∃ asOf ∈ request.asOfCsn, asOf < f.header.csnMin := by
  rw [cutByCsn] at hcut
  cases hr : request.asOfCsn with
  | none =>
    rw [hr] at hcut
    cases hcut
  | some asOf =>
    rw [hr, any_some, decide_eq_true_eq] at hcut
    exact ⟨asOf, rfl, lt_of_lt_of_le hcut (summarized_csn hsum).1⟩

theorem commit_sound (hcut : cutByCommit request a = true) :
    ∃ asOf ∈ request.asOfCommitTimestampUs, asOf < f.header.commitTimeRangeStartUs := by
  rw [cutByCommit] at hcut
  cases hr : request.asOfCommitTimestampUs with
  | none =>
    rw [hr] at hcut
    cases hcut
  | some asOf =>
    rw [hr, any_some, decide_eq_true_eq] at hcut
    exact ⟨asOf, rfl, lt_of_lt_of_le hcut (summarized_commit hsum).2⟩

end

theorem selected_initial (hsum : Forall₂ Summarized files entries)
    (hvalid : validateSummaryEntries covmDeltaChainSupportedRequiredFeatures 0 none none entries =
      .ok ())
    (hd : pruneEntries request entries = .ok d) (hpublish : request.sourcePublishRangeUs = none) :
    ∃ k, d.selectedChainOrdinals = List.range' 1 k := by
  have hpresent : ∀ a ∈ entries, a.commitRangePresent = true := by
    intro a ha
    obtain ⟨f, -, hf⟩ := file_of_entry hsum (validateSummaryEntries_ordinals hvalid) ha
    exact (summarized_commit hf).1
  have hstarts := isChain_iff_pairwise.mp (validateSummaryEntries_starts hvalid hpresent)
  have hinitial : (entries.filter fun a => reasonFor request a = none) <+: entries := by
    refine filter_isInitial (hstarts.imp fun {a b} hab hb => ?_)
    exact decide_eq_true (cut_starts hab hpublish (of_decide_eq_true hb))
  refine range'_of_initial (n := entries.length) ?_
  rw [(pruneEntries_ok hd).1]
  have hord := validateSummaryEntries_ordinals hvalid
  rw [← hord]
  exact hinitial.map _

theorem partition_perm (hord : entries.map DeltaChainSummaryEntryV1.chainOrdinal =
      List.range' 1 entries.length)
    (hd : pruneEntries request entries = .ok d) :
    (d.selectedChainOrdinals ++ d.skipped.map CovmDeltaPruneSkip.chainOrdinal).Perm
      (List.range' 1 entries.length) := by
  obtain ⟨hsel, hskip⟩ := pruneEntries_ok hd
  have hordinals : d.skipped.map CovmDeltaPruneSkip.chainOrdinal =
      (entries.filter fun a => reasonFor request a ≠ none).map
        DeltaChainSummaryEntryV1.chainOrdinal := by
    rw [hskip]
    refine map_filterMap_eq ?_ entries
    intro a why
    rfl
  rw [hsel, hordinals, ← hord]
  exact filter_split_perm (fun a => reasonFor request a = none) _ entries

/-- Pruning by the summary is sound up to source-publish ranges that a summary entry
declares on its own. -/
theorem chain_prune_sound_iff
    (h : validateSelectedDeltaChain computeDigest e (some s) artifacts = .ok files)
    (hp : s.pruneDeltaChain request = .ok d) :
    PruneSound files request d ↔
      ¬ ∃ a ∈ s.deltaSummaries, ∃ f ∈ fileAt files a.chainOrdinal, UndeclaredSkip request f a := by
  have hv := validateSelectedDeltaChain_ok h
  have hsum := hv.summarized s rfl
  have hvalid := validateStructure_entries (hv.structured s rfl)
  have hord := validateSummaryEntries_ordinals hvalid
  iterate 2 replace hp := rest_ok hp
  constructor
  · rintro hs ⟨a, ha, f, hf, hflag, hcut⟩
    have hskip := (mem_skipped hp).mpr
      ⟨a, ha, reason_publish.mpr hcut, (rfl : _ = (CovmDeltaPruneSkip.mk _ _).chainOrdinal)⟩
    obtain ⟨-, -, g, hg, declared, hdecl, -⟩ := hs.publish _ hskip rfl
    obtain rfl := mem_unique hf hg
    rw [declaredRange, hflag] at hdecl
    cases hdecl
  · intro hn
    refine ⟨?_, ?_, ?_, ?_, selected_initial hsum hvalid hp⟩
    · rw [hsum.length_eq]
      exact partition_perm hord hp
    · intro skip hskip hreason
      obtain ⟨a, ha, hwhy, hao⟩ := (mem_skipped hp).mp hskip
      obtain ⟨f, hf, hfa⟩ := file_of_entry hsum hord ha
      rw [hreason] at hwhy
      obtain ⟨asOf, hasOf, hlt⟩ := csn_sound hfa (reason_csn.mp hwhy)
      exact ⟨asOf, hasOf, f, hao ▸ hf, hlt⟩
    · intro skip hskip hreason
      obtain ⟨a, ha, hwhy, hao⟩ := (mem_skipped hp).mp hskip
      obtain ⟨f, hf, hfa⟩ := file_of_entry hsum hord ha
      rw [hreason] at hwhy
      obtain ⟨asOf, hasOf, hlt⟩ := commit_sound hfa (reason_commit hwhy)
      exact ⟨asOf, hasOf, f, hao ▸ hf, hlt⟩
    · intro skip hskip hreason
      obtain ⟨a, ha, hwhy, hao⟩ := (mem_skipped hp).mp hskip
      obtain ⟨f, hf, hfa⟩ := file_of_entry hsum hord ha
      rw [hreason] at hwhy
      have hcut := reason_publish.mp hwhy
      have hflag : sourcePublishFlag f = true := by
        by_contra hflag
        exact hn ⟨a, ha, f, hf, eq_false_of_ne_true hflag, hcut⟩
      obtain ⟨wanted, hw, declared, hdecl, hdisj⟩ := publish_sound hfa hflag hcut.2.2
      exact ⟨wanted, hw, f, hao ▸ hf, declared, hdecl, hdisj⟩

def declaringEntry (ordinal csnMin csnMax : Nat) : DeltaChainSummaryEntryV1 :=
  ⟨ordinal, artifactRef ordinal (100 + ordinal) (10 + ordinal) (9 + ordinal), 100 + ordinal, 0, 0,
    csnMin, csnMax, csnMin, csnMax, deltaSummaryTimeCommitRangePresent |||
      deltaSummaryTimeSourcePublishRangePresent, deltaSummaryExactnessSourcePublishExact, 100, 200⟩

def twoDeltasSummary : CovmDeltaChainSummaryV1 :=
  ⟨covmDeltaChainSummaryMagic, 1, 0, 122, 1, 12, 1, twoDeltasDigest, 0, 0, 0,
    [declaringEntry 1 5 6, declaringEntry 2 10 11], [], [], []⟩

def laterPublish : CovmDeltaPruneRequest := ⟨none, none, some (300, 400)⟩

def bothSkipped : CovmDeltaPruneDecision :=
  ⟨[], [⟨1, .sourcePublishRangeOutsideDelta⟩, ⟨2, .sourcePublishRangeOutsideDelta⟩]⟩

/-- The headers leave the source-publish range open, the summary excludes both files. -/
theorem undeclared_range_pruned :
    ¬ ∀ (computeDigest : Digests) (e : CovmDeltaChainExtensionV1) (s : CovmDeltaChainSummaryV1)
      (artifacts : List DeltaArtifact) (files : List CoveDeltaFile)
      (request : CovmDeltaPruneRequest) (d : CovmDeltaPruneDecision),
      validateSelectedDeltaChain computeDigest e (some s) artifacts = .ok files →
        s.pruneDeltaChain request = .ok d → PruneSound files request d := by
  intro h
  have hv : validateSelectedDeltaChain digestTwoDeltas twoDeltas (some twoDeltasSummary)
      [chainArtifact (chainFile 1 5 6 none), chainArtifact (chainFile 2 10 11 none)] =
      .ok [chainFile 1 5 6 none, chainFile 2 10 11 none] := rfl
  have hp : twoDeltasSummary.pruneDeltaChain laterPublish = .ok bothSkipped := rfl
  obtain ⟨-, -, f, hf, declared, hdecl, -⟩ :=
    (h _ _ _ _ _ _ _ hv hp).publish _ mem_cons_self rfl
  cases hf
  cases hdecl

theorem chain_prune_sound_iff_two :
    PruneSound [chainFile 1 5 6 (some (120, 130)), chainFile 2 10 11 (some (140, 150))]
      laterPublish bothSkipped := by
  have hv : validateSelectedDeltaChain digestTwoDeltas twoDeltas (some twoDeltasSummary)
      [chainArtifact (chainFile 1 5 6 (some (120, 130))),
        chainArtifact (chainFile 2 10 11 (some (140, 150)))] =
      .ok [chainFile 1 5 6 (some (120, 130)), chainFile 2 10 11 (some (140, 150))] := rfl
  have hp : twoDeltasSummary.pruneDeltaChain laterPublish = .ok bothSkipped := rfl
  refine (chain_prune_sound_iff hv hp).mpr ?_
  rintro ⟨a, ha, f, hf, hflag, -⟩
  simp only [twoDeltasSummary, mem_cons, not_mem_nil, or_false] at ha
  obtain rfl | rfl := ha
  · cases hf
    cases hflag
  · cases hf
    cases hflag

end CoveFormat.DeltaChainPruning
