import CoveFormat.DeltaChain

namespace CoveFormat.DeltaChainOrder

open ByteCodes ExceptRules Temporal DeltaRecords DeltaFile DeltaChain List Except

variable {computeDigest : Digests} {e : CovmDeltaChainExtensionV1}
  {summary : Option CovmDeltaChainSummaryV1} {artifacts : List DeltaArtifact}
  {files : List CoveDeltaFile}

/-- The files lead from one snapshot to another, each continuing the one before. -/
def PathFrom : Id16 → List CoveDeltaFile → Id16 → Prop
  | start, [], finish => start = finish
  | start, f :: fs, finish =>
    f.header.parentSnapshotId = start ∧ PathFrom f.header.snapshotId fs finish

/-- The lineage parent artifact of each file is the one before, first of all `previous`. -/
def LineageFrom : Id16 → List CoveDeltaFile → Prop
  | _, [] => True
  | previous, f :: fs =>
    (∃ p, lineageParentRef f = some p ∧ p.artifactId = previous) ∧
      LineageFrom f.header.deltaArtifactId fs

def CsnAdvances (f g : CoveDeltaFile) : Prop := f.header.csnMax < g.header.csnMin

instance (f g : CoveDeltaFile) : Decidable (CsnAdvances f g) := inferInstanceAs (Decidable (_ < _))

structure AppendOnly (e : CovmDeltaChainExtensionV1) (files : List CoveDeltaFile) : Prop where
  path : PathFrom e.baseSnapshotId files e.resultSnapshotId
  lineage : LineageFrom e.baseArtifactRef.artifactId files
  distinct : (e.baseArtifactRef.artifactId :: files.map (·.header.deltaArtifactId)).Nodup
  csn : files.IsChain CsnAdvances

variable {idx : Nat} {start finish : Id16} {refs : List CovmDeltaArtifactRefV1}

theorem validateOrderedRefs_ok {seen : List Id16}
    (h : validateOrderedRefs idx seen start refs = .ok finish) :
    (refs.map CovmDeltaArtifactRefV1.artifactId).Nodup ∧ ∀ r ∈ refs, r.artifactId ∉ seen := by
  induction refs generalizing idx seen start with
  | nil => simp
  | cons r rs ih =>
    iterate 4 replace h := rest_ok h
    obtain ⟨hfresh, h⟩ := of_reject h
    obtain ⟨hnodup, hseen⟩ := ih h
    have hr : r.artifactId ∉ seen := hfresh
    rw [map_cons, nodup_cons]
    refine ⟨⟨?_, hnodup⟩, forall_mem_cons.mpr ⟨hr, ?_⟩⟩
    · intro hmem
      obtain ⟨q, hq, hqr⟩ := mem_map.mp hmem
      exact hseen q hq (by rw [hqr]; exact mem_cons_self)
    · intro q hq hqs
      exact hseen q hq (mem_cons_of_mem _ hqs)

/-- What the artifact loop says about a file, its artifact and its ref. -/
structure Selected (f : CoveDeltaFile) (p : DeltaArtifact × CovmDeltaArtifactRefV1) : Prop where
  parsed : p.1.parsed = .ok f
  artifactId : f.header.deltaArtifactId = p.2.artifactId

theorem parseSelectedDeltas_ok {pairs : List (DeltaArtifact × CovmDeltaArtifactRefV1)}
    (h : parseSelectedDeltas e summary idx start pairs = .ok (files, finish)) :
    PathFrom start files finish ∧ Forall₂ Selected files pairs ∧
      ∀ i f, files[i]? = some f → validateSummaryEntryAt summary (idx + i) f = .ok () := by
  induction pairs generalizing idx start files with
  | nil =>
    obtain ⟨rfl, rfl⟩ := Prod.mk.inj (ok.inj h)
    exact ⟨rfl, .nil, by simp⟩
  | cons p pairs ih =>
    obtain ⟨f, hf, h⟩ := of_andThen h
    replace h := rest_ok h
    obtain ⟨hmatch, h⟩ := of_reject h
    replace h := rest_ok h
    obtain ⟨hentry, h⟩ := of_check h
    obtain ⟨⟨fs, last⟩, hrest, h⟩ := of_andThen h
    obtain ⟨rfl, rfl⟩ := Prod.mk.inj (ok.inj h)
    obtain ⟨hpath, hsel, hentries⟩ := ih hrest
    have hm := hmatch
    simp only [not_or, not_not] at hm
    obtain ⟨-, -, -, hid, -, -, hparent, -⟩ := hm
    refine ⟨⟨hparent, hpath⟩, .cons ⟨hf, hid⟩ hsel, ?_⟩
    intro i g hg
    cases i with
    | zero =>
      cases hg
      exact hentry
    | succ i =>
      have hi := hentries i g hg
      rwa [Nat.add_right_comm] at hi

theorem lineage_ok {previous : CovmDeltaArtifactRefV1}
    (h : ∀ p ∈ files.zip (previous :: refs), validateLineageParent p.1 p.2 = .ok ())
    (hid : Forall₂ (fun f r => f.header.deltaArtifactId = r.artifactId) files refs) :
    LineageFrom previous.artifactId files := by
  induction hid generalizing previous with
  | nil => trivial
  | @cons f r fs rs hfr _ ih =>
    rw [zip_cons_cons, forall_mem_cons] at h
    obtain ⟨hf, hrest⟩ := h
    refine ⟨?_, by rw [hfr]; exact ih hrest⟩
    rw [validateLineageParent] at hf
    split at hf
    · cases hf
    · rename_i p hp
      replace hf := rest_ok hf
      have hm := of_rejectIf hf
      rw [not_or, not_not] at hm
      exact ⟨p, hp, hm.1⟩

variable {supported : UInt64} {previousCsnMax : Option Nat} {previousCommit : Option (Int × Int)}
  {a : DeltaChainSummaryEntryV1} {entries : List DeltaChainSummaryEntryV1}

theorem validateSummaryEntries_cons
    (h : validateSummaryEntries supported idx previousCsnMax previousCommit (a :: entries) = .ok ()) :
    a.validate supported = .ok () ∧ a.chainOrdinal = idx + 1 ∧
      (∀ m ∈ previousCsnMax, m < a.csnMin) ∧
      (∀ p ∈ previousCommit, a.commitRangePresent = true → p.1 ≤ a.commitTimeStartUs) ∧
      validateSummaryEntries supported (idx + 1) (some a.csnMax)
        (if a.commitRangePresent then some (a.commitTimeStartUs, a.commitTimeEndUs)
          else previousCommit) entries = .ok () := by
  obtain ⟨hvalid, h⟩ := of_check h
  replace h := rest_ok h
  obtain ⟨hord, h⟩ := of_reject h
  obtain ⟨hcsn, h⟩ := of_reject h
  obtain ⟨hcommit, h⟩ := of_reject h
  refine ⟨hvalid, not_not.mp hord, ?_, ?_, h⟩
  · rintro m hm
    obtain rfl := Option.mem_def.mp hm
    have hnot := hcsn
    simpa using hnot
  · rintro p hp hpresent
    obtain rfl := Option.mem_def.mp hp
    have hnot := hcommit
    simp only [hpresent, Option.any_some, Bool.or_eq_true, decide_eq_true_eq, true_and, not_or,
      not_lt] at hnot
    exact hnot.1

theorem validateSummaryEntries_csn
    (h : validateSummaryEntries supported idx previousCsnMax previousCommit entries = .ok ()) :
    entries.IsChain (fun a b => a.csnMax < b.csnMin) := by
  induction entries generalizing idx previousCsnMax previousCommit with
  | nil => exact .nil
  | cons a entries ih =>
    obtain ⟨-, -, -, -, h⟩ := validateSummaryEntries_cons h
    refine isChain_cons.mpr ⟨?_, ih h⟩
    intro b hb
    cases entries with
    | nil => cases hb
    | cons b' entries =>
      cases hb
      exact (validateSummaryEntries_cons h).2.2.1 a.csnMax rfl

theorem isChain_of_forall₂ {α β : Type} {R : α → β → Prop} {S : β → β → Prop} {T : α → α → Prop}
    {as : List α} {bs : List β} (h : Forall₂ R as bs) (hc : bs.IsChain S)
    (hst : ∀ a a' b b', R a b → R a' b' → S b b' → T a a') : as.IsChain T := by
  induction h with
  | nil => exact .nil
  | @cons a b as bs hab h ih =>
    cases h with
    | nil => exact .singleton a
    | @cons a' b' as bs hab' _ =>
      obtain ⟨hbb, hc⟩ := isChain_cons_cons.mp hc
      exact isChain_cons_cons.mpr ⟨hst a a' b b' hab hab' hbb, ih hc⟩

/-- A file agrees with its summary entry. -/
def Summarized (f : CoveDeltaFile) (a : DeltaChainSummaryEntryV1) : Prop :=
  validateDeltaSummaryEntryAgainstDeltaFile a f = .ok ()

structure Validated (computeDigest : Digests) (e : CovmDeltaChainExtensionV1)
    (summary : Option CovmDeltaChainSummaryV1) (artifacts : List DeltaArtifact)
    (files : List CoveDeltaFile) : Prop where
  path : PathFrom e.baseSnapshotId files e.resultSnapshotId
  lineage : LineageFrom e.baseArtifactRef.artifactId files
  distinct : (e.baseArtifactRef.artifactId :: files.map (·.header.deltaArtifactId)).Nodup
  parsed : Forall₂ (fun f a => a.parsed = .ok f) files artifacts
  summarized : ∀ s ∈ summary, Forall₂ Summarized files s.deltaSummaries
  structured : ∀ s ∈ summary, s.validateStructure covmDeltaChainSupportedRequiredFeatures = .ok ()

theorem validateStructure_refs (h : e.validateWithSupportedRequiredDeltaFeatures computeDigest
      covmDeltaChainSupportedRequiredFeatures = .ok ()) :
    ∃ finish, validateOrderedRefs 0 [e.baseArtifactRef.artifactId] e.baseSnapshotId
      e.orderedDeltaArtifactRefs = .ok finish := by
  obtain ⟨h, -⟩ := of_check h
  iterate 9 replace h := rest_ok h
  obtain ⟨finish, h, -⟩ := of_andThen h
  exact ⟨finish, h⟩

variable {s : CovmDeltaChainSummaryV1}

theorem validateAgainstExtension_ok (h : s.validateAgainstDeltaChainExtension e = .ok ()) :
    s.validateStructure covmDeltaChainSupportedRequiredFeatures = .ok () ∧
      s.deltaSummaries.length = e.orderedDeltaArtifactRefs.length := by
  obtain ⟨hs, h⟩ := of_check h
  obtain ⟨hm, -⟩ := of_check h
  have hm := of_rejectIf hm
  simp only [not_or, not_not] at hm
  exact ⟨hs, hm.2.2.2.2⟩

theorem summarized_of_entries (hlen : files.length = s.deltaSummaries.length)
    (h : ∀ i f, files[i]? = some f → validateSummaryEntryAt (some s) (0 + i) f = .ok ()) :
    Forall₂ Summarized files s.deltaSummaries := by
  refine forall₂_iff_get.mpr ⟨hlen, fun i hi hj => ?_⟩
  have hentry := h i _ (List.getElem?_eq_getElem hi)
  rw [Nat.zero_add, validateSummaryEntryAt] at hentry
  simp only [List.getElem?_eq_getElem hj] at hentry
  exact hentry

theorem validateSelectedDeltaChain_ok
    (h : validateSelectedDeltaChain computeDigest e summary artifacts = .ok files) :
    Validated computeDigest e summary artifacts files := by
  obtain ⟨⟨⟩, hext, h⟩ := of_andThen h
  obtain ⟨⟨⟩, -, h⟩ := of_andThen h
  obtain ⟨⟨⟩, hsum, h⟩ := of_andThen h
  obtain ⟨⟨⟩, hlen, h⟩ := of_andThen h
  obtain ⟨⟨fs, last⟩, hparse, h⟩ := of_andThen h
  obtain ⟨⟨⟩, hlast, h⟩ := of_andThen h
  obtain ⟨⟨⟩, hlineage, h⟩ := of_andThen h
  obtain rfl := ok.inj h
  obtain rfl := not_not.mp (of_rejectIf hlast)
  have hlen := not_not.mp (of_rejectIf hlen)
  obtain ⟨finish, hrefs⟩ := validateStructure_refs hext
  obtain ⟨hnodup, hbase⟩ := validateOrderedRefs_ok hrefs
  obtain ⟨hpath, hsel, hentries⟩ := parseSelectedDeltas_ok hparse
  have hparsed : Forall₂ (fun f a => a.parsed = .ok f) fs artifacts := by
    have hmap := (forall₂_map_right_iff (f := Prod.fst)
      (R := fun f (a : DeltaArtifact) => a.parsed = .ok f)).mpr (hsel.imp fun _ _ hs => hs.parsed)
    rwa [map_fst_zip hlen.le] at hmap
  have hids : Forall₂ (fun f r => f.header.deltaArtifactId = r.artifactId) fs
      e.orderedDeltaArtifactRefs := by
    have hmap := (forall₂_map_right_iff (f := Prod.snd)
      (R := fun f (r : CovmDeltaArtifactRefV1) => f.header.deltaArtifactId = r.artifactId)).mpr
      (hsel.imp fun _ _ hs => hs.artifactId)
    rwa [map_snd_zip hlen.ge] at hmap
  have hmapids : fs.map (·.header.deltaArtifactId) =
      e.orderedDeltaArtifactRefs.map CovmDeltaArtifactRefV1.artifactId :=
    forall₂_eq_eq_eq ▸ forall₂_map_left_iff.mpr (forall₂_map_right_iff.mpr hids)
  refine ⟨hpath, lineage_ok (fun p hp => checkAll_eq_ok_iff.mp hlineage p hp) hids, ?_, hparsed,
    ?_, ?_⟩
  · rw [hmapids, nodup_cons]
    refine ⟨fun hmem => ?_, hnodup⟩
    obtain ⟨r, hr, hrb⟩ := mem_map.mp hmem
    exact hbase r hr (mem_singleton.mpr hrb)
  · rintro s hs
    obtain rfl := Option.mem_def.mp hs
    obtain ⟨-, hslen⟩ := validateAgainstExtension_ok hsum
    exact summarized_of_entries (hids.length_eq.trans hslen.symm) hentries
  · rintro s hs
    obtain rfl := Option.mem_def.mp hs
    exact (validateAgainstExtension_ok hsum).1

theorem validateStructure_entries (h : s.validateStructure supported = .ok ()) :
    validateSummaryEntries supported 0 none none s.deltaSummaries = .ok () := by
  iterate 4 replace h := rest_ok h
  obtain ⟨algorithm, -, h⟩ := of_andThen h
  replace h := rest_ok h
  obtain ⟨h, -⟩ := of_check h
  exact h

theorem summarized_csn {f : CoveDeltaFile} (h : Summarized f a) :
    a.csnMin ≤ f.header.csnMin ∧ f.header.csnMax ≤ a.csnMax := by
  obtain ⟨hm, -⟩ := of_check h
  have hm := of_rejectIf hm
  simp only [not_or, not_lt] at hm
  exact hm.2.2

theorem csn_of_summary (h : Validated computeDigest e (some s) artifacts files) :
    files.IsChain CsnAdvances := by
  have hchain := validateSummaryEntries_csn (validateStructure_entries (h.structured s rfl))
  refine isChain_of_forall₂ (h.summarized s rfl) hchain ?_
  intro f g a b hf hg hab
  have hfa := (summarized_csn hf).2
  have hgb := (summarized_csn hg).1
  rw [CsnAdvances]
  omega

/-- Neighbouring artifacts whose header CSN ranges do not advance. -/
def Stalls (artifacts : List DeltaArtifact) : Prop :=
  ¬ artifacts.IsChain fun a b =>
    ∀ f g, a.parsed = .ok f → b.parsed = .ok g → CsnAdvances f g

theorem csn_iff (h : Forall₂ (fun f a => a.parsed = .ok f) files artifacts) :
    files.IsChain CsnAdvances ↔ ¬ Stalls artifacts := by
  rw [Stalls, not_not]
  constructor
  · intro hc
    refine isChain_of_forall₂ h.flip hc ?_
    intro a b f g ha hb hfg f' g' ha' hb'
    rw [ha, ok.injEq] at ha'
    rw [hb, ok.injEq] at hb'
    rwa [← ha', ← hb']
  · intro hc
    exact isChain_of_forall₂ h hc fun f g a b ha hb hab => hab f g ha hb

/-- A selected chain is one path of distinct artifacts; that its CSN ranges advance is
checked through the summary only. -/
theorem append_only_iff
    (h : validateSelectedDeltaChain computeDigest e summary artifacts = .ok files) :
    AppendOnly e files ↔ ¬ (summary = none ∧ Stalls artifacts) := by
  have hv := validateSelectedDeltaChain_ok h
  constructor
  · rintro ha ⟨-, hstall⟩
    exact (csn_iff hv.parsed).mp ha.csn hstall
  · intro hn
    refine ⟨hv.path, hv.lineage, hv.distinct, ?_⟩
    cases summary with
    | none => exact (csn_iff hv.parsed).mpr fun hstall => hn ⟨rfl, hstall⟩
    | some s => exact csn_of_summary hv

/-- SHA-256 of the digest material of `twoDeltas`. -/
def twoDeltasDigest : Bytes :=
  [0xc2, 0x65, 0xbe, 0x86, 0x24, 0xe5, 0x1b, 0x79, 0xcd, 0x0d, 0xc5, 0xfb, 0x45, 0x55, 0x04, 0x4d,
    0xcd, 0x85, 0x97, 0x2e, 0xcf, 0x66, 0xd4, 0x1c, 0x9c, 0xf7, 0xef, 0x1b, 0x43, 0x20, 0xcc, 0xdd]

def artifactRef (ordinal : Nat) (artifactId snapshotId parentId : Id16) : CovmDeltaArtifactRefV1 :=
  ⟨ordinal, 0, artifactId, snapshotId, parentId, 400, 0, 1, 32, replicate 32 7, 0, 0⟩

def twoDeltas : CovmDeltaChainExtensionV1 :=
  ⟨covmDeltaChainProfileIdV1, 1, 0, 0, 1, 10, 12, artifactRef 0 100 10 0,
    [artifactRef 1 101 11 10, artifactRef 2 102 12 11], 1, twoDeltasDigest, 0, 0, 0, 0, 0, 0, [],
    0, 0, 0, 0, 0, 0, 1, 100⟩

def digestTwoDeltas : Digests := fun _ _ => twoDeltasDigest

def chainFile (ordinal csnMin csnMax : Nat) (publish : Option (Int × Int)) : CoveDeltaFile where
  header := ⟨if publish.isSome then deltaFlagSourcePublishRangePresent else 0, 0, 0, 100 + ordinal,
    1, 10 + ordinal, 9 + ordinal, ordinal, ordinal, csnMin, csnMax, csnMin, csnMax, 0, 1, 0, 0, 0,
    0, (publish.getD (0, 0)).1, (publish.getD (0, 0)).2⟩
  parentRefs := [⟨0, deltaParentRefLineageParent, 99 + ordinal, 9 + ordinal, 400, 0, 1, 32, 0, 0,
    0, 0, 0, 0⟩]
  sections := []
  footer := ⟨0⟩
  postscript := ⟨0, 0⟩

def chainArtifact (f : CoveDeltaFile) : DeltaArtifact := ⟨400, fun _ => replicate 32 7, .ok f⟩

/-- Without a summary a chain may go back from CSNs 10..11 to 5..6. -/
theorem stalling_chain_accepted : ¬ ∀ (computeDigest : Digests) (e : CovmDeltaChainExtensionV1)
      (summary : Option CovmDeltaChainSummaryV1) (artifacts : List DeltaArtifact)
      (files : List CoveDeltaFile),
      validateSelectedDeltaChain computeDigest e summary artifacts = .ok files →
        AppendOnly e files := by
  intro h
  have hv : validateSelectedDeltaChain digestTwoDeltas twoDeltas none
      [chainArtifact (chainFile 1 10 11 none), chainArtifact (chainFile 2 5 6 none)] =
      .ok [chainFile 1 10 11 none, chainFile 2 5 6 none] := rfl
  have hcsn := (h _ _ _ _ _ hv).csn
  exact absurd (isChain_cons_cons.mp hcsn).1 (by decide)

theorem append_only_iff_two : AppendOnly twoDeltas [chainFile 1 5 6 none, chainFile 2 10 11 none] := by
  have hv : validateSelectedDeltaChain digestTwoDeltas twoDeltas none
      [chainArtifact (chainFile 1 5 6 none), chainArtifact (chainFile 2 10 11 none)] =
      .ok [chainFile 1 5 6 none, chainFile 2 10 11 none] := rfl
  refine (append_only_iff hv).mpr ?_
  rintro ⟨-, hstall⟩
  refine hstall (isChain_cons_cons.mpr ⟨?_, .singleton _⟩)
  intro f g hf hg
  rw [← ok.inj hf, ← ok.inj hg]
  decide

end CoveFormat.DeltaChainOrder
