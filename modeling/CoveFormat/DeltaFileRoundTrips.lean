import CoveFormat.DeltaFileBytes

namespace CoveFormat.DeltaFileRoundTrips

open ByteCodes ExceptRules FixedFields DeltaWire DeltaFileBytes
open List hiding Vector
open DeltaRecords (CoveDeltaSectionKind deltaParentRefLineageParent)

def userFields (h : CoveDeltaHeaderV1) : CoveDeltaHeaderV1 :=
  { h with
    parentRefCount := 0
    sectionCount := 0
    sectionDirectoryOffset := 0
    sectionDirectoryLength := 0
    parentRefsOffset := 0
    parentRefsLength := 0
    checksum := 0 }

def unsealed (p : DeltaParentRefV1) : DeltaParentRefV1 := { p with checksum := 0 }

/-- The second file has the contents of the first. -/
structure SameContents (f g : CoveDeltaFile) : Prop where
  parentRefs : g.parentRefs.map unsealed = f.parentRefs.map unsealed
  sections : g.sections.map (fun s => (s.entry.sectionKind, s.payload)) =
    f.sections.map (fun s => (s.entry.sectionKind, s.payload))
  sectionIds : Forall₂ (fun s t => s.entry.sectionId ≠ 0 → t.entry.sectionId = s.entry.sectionId)
    f.sections g.sections
  header : userFields g.header = userFields f.header

def RoundTrips (crc32c : Bytes → UInt32) (f : CoveDeltaFile) : Prop :=
  ∀ bytes, f.serialize crc32c = .ok bytes →
    ∃ g, CoveDeltaFile.parse crc32c bytes = .ok g ∧ SameContents f g

/-- No section has the number of a place where the id was left open. -/
def NoIdClash (ss : List CoveDeltaSection) : Prop :=
  ∀ i s, ss[i]? = some s → s.entry.sectionId = 0 →
    ∀ t ∈ ss, t.entry.sectionId ≠ UInt32.ofNat (i + 1)

section

variable {crc32c : Bytes → UInt32} {f : CoveDeltaFile}

variable {index offset : Nat} {ss : List CoveDeltaSection}

theorem fillSections_same :
    Forall₂ (fun s t => t.entry.sectionKind = s.entry.sectionKind ∧ t.payload = s.payload ∧
        (s.entry.sectionId ≠ 0 → t.entry.sectionId = s.entry.sectionId)) ss
      ((fillSections crc32c index offset ss).map (CoveDeltaSection.stamped crc32c)) := by
  induction ss generalizing index offset with
  | nil => exact .nil
  | cons s ss ih =>
    exact .cons ⟨rfl, rfl, fun h => if_neg h⟩ ih

theorem sameContents_stamped : SameContents f (f.stamped crc32c) where
  parentRefs := by
    rw [CoveDeltaFile.stamped, map_map]
    rfl
  sections := (map_eq_of_forall₂ fillSections_same fun s t h => by rw [h.1, h.2.1]).symm
  sectionIds := fillSections_same.imp fun _ _ h => h.2.2
  header := rfl

theorem getElem?_sectionIds_fillSections (i : Nat) :
    (sectionIds (fillSections crc32c index offset ss))[i]? = (ss[i]?).map fun s =>
      if s.entry.sectionId = 0 then UInt32.ofNat (index + i + 1) else s.entry.sectionId := by
  induction ss generalizing index offset i with
  | nil => rfl
  | cons s ss ih =>
    rw [fillSections, sectionIds, map_cons]
    cases i with
    | zero => rfl
    | succ i =>
      rw [List.getElem?_cons_succ, List.getElem?_cons_succ]
      refine Eq.trans (ih i) ?_
      rw [show index + 1 + i = index + (i + 1) by omega]

theorem ofNat_ne_zero {i : Nat} (h : i < 2 ^ 32) (hpos : 0 < i) : UInt32.ofNat i ≠ 0 := by
  intro heq
  have htoNat := congrArg UInt32.toNat heq
  rw [UInt32.toNat_ofNat_of_lt' h] at htoNat
  exact hpos.ne' htoNat

/-- Distinct ids stay distinct when the open ones are filled in, unless one of them has the
number of an open place. -/
theorem filled_ids_nodup_iff (hids : f.sections.Pairwise fun s t =>
      s.entry.sectionId ≠ 0 → s.entry.sectionId ≠ t.entry.sectionId)
    (hshort : f.sections.length < 2 ^ 32) :
    (sectionIds (f.filledSections crc32c)).Nodup ↔ NoIdClash f.sections := by
  have hget := fun i => @getElem?_sectionIds_fillSections crc32c 0
    (covedeltaHeaderLen + (f.parentBytes crc32c).length) f.sections i
  have hlen : (sectionIds (f.filledSections crc32c)).length = f.sections.length := by
    rw [sectionIds, length_map, CoveDeltaFile.filledSections, fillSections_length]
  simp only [Nat.zero_add] at hget
  rw [nodup_iff_getElem?_ne_getElem?]
  constructor
  · intro hnodup i s hi hzero t ht heq
    obtain ⟨j, hj⟩ := mem_iff_getElem?.mp ht
    have hilt := (List.getElem?_eq_some_iff.mp hi).1
    have hjlt := (List.getElem?_eq_some_iff.mp hj).1
    have hne : t.entry.sectionId ≠ 0 := heq ▸ ofNat_ne_zero (by omega) (by omega)
    have hidi := hget i
    have hidj := hget j
    rw [hi, Option.map_some, if_pos hzero] at hidi
    rw [hj, Option.map_some, if_neg hne, heq] at hidj
    rcases lt_trichotomy i j with hij | rfl | hij
    · exact hnodup i j hij (hlen ▸ hjlt) (hidi.trans hidj.symm)
    · rw [hi] at hj
      cases hj
      exact hne hzero
    · exact hnodup j i hij (hlen ▸ hilt) (hidj.trans hidi.symm)
  · intro hclash i j hij hj heq
    rw [hlen] at hj
    obtain ⟨s, hs⟩ : ∃ s, f.sections[i]? = some s := ⟨_, List.getElem?_eq_getElem (by omega)⟩
    obtain ⟨t, ht⟩ : ∃ t, f.sections[j]? = some t := ⟨_, List.getElem?_eq_getElem hj⟩
    have hidi := hget i
    have hidj := hget j
    rw [hs, Option.map_some] at hidi
    rw [ht, Option.map_some] at hidj
    have hid := Option.some.inj (hidi.symm.trans (heq.trans hidj))
    by_cases hzs : s.entry.sectionId = 0
    · by_cases hzt : t.entry.sectionId = 0
      · -- two open places have different numbers
        rw [if_pos hzs, if_pos hzt] at hid
        have htoNat := congrArg UInt32.toNat hid
        rw [UInt32.toNat_ofNat_of_lt' (show i + 1 < 2 ^ 32 by omega),
          UInt32.toNat_ofNat_of_lt' (show j + 1 < 2 ^ 32 by omega)] at htoNat
        omega
      · rw [if_pos hzs, if_neg hzt] at hid
        exact hclash i s hs hzs t (mem_of_getElem? ht) hid.symm
    · by_cases hzt : t.entry.sectionId = 0
      · rw [if_neg hzs, if_pos hzt] at hid
        exact hclash j t ht hzt s (mem_of_getElem? hs) hid
      · rw [if_neg hzs, if_neg hzt] at hid
        obtain ⟨hi', hsi⟩ := List.getElem?_eq_some_iff.mp hs
        obtain ⟨hj', htj⟩ := List.getElem?_eq_some_iff.mp ht
        have hne := pairwise_iff_getElem.mp hids i j hi' hj' hij
        rw [hsi, htj] at hne
        exact hne hzs hid

end

/-- The condition under which a file is read back: no open id is filled in with an id in use,
the constant fields have their values and the counts fit 32 bits. -/
structure Storable (f : CoveDeltaFile) : Prop where
  header : f.header.Readable
  reserved0 : ∀ s ∈ f.sections, s.entry.reserved0 = 0
  parentCount : f.parentRefs.length < 2 ^ 32
  sectionCount : f.sections.length < 2 ^ 32
  noIdClash : NoIdClash f.sections

theorem round_trips_iff {crc32c : Bytes → UInt32} {f : CoveDeltaFile}
    (hparent : f.parentRefs.countP CoveDeltaFile.isLineageParent = 1)
    (hkinds : ∀ s ∈ f.sections, CoveDeltaSectionKind.fromU16 s.entry.sectionKind.toNat ≠ none)
    (hplain : ∀ s ∈ f.sections, s.entry.encryption = 0)
    (hids : f.sections.Pairwise fun s t =>
      s.entry.sectionId ≠ 0 → s.entry.sectionId ≠ t.entry.sectionId)
    (hlen : (f.fileBytes crc32c).length < 2 ^ 64) :
    RoundTrips crc32c f ↔ Storable f := by
  constructor
  · intro h
    obtain ⟨g, hg, -⟩ := h _ rfl
    obtain ⟨hr, -⟩ := (CoveDeltaFile.parse_fileBytes_ok_iff hlen).mp hg
    exact ⟨hr.header, fun s hs => (hr.sections s hs).reserved0, hr.parentCount, hr.sectionCount,
      (filled_ids_nodup_iff hids hr.sectionCount).mp hr.sectionIds⟩
  · intro h bytes hbytes
    cases hbytes
    refine ⟨f.stamped crc32c, (CoveDeltaFile.parse_fileBytes_ok_iff hlen).mpr ⟨?_, rfl⟩,
      sameContents_stamped⟩
    exact ⟨h.header, h.parentCount, hparent, h.sectionCount,
      fun s hs => ⟨hplain s hs, h.reserved0 s hs, hkinds s hs⟩,
      (filled_ids_nodup_iff hids h.sectionCount).mpr h.noIdClash⟩

def sampleHeader : CoveDeltaHeaderV1 :=
  ⟨magicCovedelta, 1, 0, 238, 0, 0, 0, .replicate 16 1, .replicate 16 2, .replicate 16 3,
    .replicate 16 4, 0, 1, 0, 0, 0, 0, 0, 0, 0, 0, .replicate 16 0, 0, 0, 0, 0, 0, 0, 0, 0, 0, 0, 0, 0⟩

def sampleParent : DeltaParentRefV1 :=
  ⟨0, 0, deltaParentRefLineageParent, .replicate 16 9, .replicate 16 4, 1024, 7, 1, 32, 0, 1, 0, 0,
    0, 0, 0⟩

def sampleSection (sectionId : UInt32) : CoveDeltaSection :=
  ⟨⟨sectionId, 4, 0, 0, 0, 0, 1, 0, 0, 0, 0, 0, 0, 0, 0⟩, [100, 101, 108, 116, 97]⟩

def sampleFile (ids : List UInt32) : CoveDeltaFile :=
  ⟨sampleHeader, [sampleParent], ids.map sampleSection, ⟨0, 0, 0, 0, 0, 0, 0, 0⟩, ⟨0, 0, 0, 0, 0, 0⟩⟩

theorem open_id_clashes :
    let f := sampleFile [2, 0]
    (f.parentRefs.countP CoveDeltaFile.isLineageParent = 1 ∧
      (∀ s ∈ f.sections, CoveDeltaSectionKind.fromU16 s.entry.sectionKind.toNat ≠ none) ∧
      (∀ s ∈ f.sections, s.entry.encryption = 0) ∧
      f.sections.Pairwise fun s t =>
        s.entry.sectionId ≠ 0 → s.entry.sectionId ≠ t.entry.sectionId) ∧
    ¬ RoundTrips castagnoli f := by
  refine ⟨by decide, fun h => ?_⟩
  obtain ⟨g, hg, -⟩ := h _ rfl
  have herror : CoveDeltaFile.parse castagnoli ((sampleFile [2, 0]).fileBytes castagnoli) =
      .error (.badSection "COVEDELTA duplicate section_id") := by decide +kernel
  cases herror.symm.trans hg

theorem round_trips_samples :
    RoundTrips castagnoli (sampleFile [7, 0, 5]) ∧ ¬ RoundTrips castagnoli (sampleFile [2, 0]) := by
  constructor
  · refine (round_trips_iff (by decide) (by decide) (by decide) (by decide)
      (by decide +kernel)).mpr ⟨⟨rfl, rfl, rfl, rfl, rfl, fun _ => ⟨rfl, rfl⟩⟩, by decide,
        by decide, by decide, fun i s hi hzero t ht => ?_⟩
    match i, hi with
    | 0, hi => cases hi; exact absurd hzero (by decide)
    | 1, hi => revert t; decide
    | 2, hi => cases hi; exact absurd hzero (by decide)
  · intro h
    have hstored := (round_trips_iff (by decide) (by decide) (by decide) (by decide)
      (by decide +kernel)).mp h
    exact hstored.noIdClash 1 (sampleSection 0) rfl rfl (sampleSection 2) (by decide) rfl

end CoveFormat.DeltaFileRoundTrips
