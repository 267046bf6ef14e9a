import CoveFormat.DeltaWire

namespace CoveFormat.DeltaFileBytes

open ByteCodes ExceptRules FixedFields TakeReaders DeltaWire Option Except
open List hiding Vector
open DeltaRecords (CoveDeltaSectionKind deltaParentRefLineageParent)

structure CoveDeltaSection where
  entry : CoveDeltaSectionDirectoryEntryV1
  payload : Bytes
  deriving DecidableEq

structure CoveDeltaFile where
  header : CoveDeltaHeaderV1
  parentRefs : List DeltaParentRefV1
  sections : List CoveDeltaSection
  footer : CoveDeltaFooterV1
  postscript : CoveDeltaPostscriptV1
  deriving DecidableEq

def covedeltaPostscriptVersionV1 : UInt16 := 1
def covedeltaPostscriptTailSize : Nat := 8

/-- `bytes[start..stop]`. -/
def slice (bytes : Bytes) (start stop : Nat) : Bytes := (bytes.drop start).take (stop - start)

/-- The start and the end of a region, with a 64-bit `usize`. -/
def checkedRange (offset length : UInt64) (totalLen : Nat) : Except CoveError (Nat × Nat) := do
  let stop := offset.toNat + length.toNat
  rejectIf (2 ^ 64 ≤ stop) .arithOverflow
  rejectIf (totalLen < stop) .bufferTooShort
  .ok (offset.toNat, stop)

-- The CRC32C of the checksum package.
variable (crc32c : Bytes → UInt32)

/-- One round of the loop over the sections, at the given index and offset. -/
def CoveDeltaSection.fill (index offset : Nat) (s : CoveDeltaSection) : CoveDeltaSection :=
  { s with entry := { s.entry with
      sectionId :=
        if s.entry.sectionId = 0 then UInt32.ofNat (index + 1) else s.entry.sectionId
      offset := UInt64.ofNat offset
      length := UInt64.ofNat s.payload.length
      uncompressedLength := max s.entry.uncompressedLength (UInt64.ofNat s.payload.length)
      crc32c := crc32c s.payload } }

def fillSections : Nat → Nat → List CoveDeltaSection → List CoveDeltaSection
  | _, _, [] => []
  | index, offset, s :: ss =>
    s.fill crc32c index offset :: fillSections (index + 1) (offset + s.payload.length) ss

namespace CoveDeltaFile

def parentBytes (f : CoveDeltaFile) : Bytes := f.parentRefs.flatMap fun p => p.serialize crc32c

def payloadBytes (f : CoveDeltaFile) : Bytes := f.sections.flatMap CoveDeltaSection.payload

def filledSections (f : CoveDeltaFile) : List CoveDeltaSection :=
  fillSections crc32c 0 (covedeltaHeaderLen + (f.parentBytes crc32c).length) f.sections

def directoryBytes (f : CoveDeltaFile) : Bytes :=
  (f.filledSections crc32c).flatMap fun s => s.entry.serialize crc32c

def directoryOffset (f : CoveDeltaFile) : Nat :=
  covedeltaHeaderLen + (f.parentBytes crc32c).length + f.payloadBytes.length

def footerOffset (f : CoveDeltaFile) : Nat :=
  f.directoryOffset crc32c + (f.directoryBytes crc32c).length

def filledHeader (f : CoveDeltaFile) : CoveDeltaHeaderV1 :=
  { f.header with
    parentRefCount := UInt32.ofNat f.parentRefs.length
    sectionCount := UInt32.ofNat f.sections.length
    parentRefsOffset := UInt64.ofNat covedeltaHeaderLen
    parentRefsLength := UInt64.ofNat (f.parentRefs.length * covedeltaParentRefLen)
    sectionDirectoryOffset := UInt64.ofNat (f.directoryOffset crc32c)
    sectionDirectoryLength :=
      UInt64.ofNat (f.sections.length * covedeltaSectionDirectoryEntryLen) }

def filledFooter (f : CoveDeltaFile) : CoveDeltaFooterV1 where
  headerOffset := 0
  headerLength := UInt64.ofNat covedeltaHeaderLen
  sectionDirectoryOffset := (f.filledHeader crc32c).sectionDirectoryOffset
  sectionDirectoryLength := (f.filledHeader crc32c).sectionDirectoryLength
  sectionCount := (f.filledHeader crc32c).sectionCount
  parentRefCount := (f.filledHeader crc32c).parentRefCount
  footerCrc32c := 0
  checksum := 0

def fileLen (f : CoveDeltaFile) : Nat :=
  f.footerOffset crc32c + covedeltaFooterLen + covedeltaPostscriptLen + covedeltaPostscriptTailSize

def filledPostscript (f : CoveDeltaFile) : CoveDeltaPostscriptV1 where
  requiredDeltaFeatures := f.header.requiredDeltaFeatures
  optionalDeltaFeatures := f.header.optionalDeltaFeatures
  fileLen := UInt64.ofNat (f.fileLen crc32c)
  footerOffset := UInt64.ofNat (f.footerOffset crc32c)
  footerLength := UInt64.ofNat covedeltaFooterLen
  checksum := 0

def tailBytes : Bytes :=
  putU16 covedeltaPostscriptVersionV1 ++ putU16 (UInt16.ofNat covedeltaPostscriptLen) ++
    magicCovedelta.toList

def fileBytes (f : CoveDeltaFile) : Bytes :=
  (f.filledHeader crc32c).serialize crc32c ++ (f.parentBytes crc32c ++ (f.payloadBytes ++
    (f.directoryBytes crc32c ++ ((f.filledFooter crc32c).serialize crc32c ++
      ((f.filledPostscript crc32c).serialize crc32c ++ tailBytes)))))

def serialize (f : CoveDeltaFile) : Except CoveError Bytes := .ok (f.fileBytes crc32c)

section

variable (bytes : Bytes)

/-- The checks of `parse` up to the range of the footer, with the start of the postscript. -/
def parsePostscript : Except CoveError (Nat × CoveDeltaPostscriptV1) := do
  rejectIf (bytes.length < covedeltaPostscriptLen + covedeltaPostscriptTailSize) .bufferTooShort
  let tailStart := bytes.length - covedeltaPostscriptTailSize
  rejectIf (slice bytes (tailStart + 4) (tailStart + 8) ≠ magicCovedelta.toList) .badMagic
  rejectIf (readU16 bytes tailStart ≠ covedeltaPostscriptVersionV1) .badVersion
  let postscriptLen := readU16 bytes (tailStart + 2)
  rejectIf (postscriptLen.toNat ≠ covedeltaPostscriptLen) (.badSection
    ("COVEDELTA postscript_len must be 44, got " ++ toString postscriptLen.toNat))
  rejectIf (tailStart < postscriptLen.toNat) .arithOverflow
  let postscriptStart := tailStart - postscriptLen.toNat
  let postscript ← CoveDeltaPostscriptV1.parse crc32c (slice bytes postscriptStart tailStart)
  rejectIf (postscript.fileLen ≠ UInt64.ofNat bytes.length)
    (.badSection "COVEDELTA postscript file_len mismatch")
  rejectIf (postscript.footerLength ≠ UInt64.ofNat covedeltaFooterLen)
    (.badSection "COVEDELTA footer_length mismatch")
  .ok (postscriptStart, postscript)

def parseFooter (postscriptStart : Nat) (postscript : CoveDeltaPostscriptV1) :
    Except CoveError (Nat × CoveDeltaFooterV1) := do
  let (start, stop) ← checkedRange postscript.footerOffset postscript.footerLength bytes.length
  rejectIf (stop ≠ postscriptStart)
    (.badSection "COVEDELTA footer must immediately precede postscript")
  let footer ← CoveDeltaFooterV1.parse crc32c (slice bytes start stop)
  .ok (start, footer)

def parseHeader (footer : CoveDeltaFooterV1) :
    Except CoveError (Nat × CoveDeltaHeaderV1) := do
  let (start, stop) ← checkedRange footer.headerOffset footer.headerLength bytes.length
  rejectIf (start ≠ 0) (.badSection "COVEDELTA header must start at offset 0")
  let header ← CoveDeltaHeaderV1.parse crc32c (slice bytes start stop)
  rejectIf (footer.headerLength ≠ UInt64.ofNat covedeltaHeaderLen ∨
      header.sectionCount ≠ footer.sectionCount ∨ header.parentRefCount ≠ footer.parentRefCount ∨
      header.sectionDirectoryOffset ≠ footer.sectionDirectoryOffset ∨
      header.sectionDirectoryLength ≠ footer.sectionDirectoryLength)
    (.badSection "COVEDELTA header/footer metadata mismatch")
  .ok (stop, header)

end

def isLineageParent (p : DeltaParentRefV1) : Bool := p.flags &&& deltaParentRefLineageParent != 0

def parseParentRefs (bytes : Bytes) (footer : CoveDeltaFooterV1) (headerEnd : Nat)
    (header : CoveDeltaHeaderV1) : Except CoveError (Nat × List DeltaParentRefV1) := do
  let (start, stop) ← checkedRange header.parentRefsOffset header.parentRefsLength bytes.length
  rejectIf (start ≠ headerEnd)
    (.badSection "COVEDELTA parent refs must immediately follow header")
  -- a 32-bit count of records does not overflow a usize
  rejectIf (stop - start ≠ footer.parentRefCount.toNat * covedeltaParentRefLen)
    (.badSection "COVEDELTA parent refs length mismatch")
  let parentRefs ← (chunksExact covedeltaParentRefLen footer.parentRefCount.toNat
    (slice bytes start stop)).mapM (DeltaParentRefV1.parse crc32c)
  rejectIf (parentRefs.countP isLineageParent ≠ 1)
    (.badSection "COVEDELTA requires exactly one lineage parent ref")
  .ok (stop, parentRefs)

/-- The loop over the directory, with the ids met so far and the payload cursor; the
result ends with the cursor. -/
def parseEntries (bytes : Bytes) (directoryStart : Nat) :
    List UInt32 → Nat → List Bytes → Except CoveError (List CoveDeltaSection × Nat)
  | _, cursor, [] => .ok ([], cursor)
  | seen, cursor, chunk :: chunks => do
      let entry ← CoveDeltaSectionDirectoryEntryV1.parse crc32c chunk
      rejectIf (entry.sectionId ∈ seen) (.badSection "COVEDELTA duplicate section_id")
      rejectIf (CoveDeltaSectionKind.fromU16 entry.sectionKind.toNat = none)
        (.badSection ("unknown COVEDELTA section kind " ++ toString entry.sectionKind.toNat))
      let (start, stop) ← checkedRange entry.offset entry.length bytes.length
      rejectIf (start ≠ cursor ∨ directoryStart < stop) (.badSection
        "COVEDELTA section payload regions must be canonical and non-overlapping")
      let payload := slice bytes start stop
      rejectIf (crc32c payload ≠ entry.crc32c) .checksumMismatch
      let (sections, cursor) ← parseEntries bytes directoryStart (entry.sectionId :: seen) stop chunks
      .ok (⟨entry, payload⟩ :: sections, cursor)

variable (bytes : Bytes)

def parseSections (footerStart : Nat) (footer : CoveDeltaFooterV1) (parentEnd : Nat) :
    Except CoveError (List CoveDeltaSection) := do
  let (start, stop) ←
    checkedRange footer.sectionDirectoryOffset footer.sectionDirectoryLength bytes.length
  rejectIf (stop ≠ footerStart)
    (.badSection "COVEDELTA section directory must immediately precede footer")
  rejectIf (stop - start ≠ footer.sectionCount.toNat * covedeltaSectionDirectoryEntryLen)
    (.badSection "COVEDELTA section directory length mismatch")
  let (sections, cursor) ← parseEntries crc32c bytes start [] parentEnd
    (chunksExact covedeltaSectionDirectoryEntryLen footer.sectionCount.toNat
      (slice bytes start stop))
  rejectIf (cursor ≠ start) (.badSection
    "COVEDELTA section payloads must immediately precede section directory")
  .ok sections

def parse : Except CoveError CoveDeltaFile := do
  let (postscriptStart, postscript) ← parsePostscript crc32c bytes
  let (footerStart, footer) ← parseFooter crc32c bytes postscriptStart postscript
  let (headerEnd, header) ← parseHeader crc32c bytes footer
  let (parentEnd, parentRefs) ← parseParentRefs crc32c bytes footer headerEnd header
  let sections ← parseSections crc32c bytes footerStart footer parentEnd
  .ok ⟨header, parentRefs, sections, footer, postscript⟩

end CoveDeltaFile

section

variable {a b c : Bytes} {start stop total : Nat}

theorem slice_append (hstart : a.length = start) (hstop : start + b.length = stop) :
    slice (a ++ (b ++ c)) start stop = b := by
  rw [slice, drop_left' hstart, take_left' (by omega)]

theorem readU16_append (x : UInt16) (hstart : a.length = start) :
    readU16 (a ++ (putU16 x ++ c)) start = x := by
  rw [readU16, readUint, drop_left' hstart, take_left' (putU16_length x), putU16,
    leNat_leBytes, Nat.mod_eq_of_lt (by simpa using x.toNat_lt), UInt16.ofNat_toNat]

theorem checkedRange_ofNat {offset length : Nat} (h : offset + length ≤ total)
    (htotal : total < 2 ^ 64) :
    checkedRange (UInt64.ofNat offset) (UInt64.ofNat length) total =
      .ok (offset, offset + length) := by
  have hoffset : (UInt64.ofNat offset).toNat = offset :=
    UInt64.toNat_ofNat_of_lt' (show offset < 2 ^ 64 by omega)
  have hlength : (UInt64.ofNat length).toNat = length :=
    UInt64.toNat_ofNat_of_lt' (show length < 2 ^ 64 by omega)
  rw [checkedRange, hoffset, hlength, rejectIf, if_neg (by omega), rejectIf, if_neg (by omega)]
  rfl

variable {crc32c}

theorem fillSections_length {index offset : Nat} {ss : List CoveDeltaSection} :
    (fillSections crc32c index offset ss).length = ss.length := by
  induction ss generalizing index offset with
  | nil => rfl
  | cons s ss ih => rw [fillSections, length_cons, ih, length_cons]

namespace CoveDeltaFile

variable {f : CoveDeltaFile}

theorem parentBytes_length :
    (f.parentBytes crc32c).length = f.parentRefs.length * covedeltaParentRefLen := by
  rw [parentBytes, flatMap_def, length_flatten_eq fun chunk hchunk => ?_, length_map]
  obtain ⟨p, -, rfl⟩ := mem_map.mp hchunk
  exact DeltaParentRefV1.serialize_length

theorem directoryBytes_length : (f.directoryBytes crc32c).length =
    f.sections.length * covedeltaSectionDirectoryEntryLen := by
  rw [directoryBytes, flatMap_def, length_flatten_eq fun chunk hchunk => ?_, length_map,
    filledSections, fillSections_length]
  obtain ⟨s, -, rfl⟩ := mem_map.mp hchunk
  exact CoveDeltaSectionDirectoryEntryV1.serialize_length

theorem fileBytes_length : (f.fileBytes crc32c).length = f.fileLen crc32c := by
  simp only [fileBytes, length_append, CoveDeltaHeaderV1.serialize_length,
    CoveDeltaFooterV1.serialize_length, CoveDeltaPostscriptV1.serialize_length, fileLen,
    footerOffset, directoryOffset, tailBytes, putU16_length, Vector.length_toList,
    covedeltaPostscriptTailSize]
  omega

end CoveDeltaFile

end

section

variable {crc32c} {f : CoveDeltaFile}

namespace CoveDeltaFile

theorem parsePostscript_append {front : Bytes} {p : CoveDeltaPostscriptV1}
    (hfile : p.fileLen = UInt64.ofNat
      (front.length + covedeltaPostscriptLen + covedeltaPostscriptTailSize))
    (hfooter : p.footerLength = UInt64.ofNat covedeltaFooterLen) :
    parsePostscript crc32c (front ++ (p.serialize crc32c ++ tailBytes)) =
      .ok (front.length, p.stamped crc32c) := by
  generalize hbytes : front ++ (p.serialize crc32c ++ tailBytes) = bytes
  have hsize : bytes.length =
      front.length + covedeltaPostscriptLen + covedeltaPostscriptTailSize := by
    rw [← hbytes]
    simp [tailBytes, covedeltaPostscriptTailSize, Nat.add_assoc]
  have htail : bytes.length - covedeltaPostscriptTailSize =
      front.length + covedeltaPostscriptLen := by omega
  have hback : (front ++ p.serialize crc32c).length = front.length + covedeltaPostscriptLen := by
    simp
  have hversion : readU16 bytes (front.length + covedeltaPostscriptLen) =
      covedeltaPostscriptVersionV1 := by
    rw [← hbytes, tailBytes, append_assoc (putU16 _), ← append_assoc front]
    exact readU16_append _ hback
  have hpostscriptLen : readU16 bytes (front.length + covedeltaPostscriptLen + 2) =
      UInt16.ofNat covedeltaPostscriptLen := by
    rw [← hbytes, tailBytes, append_assoc (putU16 _), ← append_assoc front,
      ← append_assoc (front ++ _)]
    exact readU16_append _ (by rw [length_append, hback, putU16_length])
  have hmagic : slice bytes (front.length + covedeltaPostscriptLen + 4)
      (front.length + covedeltaPostscriptLen + 8) = magicCovedelta.toList := by
    have hsplit : bytes = (front ++ p.serialize crc32c ++ putU16 covedeltaPostscriptVersionV1 ++
        putU16 (UInt16.ofNat covedeltaPostscriptLen)) ++ (magicCovedelta.toList ++ []) := by
      rw [← hbytes, tailBytes, append_nil]
      simp only [append_assoc]
    rw [hsplit]
    exact slice_append (by simp [Nat.add_assoc]) (by simp)
  have hpostscript : slice bytes front.length (front.length + covedeltaPostscriptLen) =
      p.serialize crc32c := by
    rw [← hbytes]
    exact slice_append rfl (by rw [CoveDeltaPostscriptV1.serialize_length])
  have hvalue : (UInt16.ofNat covedeltaPostscriptLen).toNat = covedeltaPostscriptLen := rfl
  rw [parsePostscript]
  simp only [htail]
  rw [hmagic, hversion, hpostscriptLen, hvalue, Nat.add_sub_cancel, hpostscript,
    CoveDeltaPostscriptV1.parse_serialize]
  refine rejectIf_andThen (by omega) ?_
  refine unless_andThen rfl ?_
  refine unless_andThen rfl ?_
  refine unless_andThen rfl ?_
  refine rejectIf_andThen (by omega) ?_
  refine andThen_ok rfl ?_
  refine unless_andThen (hsize ▸ hfile) ?_
  exact unless_andThen hfooter rfl

theorem parsePostscript_fileBytes : parsePostscript crc32c (f.fileBytes crc32c) =
    .ok (f.footerOffset crc32c + covedeltaFooterLen, (f.filledPostscript crc32c).stamped crc32c) := by
  have hbytes : f.fileBytes crc32c = ((f.filledHeader crc32c).serialize crc32c ++
      f.parentBytes crc32c ++ f.payloadBytes ++ f.directoryBytes crc32c ++
      (f.filledFooter crc32c).serialize crc32c) ++
        ((f.filledPostscript crc32c).serialize crc32c ++ tailBytes) := by
    simp only [fileBytes, append_assoc]
  have hfront : ((f.filledHeader crc32c).serialize crc32c ++ f.parentBytes crc32c ++
      f.payloadBytes ++ f.directoryBytes crc32c ++ (f.filledFooter crc32c).serialize crc32c).length =
        f.footerOffset crc32c + covedeltaFooterLen := by
    simp [footerOffset, directoryOffset, Nat.add_assoc]
  rw [hbytes, ← hfront]
  exact parsePostscript_append (by rw [hfront]; rfl) rfl

theorem parseFooter_fileBytes (hlen : (f.fileBytes crc32c).length < 2 ^ 64) :
    parseFooter crc32c (f.fileBytes crc32c) (f.footerOffset crc32c + covedeltaFooterLen)
      ((f.filledPostscript crc32c).stamped crc32c) =
      .ok (f.footerOffset crc32c, (f.filledFooter crc32c).stamped crc32c) := by
  have hbytes : f.fileBytes crc32c = ((f.filledHeader crc32c).serialize crc32c ++
      f.parentBytes crc32c ++ f.payloadBytes ++ f.directoryBytes crc32c) ++
        ((f.filledFooter crc32c).serialize crc32c ++
          ((f.filledPostscript crc32c).serialize crc32c ++ tailBytes)) := by
    simp only [fileBytes, append_assoc]
  have hslice : slice (f.fileBytes crc32c) (f.footerOffset crc32c)
      (f.footerOffset crc32c + covedeltaFooterLen) = (f.filledFooter crc32c).serialize crc32c := by
    rw [hbytes]
    exact slice_append (by simp [footerOffset, directoryOffset, Nat.add_assoc]) (by simp)
  have hin : f.footerOffset crc32c + covedeltaFooterLen ≤ (f.fileBytes crc32c).length := by
    rw [fileBytes_length, fileLen]
    omega
  have hrange := checkedRange_ofNat hin hlen
  refine andThen_ok hrange ?_
  refine unless_andThen rfl ?_
  exact andThen_ok (hslice ▸ CoveDeltaFooterV1.parse_serialize) rfl

variable {stop : Nat}

theorem parseHeader_fileBytes {h : CoveDeltaHeaderV1} (hlen : (f.fileBytes crc32c).length < 2 ^ 64) :
    parseHeader crc32c (f.fileBytes crc32c) ((f.filledFooter crc32c).stamped crc32c) =
        .ok (stop, h) ↔
      (f.filledHeader crc32c).Readable ∧ covedeltaHeaderLen = stop ∧
        (f.filledHeader crc32c).stamped crc32c = h := by
  have hslice : slice (f.fileBytes crc32c) 0 covedeltaHeaderLen =
      (f.filledHeader crc32c).serialize crc32c :=
    @slice_append [] _ _ _ _ rfl (by simp)
  have hin : 0 + covedeltaHeaderLen ≤ (f.fileBytes crc32c).length := by
    rw [fileBytes_length, fileLen, footerOffset, directoryOffset]
    omega
  have hrange := checkedRange_ofNat hin hlen
  rw [Nat.zero_add] at hrange
  refine (andThen_iff_of_ok hrange).trans ?_
  simp only [rejectIf_andThen_iff, hslice, ne_eq, not_true, not_false_iff, true_and]
  rw [andThen_eq_ok_iff]
  simp only [CoveDeltaHeaderV1.parse_serialize_ok_iff, rejectIf_andThen_iff, ok.injEq, Prod.mk.injEq]
  constructor
  · rintro ⟨header, ⟨hreadable, rfl⟩, -, rfl, rfl⟩
    exact ⟨hreadable, rfl, rfl⟩
  · rintro ⟨hreadable, rfl, rfl⟩
    refine ⟨_, ⟨hreadable, rfl⟩, ?_, rfl, rfl⟩
    rintro (h | h | h | h | h) <;> exact h rfl

theorem lt_narrowed_iff {n width : Nat} (hwidth : 0 < width) :
    n * width = n % 2 ^ 32 * width ↔ n < 2 ^ 32 := by
  rw [Nat.mul_left_inj hwidth.ne', eq_comm]
  exact Nat.mod_eq_iff_lt (by decide)

theorem parse_parentBytes :
    (chunksExact covedeltaParentRefLen f.parentRefs.length (f.parentBytes crc32c)).mapM
      (DeltaParentRefV1.parse crc32c) =
        .ok (f.parentRefs.map (DeltaParentRefV1.stamped crc32c)) := by
  rw [parentBytes, flatMap_def, ← length_map (DeltaParentRefV1.serialize crc32c),
    chunksExact_flatten fun chunk hchunk => ?_]
  · refine mapM_of_forall₂ (forall₂_map_left_iff.mpr (forall₂_map_right_iff.mpr ?_))
    exact forall₂_same.mpr fun p _ => DeltaParentRefV1.parse_serialize
  · obtain ⟨p, -, rfl⟩ := mem_map.mp hchunk
    exact DeltaParentRefV1.serialize_length

theorem parseParentRefs_fileBytes {parents : List DeltaParentRefV1}
    (hlen : (f.fileBytes crc32c).length < 2 ^ 64) :
    parseParentRefs crc32c (f.fileBytes crc32c) ((f.filledFooter crc32c).stamped crc32c)
        covedeltaHeaderLen ((f.filledHeader crc32c).stamped crc32c) = .ok (stop, parents) ↔
      (f.parentRefs.length < 2 ^ 32 ∧ f.parentRefs.countP isLineageParent = 1) ∧
        covedeltaHeaderLen + (f.parentBytes crc32c).length = stop ∧
        f.parentRefs.map (DeltaParentRefV1.stamped crc32c) = parents := by
  have hslice : slice (f.fileBytes crc32c) covedeltaHeaderLen
      (covedeltaHeaderLen + (f.parentBytes crc32c).length) = f.parentBytes crc32c :=
    slice_append CoveDeltaHeaderV1.serialize_length rfl
  have hrange : checkedRange (UInt64.ofNat covedeltaHeaderLen)
      (UInt64.ofNat (f.parentRefs.length * covedeltaParentRefLen)) (f.fileBytes crc32c).length =
        .ok (covedeltaHeaderLen, covedeltaHeaderLen + (f.parentBytes crc32c).length) := by
    rw [← @parentBytes_length crc32c]
    refine checkedRange_ofNat ?_ hlen
    rw [fileBytes_length, fileLen, footerOffset, directoryOffset]
    omega
  have hcount : ((f.filledFooter crc32c).stamped crc32c).parentRefCount.toNat =
      f.parentRefs.length % 2 ^ 32 := UInt32.toNat_ofNat' ..
  have hlineage : (f.parentRefs.map (DeltaParentRefV1.stamped crc32c)).countP isLineageParent =
      f.parentRefs.countP isLineageParent := countP_map ..
  have hsize : covedeltaHeaderLen + (f.parentBytes crc32c).length - covedeltaHeaderLen =
      f.parentRefs.length * covedeltaParentRefLen := by
    rw [Nat.add_sub_cancel_left, parentBytes_length]
  refine (andThen_iff_of_ok hrange).trans ?_
  simp only [rejectIf_andThen_iff, hsize, hcount, hslice, not_not,
    lt_narrowed_iff (by decide : 0 < covedeltaParentRefLen), true_and, and_assoc]
  refine and_congr_right fun hshort => ?_
  rw [Nat.mod_eq_of_lt hshort, andThen_iff_of_ok parse_parentBytes, rejectIf_andThen_iff, hlineage,
    not_not, ok.injEq,
    Prod.mk.injEq]

end CoveDeltaFile

/-- What the directory loop demands of a section, its id aside. -/
structure CoveDeltaSection.Readable (s : CoveDeltaSection) : Prop where
  encryption : s.entry.encryption = 0
  reserved0 : s.entry.reserved0 = 0
  knownKind : CoveDeltaSectionKind.fromU16 s.entry.sectionKind.toNat ≠ none

def CoveDeltaSection.stamped (crc32c : Bytes → UInt32) (s : CoveDeltaSection) : CoveDeltaSection :=
  { s with entry := s.entry.stamped crc32c }

def sectionIds (ss : List CoveDeltaSection) : List UInt32 := ss.map fun s => s.entry.sectionId

namespace CoveDeltaFile

variable {out : List CoveDeltaSection}

theorem parseEntries_fill {bytes : Bytes} {chunks : List Bytes} {directoryStart index offset : Nat}
    {seen : List UInt32} {s : CoveDeltaSection} {cursor : Nat}
    (hslice : slice bytes offset (offset + s.payload.length) = s.payload)
    (hdir : offset + s.payload.length ≤ directoryStart) (hin : directoryStart ≤ bytes.length)
    (hlen : bytes.length < 2 ^ 64) :
    parseEntries crc32c bytes directoryStart seen offset
        ((s.fill crc32c index offset).entry.serialize crc32c :: chunks) = .ok (out, cursor) ↔
      (s.Readable ∧ (s.fill crc32c index offset).entry.sectionId ∉ seen) ∧
        ∃ rest, parseEntries crc32c bytes directoryStart
            ((s.fill crc32c index offset).entry.sectionId :: seen) (offset + s.payload.length)
            chunks = .ok (rest, cursor) ∧
          (s.fill crc32c index offset).stamped crc32c :: rest = out := by
  have hrange : checkedRange (UInt64.ofNat offset) (UInt64.ofNat s.payload.length)
      bytes.length = .ok (offset, offset + s.payload.length) :=
    checkedRange_ofNat (by omega) hlen
  have hread := @CoveDeltaSectionDirectoryEntryV1.parse_serialize_ok_iff crc32c
    (s.fill crc32c index offset).entry
  constructor
  · intro h
    obtain ⟨entry, hentry, h⟩ := of_andThen h
    obtain ⟨⟨hencryption, hreserved⟩, rfl⟩ := hread.mp hentry
    obtain ⟨hid, h⟩ := of_check h
    obtain ⟨hkind, h⟩ := of_reject h
    obtain ⟨range, hr, h⟩ := of_andThen h
    obtain rfl := ok.inj (hrange.symm.trans hr)
    iterate 2 replace h := rest_ok h
    obtain ⟨⟨rest, cursor'⟩, hrest, h⟩ := of_andThen h
    obtain ⟨rfl, rfl⟩ := Prod.mk.inj (ok.inj h)
    exact ⟨⟨⟨hencryption, hreserved, hkind⟩, of_rejectIf hid⟩, rest, hrest, by rw [hslice]; rfl⟩
  · rintro ⟨⟨hreadable, hid⟩, rest, hrest, rfl⟩
    refine andThen_ok (hread.mpr ⟨⟨hreadable.encryption, hreadable.reserved0⟩, rfl⟩) ?_
    refine rejectIf_andThen hid ?_
    refine rejectIf_andThen hreadable.knownKind ?_
    refine andThen_ok hrange ?_
    refine rejectIf_andThen ?_ ?_
    · rintro (h | h)
      · exact h rfl
      · exact absurd h (by omega)
    · refine unless_andThen ?_ ?_
      · rw [hslice]
        rfl
      · refine andThen_ok hrest ?_
        rw [hslice]
        rfl

theorem parseEntries_fillSections {bytes front rest : Bytes} {directoryStart index offset : Nat}
    {seen : List UInt32} {ss out : List CoveDeltaSection} {cursor : Nat}
    (hbytes : bytes = front ++ (ss.flatMap CoveDeltaSection.payload ++ rest))
    (hfront : front.length = offset)
    (hdir : offset + (ss.flatMap CoveDeltaSection.payload).length ≤ directoryStart)
    (hin : directoryStart ≤ bytes.length) (hlen : bytes.length < 2 ^ 64) :
    parseEntries crc32c bytes directoryStart seen offset
        ((fillSections crc32c index offset ss).map fun s => s.entry.serialize crc32c) =
          .ok (out, cursor) ↔
      ((∀ s ∈ ss, s.Readable) ∧ (sectionIds (fillSections crc32c index offset ss)).Nodup ∧
        ∀ id ∈ sectionIds (fillSections crc32c index offset ss), id ∉ seen) ∧
      (fillSections crc32c index offset ss).map (CoveDeltaSection.stamped crc32c) = out ∧
        offset + (ss.flatMap CoveDeltaSection.payload).length = cursor := by
  induction ss generalizing front index offset seen out with
  | nil =>
    simp [fillSections, sectionIds, parseEntries]
  | cons s ss ih =>
    rw [flatMap_cons, append_assoc] at hbytes
    rw [flatMap_cons, length_append] at hdir
    have hslice : slice bytes offset (offset + s.payload.length) = s.payload := by
      rw [hbytes]
      exact slice_append hfront rfl
    have hnext : (front ++ s.payload).length = offset + s.payload.length := by
      rw [length_append, hfront]
    have ih := fun rest => @ih (front ++ s.payload) (index + 1) (offset + s.payload.length)
      ((s.fill crc32c index offset).entry.sectionId :: seen) rest
      (by rw [hbytes, append_assoc]) hnext (by omega)
    rw [fillSections, map_cons, parseEntries_fill hslice (by omega) hin hlen]
    simp only [ih, sectionIds, map_cons, nodup_cons, forall_eq_or_imp,
      mem_cons, not_or, flatMap_cons, length_append, Nat.add_assoc]
    constructor
    · rintro ⟨⟨hs, hid⟩, rest, ⟨⟨hss, hnodup, hfresh⟩, rfl, rfl⟩, rfl⟩
      exact ⟨⟨⟨hs, hss⟩, ⟨fun h => (hfresh _ h).1 rfl, hnodup⟩, hid,
        fun id h => (hfresh id h).2⟩, rfl, rfl⟩
    · rintro ⟨⟨⟨hs, hss⟩, ⟨hself, hnodup⟩, hid, hfresh⟩, rfl, rfl⟩
      exact ⟨⟨hs, hid⟩, _, ⟨⟨hss, hnodup, fun id h => ⟨fun heq => hself (heq ▸ h), hfresh id h⟩⟩,
        rfl, rfl⟩, rfl⟩

theorem slice_directory : slice (f.fileBytes crc32c) (f.directoryOffset crc32c)
    (f.footerOffset crc32c) = f.directoryBytes crc32c := by
  have hsplit : f.fileBytes crc32c = ((f.filledHeader crc32c).serialize crc32c ++
      f.parentBytes crc32c ++ f.payloadBytes) ++ (f.directoryBytes crc32c ++
        ((f.filledFooter crc32c).serialize crc32c ++
          ((f.filledPostscript crc32c).serialize crc32c ++ tailBytes))) := by
    simp only [fileBytes, append_assoc]
  rw [hsplit]
  exact slice_append (by simp [directoryOffset, Nat.add_assoc]) rfl

theorem chunksExact_directory : chunksExact covedeltaSectionDirectoryEntryLen f.sections.length
    (f.directoryBytes crc32c) =
      (f.filledSections crc32c).map fun s => s.entry.serialize crc32c := by
  have hn : ((f.filledSections crc32c).map fun s => s.entry.serialize crc32c).length =
      f.sections.length := by
    rw [length_map, filledSections, fillSections_length]
  rw [directoryBytes, flatMap_def, ← hn]
  refine chunksExact_flatten fun chunk hchunk => ?_
  obtain ⟨s, -, rfl⟩ := mem_map.mp hchunk
  exact CoveDeltaSectionDirectoryEntryV1.serialize_length

theorem checkedRange_directory (hin : f.footerOffset crc32c ≤ (f.fileBytes crc32c).length)
    (hlen : (f.fileBytes crc32c).length < 2 ^ 64) :
    checkedRange (UInt64.ofNat (f.directoryOffset crc32c))
      (UInt64.ofNat (f.sections.length * covedeltaSectionDirectoryEntryLen))
      (f.fileBytes crc32c).length = .ok (f.directoryOffset crc32c, f.footerOffset crc32c) := by
  rw [← @directoryBytes_length crc32c]
  exact checkedRange_ofNat hin hlen

theorem parseSections_fileBytes (hlen : (f.fileBytes crc32c).length < 2 ^ 64) :
    parseSections crc32c (f.fileBytes crc32c) (f.footerOffset crc32c)
        ((f.filledFooter crc32c).stamped crc32c)
        (covedeltaHeaderLen + (f.parentBytes crc32c).length) = .ok out ↔
      (f.sections.length < 2 ^ 32 ∧ (∀ s ∈ f.sections, s.Readable) ∧
        (sectionIds (f.filledSections crc32c)).Nodup) ∧
      (f.filledSections crc32c).map (CoveDeltaSection.stamped crc32c) = out := by
  have hin : f.footerOffset crc32c ≤ (f.fileBytes crc32c).length := by
    rw [fileBytes_length, fileLen]
    omega
  have hrange := checkedRange_directory hin hlen
  have hcount : ((f.filledFooter crc32c).stamped crc32c).sectionCount.toNat =
      f.sections.length % 2 ^ 32 := UInt32.toNat_ofNat' ..
  have hsize : f.footerOffset crc32c - f.directoryOffset crc32c =
      f.sections.length * covedeltaSectionDirectoryEntryLen := by
    rw [footerOffset, Nat.add_sub_cancel_left, directoryBytes_length]
  have hfront : ((f.filledHeader crc32c).serialize crc32c ++ f.parentBytes crc32c).length =
      covedeltaHeaderLen + (f.parentBytes crc32c).length := by
    rw [length_append, CoveDeltaHeaderV1.serialize_length]
  have hpayloads : f.fileBytes crc32c = ((f.filledHeader crc32c).serialize crc32c ++
      f.parentBytes crc32c) ++ (f.sections.flatMap CoveDeltaSection.payload ++
        (f.directoryBytes crc32c ++ ((f.filledFooter crc32c).serialize crc32c ++
          ((f.filledPostscript crc32c).serialize crc32c ++ tailBytes)))) := by
    simp only [fileBytes, payloadBytes, append_assoc]
  have hentries := fun out cursor => @parseEntries_fillSections crc32c _ _ _
    (f.directoryOffset crc32c) 0 _ [] _ out cursor hpayloads hfront le_rfl
    ((Nat.le_add_right _ _).trans hin) hlen
  simp only [not_mem_nil, not_false_eq_true, implies_true, and_true] at hentries
  refine (andThen_iff_of_ok hrange).trans ?_
  simp only [rejectIf_andThen_iff, hsize, hcount, slice_directory, ne_eq, not_true, not_false_iff, not_not,
    lt_narrowed_iff (by decide : 0 < covedeltaSectionDirectoryEntryLen), true_and, and_assoc]
  refine and_congr_right fun hshort => ?_
  rw [Nat.mod_eq_of_lt hshort, chunksExact_directory, andThen_eq_ok_iff]
  simp only [Prod.exists, filledSections, hentries, rejectIf_andThen_iff, not_not, ok.injEq]
  constructor
  · rintro ⟨_, _, ⟨⟨hreadable, hnodup⟩, rfl, rfl⟩, -, rfl⟩
    exact ⟨hreadable, hnodup, rfl⟩
  · rintro ⟨hreadable, hnodup, rfl⟩
    exact ⟨_, _, ⟨⟨hreadable, hnodup⟩, rfl, rfl⟩, rfl, rfl⟩

def stamped (crc32c : Bytes → UInt32) (f : CoveDeltaFile) : CoveDeltaFile where
  header := (f.filledHeader crc32c).stamped crc32c
  parentRefs := f.parentRefs.map (DeltaParentRefV1.stamped crc32c)
  sections := (f.filledSections crc32c).map (CoveDeltaSection.stamped crc32c)
  footer := (f.filledFooter crc32c).stamped crc32c
  postscript := (f.filledPostscript crc32c).stamped crc32c

/-- What the parser demands of a file that was serialized. -/
structure Readable (crc32c : Bytes → UInt32) (f : CoveDeltaFile) : Prop where
  header : f.header.Readable
  parentCount : f.parentRefs.length < 2 ^ 32
  lineageParent : f.parentRefs.countP isLineageParent = 1
  sectionCount : f.sections.length < 2 ^ 32
  sections : ∀ s ∈ f.sections, s.Readable
  sectionIds : (sectionIds (f.filledSections crc32c)).Nodup

theorem filledHeader_readable_iff : (f.filledHeader crc32c).Readable ↔ f.header.Readable :=
  ⟨fun h => ⟨h.magic, h.major, h.minor, h.headerLen, h.reserved0, h.publishRange⟩,
    fun h => ⟨h.magic, h.major, h.minor, h.headerLen, h.reserved0, h.publishRange⟩⟩

theorem parse_fileBytes_ok_iff {g : CoveDeltaFile} (hlen : (f.fileBytes crc32c).length < 2 ^ 64) :
    parse crc32c (f.fileBytes crc32c) = .ok g ↔ f.Readable crc32c ∧ f.stamped crc32c = g := by
  refine (andThen_iff_of_ok parsePostscript_fileBytes).trans
    ((andThen_iff_of_ok (parseFooter_fileBytes hlen)).trans ?_)
  simp only [andThen_eq_ok_iff, Prod.exists, parseHeader_fileBytes hlen, parseParentRefs_fileBytes hlen,
    parseSections_fileBytes hlen, filledHeader_readable_iff, and_assoc, exists_and_left,
      exists_eq_left', ok.injEq]
  constructor
  · rintro ⟨hheader, hparents, hone, hshort, hall, hnodup, rfl⟩
    exact ⟨⟨hheader, hparents, hone, hshort, hall, hnodup⟩, rfl⟩
  · rintro ⟨hr, rfl⟩
    exact ⟨hr.header, hr.parentCount, hr.lineageParent, hr.sectionCount, hr.sections, hr.sectionIds, rfl⟩

end CoveDeltaFile

end

end CoveFormat.DeltaFileBytes
