import CoveFormat.Canonical
import CoveFormat.DeltaRecords

namespace CoveFormat.DeltaFile

open ExceptRules Temporal SparsePatch DeltaRecords

structure ObjectTypeCatalogPatch where
  typeCount : Nat

structure MapEvidenceIndex where
  entryCount : Nat

structure MapProjectionCatalog where
  projectionCount : Nat

structure DeltaBranchIdentityV1 where
  branchIdentityRef : Nat

/-- A section payload, known by its length and by what each payload parser of the
section kinds makes of it. -/
structure SectionPayload where
  len : Nat := 0
  objectTypeCatalog : Except CoveError ObjectTypeCatalogPatch := .error .bufferTooShort
  dictionaryEntries : Except CoveError (List DeltaDictionaryEntryV1) := .error .bufferTooShort
  inlineValues : Except CoveError (List DeltaInlineValueV1) := .error .bufferTooShort
  mapEvidenceIndex : Except CoveError MapEvidenceIndex := .error .bufferTooShort
  mapProjectionCatalog : Except CoveError MapProjectionCatalog := .error .bufferTooShort
  temporalSegment : Except CoveError TemporalSegmentData := .error .bufferTooShort
  branchIdentities : Except CoveError (List DeltaBranchIdentityV1) := .error .bufferTooShort
  continuationAnchors : Except CoveError (List DeltaContinuationAnchorV1) := .error .bufferTooShort
  touchedObjectRanges : Except CoveError (List DeltaTouchedObjectRangeV1) := .error .bufferTooShort
  stateHashDescriptors : Except CoveError (List DeltaStateHashDescriptorV1) := .error .bufferTooShort
  scopeDescriptors : Except CoveError (List DeltaScopeDescriptorV1) := .error .bufferTooShort
  summaryDescriptors : Except CoveError (List DeltaSummaryDescriptorV1) := .error .bufferTooShort
  sparsePatchRecords : Except CoveError (List DeltaSparsePatchRecordV1) := .error .bufferTooShort
  sidecarHints : Except CoveError (List DeltaSidecarHintV1) := .error .bufferTooShort

structure CoveDeltaSectionDirectoryEntryV1 where
  (sectionKind itemCount compression : Nat)
  requiredDeltaFeatures : UInt64

structure CoveDeltaSection where
  entry : CoveDeltaSectionDirectoryEntryV1
  payload : SectionPayload

structure CoveDeltaPostscriptV1 where
  (requiredDeltaFeatures optionalDeltaFeatures : UInt64)

structure CoveDeltaFooterV1 where
  footerCrc32c : Nat

structure CoveDeltaFile where
  header : CoveDeltaHeaderV1
  parentRefs : List DeltaParentRefV1
  sections : List CoveDeltaSection
  footer : CoveDeltaFooterV1
  postscript : CoveDeltaPostscriptV1

def validateDeltaRequiredFeatures (required supported : UInt64) : Except CoveError Unit :=
  rejectIf (required &&& ~~~supported ≠ 0)
    (.unknownRequiredFeature (required &&& ~~~supported).toNat)

def covedeltaObjectDeltaRequiresSectionFeatures : CoveDeltaSectionKind → Bool
  | .temporalSegmentIndex | .projectionPatch | .coveragePatch | .indexHints | .layoutHints => false
  | _ => true

/-- `parse_fixed_records` on a payload whose records parse to `records`. -/
def parseFixedRecords {T : Type} (s : CoveDeltaSection) (recordLen : Nat)
    (records : Except CoveError (List T)) (label : String) : Except CoveError (List T) := do
  rejectIf (s.payload.len % recordLen ≠ 0)
    (.badSection (label ++ " section payload length is not a multiple of record length"))
  rejectIf (s.entry.itemCount ≠ s.payload.len / recordLen)
    (.badSection (label ++ " section item_count does not match payload"))
  records

/-- The local variables of `validate_object_delta` that its section loop fills. -/
structure DeltaContents where
  catalogPatches : List ObjectTypeCatalogPatch := []
  dictionaryOverlayEntries : List DeltaDictionaryEntryV1 := []
  dictionaryOverlayLocalCodes : List (Nat × Nat) := []
  inlineValues : List DeltaInlineValueV1 := []
  inlineValueRefs : List Nat := []
  evidencePatches : List MapEvidenceIndex := []
  projectionPatches : List MapProjectionCatalog := []
  temporalSegments : List TemporalSegmentData := []
  branchIdentities : List DeltaBranchIdentityV1 := []
  scopeDescriptors : List DeltaScopeDescriptorV1 := []
  temporalRoleSummaryDescriptors : List DeltaSummaryDescriptorV1 := []
  touchedSummaryDescriptors : List DeltaSummaryDescriptorV1 := []
  tombstoneSummaryDescriptors : List DeltaSummaryDescriptorV1 := []
  continuationAnchors : List DeltaContinuationAnchorV1 := []
  stateHashDescriptors : List DeltaStateHashDescriptorV1 := []
  sparsePatchRecords : List DeltaSparsePatchRecordV1 := []
  touchedObjectRanges : List DeltaTouchedObjectRangeV1 := []
  tombstoneObjectRanges : List DeltaTouchedObjectRangeV1 := []
  hasTouchedSetSection : Bool := false
  hasTombstoneSetSection : Bool := false

/-- The loop over the entries of a dictionary overlay section; the result is the
set of local codes with those of the section added. -/
def checkOverlayEntries (header : CoveDeltaHeaderV1) (s : CoveDeltaSection)
    (parentRefIds : List Nat) : List (Nat × Nat) → List DeltaDictionaryEntryV1 →
    Except CoveError (List (Nat × Nat))
  | codes, [] => .ok codes
  | codes, e :: es => do
      e.validateForObjectDelta header.requiredDeltaFeatures s.entry.requiredDeltaFeatures
        parentRefIds
      rejectIf ((e.localDictionaryId, e.localCode) ∈ codes)
        (.badSection "COVEDELTA dictionary overlay has duplicate local dictionary code")
      checkOverlayEntries header s parentRefIds ((e.localDictionaryId, e.localCode) :: codes) es

def checkInlineValueRefs : List Nat → List DeltaInlineValueV1 → Except CoveError (List Nat)
  | refs, [] => .ok refs
  | refs, v :: vs => do
      rejectIf (v.valueRef ∈ refs)
        (.badSection "COVEDELTA string table contains duplicate value_ref")
      checkInlineValueRefs (v.valueRef :: refs) vs

section

variable (header : CoveDeltaHeaderV1) (parentRefIds : List Nat) (c : DeltaContents)
  (s : CoveDeltaSection)

def readCatalogPatch : Except CoveError DeltaContents := do
  rejectIf (s.entry.compression ≠ 0)
    (.badSection "COVEDELTA catalog patch validation requires uncompressed payload")
  let patch ← s.payload.objectTypeCatalog
  rejectIf (s.entry.itemCount ≠ patch.typeCount)
    (.badSection "COVEDELTA catalog patch item_count does not match payload")
  .ok { c with catalogPatches := c.catalogPatches ++ [patch] }

def readDictionaryOverlay : Except CoveError DeltaContents := do
  rejectIf (s.entry.compression ≠ 0)
    (.badSection "COVEDELTA dictionary overlay validation requires uncompressed payload")
  rejectIf (s.entry.itemCount = 0)
    (.badSection "COVEDELTA dictionary overlay section requires entries")
  let entries ← parseFixedRecords s 57 s.payload.dictionaryEntries "COVEDELTA dictionary overlay"
  let codes ← checkOverlayEntries header s parentRefIds c.dictionaryOverlayLocalCodes entries
  .ok { c with
    dictionaryOverlayEntries := c.dictionaryOverlayEntries ++ entries
    dictionaryOverlayLocalCodes := codes }

def readStringTable : Except CoveError DeltaContents := do
  rejectIf (s.entry.compression ≠ 0)
    (.badSection "COVEDELTA string table validation requires uncompressed payload")
  rejectIf (s.entry.itemCount = 0)
    (.badSection "COVEDELTA string table section requires inline value records")
  let records ← s.payload.inlineValues
  rejectIf (s.entry.itemCount ≠ records.length)
    (.badSection "COVEDELTA string table item_count does not match payload")
  let refs ← checkInlineValueRefs c.inlineValueRefs records
  .ok { c with inlineValues := c.inlineValues ++ records, inlineValueRefs := refs }

def readEvidencePatch : Except CoveError DeltaContents := do
  rejectIf (header.requiredDeltaFeatures &&& deltaFeatureMapEvidencePatch = 0)
    (.badSection "COVEDELTA evidence patch section requires map evidence patch feature")
  rejectIf (s.entry.compression ≠ 0)
    (.badSection "COVEDELTA evidence patch validation requires uncompressed payload")
  let patch ← s.payload.mapEvidenceIndex
  rejectIf (patch.entryCount = 0)
    (.badSection "COVEDELTA evidence patch requires evidence entries")
  rejectIf (s.entry.itemCount ≠ patch.entryCount)
    (.badSection "COVEDELTA evidence patch item_count does not match payload")
  .ok { c with evidencePatches := c.evidencePatches ++ [patch] }

def readProjectionPatch : Except CoveError DeltaContents :=
  if header.requiredDeltaFeatures &&& deltaFeatureProjectionPatch = 0 ∧
      s.entry.requiredDeltaFeatures &&& deltaFeatureProjectionPatch = 0 then .ok c
  else do
    rejectIf (header.requiredDeltaFeatures &&& deltaFeatureProjectionPatch = 0)
      (.badSection "COVEDELTA projection patch section requires projection patch feature")
    validateDeltaRequiredFeatures s.entry.requiredDeltaFeatures
      covedeltaObjectTemporalSupportedRequiredFeatures
    rejectIf (s.entry.requiredDeltaFeatures &&& deltaFeatureProjectionPatch = 0) (.badSection
      "COVEDELTA required projection patch feature requires section feature binding")
    rejectIf (s.entry.compression ≠ 0)
      (.badSection "COVEDELTA projection patch validation requires uncompressed payload")
    let patch ← s.payload.mapProjectionCatalog
    rejectIf (patch.projectionCount = 0)
      (.badSection "COVEDELTA projection patch requires projection entries")
    rejectIf (s.entry.itemCount ≠ patch.projectionCount)
      (.badSection "COVEDELTA projection patch item_count does not match payload")
    .ok { c with projectionPatches := c.projectionPatches ++ [patch] }

def readTemporalSegmentData : Except CoveError DeltaContents := do
  rejectIf (s.entry.compression ≠ 0)
    (.badSection "COVEDELTA temporal segment validation requires uncompressed payload")
  rejectIf (s.entry.itemCount ≠ 1)
    (.badSection "COVEDELTA temporal segment data section must contain one segment")
  let segment ← s.payload.temporalSegment
  rejectIf (segment.header.csnMin < header.csnMin ∨ header.csnMax < segment.header.csnMax)
    (.badSection "COVEDELTA temporal segment CSN range falls outside delta header range")
  .ok { c with temporalSegments := c.temporalSegments ++ [segment] }

def readPropertyOps : Except CoveError DeltaContents := do
  rejectIf (s.entry.itemCount = 0)
    (.badSection "COVEDELTA sparse property ops section requires records")
  let records ← s.payload.sparsePatchRecords
  rejectIf (s.entry.itemCount ≠ records.length)
    (.badSection "COVEDELTA sparse property ops item_count does not match payload")
  .ok { c with sparsePatchRecords := c.sparsePatchRecords ++ records }

def readUncompressed (read : Except CoveError DeltaContents) : Except CoveError DeltaContents := do
  rejectIf (s.entry.compression ≠ 0) (.badSection
    "COVEDELTA required object-temporal sections must be uncompressed for validation")
  read

def readKind : CoveDeltaSectionKind → Except CoveError DeltaContents
  | .catalogPatch => readCatalogPatch c s
  | .dictionaryOverlay => readDictionaryOverlay header parentRefIds c s
  | .stringTable => readStringTable c s
  | .evidencePatch => readEvidencePatch header c s
  | .projectionPatch => readProjectionPatch header c s
  | .temporalSegmentData => readTemporalSegmentData header c s
  | .branchIdentityTable => readUncompressed s
      ((parseFixedRecords s 37 s.payload.branchIdentities "COVEDELTA branch identity").map
        fun records => { c with branchIdentities := c.branchIdentities ++ records })
  | .continuationAnchors => readUncompressed s
      ((parseFixedRecords s 95 s.payload.continuationAnchors
        "COVEDELTA continuation anchor").map
        fun records => { c with continuationAnchors := c.continuationAnchors ++ records })
  | .touchedObjectSet => readUncompressed s
      ((parseFixedRecords s 74 s.payload.touchedObjectRanges
        "COVEDELTA touched object range").map fun records =>
          { c with
            hasTouchedSetSection := true
            touchedObjectRanges := c.touchedObjectRanges ++ records })
  | .tombstoneSet => readUncompressed s
      ((parseFixedRecords s 74 s.payload.touchedObjectRanges
        "COVEDELTA tombstone object range").map fun records =>
          { c with
            hasTombstoneSetSection := true
            tombstoneObjectRanges := c.tombstoneObjectRanges ++ records })
  | .stateHashTable => readUncompressed s
      ((parseFixedRecords s 21 s.payload.stateHashDescriptors
        "COVEDELTA state hash descriptor").map
        fun records => { c with stateHashDescriptors := c.stateHashDescriptors ++ records })
  | .scopeTable => readUncompressed s
      ((parseFixedRecords s 28 s.payload.scopeDescriptors "COVEDELTA scope descriptor").map
        fun records => { c with scopeDescriptors := c.scopeDescriptors ++ records })
  | .temporalRoleSummaryTable => readUncompressed s
      ((parseFixedRecords s 25 s.payload.summaryDescriptors
        "COVEDELTA temporal role summary descriptor").map fun records =>
          { c with
            temporalRoleSummaryDescriptors := c.temporalRoleSummaryDescriptors ++ records })
  | .touchedSummaryTable => readUncompressed s
      ((parseFixedRecords s 25 s.payload.summaryDescriptors
        "COVEDELTA touched summary descriptor").map fun records =>
          { c with touchedSummaryDescriptors := c.touchedSummaryDescriptors ++ records })
  | .tombstoneSummaryTable => readUncompressed s
      ((parseFixedRecords s 25 s.payload.summaryDescriptors
        "COVEDELTA tombstone summary descriptor").map fun records =>
          { c with tombstoneSummaryDescriptors := c.tombstoneSummaryDescriptors ++ records })
  | .propertyOps => readUncompressed s (readPropertyOps c s)
  | .parentRefs | .temporalSegmentIndex | .coveragePatch | .indexHints | .layoutHints | .trustContinuation
  | .extension => .ok c

def readSection : Except CoveError DeltaContents :=
  match CoveDeltaSectionKind.fromU16 s.entry.sectionKind with
  | none => .error (.badSection
      ("unknown COVEDELTA section kind " ++ toString s.entry.sectionKind))
  | some kind => do
      whenever (covedeltaObjectDeltaRequiresSectionFeatures kind)
        (validateDeltaRequiredFeatures s.entry.requiredDeltaFeatures
          covedeltaObjectTemporalSupportedRequiredFeatures)
      readKind header parentRefIds c s kind

end

def readSections (header : CoveDeltaHeaderV1) (parentRefIds : List Nat) :
    DeltaContents → List CoveDeltaSection → Except CoveError DeltaContents
  | c, [] => .ok c
  | c, s :: ss => do
      let c ← readSection header parentRefIds c s
      readSections header parentRefIds c ss

def CoveDeltaSection.temporalSegments (s : CoveDeltaSection) : List TemporalSegmentData :=
  if CoveDeltaSectionKind.fromU16 s.entry.sectionKind = some .temporalSegmentData then
    s.payload.temporalSegment.toOption.toList
  else []

def CoveDeltaSection.sparsePatchRecords (s : CoveDeltaSection) : List DeltaSparsePatchRecordV1 :=
  if CoveDeltaSectionKind.fromU16 s.entry.sectionKind = some .propertyOps then
    s.payload.sparsePatchRecords.toOption.getD []
  else []

end CoveFormat.DeltaFile
