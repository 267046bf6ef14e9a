import CoveFormat.DeltaChain
import CoveFormat.ManifestBytes
import CoveFormat.Subslices

namespace CoveFormat.SidecarExtensions

open ByteCodes ExceptRules FixedFields TakeReaders ManifestBytes Subslices
open List hiding Vector
open CoveTypes (DigestAlgorithm)
open DeltaRecords (covedeltaExpectedDigestLen)
open DeltaChain (covmDeltaRequiredDigestAlgorithm)

inductive CoveAiArtifactKind
  | coveAiBundle
  | coveVec
  deriving DecidableEq

def CoveAiArtifactKind.code : CoveAiArtifactKind → UInt8
  | coveAiBundle => 1
  | coveVec => 2

def CoveAiArtifactKind.ofCode (raw : UInt8) : Except CoveError CoveAiArtifactKind :=
  if raw = 1 then .ok coveAiBundle
  else if raw = 2 then .ok coveVec
  else .error (.badSection ("unknown COVM AI sidecar kind " ++ toString raw.toNat))

theorem CoveAiArtifactKind.ofCode_ok_iff {raw : UInt8} {kind : CoveAiArtifactKind} :
    ofCode raw = .ok kind ↔ kind.code = raw := by
  rw [ofCode]
  constructor
  · intro h
    split at h
    · rename_i hraw
      rw [hraw, ← Except.ok.inj h, code]
    · split at h
      · rename_i hraw
        rw [hraw, ← Except.ok.inj h, code]
      · cases h
  · rintro rfl
    cases kind <;> rfl

def covmAiSidecarExtensionMagic : Vector UInt8 4 := ⟨#[67, 65, 73, 49], rfl⟩

def covmAiSidecarExtensionVersionMajorV1 : UInt16 := 1
def covmAiSidecarExtensionVersionMinorV1 : UInt16 := 0
def covmAiSidecarExtensionHeaderLen : Nat := 24

structure CovmAiSidecarRefV1 where
  sourceFileId : Vector UInt8 16
  sidecarKind : CoveAiArtifactKind
  flags : UInt8
  digestAlgorithm : UInt16
  sidecarFileLen : UInt64
  digest : Bytes
  uri : String
  deriving DecidableEq

structure CovmAiSidecarExtensionV1 where
  flags : UInt32
  refs : List CovmAiSidecarRefV1
  deriving DecidableEq

namespace CovmAiSidecarRefV1

def image (r : CovmAiSidecarRefV1) : Bytes :=
  r.sourceFileId.toList ++ (putU8 r.sidecarKind.code ++ (putU8 r.flags ++
    (putU16 r.digestAlgorithm ++ (putU64 r.sidecarFileLen ++ (putU16 (UInt16.ofNat r.digest.length) ++
      (putU16 (UInt16.ofNat (asBytes r.uri).length) ++ (r.digest ++ asBytes r.uri)))))))

def requiredAlgorithm (raw : UInt16) : Except CoveError DigestAlgorithm :=
  covmDeltaRequiredDigestAlgorithm raw.toNat "COVM AI sidecar digest_algorithm"

def badDigestLength (expected got : Nat) : CoveError :=
  .badSection ("COVM AI sidecar digest length must be " ++ toString expected ++ ", got " ++ toString got)

def serialize (r : CovmAiSidecarRefV1) : Except CoveError Bytes := do
  rejectIf (65535 < r.digest.length) (.badSection "COVM AI sidecar digest is too large")
  rejectIf (65535 < (asBytes r.uri).length) (.badSection "COVM AI sidecar uri is too large")
  let algorithm ← requiredAlgorithm r.digestAlgorithm
  let expectedLen := covedeltaExpectedDigestLen algorithm
  rejectIf (r.digest.length ≠ expectedLen) (badDigestLength expectedLen r.digest.length)
  .ok r.image

def uriOf (uriBytes : Bytes) : Except CoveError String :=
  match fromUtf8 uriBytes with
  | none => .error (.badSection "COVM AI sidecar uri must be UTF-8")
  | some uri => .ok uri

theorem uriOf_ok_iff {uriBytes : Bytes} {uri : String} :
    uriOf uriBytes = .ok uri ↔ asBytes uri = uriBytes := by
  rw [← fromUtf8_eq_some_iff, uriOf]
  split <;> simp [*]

def parse : Reader CovmAiSidecarRefV1 := do
  let sourceFileId ← takeArray 16
  let sidecarKindRaw ← takeU8
  let sidecarKind ← StateT.lift (CoveAiArtifactKind.ofCode sidecarKindRaw)
  let flags ← takeU8
  let digestAlgorithm ← takeU16
  let algorithm ← StateT.lift (requiredAlgorithm digestAlgorithm)
  let sidecarFileLen ← takeU64
  let digestLen ← takeU16
  let uriLen ← takeU16
  let expectedLen := covedeltaExpectedDigestLen algorithm
  refuseIf (digestLen.toNat ≠ expectedLen) (badDigestLength expectedLen digestLen.toNat)
  let digest ← take digestLen.toNat
  let uriBytes ← take uriLen.toNat
  let uri ← StateT.lift (uriOf uriBytes)
  refuseIf (uri = "") (.badSection "COVM AI sidecar uri must be non-empty")
  return {
    sourceFileId := sourceFileId
    sidecarKind := sidecarKind
    flags := flags
    digestAlgorithm := digestAlgorithm
    sidecarFileLen := sidecarFileLen
    digest := digest
    uri := uri }

/-- What a reference needs to be written. -/
structure Encodable (r : CovmAiSidecarRefV1) : Prop where
  uriLen : (asBytes r.uri).length ≤ 65535
  digestLen : ∃ algorithm, requiredAlgorithm r.digestAlgorithm = .ok algorithm ∧
    r.digest.length = covedeltaExpectedDigestLen algorithm

theorem expectedDigestLen_le (algorithm : DigestAlgorithm) :
    covedeltaExpectedDigestLen algorithm ≤ 32 := by
  cases algorithm <;> decide

variable {r : CovmAiSidecarRefV1} {bytes rest : Bytes}

theorem serialize_ok_iff : r.serialize = .ok bytes ↔ r.Encodable ∧ r.image = bytes := by
  simp only [serialize, andThen_eq_ok_iff, rejectIf_eq_ok_iff, exists_const, not_lt, not_not,
    Except.ok.injEq]
  constructor
  · rintro ⟨-, huri, algorithm, halgorithm, hlen, himage⟩
    exact ⟨⟨huri, algorithm, halgorithm, hlen⟩, himage⟩
  · rintro ⟨⟨huri, algorithm, halgorithm, hlen⟩, himage⟩
    have hshort := expectedDigestLen_le algorithm
    exact ⟨by omega, huri, algorithm, halgorithm, hlen, himage⟩

theorem parse_ok_iff :
    parse.run bytes = .ok (r, rest) ↔ (r.Encodable ∧ r.uri ≠ "") ∧ bytes = r.image ++ rest := by
  simp only [parse, (takeArray_decodes 16).bind_ok_iff, takeU8_decodes.bind_ok_iff,
    takeU16_decodes.bind_ok_iff, takeU64_decodes.bind_ok_iff, take_bind_ok_iff, run_lift_ok_iff,
    run_refuseIf_ok_iff, run_pure_ok_iff, CoveAiArtifactKind.ofCode_ok_iff, uriOf_ok_iff, not_not]
  constructor
  · rintro ⟨sourceFileId, _, rfl, kindRaw, _, rfl, kind, rfl, flags, _, rfl, digestAlgorithm, _, rfl,
      algorithm, halgorithm, fileLen, _, rfl, digestLen, _, rfl, uriLen, _, rfl, hexpected, digest,
      _, hdigest, rfl, uriBytes, _, huri, rfl, uri, rfl, hne, heq⟩
    obtain ⟨rfl, rfl⟩ := Prod.mk.inj heq
    have hdigestLen : UInt16.ofNat digest.length = digestLen := by rw [hdigest, UInt16.ofNat_toNat]
    have huriLen : UInt16.ofNat (asBytes uri).length = uriLen := by rw [huri, UInt16.ofNat_toNat]
    refine ⟨⟨⟨?_, algorithm, halgorithm, hdigest.trans hexpected⟩, hne⟩, ?_⟩
    · have hlt := uriLen.toNat_lt
      change (asBytes uri).length ≤ 65535
      omega
    · simp only [image, hdigestLen, huriLen, append_assoc]
  · rintro ⟨⟨⟨huri, algorithm, halgorithm, hdigest⟩, hne⟩, rfl⟩
    have hshort := expectedDigestLen_le algorithm
    have hdigestLen : (UInt16.ofNat r.digest.length).toNat = r.digest.length :=
      UInt16.toNat_ofNat_of_lt' (show r.digest.length < 2 ^ 16 by omega)
    have huriLen : (UInt16.ofNat (asBytes r.uri).length).toNat = (asBytes r.uri).length :=
      UInt16.toNat_ofNat_of_lt' (show (asBytes r.uri).length < 2 ^ 16 by omega)
    simp only [image, append_assoc]
    exact ⟨_, _, rfl, _, _, rfl, _, rfl, _, _, rfl, _, _, rfl, algorithm, halgorithm, _, _, rfl, _, _,
      rfl, _, _, rfl, hdigestLen.trans hdigest, _, _, hdigestLen.symm, rfl, _, _, huriLen.symm, rfl,
      _, rfl, hne, rfl⟩

end CovmAiSidecarRefV1

def CovmAiSidecarRefV1.key (r : CovmAiSidecarRefV1) : Vector UInt8 16 × String :=
  (r.sourceFileId, r.uri)

def duplicateReference : CoveError := .badSection "duplicate COVM AI sidecar reference"

abbrev SeenRefs := List (Vector UInt8 16 × String)

def serializeRefs : SeenRefs → List CovmAiSidecarRefV1 → Except CoveError Bytes
  | _, [] => .ok []
  | seen, r :: rs => do
      rejectIf (r.key ∈ seen) duplicateReference
      let image ← r.serialize
      let rest ← serializeRefs (r.key :: seen) rs
      .ok (image ++ rest)

def readRefs : Nat → SeenRefs → Reader (List CovmAiSidecarRefV1)
  | 0, _ => return []
  | n + 1, seen => do
      let r ← CovmAiSidecarRefV1.parse
      refuseIf (r.key ∈ seen) duplicateReference
      let rs ← readRefs n (r.key :: seen)
      return r :: rs

def parseRefs (refCount : Nat) (bytes : Bytes) : Except CoveError (List CovmAiSidecarRefV1) := do
  let (refs, rest) ← (readRefs refCount []).run bytes
  rejectIf (rest ≠ []) (.badSection "COVM AI sidecar extension has trailing bytes")
  .ok refs

def bodyOf (refs : List CovmAiSidecarRefV1) : Bytes := refs.flatMap CovmAiSidecarRefV1.image

section

variable {seen : SeenRefs} {r : CovmAiSidecarRefV1} {refs rs : List CovmAiSidecarRefV1}
variable {bytes rest : Bytes} {n : Nat}

/-- The references have different keys, none of them seen before. -/
def Distinct (seen : SeenRefs) (refs : List CovmAiSidecarRefV1) : Prop :=
  (refs.map CovmAiSidecarRefV1.key).Nodup ∧ ∀ r ∈ refs, r.key ∉ seen

theorem distinct_nil : Distinct seen [] := ⟨nodup_nil, forall_mem_nil _⟩

theorem distinct_cons : Distinct seen (r :: rs) ↔ r.key ∉ seen ∧ Distinct (r.key :: seen) rs := by
  rw [Distinct, Distinct, map_cons, nodup_cons, forall_mem_cons, mem_map]
  constructor
  · rintro ⟨⟨hnew, hnodup⟩, hr, hrs⟩
    refine ⟨hr, hnodup, fun s hs hmem => ?_⟩
    rcases mem_cons.mp hmem with hkey | hmem
    · exact hnew ⟨s, hs, hkey⟩
    · exact hrs s hs hmem
  · rintro ⟨hr, hnodup, hrs⟩
    exact ⟨⟨fun ⟨s, hs, hkey⟩ => hrs s hs (mem_cons.mpr (.inl hkey)), hnodup⟩, hr,
      fun s hs hmem => hrs s hs (mem_cons_of_mem _ hmem)⟩

theorem serializeRefs_ok_iff : serializeRefs seen refs = .ok bytes ↔
    (∀ r ∈ refs, r.Encodable) ∧ Distinct seen refs ∧ bodyOf refs = bytes := by
  induction refs generalizing seen bytes with
  | nil => simp [serializeRefs, bodyOf, distinct_nil]
  | cons r rs ih =>
    simp only [serializeRefs, andThen_eq_ok_iff, rejectIf_eq_ok_iff, exists_const, ih,
      CovmAiSidecarRefV1.serialize_ok_iff, Except.ok.injEq, forall_mem_cons, distinct_cons]
    constructor
    · rintro ⟨hr, _, ⟨hencodable, rfl⟩, _, ⟨hrs, hdistinct, rfl⟩, rfl⟩
      exact ⟨⟨hencodable, hrs⟩, ⟨hr, hdistinct⟩, rfl⟩
    · rintro ⟨⟨hencodable, hrs⟩, ⟨hr, hdistinct⟩, rfl⟩
      exact ⟨hr, _, ⟨hencodable, rfl⟩, _, ⟨hrs, hdistinct, rfl⟩, rfl⟩

theorem readRefs_ok_iff : (readRefs n seen).run bytes = .ok (refs, rest) ↔
    refs.length = n ∧ (∀ r ∈ refs, r.Encodable ∧ r.uri ≠ "") ∧ Distinct seen refs ∧
      bytes = bodyOf refs ++ rest := by
  induction n generalizing seen bytes refs rest with
  | zero =>
    rw [readRefs, run_pure_ok_iff, Prod.mk.injEq, length_eq_zero_iff, eq_comm]
    refine and_congr_right fun hrefs => ?_
    subst hrefs
    simp [bodyOf, distinct_nil]
  | succ n ih =>
    rw [readRefs, run_bind_ok_iff]
    simp only [CovmAiSidecarRefV1.parse_ok_iff, run_refuseIf_ok_iff]
    simp only [run_bind_ok_iff, ih, run_pure_ok_iff]
    constructor
    · rintro ⟨r, _, ⟨hr, rfl⟩, hnew, rs, _, ⟨hlen, hrs, hdistinct, rfl⟩, heq⟩
      obtain ⟨rfl, rfl⟩ := Prod.mk.inj heq
      exact ⟨congrArg (· + 1) hlen, forall_mem_cons.mpr ⟨hr, hrs⟩,
        distinct_cons.mpr ⟨hnew, hdistinct⟩, (append_assoc ..).symm⟩
    · rintro ⟨hlen, hrefs, hdistinct, rfl⟩
      cases refs with
      | nil => cases hlen
      | cons r rs =>
        obtain ⟨hr, hrs⟩ := forall_mem_cons.mp hrefs
        obtain ⟨hnew, hdistinct⟩ := distinct_cons.mp hdistinct
        exact ⟨r, _, ⟨hr, append_assoc ..⟩, hnew, rs, rest,
          ⟨Nat.succ.inj hlen, hrs, hdistinct, rfl⟩, rfl⟩

theorem parseRefs_ok_iff : parseRefs n bytes = .ok refs ↔
    refs.length = n ∧ (∀ r ∈ refs, r.Encodable ∧ r.uri ≠ "") ∧ Distinct [] refs ∧
      bytes = bodyOf refs := by
  simp only [parseRefs, andThen_eq_ok_iff, Prod.exists, readRefs_ok_iff, rejectIf_eq_ok_iff,
    exists_const, not_not, Except.ok.injEq]
  constructor
  · rintro ⟨_, _, ⟨hlen, hrefs, hdistinct, rfl⟩, rfl, rfl⟩
    exact ⟨hlen, hrefs, hdistinct, append_nil _⟩
  · rintro ⟨hlen, hrefs, hdistinct, rfl⟩
    exact ⟨refs, [], ⟨hlen, hrefs, hdistinct, (append_nil _).symm⟩, rfl, rfl⟩

end

-- The CRC32C of the checksum package.
variable (crc32c : Bytes → UInt32)

namespace CovmAiSidecarExtensionV1

def head (e : CovmAiSidecarExtensionV1) (versionMinor : UInt16) (bodyLen : Nat) : Bytes :=
  covmAiSidecarExtensionMagic.toList ++ (putU16 covmAiSidecarExtensionVersionMajorV1 ++
    (putU16 versionMinor ++ (putU32 e.flags ++ (putU32 (UInt32.ofNat e.refs.length) ++
      putU32 (UInt32.ofNat (covmAiSidecarExtensionHeaderLen + bodyLen))))))

def image (e : CovmAiSidecarExtensionV1) (versionMinor : UInt16) (body : Bytes) : Bytes :=
  let head := e.head versionMinor body.length
  head ++ (putU32 (crc32c (head ++ (List.replicate 4 0 ++ body))) ++ body)

def serialize (e : CovmAiSidecarExtensionV1) : Except CoveError Bytes := do
  rejectIf (4294967295 < e.refs.length) (.badSection "too many COVM AI sidecar references")
  let body ← serializeRefs [] e.refs
  rejectIf (2 ^ 64 ≤ covmAiSidecarExtensionHeaderLen + body.length) .arithOverflow
  .ok (e.image crc32c covmAiSidecarExtensionVersionMinorV1 body)

def read (bytes : Bytes) : Reader CovmAiSidecarExtensionV1 := do
  let magic ← takeArray 4
  refuseIf (magic ≠ covmAiSidecarExtensionMagic) .badMagic
  let versionMajor ← takeU16
  let _versionMinor ← takeU16
  refuseIf (versionMajor ≠ covmAiSidecarExtensionVersionMajorV1) .badVersion
  let flags ← takeU32
  let refCount ← takeU32
  let extensionLen ← takeU32
  refuseIf (extensionLen.toNat < covmAiSidecarExtensionHeaderLen ∨ bytes.length < extensionLen.toNat)
    .offsetRange
  let checksumField ← takeU32
  let extensionBytes := bytes.take extensionLen.toNat
  refuseIf (crc32c (withoutChecksum extensionBytes 20) ≠ checksumField) .checksumMismatch
  let refs ← StateT.lift
    (parseRefs refCount.toNat (extensionBytes.drop covmAiSidecarExtensionHeaderLen))
  return ⟨flags, refs⟩

def parse (bytes : Bytes) : Except CoveError CovmAiSidecarExtensionV1 := do
  rejectIf (bytes.length < covmAiSidecarExtensionHeaderLen) .bufferTooShort
  (read crc32c bytes).run' bytes

/-- The bytes spell the extension and a reader can take them; it looks at no minor version. -/
structure EncodedAs (e : CovmAiSidecarExtensionV1) (front : Bytes) : Prop where
  refs : ∀ r ∈ e.refs, r.Encodable ∧ r.uri ≠ ""
  distinct : Distinct [] e.refs
  count : e.refs.length < 2 ^ 32
  len : front.length < 2 ^ 32
  image : ∃ versionMinor, front = e.image crc32c versionMinor (bodyOf e.refs)

variable {crc32c} {e : CovmAiSidecarExtensionV1} {bytes front body : Bytes} {versionMinor : UInt16}

theorem head_length (bodyLen : Nat) : (e.head versionMinor bodyLen).length = 20 := by simp [head]

theorem image_length : (e.image crc32c versionMinor body).length =
    covmAiSidecarExtensionHeaderLen + body.length := by
  simp [image, head_length, covmAiSidecarExtensionHeaderLen]
  omega

theorem EncodedAs.starts (h : e.EncodedAs crc32c front) :
    ∃ back, front = covmAiSidecarExtensionMagic.toList ++
      (putU16 covmAiSidecarExtensionVersionMajorV1 ++ back) := by
  obtain ⟨versionMinor, rfl⟩ := h.image
  exact ⟨_, by simp only [CovmAiSidecarExtensionV1.image, head, append_assoc]; rfl⟩

theorem serialize_ok_iff : e.serialize crc32c = .ok bytes ↔
    e.refs.length ≤ 4294967295 ∧ ((∀ r ∈ e.refs, r.Encodable) ∧ Distinct [] e.refs) ∧
      covmAiSidecarExtensionHeaderLen + (bodyOf e.refs).length < 2 ^ 64 ∧
        e.image crc32c covmAiSidecarExtensionVersionMinorV1 (bodyOf e.refs) = bytes := by
  simp only [serialize, andThen_eq_ok_iff, rejectIf_eq_ok_iff, exists_const, not_lt, not_le,
    serializeRefs_ok_iff, Except.ok.injEq]
  constructor
  · rintro ⟨hcount, _, ⟨hrefs, hdistinct, rfl⟩, hlen, himage⟩
    exact ⟨hcount, ⟨hrefs, hdistinct⟩, hlen, himage⟩
  · rintro ⟨hcount, ⟨hrefs, hdistinct⟩, hlen, himage⟩
    exact ⟨hcount, _, ⟨hrefs, hdistinct, rfl⟩, hlen, himage⟩

theorem withoutChecksum_image (sum : UInt32) :
    withoutChecksum (e.head versionMinor body.length ++ (putU32 sum ++ body)) 20 =
      e.head versionMinor body.length ++ (List.replicate 4 0 ++ body) := by
  have hhead : (e.head versionMinor body.length).length = 20 := head_length _
  have hdrop : (e.head versionMinor body.length ++ (putU32 sum ++ body)).drop (20 + 4) = body := by
    rw [← append_assoc, drop_left' (by simp [hhead])]
  rw [withoutChecksum, take_left' hhead, hdrop, append_assoc]

theorem encodedAs_of_read {sum : UInt32} {tail : Bytes} (extensionLen refCount : UInt32)
    (hbytes : bytes = covmAiSidecarExtensionMagic.toList ++
      (putU16 covmAiSidecarExtensionVersionMajorV1 ++ (putU16 versionMinor ++ (putU32 e.flags ++
        (putU32 refCount ++ (putU32 extensionLen ++ (putU32 sum ++ tail)))))))
    (hmin : covmAiSidecarExtensionHeaderLen ≤ extensionLen.toNat)
    (hmax : extensionLen.toNat ≤ bytes.length)
    (hsum : crc32c (withoutChecksum (bytes.take extensionLen.toNat) 20) = sum)
    (hrefs : parseRefs refCount.toNat
      ((bytes.take extensionLen.toNat).drop covmAiSidecarExtensionHeaderLen) = .ok e.refs) :
    e.EncodedAs crc32c (bytes.take extensionLen.toNat) := by
  obtain ⟨hcount, hall, hdistinct, hbody⟩ := parseRefs_ok_iff.mp hrefs
  have hcountLt := refCount.toNat_lt
  have hlenLt := extensionLen.toNat_lt
  have hbodyLen : covmAiSidecarExtensionHeaderLen + (bodyOf e.refs).length = extensionLen.toNat := by
    rw [← hbody, length_drop, length_take, min_eq_left hmax]
    omega
  have hhead : e.head versionMinor (bodyOf e.refs).length = covmAiSidecarExtensionMagic.toList ++
      (putU16 covmAiSidecarExtensionVersionMajorV1 ++ (putU16 versionMinor ++ (putU32 e.flags ++
        (putU32 refCount ++ putU32 extensionLen)))) := by
    rw [head, hbodyLen, hcount, UInt32.ofNat_toNat, UInt32.ofNat_toNat]
  have hsplit : bytes = (e.head versionMinor (bodyOf e.refs).length ++ putU32 sum) ++ tail := by
    rw [hbytes, hhead]
    simp only [append_assoc]
  have hfront : bytes.take extensionLen.toNat =
      e.head versionMinor (bodyOf e.refs).length ++ (putU32 sum ++ bodyOf e.refs) := by
    rw [← take_append_drop covmAiSidecarExtensionHeaderLen (bytes.take extensionLen.toNat),
      hbody, take_take, min_eq_left hmin, hsplit, take_left' (by simp [head_length,
        covmAiSidecarExtensionHeaderLen]), append_assoc]
  rw [hfront, withoutChecksum_image] at hsum
  refine ⟨hall, hdistinct, by omega, ?_, versionMinor, ?_⟩
  · rw [length_take]
    omega
  · rw [hfront, image, hsum]

theorem parse_ok_iff :
    parse crc32c bytes = .ok e ↔ ∃ front rest, e.EncodedAs crc32c front ∧ bytes = front ++ rest := by
  simp only [parse, read, andThen_eq_ok_iff, rejectIf_eq_ok_iff, exists_const, run'_eq_ok_iff,
    (takeArray_decodes 4).bind_ok_iff, takeU16_decodes.bind_ok_iff, takeU32_decodes.bind_ok_iff,
    run_refuseIf_ok_iff, run_lift_ok_iff, run_pure_ok_iff, not_lt, not_not, not_or]
  constructor
  · rintro ⟨hshort, rest, magic, _, hbytes, rfl, major, _, rfl, minor, _, rfl, rfl, flags, _, rfl,
      refCount, _, rfl, extensionLen, _, rfl, ⟨hmin, hmax⟩, sum, tail, rfl, hsum, refs, hrefs, heq⟩
    obtain ⟨rfl, rfl⟩ := Prod.mk.inj heq
    exact ⟨_, _, encodedAs_of_read extensionLen refCount hbytes hmin hmax hsum hrefs,
      (take_append_drop ..).symm⟩
  · rintro ⟨front, rest, h, rfl⟩
    obtain ⟨versionMinor, himage⟩ := h.image
    have hlen : front.length = covmAiSidecarExtensionHeaderLen + (bodyOf e.refs).length := by
      rw [himage, image_length]
    have hextension : (UInt32.ofNat front.length).toNat = front.length :=
      UInt32.toNat_ofNat_of_lt' h.len
    have hcount : (UInt32.ofNat e.refs.length).toNat = e.refs.length :=
      UInt32.toNat_ofNat_of_lt' h.count
    obtain ⟨sum, hsum⟩ : ∃ sum, crc32c (e.head versionMinor (bodyOf e.refs).length ++
        (List.replicate 4 0 ++ bodyOf e.refs)) = sum := ⟨_, rfl⟩
    have hfront : front =
        e.head versionMinor (bodyOf e.refs).length ++ (putU32 sum ++ bodyOf e.refs) := by
      rw [himage, image, hsum]
    have htake : (front ++ rest).take (UInt32.ofNat front.length).toNat = front := by
      rw [hextension, take_left]
    have hdrop : front.drop covmAiSidecarExtensionHeaderLen = bodyOf e.refs := by
      rw [hfront, ← append_assoc, drop_left' (by simp [head_length,
        covmAiSidecarExtensionHeaderLen])]
    refine ⟨?_, bodyOf e.refs ++ rest, covmAiSidecarExtensionMagic, _, ?_, rfl, _, _, rfl,
      versionMinor, _, rfl, rfl, e.flags, _, rfl, UInt32.ofNat e.refs.length, _, rfl,
      UInt32.ofNat front.length, _, rfl, ⟨?_, ?_⟩, sum, _, rfl, ?_,
      e.refs, ?_, rfl⟩
    · rw [length_append]
      omega
    · rw [hlen, hfront, head]
      simp only [append_assoc]
    · omega
    · rw [hextension, length_append]
      omega
    · rw [htake, hfront, withoutChecksum_image, hsum]
    · rw [htake, hdrop, hcount]
      exact parseRefs_ok_iff.mpr ⟨rfl, h.refs, h.distinct, rfl⟩

end CovmAiSidecarExtensionV1

def findSubslice (haystack needle : Bytes) : Option Nat :=
  if needle = [] then some 0 else position needle haystack

def findInRegion (extensionRegion : Bytes) : Except CoveError (Option CovmAiSidecarExtensionV1) :=
  match findSubslice extensionRegion covmAiSidecarExtensionMagic.toList with
  | none => .ok none
  | some offset =>
    (CovmAiSidecarExtensionV1.parse crc32c (extensionRegion.drop offset)).map some

def findInCovmBytes (fileData : Bytes) : Except CoveError (Option CovmAiSidecarExtensionV1) := do
  let postscript ← CovmPostscriptV1.parseFromTail crc32c fileData
  let extensionRegion ← covmExtensionRegion fileData postscript
  findInRegion crc32c extensionRegion

/-- The region holds the extension behind bytes in which the magic does not occur. -/
def FirstIn (e : CovmAiSidecarExtensionV1) (extensionRegion : Bytes) : Prop :=
  ∃ before front rest, extensionRegion = before ++ (front ++ rest) ∧
    ¬ covmAiSidecarExtensionMagic.toList <:+: before ∧ e.EncodedAs crc32c front

/-- No part of the region spells an extension. -/
def SidecarFree (extensionRegion : Bytes) : Prop :=
  ∀ (e : CovmAiSidecarExtensionV1) (front : Bytes), e.EncodedAs crc32c front →
    ¬ front <:+: extensionRegion

section

variable {crc32c} {e : CovmAiSidecarExtensionV1} {extensionRegion before image bytes : Bytes}

theorem magic_unbordered : Unbordered covmAiSidecarExtensionMagic.toList := by
  rw [Unbordered]
  decide

theorem magic_ne_nil : covmAiSidecarExtensionMagic.toList ≠ [] := by decide

theorem findInRegion_none_iff : findInRegion crc32c extensionRegion = .ok none ↔
    ¬ covmAiSidecarExtensionMagic.toList <:+: extensionRegion := by
  rw [← position_eq_none_iff magic_ne_nil, findInRegion, findSubslice, if_neg magic_ne_nil]
  cases position covmAiSidecarExtensionMagic.toList extensionRegion with
  | none => simp
  | some offset => simp [map_eq_ok_iff]

theorem findInRegion_some_iff :
    findInRegion crc32c extensionRegion = .ok (some e) ↔ FirstIn crc32c e extensionRegion := by
  rw [findInRegion, findSubslice, if_neg magic_ne_nil]
  constructor
  · intro h
    split at h
    · cases h
    · rename_i offset hoffset
      obtain ⟨before, back, rfl, rfl, hbefore⟩ :=
        (position_eq_some_iff magic_unbordered magic_ne_nil).mp hoffset
      obtain ⟨_, hparse, heq⟩ := map_eq_ok_iff.mp h
      cases heq
      rw [drop_left] at hparse
      obtain ⟨front, rest, hfront, hback⟩ := CovmAiSidecarExtensionV1.parse_ok_iff.mp hparse
      exact ⟨before, front, rest, by rw [hback], hbefore, hfront⟩
  · rintro ⟨before, front, rest, rfl, hbefore, hfront⟩
    obtain ⟨back, hback⟩ := hfront.starts
    have hoffset : position covmAiSidecarExtensionMagic.toList (before ++ (front ++ rest)) =
        some before.length := by
      refine (position_eq_some_iff magic_unbordered magic_ne_nil).mpr
        ⟨before, putU16 covmAiSidecarExtensionVersionMajorV1 ++ back ++ rest, ?_, rfl, hbefore⟩
      rw [hback, append_assoc covmAiSidecarExtensionMagic.toList]
    have hparse := CovmAiSidecarExtensionV1.parse_ok_iff.mpr ⟨front, rest, hfront, rfl⟩
    rw [hoffset]
    simp only [drop_left, hparse, map_ok]

theorem firstIn_of_serialize (h : e.serialize crc32c = .ok image) (huri : ∀ r ∈ e.refs, r.uri ≠ "")
    (hlen : image.length < 2 ^ 32) (hbefore : ¬ covmAiSidecarExtensionMagic.toList <:+: before) :
    FirstIn crc32c e (before ++ image) := by
  obtain ⟨hcount, ⟨hrefs, hdistinct⟩, -, rfl⟩ := CovmAiSidecarExtensionV1.serialize_ok_iff.mp h
  exact ⟨before, _, [], by rw [append_nil], hbefore, fun r hr => ⟨hrefs r hr, huri r hr⟩,
    hdistinct, by omega, hlen, _, rfl⟩

/-- A manifest's sidecar extension is found when the first magic in its extension region begins
that extension, and it is found missing when there is no magic in the region. -/
theorem sidecar_found_iff {f : CovmFile}
    (h : f.serializeWithExtensionRegion crc32c extensionRegion = .ok bytes) :
    (∀ before e image, e.serialize crc32c = .ok image → (∀ r ∈ e.refs, r.uri ≠ "") →
      extensionRegion = before ++ image →
        (findInCovmBytes crc32c bytes = .ok (some e) ↔ FirstIn crc32c e extensionRegion)) ∧
    (SidecarFree crc32c extensionRegion → (findInCovmBytes crc32c bytes = .ok none ↔
      ¬ covmAiSidecarExtensionMagic.toList <:+: extensionRegion)) := by
  obtain ⟨postscript, hpostscript, hregion⟩ := covmExtensionRegion_serialize crc32c h
  have hfind : findInCovmBytes crc32c bytes = findInRegion crc32c extensionRegion := by
    rw [findInCovmBytes, hpostscript]
    change covmExtensionRegion bytes postscript >>= _ = _
    rw [hregion]
    rfl
  rw [hfind]
  exact ⟨fun _ e _ _ _ _ => findInRegion_some_iff, fun _ => findInRegion_none_iff⟩

theorem sidecarFree_of_version (h : ¬ covmAiSidecarExtensionMagic.toList ++
    putU16 covmAiSidecarExtensionVersionMajorV1 <:+: extensionRegion) :
    SidecarFree crc32c extensionRegion := by
  intro e front hfront hin
  obtain ⟨back, hback⟩ := hfront.starts
  rw [← append_assoc] at hback
  exact h ((hback ▸ prefix_append _ back).isInfix.trans hin)

end

def emptyManifest : CovmFile where
  header := {
    magic := magicCovm
    headerLen := 82
    versionMajor := 1
    versionMinor := 0
    flags := 0
    datasetId := Vector.replicate 16 0
    tableCount := 0
    fileCount := 0
    createdAtUs := 0
    reserved := Vector.replicate 32 0
    checksum := 0 }
  files := []
  postscript := ⟨0, 0, 0, 0, 0, 0, 0⟩

def emptyExtension : CovmAiSidecarExtensionV1 := ⟨0, []⟩

def emptyExtensionBytes : Bytes := emptyExtension.image castagnoli 0 []

/-- A bundle beside the file, named by its SHA-256. -/
def bundleRef : CovmAiSidecarRefV1 :=
  ⟨Vector.replicate 16 7, .coveAiBundle, 0, 1, 100, List.replicate 32 5, "a.covai"⟩

def bundleExtension : CovmAiSidecarExtensionV1 := ⟨0, [bundleRef]⟩

/-- The extension is found behind other data. -/
theorem sidecar_found_iff_bundle : ∃ image bytes,
    bundleExtension.serialize castagnoli = .ok image ∧
      emptyManifest.serializeWithExtensionRegion castagnoli ([67, 79, 86, 69] ++ image) = .ok bytes ∧
        findInCovmBytes castagnoli bytes = .ok (some bundleExtension) := by
  have hrun : ((bundleExtension.serialize castagnoli).toOption.any fun image =>
      decide (image.length < 2 ^ 32) && (emptyManifest.serializeWithExtensionRegion castagnoli
        ([67, 79, 86, 69] ++ image)).toOption.isSome) = true := by decide +kernel
  obtain ⟨image, himage, hrun⟩ := (Option.any_eq_true _ _).mp hrun
  obtain ⟨hlen, hbytes⟩ := Bool.and_eq_true_iff.mp hrun
  obtain ⟨bytes, hbytes⟩ := Option.isSome_iff_exists.mp hbytes
  have himage := toOption_eq_some_iff.mp himage
  have hbytes := toOption_eq_some_iff.mp hbytes
  have huri : ∀ r ∈ bundleExtension.refs, r.uri ≠ "" := by decide
  have hfirst : FirstIn castagnoli bundleExtension ([67, 79, 86, 69] ++ image) :=
    firstIn_of_serialize himage huri (of_decide_eq_true hlen) (by decide)
  exact ⟨image, bytes, himage, hbytes,
    ((sidecar_found_iff hbytes).1 _ _ _ himage huri rfl).mpr hfirst⟩

def regionWithMagic : Bytes := covmAiSidecarExtensionMagic.toList ++ List.replicate 20 0

/-- The magic in other data hides an extension behind it and feigns one where there is none. -/
theorem magic_in_other_data : (∃ bytes, emptyManifest.serializeWithExtensionRegion castagnoli
        (regionWithMagic ++ emptyExtensionBytes) = .ok bytes ∧
      emptyExtension.serialize castagnoli = .ok emptyExtensionBytes ∧
        findInCovmBytes castagnoli bytes = .error .badVersion) ∧
    SidecarFree castagnoli regionWithMagic ∧
    ∃ bytes, emptyManifest.serializeWithExtensionRegion castagnoli regionWithMagic = .ok bytes ∧
      findInCovmBytes castagnoli bytes = .error .badVersion :=
  ⟨⟨_, rfl, rfl, by decide +kernel⟩, sidecarFree_of_version (by decide), _, rfl, by decide +kernel⟩

end CoveFormat.SidecarExtensions
