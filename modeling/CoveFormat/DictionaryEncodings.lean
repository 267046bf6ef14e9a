import CoveFormat.DictionarySections
import CoveFormat.OrderedMaps
import Mathlib.Data.Prod.Lex

namespace CoveFormat.DictionaryEncodings

open ByteCodes Canonical CanonicalValidator CheckedArith DictionarySections Except ExceptRules
  FixedFields OrderedMaps SortedKeys Wire
open List hiding Vector

variable {keys keys' ks : List FileDictionaryKey} {key : FileDictionaryKey} {n : Nat}

structure FileDictionaryKey where
  valueTag : UInt16
  canonical : Bytes
  deriving DecidableEq

def orderKey (key : FileDictionaryKey) : ℕ ×ₗ Bytes := toLex (key.valueTag.toNat, key.canonical)

theorem orderKey_injective : Function.Injective orderKey := by
  intro a b h
  obtain ⟨htag, hbytes⟩ := Prod.mk.inj (toLex.injective h)
  cases a
  cases b
  simp only [FileDictionaryKey.mk.injEq]
  exact ⟨UInt16.toNat_inj.mp htag, hbytes⟩

instance : LinearOrder FileDictionaryKey := LinearOrder.lift' orderKey orderKey_injective

/-- The keys of a `BTreeSet`, in their order. -/
def distinctKeys (keys : List FileDictionaryKey) : List FileDictionaryKey :=
  dedupAdjacent (sortByKey id keys)

abbrev Assignments := OrderedMap FileDictionaryKey UInt32

def assignCodes : List (FileDictionaryKey × Nat) → Assignments → Except CoveError Assignments
  | [], assignments => .ok assignments
  | (key, code) :: rest, assignments => do
      rejectIf (2 ^ 32 ≤ code) (.badSchema "dictionary entry count exceeds u32::MAX")
      assignCodes rest
        (assignments.entryOr key (UInt32.ofNat code) fun _ => UInt32.ofNat code)

def inlineEntry (key : FileDictionaryKey) (h : key.canonical.length ≤ 16) :
    FileDictionaryIndexEntryV1 where
  valueTag := key.valueTag
  storageClass := 0
  flags := 0
  inlineLen := UInt8.ofNat key.canonical.length
  reserved0 := Vector.replicate 3 0
  inlineData := ⟨(key.canonical ++ replicate (16 - key.canonical.length) 0).toArray, by
    simp
    omega⟩
  payloadOffset := 0
  payloadLength := 0
  canonicalHash64 := 0
  reserved1 := 0
  inline_le := by
    rw [UInt8.toNat_ofNat_of_lt' (show _ < 2 ^ 8 by omega)]
    exact h

def payloadEntry (key : FileDictionaryKey) (offset : Nat) : FileDictionaryIndexEntryV1 where
  valueTag := key.valueTag
  storageClass := 1
  flags := 0
  inlineLen := 0
  reserved0 := Vector.replicate 3 0
  inlineData := Vector.replicate 16 0
  payloadOffset := UInt64.ofNat offset
  payloadLength := UInt32.ofNat key.canonical.length
  canonicalHash64 := 0
  reserved1 := 0
  inline_le := Nat.zero_le 16

def placeEntry (key : FileDictionaryKey) (payload : Bytes) :
    Except CoveError (FileDictionaryIndexEntryV1 × Bytes) :=
  if h : key.canonical.length ≤ 16 then .ok (inlineEntry key h, payload)
  else do
    rejectIf (2 ^ 64 ≤ payload.length) .arithOverflow
    rejectIf (2 ^ 32 ≤ key.canonical.length) .arithOverflow
    .ok (payloadEntry key payload.length, payload ++ key.canonical)

def placeEntries : List (FileDictionaryKey × UInt32) → Nat → Bytes →
    Except CoveError (List FileDictionaryIndexEntryV1 × Bytes)
  | [], _, payload => .ok ([], payload)
  | (key, assignedCode) :: rest, expectedCode, payload => do
      rejectIf (2 ^ 32 ≤ expectedCode) .arithOverflow
      rejectIf (assignedCode.toNat ≠ expectedCode) .badFileCode
      let placed ← placeEntry key payload
      let others ← placeEntries rest (expectedCode + 1) placed.2
      .ok (placed.1 :: others.1, others.2)

def dictionaryHeader (entryCount payloadLength : Nat) : FileDictionaryHeaderV1 where
  entryCount := UInt32.ofNat entryCount
  flags := 0
  indexEntryLen := UInt16.ofNat dictIndexEntrySize
  valueHashAlgorithm := 0
  payloadLength := UInt64.ofNat payloadLength
  reserved := Vector.replicate 24 0

def buildFileDictionary (P : TextPredicates) (assignments : Assignments) :
    Except CoveError FileDictionary := do
  rejectIf (2 ^ 32 ≤ assignments.entries.length)
    (.badSchema "dictionary entry count exceeds u32::MAX")
  let placed ← placeEntries assignments.entries 0 []
  let dictionary : FileDictionary :=
    ⟨dictionaryHeader assignments.entries.length placed.2.length, placed.1, placed.2⟩
  let _ ← FileDictionary.parse P (indexBytes dictionary.header dictionary.entries) dictionary.payload
  .ok dictionary

structure FileDictionaryEncoding where
  dictionary : FileDictionary
  assignments : Assignments

def fromKeys (P : TextPredicates) (keys : List FileDictionaryKey) :
    Except CoveError FileDictionaryEncoding := do
  let assignments ← assignCodes (distinctKeys keys).zipIdx OrderedMap.empty
  let dictionary ← buildFileDictionary P assignments
  .ok ⟨dictionary, assignments⟩

def fileCodeForKey (enc : FileDictionaryEncoding) (key : FileDictionaryKey) :
    Except CoveError UInt32 :=
  match enc.assignments.get key with
  | some code => .ok code
  | none => .error .badFileCode

structure ReverseLookup where
  byCanonicalValue : OrderedMap Bytes UInt32
  redactedFilecodes : List UInt32

def lookupKey (valueTag : UInt16) (canonical : Bytes) : Bytes :=
  encodeU64Leb128 valueTag.toNat ++ canonical

def addFileCode (dict : FileDictionary) (lookup : ReverseLookup) (fileCode : UInt32) :
    Except CoveError ReverseLookup := do
  match ← dict.decodeValue fileCode with
  | .rawBytes bytes => do
      let entry ← dict.getEntry fileCode
      let key := lookupKey entry.valueTag bytes
      rejectIf (lookup.byCanonicalValue.get key ≠ none)
        (.badSection "dictionary contains duplicate canonical values")
      .ok { lookup with
        byCanonicalValue := lookup.byCanonicalValue.entryOr key fileCode fun _ => fileCode }
  | .redactedPresent =>
    .ok { lookup with redactedFilecodes := lookup.redactedFilecodes ++ [fileCode] }

def buildReverseLookup (dict : FileDictionary) : Except CoveError ReverseLookup :=
  (fileCodes dict.header.entryCount).foldlM (addFileCode dict) ⟨OrderedMap.empty, []⟩

section

variable {assignments : Assignments} {payload more : Bytes} {e : FileDictionaryIndexEntryV1}

theorem mem_distinctKeys : key ∈ distinctKeys keys ↔ key ∈ keys := by
  rw [distinctKeys, mem_dedupAdjacent, (sortByKey_perm id keys).mem_iff]

theorem distinctKeys_strict (keys : List FileDictionaryKey) :
    (distinctKeys keys).Pairwise (· < ·) :=
  dedupAdjacent_strict Function.injective_id (sortByKey_pairwise id keys)

theorem distinctKeys_congr (h : ∀ key, key ∈ keys ↔ key ∈ keys') :
    distinctKeys keys = distinctKeys keys' := by
  have hstrict := distinctKeys_strict keys
  have hstrict' := distinctKeys_strict keys'
  have hperm : (distinctKeys keys).Perm (distinctKeys keys') := by
    refine (perm_ext_iff_of_nodup (hstrict.imp ne_of_lt) (hstrict'.imp ne_of_lt)).mpr ?_
    intro key
    rw [mem_distinctKeys, mem_distinctKeys, h]
  exact @eq_of_perm_of_strict _ _ _ id _ _ hperm hstrict hstrict'

def coded (ks : List FileDictionaryKey) (n : Nat) : List (FileDictionaryKey × UInt32) :=
  (ks.zipIdx n).map fun p => (p.1, UInt32.ofNat p.2)

theorem coded_cons (key : FileDictionaryKey) (ks : List FileDictionaryKey) (n : Nat) :
    coded (key :: ks) n = (key, UInt32.ofNat n) :: coded ks (n + 1) := rfl

theorem coded_length (ks : List FileDictionaryKey) (n : Nat) : (coded ks n).length = ks.length := by
  rw [coded, length_map, length_zipIdx]

theorem assignCodes_ok (hfit : n + ks.length ≤ 2 ^ 32)
    (hsorted : (assignments.entries.map Prod.fst ++ ks).Pairwise (· < ·)) :
    ∃ assignments', assignCodes (ks.zipIdx n) assignments = .ok assignments' ∧
      assignments'.entries = assignments.entries ++ coded ks n := by
  induction ks generalizing n assignments with
  | nil => exact ⟨assignments, rfl, (append_nil _).symm⟩
  | cons key ks ih =>
    rw [length_cons] at hfit
    have habove : ∀ other ∈ assignments.entries.map Prod.fst, other < key := fun other hother =>
      (pairwise_append.mp hsorted).2.2 other hother key mem_cons_self
    have hentries : (assignments.entryOr key (UInt32.ofNat n) fun _ => UInt32.ofNat n).entries =
        assignments.entries ++ [(key, UInt32.ofNat n)] := upsert_above habove
    obtain ⟨assignments', hassign, heq⟩ :=
      @ih (n + 1) (assignments.entryOr key (UInt32.ofNat n) fun _ => UInt32.ofNat n) (by omega) (by
        rw [hentries, map_append, append_assoc]
        exact hsorted)
    refine ⟨assignments', ?_, ?_⟩
    · rw [zipIdx_cons, assignCodes]
      exact rejectIf_andThen (by omega) hassign
    · rw [heq, hentries, coded_cons, append_assoc]
      rfl

/-- The entry stores the value of the key, in the entry or in the payload. -/
inductive Stores (payload : Bytes) (key : FileDictionaryKey) : FileDictionaryIndexEntryV1 → Prop
  | inline (h : key.canonical.length ≤ 16) : Stores payload key (inlineEntry key h)
  | payload (before after : Bytes) (h : payload = before ++ key.canonical ++ after) :
      Stores payload key (payloadEntry key before.length)

theorem Stores.append (h : Stores payload key e) (more : Bytes) : Stores (payload ++ more) key e := by
  cases h with
  | inline h => exact .inline h
  | payload before after h =>
    refine .payload before (after ++ more) ?_
    rw [h, append_assoc]

theorem placeEntry_ok (payload : Bytes) (hshort : key.canonical.length < 2 ^ 32)
    (hpayload : payload.length < 2 ^ 64) :
    ∃ e more, placeEntry key payload = .ok (e, payload ++ more) ∧ Stores (payload ++ more) key e ∧
      more.length < 2 ^ 32 := by
  by_cases h : key.canonical.length ≤ 16
  · refine ⟨inlineEntry key h, [], ?_, .inline h, by simp⟩
    rw [placeEntry, dif_pos h, append_nil]
  · refine ⟨payloadEntry key payload.length, key.canonical, ?_,
      .payload payload [] (append_nil _).symm, hshort⟩
    rw [placeEntry, dif_neg h]
    refine rejectIf_andThen (by omega) ?_
    exact rejectIf_andThen (by omega) rfl

theorem placeEntries_ok (hshort : ∀ key ∈ ks, key.canonical.length < 2 ^ 32)
    (hcodes : n + ks.length ≤ 2 ^ 32) (hpayload : payload.length ≤ n * (2 ^ 32 - 1)) :
    ∃ es more, placeEntries (coded ks n) n payload = .ok (es, payload ++ more) ∧
      Forall₂ (Stores (payload ++ more)) ks es ∧
      (payload ++ more).length ≤ (n + ks.length) * (2 ^ 32 - 1) := by
  induction ks generalizing n payload with
  | nil =>
    refine ⟨[], [], ?_, .nil, ?_⟩
    · rw [append_nil]
      rfl
    · rw [append_nil]
      exact hpayload
  | cons key ks ih =>
    rw [length_cons] at hcodes
    obtain ⟨hkey, hrest⟩ := forall_mem_cons.mp hshort
    obtain ⟨e, more, hplace, hstores, hmore⟩ := placeEntry_ok payload hkey (by
      omega)
    obtain ⟨es, more', hplaced, hall, hlen⟩ := @ih (n + 1) (payload ++ more) hrest (by omega) (by
      rw [length_append, Nat.succ_mul]
      omega)
    rw [append_assoc] at hplaced hall hlen
    refine ⟨e :: es, more ++ more', ?_, .cons ?_ hall, ?_⟩
    · rw [coded_cons, placeEntries]
      refine rejectIf_andThen (by omega) ?_
      refine unless_andThen ?_ ?_
      · exact UInt32.toNat_ofNat_of_lt' (show _ < 2 ^ 32 by omega)
      · exact andThen_ok hplace (andThen_ok hplaced rfl)
    · rw [← append_assoc]
      exact hstores.append more'
    · rw [length_cons, ← Nat.add_assoc, Nat.add_right_comm]
      exact hlen

/-- A key that a dictionary can hold: its bytes are a valid value of its tag. -/
structure ValidKey (P : TextPredicates) (key : FileDictionaryKey) : Prop where
  valid : ∃ tag, ValueTag.fromU16 key.valueTag.toNat = some tag ∧
    validateCanonicalPayload P tag key.canonical = .ok ()
  short : key.canonical.length < 2 ^ 32

theorem inline_contents (h : key.canonical.length ≤ 16) :
    (inlineEntry key h).inlineData.toList.take (inlineEntry key h).inlineLen.toNat =
      key.canonical := by
  have hlen : (inlineEntry key h).inlineLen.toNat = key.canonical.length :=
    UInt8.toNat_ofNat_of_lt' (show _ < 2 ^ 8 by omega)
  rw [hlen]
  exact take_left

theorem payload_contents {before after : Bytes} (h : payload = before ++ key.canonical ++ after)
    (hshort : key.canonical.length < 2 ^ 32) (hpayload : payload.length < 2 ^ 64) :
    checkedRegion payload (payloadEntry key before.length).payloadOffset.toNat
      (payloadEntry key before.length).payloadLength.toNat = .ok key.canonical := by
  have hlen := congrArg List.length h
  rw [length_append, length_append] at hlen
  have hoffset : (payloadEntry key before.length).payloadOffset.toNat = before.length :=
    UInt64.toNat_ofNat_of_lt' (show _ < 2 ^ 64 by omega)
  have hlength : (payloadEntry key before.length).payloadLength.toNat = key.canonical.length :=
    UInt32.toNat_ofNat_of_lt' hshort
  refine checkedRegion_ok_iff.mpr ⟨by omega, by omega, ?_⟩
  rw [hoffset, hlength, h, append_assoc, drop_left, take_left]

section

variable (h : Stores payload key e)
include h

theorem Stores.tag : e.valueTag = key.valueTag := by
  cases h <;> rfl

theorem Stores.decoded (hshort : key.canonical.length < 2 ^ 32) (hpayload : payload.length < 2 ^ 64) :
    FileDictionary.decodeDictionaryEntry e payload = .ok (.rawBytes key.canonical) := by
  cases h with
  | inline h =>
    have hcontents := inline_contents h
    exact congrArg (fun bytes => ok (DictionaryValue.rawBytes bytes)) hcontents
  | payload before after h =>
    exact andThen_ok (payload_contents h hshort hpayload) rfl

theorem Stores.fits {P : TextPredicates} (hkey : ValidKey P key)
    (hpayload : payload.length < 2 ^ 64) : EntryFits P payload e := by
  obtain ⟨⟨tag, htag, hvalid⟩, hshort⟩ := hkey
  have htag' : valueTagOf e = .ok tag := by rw [valueTagOf, h.tag, htag]
  have hsome : ValueTag.fromU16 e.valueTag.toNat ≠ none := by
    rw [h.tag, htag]
    exact Option.some_ne_none tag
  cases h with
  | inline h =>
    refine ⟨rfl, rfl, hsome, Option.some_ne_none StorageClass.inline, ?_⟩
    refine andThen_eq_ok_iff.mpr ⟨(), ?_, ?_⟩
    · exact andThen_eq_ok_iff.mpr ⟨_, checkedAdd_ok_iff.mpr ⟨Nat.two_pow_pos 64, rfl⟩,
        rejectIf_ok (Nat.not_lt_zero _)⟩
    · refine andThen_eq_ok_iff.mpr ⟨(), rejectIf_ok (not_not.mpr rfl), ?_⟩
      refine andThen_eq_ok_iff.mpr ⟨tag, htag', ?_⟩
      rw [inline_contents]
      exact hvalid
  | payload before after h =>
    have hregion := payload_contents h hshort hpayload
    obtain ⟨hfit, hinside, -⟩ := checkedRegion_ok_iff.mp hregion
    refine ⟨rfl, rfl, hsome, Option.some_ne_none StorageClass.payload, ?_⟩
    refine andThen_eq_ok_iff.mpr ⟨(), ?_, ?_⟩
    · exact andThen_eq_ok_iff.mpr ⟨_, checkedAdd_ok_iff.mpr ⟨hfit, rfl⟩, rejectIf_ok (not_lt.mpr hinside)⟩
    · refine andThen_eq_ok_iff.mpr ⟨(), rejectIf_ok (not_not.mpr rfl), ?_⟩
      refine andThen_eq_ok_iff.mpr ⟨_, hregion, ?_⟩
      exact andThen_eq_ok_iff.mpr ⟨tag, htag', hvalid⟩

end

/-- A dictionary that stores the keys, the entry of each at its place. -/
structure Holds (ks : List FileDictionaryKey) (dict : FileDictionary) : Prop where
  count : dict.header.entryCount.toNat = ks.length
  stores : Forall₂ (Stores dict.payload) ks dict.entries
  payload_lt : dict.payload.length < 2 ^ 64

theorem buildFileDictionary_ok {P : TextPredicates} (hentries : assignments.entries = coded ks 0)
    (hvalid : ∀ key ∈ ks, ValidKey P key) (hcount : ks.length < 2 ^ 32) :
    ∃ dict, buildFileDictionary P assignments = .ok dict ∧ Holds ks dict := by
  obtain ⟨es, payload, hplaced, hstores, hlen⟩ := @placeEntries_ok ks 0 []
    (fun key hkey => (hvalid key hkey).short) (by omega) (Nat.zero_le _)
  rw [nil_append] at hplaced hstores hlen
  have hpayload : payload.length < 2 ^ 64 := by
    omega
  have hcount' : (dictionaryHeader ks.length payload.length).entryCount.toNat = ks.length :=
    UInt32.toNat_ofNat_of_lt' hcount
  have hfits : ∀ e ∈ es, EntryFits P payload e := by
    intro e he
    obtain ⟨key, hkey, he⟩ := forall₂_mem_left hstores.flip he
    exact Stores.fits he (hvalid key hkey) hpayload
  have hparsed := @parse_indexBytes P (dictionaryHeader ks.length payload.length) es payload
    ⟨rfl, Nat.zero_le 2, rfl⟩ (hcount'.trans hstores.length_eq) (UInt64.toNat_ofNat_of_lt' hpayload)
    hfits
  refine ⟨⟨dictionaryHeader ks.length payload.length, es, payload⟩, ?_, hcount', hstores, hpayload⟩
  rw [buildFileDictionary, hentries, coded_length]
  refine rejectIf_andThen (by omega) ?_
  exact andThen_ok hplaced (andThen_ok hparsed rfl)

end

section

variable {P : TextPredicates} {a b : FileDictionaryKey} {dict : FileDictionary}
  {enc : FileDictionaryEncoding} {i : Nat}

theorem lookupKey_injective (h : lookupKey a.valueTag a.canonical = lookupKey b.valueTag b.canonical) :
    a = b := by
  rw [lookupKey, lookupKey, encodeU64Leb128_eq_varint, encodeU64Leb128_eq_varint] at h
  obtain ⟨htag, hbytes⟩ := varint_separates _ _ _ _ h
  cases a
  cases b
  simp only [FileDictionaryKey.mk.injEq]
  exact ⟨UInt16.toNat_inj.mp htag, hbytes⟩

theorem Holds.entry (h : Holds ks dict) (hi : ks[i]? = some key) (hcode : (UInt32.ofNat i).toNat = i) :
    ∃ e, dict.getEntry (UInt32.ofNat i) = .ok e ∧ Stores dict.payload key e := by
  obtain ⟨hlt, rfl⟩ := List.getElem?_eq_some_iff.mp hi
  have hlt' : i < dict.entries.length := h.stores.length_eq ▸ hlt
  refine ⟨dict.entries[i], ?_, forall₂_iff_get.mp h.stores |>.2 i hlt hlt'⟩
  rw [FileDictionary.getEntry, hcode, List.getElem?_eq_getElem hlt']

theorem Holds.decodeValue (h : Holds ks dict) (hshort : key.canonical.length < 2 ^ 32)
    (hi : ks[i]? = some key) (hcode : (UInt32.ofNat i).toNat = i) :
    dict.decodeValue (UInt32.ofNat i) = .ok (.rawBytes key.canonical) := by
  obtain ⟨e, hget, hstores⟩ := h.entry hi hcode
  exact andThen_ok hget (hstores.decoded hshort h.payload_lt)

/-- The look-up has the codes of the first `n` keys. -/
structure LooksUp (ks : List FileDictionaryKey) (n : Nat) (lookup : ReverseLookup) : Prop where
  found : ∀ i key, i < n → ks[i]? = some key →
    lookup.byCanonicalValue.get (lookupKey key.valueTag key.canonical) = some (UInt32.ofNat i)
  only : ∀ bytes, lookup.byCanonicalValue.get bytes ≠ none →
    ∃ i key, i < n ∧ ks[i]? = some key ∧ bytes = lookupKey key.valueTag key.canonical
  redacted : lookup.redactedFilecodes = []

theorem Holds.lookup_ok (h : Holds ks dict) (hvalid : ∀ key ∈ ks, ValidKey P key) (hnodup : ks.Nodup)
    (hcount : ks.length < 2 ^ 32) (hn : n ≤ ks.length) :
    ∃ lookup, ((List.range n).map UInt32.ofNat).foldlM (addFileCode dict) ⟨OrderedMap.empty, []⟩ =
      .ok lookup ∧ LooksUp ks n lookup := by
  induction n with
  | zero =>
    refine ⟨⟨OrderedMap.empty, []⟩, rfl, fun i key hi => absurd hi (Nat.not_lt_zero i), ?_, rfl⟩
    intro bytes hget
    exact absurd OrderedMap.get_empty hget
  | succ n ih =>
    obtain ⟨lookup, hfold, hlooks⟩ := ih (by omega)
    have hn' : ks[n]? = some ks[n] := List.getElem?_eq_getElem hn
    have hkey := hvalid ks[n] (getElem_mem hn)
    have hcode : (UInt32.ofNat n).toNat = n := UInt32.toNat_ofNat_of_lt' (show _ < 2 ^ 32 by omega)
    obtain ⟨e, hget, hstores⟩ := h.entry hn' hcode
    have hnew : lookup.byCanonicalValue.get (lookupKey e.valueTag ks[n].canonical) = none := by
      by_contra hsome
      obtain ⟨i, key, hi, hik, heq⟩ := hlooks.only _ hsome
      rw [hstores.tag] at heq
      have hsame := lookupKey_injective heq
      obtain ⟨hlt, rfl⟩ := List.getElem?_eq_some_iff.mp hik
      exact absurd ((List.Nodup.getElem_inj_iff hnodup).mp hsame) (by omega)
    refine ⟨⟨lookup.byCanonicalValue.entryOr (lookupKey e.valueTag ks[n].canonical)
      (UInt32.ofNat n) fun _ => UInt32.ofNat n, lookup.redactedFilecodes⟩, ?_, ?_⟩
    · rw [range_succ, map_append, foldlM_append]
      refine andThen_ok hfold ?_
      refine andThen_ok ?_ rfl
      refine andThen_ok (h.decodeValue hkey.short hn' hcode) ?_
      refine andThen_ok hget ?_
      exact unless_andThen hnew rfl
    · refine ⟨fun i key hi hik => ?_, fun bytes hbytes => ?_, hlooks.redacted⟩
      · simp only [OrderedMap.get_entryOr, hstores.tag]
        by_cases hlast : i = n
        · subst hlast
          obtain rfl := Option.some.inj (hn'.symm.trans hik)
          rw [if_pos rfl]
        · rw [if_neg, hlooks.found i key (by omega) hik]
          intro heq
          have hsame := lookupKey_injective heq
          obtain ⟨hlt, rfl⟩ := List.getElem?_eq_some_iff.mp hik
          exact hlast ((List.Nodup.getElem_inj_iff hnodup).mp hsame).symm
      · simp only [OrderedMap.get_entryOr, hstores.tag] at hbytes
        by_cases heq : lookupKey ks[n].valueTag ks[n].canonical = bytes
        · exact ⟨n, ks[n], Nat.lt_succ_self n, hn', heq.symm⟩
        · rw [if_neg heq] at hbytes
          obtain ⟨i, key, hi, hik, hbytes⟩ := hlooks.only bytes hbytes
          exact ⟨i, key, hi.trans (Nat.lt_succ_self n), hik, hbytes⟩

theorem assign_distinctKeys (hcount : (distinctKeys keys).length ≤ 2 ^ 32) :
    ∃ assignments, assignCodes (distinctKeys keys).zipIdx OrderedMap.empty = .ok assignments ∧
      assignments.entries = coded (distinctKeys keys) 0 :=
  @assignCodes_ok (distinctKeys keys) 0 OrderedMap.empty (by omega) (distinctKeys_strict keys)

theorem fromKeys_ok (hvalid : ∀ key ∈ keys, ValidKey P key)
    (hcount : (distinctKeys keys).length < 2 ^ 32) :
    ∃ enc, fromKeys P keys = .ok enc ∧ Holds (distinctKeys keys) enc.dictionary ∧
      enc.assignments.entries = coded (distinctKeys keys) 0 := by
  obtain ⟨assignments, hassign, hentries⟩ := assign_distinctKeys hcount.le
  obtain ⟨dict, hdict, hholds⟩ := buildFileDictionary_ok hentries
    (fun key hkey => hvalid key (mem_distinctKeys.mp hkey)) hcount
  exact ⟨⟨dict, assignments⟩, andThen_ok hassign (andThen_ok hdict rfl), hholds, hentries⟩

theorem fileCodeForKey_iff (hentries : enc.assignments.entries = coded ks 0)
    (hcount : ks.length < 2 ^ 32) {code : UInt32} :
    fileCodeForKey enc key = .ok code ↔ ks[code.toNat]? = some key := by
  have hget : fileCodeForKey enc key = .ok code ↔ enc.assignments.get key = some code := by
    rw [fileCodeForKey]
    cases enc.assignments.get key with
    | none => exact iff_of_false nofun nofun
    | some found => rw [ok.injEq, Option.some.injEq]
  rw [hget, ← OrderedMap.mem_entries_iff, hentries, coded, mem_map]
  constructor
  · rintro ⟨⟨found, i⟩, hmem, heq⟩
    obtain ⟨rfl, rfl⟩ := Prod.mk.inj heq
    have hi := mem_zipIdx_iff_getElem?.mp hmem
    have hlt := (List.getElem?_eq_some_iff.mp hi).1
    rwa [UInt32.toNat_ofNat_of_lt' (show i < 2 ^ 32 by omega)]
  · intro hi
    exact ⟨(key, code.toNat), mem_zipIdx_iff_getElem?.mpr hi, by rw [UInt32.ofNat_toNat]⟩

/-- The distinct keys have their places in the order of the keys for codes, their values are read
back by the codes, and the codes by their values. -/
theorem from_keys_bijective (P : TextPredicates) (keys : List FileDictionaryKey)
    (hvalid : ∀ key ∈ keys, ValidKey P key) (hcount : (distinctKeys keys).length < 2 ^ 32) :
    ∃ enc, fromKeys P keys = .ok enc ∧
      ((distinctKeys keys).Pairwise (· < ·) ∧ ∀ key, key ∈ distinctKeys keys ↔ key ∈ keys) ∧
      enc.dictionary.header.entryCount.toNat = (distinctKeys keys).length ∧
      (∀ key code, fileCodeForKey enc key = .ok code ↔ (distinctKeys keys)[code.toNat]? = some key) ∧
      (∀ keys', (∀ key, key ∈ keys' ↔ key ∈ keys) → fromKeys P keys' = .ok enc) ∧
      ∃ lookup, buildReverseLookup enc.dictionary = .ok lookup ∧
        ∀ key ∈ keys, ∃ code, fileCodeForKey enc key = .ok code ∧
          enc.dictionary.decodeValue code = .ok (.rawBytes key.canonical) ∧
          lookup.byCanonicalValue.get (lookupKey key.valueTag key.canonical) = some code := by
  obtain ⟨enc, henc, hholds, hentries⟩ := fromKeys_ok hvalid hcount
  have hvalid' : ∀ key ∈ distinctKeys keys, ValidKey P key := fun key hkey =>
    hvalid key (mem_distinctKeys.mp hkey)
  obtain ⟨lookup, hlookup, hlooks⟩ := hholds.lookup_ok hvalid'
    ((distinctKeys_strict keys).imp ne_of_lt) hcount le_rfl
  refine ⟨enc, henc, ⟨distinctKeys_strict keys, fun key => mem_distinctKeys⟩, hholds.count,
    fun key code => fileCodeForKey_iff hentries hcount, fun keys' hsame => ?_, lookup, ?_,
    fun key hkey => ?_⟩
  · rw [fromKeys, distinctKeys_congr hsame]
    exact henc
  · rw [buildReverseLookup, fileCodes, hholds.count]
    exact hlookup
  · obtain ⟨i, hi, rfl⟩ := mem_iff_getElem.mp (mem_distinctKeys.mpr hkey)
    have hi' := List.getElem?_eq_getElem hi
    have hcode : (UInt32.ofNat i).toNat = i := UInt32.toNat_ofNat_of_lt' (show _ < 2 ^ 32 by omega)
    refine ⟨UInt32.ofNat i, (fileCodeForKey_iff hentries hcount).mpr (by rw [hcode, hi']), ?_,
      hlooks.found i _ hi hi'⟩
    exact hholds.decodeValue (hvalid _ hkey).short hi' hcode

def sampleKeys : List FileDictionaryKey :=
  [⟨UInt16.ofNat ValueTag.binary.code, 17 :: replicate 17 7⟩,
    ⟨UInt16.ofNat ValueTag.uint64.code, leBytes 8 5⟩,
    ⟨UInt16.ofNat ValueTag.binary.code, 17 :: replicate 17 7⟩]

/-- A number in its entry and 17 bytes in the payload, given twice. -/
theorem from_keys_bijective_sample :
    ∃ enc lookup code, fromKeys ⟨fun _ => true, fun _ => true, fun _ _ => rfl⟩ sampleKeys = .ok enc ∧
      buildReverseLookup enc.dictionary = .ok lookup ∧
      fileCodeForKey enc ⟨UInt16.ofNat ValueTag.binary.code, 17 :: List.replicate 17 7⟩ = .ok code ∧
      enc.dictionary.decodeValue code = .ok (.rawBytes (17 :: List.replicate 17 7)) ∧
      enc.dictionary.header.entryCount = 2 := by
  obtain ⟨enc, henc, -, hcount, -, -, lookup, hlookup, hkeys⟩ :=
    from_keys_bijective ⟨fun _ => true, fun _ => true, fun _ _ => rfl⟩ sampleKeys (by
        refine forall_mem_cons.mpr ⟨⟨⟨.binary, rfl, by decide +kernel⟩, by decide⟩, ?_⟩
        refine forall_mem_cons.mpr ⟨⟨⟨.uint64, rfl, by decide +kernel⟩, by decide⟩, ?_⟩
        exact forall_mem_singleton.mpr ⟨⟨.binary, rfl, by decide +kernel⟩, by decide⟩)
      (by decide +kernel)
  obtain ⟨code, hcode, hdecode, -⟩ := hkeys _ mem_cons_self
  refine ⟨enc, lookup, code, henc, hlookup, hcode, hdecode, UInt32.toNat_inj.mp ?_⟩
  rw [hcount]
  decide +kernel

theorem fromKeys_too_many (hcount : (distinctKeys keys).length = 2 ^ 32) :
    fromKeys P keys = .error (.badSchema "dictionary entry count exceeds u32::MAX") := by
  obtain ⟨assignments, hassign, hentries⟩ := assign_distinctKeys hcount.le
  have hbuild : buildFileDictionary P assignments =
      .error (.badSchema "dictionary entry count exceeds u32::MAX") := by
    rw [buildFileDictionary, hentries, coded_length, hcount, rejectIf, if_pos le_rfl]
    rfl
  rw [fromKeys, hassign]
  change (buildFileDictionary P assignments >>= _) = _
  rw [hbuild]
  rfl

/-- The numbers below `count` as keys of 64-bit unsigned values. -/
def numberKeys (count : Nat) : List FileDictionaryKey :=
  (range count).map fun i => ⟨UInt16.ofNat ValueTag.uint64.code, leBytes 8 i⟩

theorem numberKeys_distinct {count : Nat} (h : count ≤ 2 ^ 64) :
    (distinctKeys (numberKeys count)).length = count := by
  have hnodup : (numberKeys count).Nodup := by
    refine List.Nodup.map_on (fun i hi j hj heq => ?_) nodup_range
    rw [mem_range] at hi hj
    exact leBytes_inj (hi.trans_le h) (hj.trans_le h) (FileDictionaryKey.mk.inj heq).2
  have hperm : (distinctKeys (numberKeys count)).Perm (numberKeys count) := by
    refine (perm_ext_iff_of_nodup ((distinctKeys_strict _).imp ne_of_lt) hnodup).mpr ?_
    exact fun key => mem_distinctKeys
  rw [hperm.length_eq, numberKeys, length_map, length_range]

theorem numberKeys_valid (count : Nat) : ∀ key ∈ numberKeys count, ValidKey P key := by
  refine forall_mem_map.mpr fun i _ => ⟨⟨.uint64, rfl, ?_⟩, ?_⟩
  · simp [validateCanonicalPayload, validatePayloadInner, validateMinWidth, Except.bind]
  · rw [leBytes_length]
    omega

/-- There is no code for the last of 2^32 keys in a count of entries. -/
theorem too_many_keys_rejected : ∃ keys : List FileDictionaryKey, ∀ P : TextPredicates,
    (∀ key ∈ keys, ValidKey P key) ∧
      fromKeys P keys = .error (.badSchema "dictionary entry count exceeds u32::MAX") :=
  ⟨numberKeys (2 ^ 32), fun _ => ⟨numberKeys_valid _,
    fromKeys_too_many (numberKeys_distinct (Nat.pow_le_pow_right (by decide) (by decide)))⟩⟩

end

end CoveFormat.DictionaryEncodings
