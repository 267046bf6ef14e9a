import CoveFormat.CanonicalIdentity
import CoveFormat.SynopsisPayloads

namespace CoveFormat.SynopsisSections

open ByteCodes ExceptRules FixedFields AggregateSynopses AggregateSynopsis SynopsisPayloads List
open Canonical (TextPredicates)
open CanonicalIdentity (asciiText)

abbrev Part := AggregateEntry × AggregatePayloadV2

section

variable (crc32c : Bytes → UInt32)

def placedEntries (offset : Nat) : List Part → List AggregateEntry
  | [] => []
  | (entry, payload) :: parts =>
    let encodedPayload := encodePayload crc32c entry payload
    placed entry offset encodedPayload :: placedEntries (offset + encodedPayload.length) parts

def payloadBytes (parts : List Part) : Bytes := parts.flatMap fun p => encodePayload crc32c p.1 p.2

def tableBytes (entries : List AggregateEntry) : Bytes :=
  entries.flatMap (AggregateEntry.serialize crc32c)

def stored (entry : AggregateEntry) : AggregateEntry :=
  { entry with checksum := entry.checksumOf crc32c }

variable {crc32c}

theorem serializeParts_eq (offset : Nat) (parts : List Part) : serializeParts crc32c offset parts =
      (tableBytes crc32c (placedEntries crc32c offset parts), payloadBytes crc32c parts) := by
  induction parts generalizing offset with
  | nil => rfl
  | cons p parts ih => rw [serializeParts, ih]; rfl

@[simp] theorem placedEntries_length (offset : Nat) (parts : List Part) :
    (placedEntries crc32c offset parts).length = parts.length := by
  induction parts generalizing offset with
  | nil => rfl
  | cons p parts ih => rw [placedEntries, length_cons, ih, length_cons]

theorem tableBytes_length (entries : List AggregateEntry) :
    (tableBytes crc32c entries).length = entries.length * aggregateSynopsisEntryLen :=
  length_flatMap_const (fun _ => AggregateEntry.serialize_length _) entries

theorem table_slice {entries : List AggregateEntry} {i : Nat} (hi : i < entries.length)
    (rest : Bytes) :
    ((tableBytes crc32c entries ++ rest).drop (i * aggregateSynopsisEntryLen)).take
      aggregateSynopsisEntryLen = entries[i].serialize crc32c :=
  slice_flatMap_const (fun _ => AggregateEntry.serialize_length _) (List.getElem?_eq_getElem hi) rest

theorem entriesAt_table {entries : List AggregateEntry}
    (hnulls : ∀ e ∈ entries, e.nullCount ≤ e.rowCount) {m : Nat} (hm : m ≤ entries.length)
    (rest : Bytes) :
    entriesAt crc32c (tableBytes crc32c entries ++ rest) m =
      .ok ((entries.take m).map (stored crc32c)) := by
  apply mapM_of_forall₂
  refine forall₂_iff_get.mpr ⟨by simp [hm], fun i hi _ => ?_⟩
  rw [length_range] at hi
  have hparse := @AggregateEntry.parse_serialize crc32c _
    (hnulls entries[i] (getElem_mem _)) []
  rw [append_nil] at hparse
  simp only [get_eq_getElem, getElem_range, getElem_map, getElem_take,
    table_slice (show i < entries.length by omega)]
  exact hparse

theorem placedEntries_forall₂ (offset : Nat) (parts : List Part) :
    Forall₂ (fun e (p : Part) => ∃ start len,
      e = { p.1 with payloadOffset := start, payloadLength := len })
      (placedEntries crc32c offset parts) parts := by
  induction parts generalizing offset with
  | nil => exact .nil
  | cons p parts ih =>
    refine .cons ?_ (ih _)
    by_cases hne : encodePayload crc32c p.1 p.2 = []
    · exact ⟨0, 0, if_pos hne⟩
    · exact ⟨_, _, if_neg hne⟩

variable {parts : List Part} {offset : Nat}

variable (h : offset + (payloadBytes crc32c parts).length < 2 ^ 64)
include h

theorem placed_range {e : AggregateEntry} (he : e ∈ placedEntries crc32c offset parts)
    (hlen : e.payloadLength ≠ 0) :
    offset ≤ e.payloadOffset.toNat ∧
      e.payloadOffset.toNat + e.payloadLength.toNat ≤ offset + (payloadBytes crc32c parts).length := by
  induction parts generalizing offset with
  | nil => cases he
  | cons p parts ih =>
    obtain ⟨entry, payload⟩ := p
    have hbytes : (payloadBytes crc32c ((entry, payload) :: parts)).length =
        (encodePayload crc32c entry payload).length + (payloadBytes crc32c parts).length := by
      rw [payloadBytes, flatMap_cons, length_append]
      rfl
    rw [hbytes] at h ⊢
    rcases mem_cons.mp he with rfl | he
    · rw [placed] at hlen ⊢
      split at hlen
      · exact absurd rfl hlen
      · rename_i hne
        rw [if_neg hne]
        have hoffset : (UInt64.ofNat offset).toNat = offset :=
            UInt64.toNat_ofNat_of_lt' (show _ < 2 ^ 64 by omega)
        have hlength : (UInt64.ofNat (encodePayload crc32c entry payload).length).toNat =
            (encodePayload crc32c entry payload).length :=
          UInt64.toNat_ofNat_of_lt' (show _ < 2 ^ 64 by omega)
        change offset ≤ (UInt64.ofNat offset).toNat ∧ (UInt64.ofNat offset).toNat +
          (UInt64.ofNat _).toNat ≤ _
        rw [hoffset, hlength]
        omega
    · have hrest := ih (by omega) he
      omega

theorem placed_first :
    payloadBytes crc32c parts = [] ∧
        (∀ e ∈ placedEntries crc32c offset parts, e.payloadLength = 0) ∨
      ∃ e ∈ placedEntries crc32c offset parts, e.payloadLength ≠ 0 ∧ e.payloadOffset.toNat = offset := by
  induction parts with
  | nil => exact .inl ⟨rfl, nofun⟩
  | cons p parts ih =>
    obtain ⟨entry, payload⟩ := p
    by_cases hne : encodePayload crc32c entry payload = []
    · have hbytes : payloadBytes crc32c ((entry, payload) :: parts) = payloadBytes crc32c parts := by
        rw [payloadBytes, flatMap_cons, hne]
        rfl
      have hplaced : placedEntries crc32c offset ((entry, payload) :: parts) =
          { entry with payloadOffset := 0, payloadLength := 0 } ::
            placedEntries crc32c offset parts := by
        rw [placedEntries, placed, if_pos hne, hne]
        rfl
      rw [hbytes] at h ⊢
      rw [hplaced]
      rcases ih h with ⟨hnone, hall⟩ | ⟨e, he, hpayload⟩
      · exact .inl ⟨hnone, forall_mem_cons.mpr ⟨rfl, hall⟩⟩
      · exact .inr ⟨e, .tail _ he, hpayload⟩
    · have hlen := length_pos_of_ne_nil hne
      rw [payloadBytes, flatMap_cons, length_append] at h
      change offset + ((encodePayload crc32c entry payload).length + _) < _ at h
      refine .inr ⟨_, mem_cons_self, ?_, ?_⟩
      · rw [placed, if_neg hne]
        intro hzero
        have hzero := congrArg UInt64.toNat hzero
        change (UInt64.ofNat _).toNat = 0 at hzero
        rw [UInt64.toNat_ofNat_of_lt' (show _ < 2 ^ 64 by omega)] at hzero
        omega
      · rw [placed, if_neg hne]
        exact UInt64.toNat_ofNat_of_lt' (show _ < 2 ^ 64 by omega)

end

section

variable {crc32c : Bytes → UInt32} {bytes : Bytes}

theorem inferFrom_skip {counts : List Nat} (h : ∀ count ∈ counts, ∃ entries,
      entriesAt crc32c bytes count = .ok entries ∧ fits bytes count entries = false)
    (firstParseError : Option CoveError) (rest : List Nat) :
    inferFrom crc32c bytes firstParseError (counts ++ rest) =
      inferFrom crc32c bytes firstParseError rest := by
  induction counts with
  | nil => rfl
  | cons count counts ih =>
    obtain ⟨entries, hentries, hfits⟩ := h count mem_cons_self
    rw [cons_append, inferFrom, hentries]
    simp only [hfits, Bool.false_eq_true, if_false]
    exact ih fun c hc => h c (.tail _ hc)

variable {entries : List AggregateEntry}

theorem inferEntryCount_of_first {count : Nat} (hpos : 0 < count)
    (hle : count ≤ bytes.length / aggregateSynopsisEntryLen)
    (hearlier : ∀ m < count, ∃ es, entriesAt crc32c bytes m = .ok es ∧ (0 < m → fits bytes m es = false))
    (hentries : entriesAt crc32c bytes count = .ok entries)
    (hfits : fits bytes count entries = true) : inferEntryCount crc32c bytes = .ok count := by
  have hrange : List.range' 1 (bytes.length / aggregateSynopsisEntryLen) =
      List.range' 1 (count - 1) ++
        count :: List.range' (count + 1) (bytes.length / aggregateSynopsisEntryLen - count) := by
    have htail : List.range' count (bytes.length / aggregateSynopsisEntryLen - count + 1) =
        count :: List.range' (count + 1) (bytes.length / aggregateSynopsisEntryLen - count) :=
      List.range'_succ
    have hjoin : List.range' 1 (count - 1) ++ List.range' (1 + (count - 1))
        (bytes.length / aggregateSynopsisEntryLen - count + 1) = _ := List.range'_append_1
    rw [show 1 + (count - 1) = count by omega] at hjoin
    rw [← htail, hjoin]
    congr 1
    omega
  rw [inferEntryCount, hrange, inferFrom_skip, inferFrom, hentries]
  · simp only [hfits, if_true]
  · intro m hm
    obtain ⟨hm1, hmlt⟩ := mem_range'_1.mp hm
    obtain ⟨es, hes, hno⟩ := hearlier m (by omega)
    exact ⟨es, hes, hno hm1⟩

variable {parts : List Part}

def sectionBytes (crc32c : Bytes → UInt32) (parts : List Part) : Bytes :=
  tableBytes crc32c (placedEntries crc32c (parts.length * aggregateSynopsisEntryLen) parts) ++
    payloadBytes crc32c parts

theorem sectionBytes_length : (sectionBytes crc32c parts).length =
    parts.length * aggregateSynopsisEntryLen + (payloadBytes crc32c parts).length := by
  rw [sectionBytes, length_append, tableBytes_length, placedEntries_length]

section

variable (hlen : (sectionBytes crc32c parts).length < 2 ^ 64)
include hlen

theorem fits_shorter {m : Nat} (hm : m < parts.length)
    (hsub : ∀ e ∈ entries, ∃ p ∈ placedEntries crc32c (parts.length * aggregateSynopsisEntryLen)
      parts, e = stored crc32c p) :
    fits (sectionBytes crc32c parts) m entries = false := by
  rw [sectionBytes_length] at hlen
  have htable : m * aggregateSynopsisEntryLen < parts.length * aggregateSynopsisEntryLen :=
    Nat.mul_lt_mul_of_pos_right hm (by decide)
  rw [fits]
  split
  · rw [beq_eq_false_iff_ne, sectionBytes_length]
    omega
  · rw [Bool.and_eq_false_iff]
    left
    rw [beq_eq_false_iff_ne]
    intro hmin
    obtain ⟨hmem, -⟩ := List.min?_eq_some_iff.mp hmin
    obtain ⟨e, he, hoffset⟩ := mem_map.mp hmem
    obtain ⟨he, hpayload⟩ := mem_filter.mp he
    obtain ⟨p, hp, rfl⟩ := hsub e he
    have hrange := placed_range hlen hp (of_decide_eq_true hpayload)
    change p.payloadOffset.toNat = _ at hoffset
    omega

theorem fits_whole :
    fits (sectionBytes crc32c parts) parts.length
      ((placedEntries crc32c (parts.length * aggregateSynopsisEntryLen) parts).map (stored crc32c)) =
        true := by
  have htotal := @sectionBytes_length crc32c parts
  rw [htotal] at hlen
  rw [fits]
  rcases placed_first hlen with ⟨hnone, hall⟩ | ⟨first, hfirst, hpayload, hoffset⟩
  · rw [if_pos]
    · rw [beq_iff_eq, htotal, hnone]
      rfl
    · rw [filter_eq_nil_iff]
      intro e he
      obtain ⟨p, hp, rfl⟩ := mem_map.mp he
      have hzero : (stored crc32c p).payloadLength = 0 := hall p hp
      simp [hzero]
  · have hmem : stored crc32c first ∈ ((placedEntries crc32c (parts.length * aggregateSynopsisEntryLen)
        parts).map (stored crc32c)).filter (·.payloadLength ≠ 0) :=
      mem_filter.mpr ⟨mem_map_of_mem hfirst, decide_eq_true hpayload⟩
    have hranges : ∀ e ∈ ((placedEntries crc32c (parts.length * aggregateSynopsisEntryLen)
        parts).map (stored crc32c)).filter (·.payloadLength ≠ 0),
        parts.length * aggregateSynopsisEntryLen ≤ e.payloadOffset.toNat ∧
          e.payloadOffset.toNat + e.payloadLength.toNat ≤ (sectionBytes crc32c parts).length := by
      intro e he
      obtain ⟨he, hne⟩ := mem_filter.mp he
      obtain ⟨p, hp, rfl⟩ := mem_map.mp he
      have hpayload : p.payloadLength ≠ 0 := of_decide_eq_true hne
      have hrange := placed_range hlen hp hpayload
      rw [htotal]
      exact hrange
    rw [if_neg (ne_nil_of_mem hmem), Bool.and_eq_true, beq_iff_eq]
    constructor
    · apply List.min?_eq_some_iff.mpr
      constructor
      · exact mem_map.mpr ⟨_, hmem, hoffset⟩
      · intro o ho
        obtain ⟨e, he, rfl⟩ := mem_map.mp ho
        exact (hranges e he).1
    · apply all_eq_true.mpr
      intro e he
      obtain ⟨hstart, hend⟩ := hranges e he
      simp only [Bool.and_eq_true, decide_eq_true_eq]
      omega

end

theorem inferEntryCount_section (hne : parts ≠ [])
    (hnulls : ∀ p ∈ parts, p.1.nullCount ≤ p.1.rowCount)
    (hlen : (sectionBytes crc32c parts).length < 2 ^ 64) :
    inferEntryCount crc32c (sectionBytes crc32c parts) = .ok parts.length := by
  have hn : (placedEntries crc32c (parts.length * aggregateSynopsisEntryLen) parts).length =
      parts.length := placedEntries_length _ _
  have hplaced : ∀ e ∈ placedEntries crc32c (parts.length * aggregateSynopsisEntryLen) parts,
      e.nullCount ≤ e.rowCount := by
    intro e he
    obtain ⟨p, hp, start, len, rfl⟩ := forall₂_mem_left (placedEntries_forall₂ _ parts) he
    exact hnulls p hp
  have htable := @sectionBytes_length crc32c parts
  refine inferEntryCount_of_first (length_pos_of_ne_nil hne) ?_ (fun m hm => ?_)
    (entriesAt_table hplaced hn.ge _) ?_
  · rw [Nat.le_div_iff_mul_le (by decide)]
    omega
  · refine ⟨_, entriesAt_table hplaced (by omega) _, fun _ => fits_shorter hlen hm ?_⟩
    intro e he
    obtain ⟨p, hp, rfl⟩ := mem_map.mp he
    exact ⟨p, mem_of_mem_take hp, rfl⟩
  · rw [take_of_length_le hn.le]
    exact fits_whole hlen

end

section

variable {P : TextPredicates} {crc32c : Bytes → UInt32}

/-- What the reader needs of an entry and its payload. -/
structure Readable (P : TextPredicates) (p : Part) : Prop where
  valid : validatePayload P p.1 p.2 = .ok ()
  canonical : CanonicalPayload P p.2

theorem encodePayload_eq_nil {entry : AggregateEntry} {payload : AggregatePayloadV2}
    (h : encodePayload crc32c entry payload = []) : payload = .none := by
  have hlen := congrArg List.length h
  cases payload with
  | none => rfl
  | minMax min max => simp [encodePayload, encodePayloadWithHeader_length, aggregatePayloadHeaderLen] at hlen
  | _ => simp [encodePayload, encodePayloadWithHeader_length, aggregatePayloadHeaderLen] at hlen

theorem payloadAt_placed {p : Part} (h : Readable P p) {before after : Bytes} {tableLen : Nat}
    (htable : tableLen ≤ before.length)
    (hlen : (before ++ encodePayload crc32c p.1 p.2 ++ after).length < 2 ^ 32) :
    payloadAt P crc32c (before ++ encodePayload crc32c p.1 p.2 ++ after) tableLen
      (stored crc32c (placed p.1 before.length (encodePayload crc32c p.1 p.2))) = .ok p.2 := by
  obtain ⟨entry, payload⟩ := p
  obtain ⟨hnulls, hkind⟩ := validatePayload_ok h.valid
  generalize hbytes : encodePayload crc32c entry payload = encoded at *
  rw [length_append, length_append] at hlen
  by_cases hne : encoded = []
  · have hnone := encodePayload_eq_nil (hbytes.trans hne)
    rw [payloadAt, placed, if_pos hne]
    exact (if_pos rfl).trans (by rw [hnone])
  · have hpos := length_pos_of_ne_nil hne
    have hstart : (UInt64.ofNat before.length).toNat = before.length :=
      UInt64.toNat_ofNat_of_lt' (show _ < 2 ^ 64 by omega)
    have hsize : (UInt64.ofNat encoded.length).toNat = encoded.length :=
      UInt64.toNat_ofNat_of_lt' (show _ < 2 ^ 64 by omega)
    have hsome : UInt64.ofNat encoded.length ≠ 0 := by
      intro hzero
      rw [hzero] at hsize
      exact absurd hsize.symm hpos.ne'
    rw [placed, if_neg hne]
    generalize hs : stored crc32c { entry with
      payloadOffset := UInt64.ofNat before.length
      payloadLength := UInt64.ofNat encoded.length } = kept
    have hregion : checkedRegion (before ++ encoded ++ after) kept.payloadOffset.toNat
        kept.payloadLength.toNat = .ok encoded := by
      subst hs
      change checkedRegion _ (UInt64.ofNat before.length).toNat (UInt64.ofNat encoded.length).toNat = _
      rw [hstart, hsize]
      refine checkedRegion_ok_iff.mpr ⟨by omega, ?_, ?_⟩
      · rw [length_append, length_append]
        omega
      · rw [append_assoc, drop_left, take_left]
    have hvalid : validatePayload P kept payload = .ok () := by
      subst hs
      exact h.valid
    have hread : parsePayload P crc32c kept encoded = .ok payload := by
      rw [← hbytes]
      refine parsePayload_encode ?_ hkind ?_ h.canonical (by rw [hbytes]; omega) hvalid
      · rintro rfl
        exact hne hbytes.symm
      · subst hs
        exact hkind
    have hoffset : ¬ kept.payloadOffset.toNat < tableLen := by
      subst hs
      change ¬ (UInt64.ofNat before.length).toNat < tableLen
      omega
    have hlength : kept.payloadLength ≠ 0 := by
      subst hs
      exact hsome
    rw [payloadAt, if_neg hlength, hregion]
    exact rejectIf_andThen hoffset (andThen_ok rfl (mapError_eq_ok_iff.mpr hread))

theorem payloads_section {parts : List Part} (h : ∀ p ∈ parts, Readable P p) {before : Bytes}
    {tableLen : Nat} (htable : tableLen ≤ before.length)
    (hlen : (before ++ payloadBytes crc32c parts).length < 2 ^ 32) :
    ((placedEntries crc32c before.length parts).map (stored crc32c)).mapM
        (payloadAt P crc32c (before ++ payloadBytes crc32c parts) tableLen) =
      .ok (parts.map Prod.snd) := by
  apply mapM_of_forall₂
  induction parts generalizing before with
  | nil => exact .nil
  | cons p parts ih =>
    have hbytes : before ++ payloadBytes crc32c (p :: parts) =
        before ++ encodePayload crc32c p.1 p.2 ++ payloadBytes crc32c parts := by
      rw [payloadBytes, flatMap_cons, append_assoc]
      rfl
    rw [hbytes] at hlen ⊢
    refine .cons (payloadAt_placed (h p mem_cons_self) htable hlen) ?_
    have hrest := ih (fun q hq => h q (.tail _ hq))
      (show tableLen ≤ (before ++ encodePayload crc32c p.1 p.2).length by
        rw [length_append]; omega) hlen
    rw [length_append] at hrest
    exact hrest

theorem serialize_parts {entries : List AggregateEntry} {payloads : List AggregatePayloadV2}
    (hne : payloads ≠ []) (hmatch : entries.length = payloads.length) :
    serialize crc32c ⟨entries, payloads⟩ = sectionBytes crc32c (entries.zip payloads) := by
  have hzip : (entries.zip payloads).length = entries.length := by simp [hmatch]
  rw [serialize, if_neg hne]
  rw [serializeParts_eq, sectionBytes, hzip]

theorem parse_section {parts : List Part} (hne : parts ≠ []) (h : ∀ p ∈ parts, Readable P p)
    (hlen : (sectionBytes crc32c parts).length < 2 ^ 32) :
    parse P crc32c (sectionBytes crc32c parts) = .ok
      ⟨(placedEntries crc32c (parts.length * aggregateSynopsisEntryLen) parts).map (stored crc32c),
        parts.map Prod.snd⟩ := by
  generalize hplaced : placedEntries crc32c (parts.length * aggregateSynopsisEntryLen) parts = placed
  have hsame := @placedEntries_forall₂ crc32c (parts.length * aggregateSynopsisEntryLen) parts
  rw [hplaced] at hsame
  have hnulls : ∀ p ∈ parts, p.1.nullCount ≤ p.1.rowCount := fun p hp =>
    (validatePayload_ok (h p hp).valid).1
  have hplacedNulls : ∀ e ∈ placed, e.nullCount ≤ e.rowCount := by
    intro e he
    obtain ⟨p, hp, start, len, rfl⟩ := forall₂_mem_left hsame he
    exact hnulls p hp
  have hcount : placed.length = parts.length := hsame.length_eq
  have htable : (tableBytes crc32c placed).length = parts.length * aggregateSynopsisEntryLen := by
    rw [tableBytes_length, hcount]
  have hentries := @entriesAt_table crc32c placed hplacedNulls parts.length hcount.ge
    (payloadBytes crc32c parts)
  have hbytes : sectionBytes crc32c parts =
      tableBytes crc32c placed ++ payloadBytes crc32c parts := by
    rw [sectionBytes, hplaced]
  have hpayloads := @payloads_section P crc32c parts h (tableBytes crc32c placed)
    (parts.length * aggregateSynopsisEntryLen) htable.ge (hbytes ▸ hlen)
  rw [htable, hplaced] at hpayloads
  rw [take_of_length_le hcount.le] at hentries
  have hlong : aggregateSynopsisEntryLen ≤ (sectionBytes crc32c parts).length := by
    rw [sectionBytes_length]
    have hpos := length_pos_of_ne_nil hne
    have hmul := Nat.mul_le_mul_right aggregateSynopsisEntryLen hpos
    omega
  have hinfer := @inferEntryCount_section crc32c parts hne hnulls (by omega)
  rw [parse]
  refine andThen_eq_ok_iff.mpr ⟨(), rejectIf_ok (by omega), andThen_eq_ok_iff.mpr ⟨_,
    hinfer, andThen_eq_ok_iff.mpr ⟨_, hbytes ▸ hentries, andThen_eq_ok_iff.mpr ⟨_,
      hbytes ▸ hpayloads, andThen_eq_ok_iff.mpr ⟨(), ?_, rfl⟩⟩⟩⟩⟩
  have hsome : parts.map Prod.snd ≠ [] := by simpa using hne
  rw [validate, if_neg hsome]
  refine andThen_eq_ok_iff.mpr ⟨(), rejectIf_ok ?_, checkAll_eq_ok_iff.mpr ?_⟩
  · simpa using hcount
  · have hall : Forall₂ (fun e payload => validatePayload P e payload = .ok ())
        (placed.map (stored crc32c)) (parts.map Prod.snd) := by
      rw [forall₂_map_left_iff, forall₂_map_right_iff, forall₂_iff_zip]
      refine ⟨hcount, fun {e p} hmem => ?_⟩
      obtain ⟨start, len, rfl⟩ := (forall₂_iff_zip.mp hsame).2 hmem
      exact (h p (of_mem_zip hmem).2).valid
    rintro ⟨e, payload⟩ hq
    exact (forall₂_iff_zip.mp hall).2 hq

/-- The entry count is not stored, and yet the sections are read back as they were. -/
theorem synopsis_round_trip {entries : List AggregateEntry} {payloads : List AggregatePayloadV2}
    {s : AggregateSynopsis} (hs : fromParts P entries payloads = .ok s) (hne : entries ≠ [])
    (hmatch : entries.length = payloads.length)
    (hcanonical : ∀ payload ∈ payloads, CanonicalPayload P payload)
    (hlen : (serialize crc32c s).length < 2 ^ 32) :
    inferEntryCount crc32c (serialize crc32c s) = .ok entries.length ∧
      ∃ t, AggregateSynopsis.parse P crc32c (serialize crc32c s) = .ok t ∧ t.payloads = payloads ∧
        t.entries.map AggregateEntry.identity = entries.map AggregateEntry.identity := by
  obtain ⟨hvalid, hs⟩ := of_check hs
  cases hs
  have hsome : payloads ≠ [] := by
    rintro rfl
    exact hne (length_eq_zero_iff.mp hmatch)
  rw [validate, if_neg hsome] at hvalid
  replace hvalid := rest_ok hvalid
  have hreadable : ∀ p ∈ entries.zip payloads, Readable P p := fun p hp =>
    ⟨checkAll_eq_ok_iff.mp hvalid p hp, hcanonical p.2 (of_mem_zip hp).2⟩
  have hcount : (entries.zip payloads).length = entries.length := by simp [hmatch]
  have hparts : entries.zip payloads ≠ [] := by
    intro hnil
    rw [hnil] at hcount
    exact hne (length_eq_zero_iff.mp hcount.symm)
  rw [serialize_parts hsome hmatch] at hlen ⊢
  refine ⟨?_, _, parse_section hparts hreadable hlen, map_snd_zip hmatch.ge, ?_⟩
  · rw [← hcount]
    exact inferEntryCount_section hparts
      (fun p hp => (validatePayload_ok (hreadable p hp).valid).1) (by omega)
  · have hsame := @placedEntries_forall₂ crc32c
      ((entries.zip payloads).length * aggregateSynopsisEntryLen) (entries.zip payloads)
    have hidentity : (placedEntries crc32c ((entries.zip payloads).length * aggregateSynopsisEntryLen)
        (entries.zip payloads)).map (AggregateEntry.identity ∘ stored crc32c) =
        (entries.zip payloads).map (AggregateEntry.identity ∘ Prod.fst) := by
      refine map_eq_of_forall₂ hsame ?_
      rintro e p ⟨start, len, rfl⟩
      rfl
    rw [map_map, hidentity, ← map_map, map_fst_zip hmatch.le]

def mixedEntries : List AggregateEntry :=
  [⟨1, 2, 0, 3, .count, 0, .exact, 0, 10, 0, 0, 0, 0⟩, ⟨1, 2, 0, 3, .sum, 0, .exact, 0, 10, 4, 0, 0, 0⟩,
    ⟨1, 2, 0, 3, .fileCodeHistogram, 0, .exact, 0, 3, 0, 0, 0, 0⟩]

def mixedPayloads : List AggregatePayloadV2 :=
  [.none, .sum .saturating ⟨.uint64, leBytes 8 7⟩, .fileCodeHistogram [⟨5, 1⟩, ⟨9, 2⟩]]

theorem synopsis_round_trip_mixed : ∃ s, fromParts asciiText mixedEntries mixedPayloads = .ok s ∧
    inferEntryCount castagnoli (serialize castagnoli s) = .ok mixedEntries.length ∧
      ∃ t, AggregateSynopsis.parse asciiText castagnoli (serialize castagnoli s) = .ok t ∧
        t.payloads = mixedPayloads ∧
        t.entries.map AggregateEntry.identity = mixedEntries.map AggregateEntry.identity := by
  have hs : fromParts asciiText mixedEntries mixedPayloads = .ok ⟨mixedEntries, mixedPayloads⟩ := by
    decide +kernel
  refine ⟨_, hs, synopsis_round_trip hs (by decide) rfl ?_ (by decide +kernel)⟩
  intro payload hpayload
  simp only [mixedPayloads, mem_cons, not_mem_nil, or_false] at hpayload
  rcases hpayload with rfl | rfl | rfl
  · trivial
  · rw [CanonicalPayload, CanonicalTagged]
    decide +kernel
  · trivial

end

end CoveFormat.SynopsisSections
