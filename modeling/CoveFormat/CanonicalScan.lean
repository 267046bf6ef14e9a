import CoveFormat.CanonicalValidator

namespace CoveFormat.CanonicalGrammar

open ByteCodes ExceptRules Wire Canonical CanonicalValidator List

variable {P : TextPredicates}

/-- `x` is a varint for `n`; it is padded when it is not the shortest one. -/
def VarintSpelling (padded : Bool) (n : Nat) (x : Bytes) : Prop :=
  decodeU64Leb128 x = .ok (n, x.length) ∧ (padded = true ↔ x ≠ varint n)

/-- A tag followed by a payload of that tag, as spelled. -/
structure Item where
  tagBytes : Bytes
  tag : ValueTag
  payload : Bytes
  (tagPadded payloadPadded : Bool)

def Item.bytes (i : Item) : Bytes := i.tagBytes ++ i.payload

def Item.padded (i : Item) : Bool := i.tagPadded || i.payloadPadded

def Item.TagSpelled (i : Item) : Prop := VarintSpelling i.tagPadded i.tag.code i.tagBytes

structure Field where
  id : Nat
  idBytes : Bytes
  idPadded : Bool
  item : Item

def Field.bytes (f : Field) : Bytes := f.idBytes ++ f.item.bytes

def Field.padded (f : Field) : Bool := f.idPadded || f.item.padded

structure Entry where
  (key value : Item)

def Entry.bytes (e : Entry) : Bytes := e.key.bytes ++ e.value.bytes

def Entry.padded (e : Entry) : Bool := e.key.padded || e.value.padded

def payloadWidth : ValueTag → Option Nat
  | .null | .boolFalse | .boolTrue => some 0
  | .int64 | .uint64 => some 8
  | .float32Bits => some 4
  | .float64Bits | .decimal64 => some 8
  | .decimal128 => some 16
  | .dateDays => some 4
  | .timestampMicros | .timestampNanos => some 8
  | .uuid => some 16
  | _ => none

def TextPayload (P : TextPredicates) : ValueTag → Bytes → Prop
  | .utf8, payload => P.utf8Valid payload
  | .binary, _ => True
  | .json, payload => P.jsonValid payload
  | _, _ => False

/-- The byte strings that are payloads of a tag, with varints of any spelling.
The flag tells whether some varint in them is padded. -/
inductive Spells (P : TextPredicates) : Bool → ValueTag → Bytes → Prop
  | fixed {tag k x} (hk : payloadWidth tag = some k) (hx : x.length = k) : Spells P false tag x
  | text {p tag x payload} (ht : TextPayload P tag payload)
      (hx : VarintSpelling p payload.length x) : Spells P p tag (x ++ payload)
  | list {p x} (items : List Item) (hx : VarintSpelling p items.length x)
      (ht : ∀ i ∈ items, i.TagSpelled) (hp : ∀ i ∈ items, Spells P i.payloadPadded i.tag i.payload) :
      Spells P (p || items.any Item.padded) .list (x ++ (items.map Item.bytes).flatten)
  | struct {p x} (fields : List Field) (hx : VarintSpelling p fields.length x)
      (hid : ∀ f ∈ fields, VarintSpelling f.idPadded f.id f.idBytes)
      (ht : ∀ f ∈ fields, f.item.TagSpelled)
      (hp : ∀ f ∈ fields, Spells P f.item.payloadPadded f.item.tag f.item.payload)
      (ho : (fields.map Field.id).Pairwise (· < ·)) :
      Spells P (p || fields.any Field.padded) .struct (x ++ (fields.map Field.bytes).flatten)
  | map {p x} (entries : List Entry) (hx : VarintSpelling p entries.length x)
      (hk : ∀ e ∈ entries, e.key.TagSpelled)
      (hkp : ∀ e ∈ entries, Spells P e.key.payloadPadded e.key.tag e.key.payload)
      (hv : ∀ e ∈ entries, e.value.TagSpelled)
      (hvp : ∀ e ∈ entries, Spells P e.value.payloadPadded e.value.tag e.value.payload)
      (hs : ∀ e ∈ entries, isScalarValueTag e.key.tag)
      (ho : (entries.map (fun e => e.key.bytes)).Pairwise (· < ·)) :
      Spells P (p || entries.any Entry.padded) .map (x ++ (entries.map Entry.bytes).flatten)

def Item.Spelled (P : TextPredicates) (i : Item) : Prop :=
  i.TagSpelled ∧ Spells P i.payloadPadded i.tag i.payload

def Field.Spelled (P : TextPredicates) (f : Field) : Prop :=
  VarintSpelling f.idPadded f.id f.idBytes ∧ f.item.Spelled P

def Entry.Spelled (P : TextPredicates) (e : Entry) : Prop :=
  (e.key.Spelled P ∧ isScalarValueTag e.key.tag) ∧ e.value.Spelled P

variable {n : Nat}

theorem fromU16_eq_some {t : ValueTag} (h : ValueTag.fromU16 n = some t) : n = t.code := by
  unfold ValueTag.fromU16 at h
  split at h <;> first | (cases h; rfl) | cases h

theorem VarintSpelling.pos {p : Bool} {x : Bytes} (h : VarintSpelling p n x) : 0 < x.length :=
  (decodeU64Leb128_ok h.1).2.1

theorem VarintSpelling.lt {p : Bool} {x : Bytes} (h : VarintSpelling p n x) : n < 2 ^ 64 :=
  (decodeU64Leb128_ok h.1).1

theorem VarintSpelling.eq_varint {x : Bytes} (h : VarintSpelling false n x) : x = varint n := by
  by_contra hne
  cases h.2.mpr hne

theorem VarintSpelling.read {p : Bool} {x : Bytes} (h : VarintSpelling p n x) (rest : Bytes) :
    decodeU64Leb128 (x ++ rest) = .ok (n, x.length) := by
  have hc := (decodeU64Leb128_ok h.1).2.2.2 rest
  rwa [take_length] at hc

theorem VarintSpelling.readCanonical {p : Bool} {x : Bytes} (h : VarintSpelling p n x)
    (rest : Bytes) (what : String) : decodeCanonicalVarint (x ++ rest) what = .ok (n, x.length) :=
  mapError_eq_ok_iff.mpr (h.read rest)

theorem spelling_of_decode {bytes : Bytes} {what : String} {k : Nat}
    (h : decodeCanonicalVarint bytes what = .ok (n, k)) :
    ∃ p x rest, bytes = x ++ rest ∧ k = x.length ∧ VarintSpelling p n x := by
  obtain ⟨-, -, hk, hc⟩ := decodeU64Leb128_ok (mapError_eq_ok_iff.mp h)
  have hlen : (bytes.take k).length = k := length_take_of_le hk
  have hc' := hc []
  rw [append_nil] at hc'
  refine ⟨decide (bytes.take k ≠ varint n), bytes.take k, bytes.drop k,
    (take_append_drop k bytes).symm, hlen.symm, ?_, by simp⟩
  rw [hc', hlen]

end CoveFormat.CanonicalGrammar

namespace CoveFormat.CanonicalScan

open ByteCodes CheckedArith ExceptRules Wire Canonical CanonicalValidator CanonicalGrammar List

variable {tagged : Bytes → Except CoveError (ValueTag × Nat)} {bytes : Bytes} {pos : Nat}

variable {P : TextPredicates}

/-- A payload validator that accepts only payloads of the grammar and reports their length. -/
def PayloadSound (P : TextPredicates) (inner : ValueTag → Bytes → Except CoveError Nat) : Prop :=
  ∀ tag bytes k, inner tag bytes = .ok k →
    ∃ p x rest, bytes = x ++ rest ∧ k = x.length ∧ Spells P p tag x

def TaggedSound (P : TextPredicates)
    (tagged : Bytes → Except CoveError (ValueTag × Nat)) : Prop :=
  ∀ bytes tag k, tagged bytes = .ok (tag, k) →
    ∃ i rest, bytes = Item.bytes i ++ rest ∧ k = i.bytes.length ∧ i.tag = tag ∧ i.Spelled P

variable {inner : ValueTag → Bytes → Except CoveError Nat}

theorem validateTaggedValue_sound (h : PayloadSound P inner) : TaggedSound P (validateTaggedValue inner) := by
  intro bytes tag k hk
  obtain ⟨⟨rawTag, tagLen⟩, hraw, hk⟩ := bind_eq_ok_iff.mp hk
  obtain ⟨p, x, rest, rfl, rfl, hx⟩ := spelling_of_decode hraw
  dsimp only at hk
  split at hk
  · split at hk
    · rename_i hfrom
      obtain ⟨payloadLen, hp, hk⟩ := bind_eq_ok_iff.mp hk
      obtain ⟨consumed, hc, he⟩ := map_eq_ok_iff.mp hk
      obtain ⟨-, rfl⟩ := checkedAdd_ok_iff.mp hc
      obtain ⟨rfl, rfl⟩ := Prod.mk.inj he
      rw [drop_left] at hp
      obtain ⟨q, y, rest, rfl, rfl, hy⟩ := h _ _ _ hp
      obtain rfl := fromU16_eq_some hfrom
      exact ⟨⟨x, _, y, p, q⟩, rest, by simp [Item.bytes], by simp [Item.bytes], rfl, hx, hy⟩
    · cases hk
  · cases hk

section

theorem drop_append_length {bytes x rest : Bytes} (h : bytes.drop pos = x ++ rest) :
    bytes.drop (pos + x.length) = rest := by
  rw [← drop_drop, h, drop_left]

variable {pos' : Nat}

theorem validateElements_sound (h : TaggedSound P tagged) (n : Nat)
    (hk : validateElements tagged bytes n pos = .ok pos') :
    ∃ (items : List Item) (rest : Bytes), items.length = n ∧ (∀ i ∈ items, Item.Spelled P i) ∧
      bytes.drop pos = (items.map Item.bytes).flatten ++ rest ∧
      pos' = pos + (items.map Item.bytes).flatten.length := by
  induction n generalizing pos with
  | zero => exact ⟨[], bytes.drop pos, rfl, by simp, rfl, (Except.ok.inj hk).symm⟩
  | succ n ih =>
    obtain ⟨⟨tag, consumed⟩, ht, hk⟩ := bind_eq_ok_iff.mp hk
    obtain ⟨pos₁, hadd, hk⟩ := bind_eq_ok_iff.mp hk
    obtain ⟨-, rfl⟩ := checkedAdd_ok_iff.mp hadd
    obtain ⟨i, rest, hd, rfl, -, hi⟩ := h _ _ _ ht
    obtain ⟨items, rest', hlen, hgood, hd', hpos⟩ := ih hk
    rw [drop_append_length hd] at hd'
    refine ⟨i :: items, rest', by rw [length_cons, hlen],
      forall_mem_cons.mpr ⟨hi, hgood⟩, ?_, ?_⟩
    · rw [hd, hd', map_cons, flatten_cons, append_assoc]
    · rw [hpos, map_cons, flatten_cons, length_append]
      omega

theorem validateFields_sound (h : TaggedSound P tagged) (n : Nat) {prev : Option Nat}
    (hk : validateFields tagged bytes n pos prev = .ok pos') :
    ∃ (fields : List Field) (rest : Bytes), fields.length = n ∧ (∀ f ∈ fields, Field.Spelled P f) ∧
      (prev.toList ++ fields.map Field.id).Pairwise (· < ·) ∧
      bytes.drop pos = (fields.map Field.bytes).flatten ++ rest ∧
      pos' = pos + (fields.map Field.bytes).flatten.length := by
  induction n generalizing pos prev with
  | zero =>
    refine ⟨[], bytes.drop pos, rfl, by simp, ?_, rfl, (Except.ok.inj hk).symm⟩
    cases prev <;> simp
  | succ n ih =>
    obtain ⟨⟨fieldId, idLen⟩, hid, hk⟩ := bind_eq_ok_iff.mp hk
    obtain ⟨pos₁, hadd, hk⟩ := bind_eq_ok_iff.mp hk
    obtain ⟨-, rfl⟩ := checkedAdd_ok_iff.mp hadd
    obtain ⟨p, x, rest, hd, rfl, hx⟩ := spelling_of_decode hid
    split at hk
    · cases hk
    · rename_i hprev
      obtain ⟨⟨tag, consumed⟩, ht, hk⟩ := bind_eq_ok_iff.mp hk
      obtain ⟨pos₂, hadd, hk⟩ := bind_eq_ok_iff.mp hk
      obtain ⟨-, rfl⟩ := checkedAdd_ok_iff.mp hadd
      rw [drop_append_length hd] at ht
      obtain ⟨i, rest, rfl, rfl, -, hi⟩ := h _ _ _ ht
      obtain ⟨fields, rest', hlen, hgood, hord, hd', hpos⟩ := ih hk
      have hf : bytes.drop pos = (x ++ i.bytes) ++ rest := by rw [hd, append_assoc]
      have hdrop := drop_append_length hf
      rw [length_append, ← Nat.add_assoc, hd'] at hdrop
      refine ⟨⟨fieldId, x, p, i⟩ :: fields, rest', by rw [length_cons, hlen],
        forall_mem_cons.mpr ⟨⟨hx, hi⟩, hgood⟩, ?_, ?_, ?_⟩
      · cases prev with
        | none => exact hord
        | some q =>
          have hq : q < fieldId := by simpa using hprev
          refine pairwise_cons.mpr ⟨fun m hm => ?_, hord⟩
          rcases mem_cons.mp hm with rfl | hm
          · exact hq
          · exact hq.trans ((pairwise_cons.mp hord).1 m hm)
      · rw [hd, ← hdrop, map_cons, flatten_cons]
        simp only [Field.bytes, append_assoc]
      · rw [hpos, map_cons, flatten_cons, length_append, Field.bytes,
          length_append]
        dsimp only
        omega

variable {prev : Option Bytes}

theorem checkKeyOrder_ok {keyBytes : Bytes} (h : checkKeyOrder prev keyBytes = .ok ()) :
    ∀ q ∈ prev, q < keyBytes := by
  intro q hq
  rw [hq, checkKeyOrder] at h
  split at h
  · cases h
  · rename_i hlt
    split at h
    · cases h
    · rename_i hne
      exact lt_of_le_of_ne (not_lt.mp hlt) (Ne.symm hne)

theorem validateEntries_sound (h : TaggedSound P tagged) (n : Nat)
    (hk : validateEntries tagged bytes n pos prev = .ok pos') :
    ∃ (entries : List Entry) (rest : Bytes), entries.length = n ∧ (∀ e ∈ entries, Entry.Spelled P e) ∧
      (prev.toList ++ entries.map (fun e => e.key.bytes)).Pairwise (· < ·) ∧
      bytes.drop pos = (entries.map Entry.bytes).flatten ++ rest ∧
      pos' = pos + (entries.map Entry.bytes).flatten.length := by
  induction n generalizing pos prev with
  | zero =>
    refine ⟨[], bytes.drop pos, rfl, by simp, ?_, rfl, (Except.ok.inj hk).symm⟩
    cases prev <;> simp
  | succ n ih =>
    obtain ⟨⟨keyTag, keyLen⟩, hkey, hk⟩ := bind_eq_ok_iff.mp hk
    dsimp only at hk
    split at hk
    · cases hk
    · rename_i hscalar
      obtain ⟨pos₁, hadd, hk⟩ := bind_eq_ok_iff.mp hk
      obtain ⟨-, rfl⟩ := checkedAdd_ok_iff.mp hadd
      obtain ⟨u, hord, hk⟩ := bind_eq_ok_iff.mp hk
      obtain ⟨⟨tag, consumed⟩, ht, hk⟩ := bind_eq_ok_iff.mp hk
      obtain ⟨pos₂, hadd, hk⟩ := bind_eq_ok_iff.mp hk
      obtain ⟨-, rfl⟩ := checkedAdd_ok_iff.mp hadd
      obtain ⟨i, rest, hd, rfl, rfl, hi⟩ := h _ _ _ hkey
      have hkb : (bytes.take (pos + i.bytes.length)).drop pos = i.bytes := by
        rw [drop_take, hd, Nat.add_sub_cancel_left, take_left]
      rw [drop_append_length hd] at ht
      obtain ⟨j, rest, rfl, rfl, -, hj⟩ := h _ _ _ ht
      rw [hkb] at hord hk
      obtain ⟨entries, rest', hlen, hgood, hpair, hd', hpos⟩ := ih hk
      have hf : bytes.drop pos = (i.bytes ++ j.bytes) ++ rest := by rw [hd, append_assoc]
      have hdrop := drop_append_length hf
      rw [length_append, ← Nat.add_assoc, hd'] at hdrop
      refine ⟨⟨i, j⟩ :: entries, rest', by rw [length_cons, hlen],
        forall_mem_cons.mpr ⟨⟨⟨hi, by simpa using hscalar⟩, hj⟩, hgood⟩, ?_, ?_, ?_⟩
      · cases prev with
        | none => exact hpair
        | some q =>
          have hq : q < i.bytes := checkKeyOrder_ok hord q rfl
          refine pairwise_cons.mpr ⟨fun m hm => ?_, hpair⟩
          rcases mem_cons.mp hm with rfl | hm
          · exact hq
          · exact hq.trans ((pairwise_cons.mp hpair).1 m hm)
      · rw [hd, ← hdrop, map_cons, flatten_cons]
        simp only [Entry.bytes, append_assoc]
      · rw [hpos, map_cons, flatten_cons, length_append, Entry.bytes,
          length_append]
        dsimp only
        omega

end

variable {payload : Bytes}

theorem decodeLengthPrefixed_sound {bytes : Bytes} {what : String} {k : Nat}
    (h : decodeLengthPrefixed bytes what = .ok (payload, k)) :
    ∃ p x rest, bytes = (x ++ payload) ++ rest ∧ k = (x ++ payload).length ∧
      VarintSpelling p payload.length x := by
  obtain ⟨⟨payloadLen, prefixLen⟩, hv, h⟩ := bind_eq_ok_iff.mp h
  obtain ⟨total, hadd, h⟩ := bind_eq_ok_iff.mp h
  obtain ⟨-, rfl⟩ := checkedAdd_ok_iff.mp hadd
  obtain ⟨p, x, rest, rfl, rfl, hx⟩ := spelling_of_decode hv
  split at h
  · cases h
  · rename_i hlen
    obtain ⟨rfl, rfl⟩ := Prod.mk.inj (Except.ok.inj h)
    have hpay : ((x ++ rest).take (x.length + payloadLen)).drop x.length = rest.take payloadLen := by
      rw [take_append, take_of_length_le (by omega), drop_left]
      simp
    have hl : (rest.take payloadLen).length = payloadLen := by
      rw [length_append] at hlen
      exact length_take_of_le (by omega)
    rw [hpay]
    refine ⟨p, x, rest.drop payloadLen, ?_, ?_, hl.symm ▸ hx⟩
    · rw [append_assoc, take_append_drop]
    · rw [length_append, hl]

theorem validateMinWidth_sound {bytes : Bytes} {width k : Nat} {what : String} {tag : ValueTag}
    (hw : payloadWidth tag = some width) (h : validateMinWidth bytes width what = .ok k) :
    ∃ p x rest, bytes = x ++ rest ∧ k = x.length ∧ Spells P p tag x := by
  rw [validateMinWidth] at h
  split at h
  · cases h
  · cases h
    have hl : (bytes.take width).length = width := length_take_of_le (by omega)
    exact ⟨false, bytes.take width, bytes.drop width, (take_append_drop _ _).symm, hl.symm,
      .fixed hw hl⟩

theorem empty_sound {bytes : Bytes} {k : Nat} {tag : ValueTag} (hw : payloadWidth tag = some 0)
    (h : Except.ok (ε := CoveError) 0 = .ok k) :
    ∃ p x rest, bytes = x ++ rest ∧ k = x.length ∧ Spells P p tag x := by
  cases h
  exact ⟨false, [], bytes, rfl, rfl, .fixed hw rfl⟩

theorem validatePayloadInner_sound (depth : Nat) : PayloadSound P (validatePayloadInner P depth) := by
  induction depth with
  | zero =>
    intro tag bytes k h
    cases h
  | succ depth ih =>
    have iht := validateTaggedValue_sound ih
    intro tag bytes k h
    cases tag with
    | null | boolFalse | boolTrue => exact empty_sound rfl h
    | int64 | uint64 | float32Bits | float64Bits | decimal64 | decimal128 | dateDays | timestampMicros
    | timestampNanos | uuid => exact validateMinWidth_sound rfl h
    | utf8 | json =>
      obtain ⟨⟨payload, consumed⟩, hd, h⟩ := bind_eq_ok_iff.mp h
      obtain ⟨p, x, rest, rfl, rfl, hx⟩ := decodeLengthPrefixed_sound hd
      dsimp only at h
      split at h
      · rename_i hu
        exact ⟨p, x ++ payload, rest, rfl, (Except.ok.inj h).symm, .text hu hx⟩
      · cases h
    | binary =>
      obtain ⟨⟨payload, consumed⟩, hd, rfl⟩ := map_eq_ok_iff.mp h
      obtain ⟨p, x, rest, rfl, rfl, hx⟩ := decodeLengthPrefixed_sound hd
      exact ⟨p, x ++ payload, rest, rfl, rfl, .text trivial hx⟩
    | list =>
      obtain ⟨⟨count, pos⟩, hd, h⟩ := bind_eq_ok_iff.mp h
      obtain ⟨p, x, rest, rfl, rfl, hx⟩ := spelling_of_decode hd
      obtain ⟨items, rest', hlen, hgood, hdrop, rfl⟩ := validateElements_sound iht count h
      rw [drop_left] at hdrop
      subst hdrop
      rw [← hlen] at hx
      exact ⟨_, x ++ (items.map Item.bytes).flatten, rest', (append_assoc _ _ _).symm,
        (length_append).symm,
        .list items hx (fun i hi => (hgood i hi).1) (fun i hi => (hgood i hi).2)⟩
    | struct =>
      obtain ⟨⟨count, pos⟩, hd, h⟩ := bind_eq_ok_iff.mp h
      obtain ⟨p, x, rest, rfl, rfl, hx⟩ := spelling_of_decode hd
      obtain ⟨fields, rest', hlen, hgood, hord, hdrop, rfl⟩ := validateFields_sound iht count h
      rw [drop_left] at hdrop
      subst hdrop
      rw [← hlen] at hx
      exact ⟨_, x ++ (fields.map Field.bytes).flatten, rest', (append_assoc _ _ _).symm,
        (length_append).symm,
        .struct fields hx (fun f hf => (hgood f hf).1) (fun f hf => (hgood f hf).2.1)
          (fun f hf => (hgood f hf).2.2) hord⟩
    | map =>
      obtain ⟨⟨count, pos⟩, hd, h⟩ := bind_eq_ok_iff.mp h
      obtain ⟨p, x, rest, rfl, rfl, hx⟩ := spelling_of_decode hd
      obtain ⟨entries, rest', hlen, hgood, hord, hdrop, rfl⟩ := validateEntries_sound iht count h
      rw [drop_left] at hdrop
      subst hdrop
      rw [← hlen] at hx
      exact ⟨_, x ++ (entries.map Entry.bytes).flatten, rest', (append_assoc _ _ _).symm,
        (length_append).symm,
        .map entries hx (fun e he => (hgood e he).1.1.1) (fun e he => (hgood e he).1.1.2)
          (fun e he => (hgood e he).2.1) (fun e he => (hgood e he).2.2)
          (fun e he => (hgood e he).1.2) hord⟩

/-- `tagged` reads the item `i` wherever it stands in a byte string below the size limit. -/
def ReadsItem (tagged : Bytes → Except CoveError (ValueTag × Nat)) (i : Item) : Prop :=
  ∀ rest, (i.bytes ++ rest).length < 2 ^ 63 → tagged (i.bytes ++ rest) = .ok (i.tag, i.bytes.length)

theorem validateTaggedValue_complete {i : Item} (ht : i.TagSpelled)
    (h : ∀ rest, (i.payload ++ rest).length < 2 ^ 63 →
      inner i.tag (i.payload ++ rest) = .ok i.payload.length) :
    ReadsItem (validateTaggedValue inner) i := by
  intro rest hlen
  rw [Item.bytes, append_assoc] at hlen ⊢
  have hl : i.tagBytes.length + (i.payload ++ rest).length < 2 ^ 63 := by
    rwa [length_append] at hlen
  have hpl : i.payload.length ≤ (i.payload ++ rest).length := by simp
  have hc := code_lt i.tag
  rw [validateTaggedValue, ht.readCanonical, bind_ok]
  dsimp only
  rw [if_pos (by omega), fromU16_code, drop_left]
  dsimp only
  rw [h rest (by omega), bind_ok, checkedAdd_ok_iff.mpr ⟨by omega, rfl⟩, map_ok, length_append]

theorem length_of_drop {x rest : Bytes} (hpos : pos ≤ bytes.length)
    (h : bytes.drop pos = x ++ rest) : pos + (x ++ rest).length = bytes.length := by
  rw [← h, length_drop]
  omega

theorem ReadsItem.at {i : Item} (hi : ReadsItem tagged i) {rest : Bytes}
    (hb : bytes.length < 2 ^ 63) (hpos : pos ≤ bytes.length) (h : bytes.drop pos = i.bytes ++ rest) :
    tagged (bytes.drop pos) = .ok (i.tag, i.bytes.length) ∧
      checkedAdd pos i.bytes.length = .ok (pos + i.bytes.length) ∧
      pos + i.bytes.length ≤ bytes.length ∧ bytes.drop (pos + i.bytes.length) = rest := by
  have hl := length_of_drop hpos h
  rw [length_append] at hl
  refine ⟨?_, checkedAdd_ok_iff.mpr ⟨by omega, rfl⟩, by omega, drop_append_length h⟩
  rw [h]
  exact hi rest (by rw [length_append]; omega)

theorem validateElements_complete (hb : bytes.length < 2 ^ 63) {items : List Item}
    (hi : ∀ i ∈ items, ReadsItem tagged i) {rest : Bytes} (hpos : pos ≤ bytes.length)
    (h : bytes.drop pos = (items.map Item.bytes).flatten ++ rest) :
    validateElements tagged bytes items.length pos =
      .ok (pos + (items.map Item.bytes).flatten.length) := by
  induction items generalizing pos with
  | nil => rfl
  | cons i items ih =>
    rw [map_cons, flatten_cons, append_assoc] at h
    obtain ⟨ht, hadd, hle, hdrop⟩ := (hi i mem_cons_self).at hb hpos h
    rw [length_cons, validateElements, ht, bind_ok]
    dsimp only
    rw [hadd, bind_ok, ih (fun j hj => hi j (mem_cons_of_mem _ hj)) hle hdrop,
      map_cons, flatten_cons, length_append, Nat.add_assoc]

theorem validateFields_complete (hb : bytes.length < 2 ^ 63) {fields : List Field}
    (hid : ∀ f ∈ fields, VarintSpelling f.idPadded f.id f.idBytes)
    (hi : ∀ f ∈ fields, ReadsItem tagged f.item) (prev : Option Nat)
    (hord : (prev.toList ++ fields.map Field.id).Pairwise (· < ·)) {rest : Bytes}
    (hpos : pos ≤ bytes.length) (h : bytes.drop pos = (fields.map Field.bytes).flatten ++ rest) :
    validateFields tagged bytes fields.length pos prev =
      .ok (pos + (fields.map Field.bytes).flatten.length) := by
  induction fields generalizing pos prev with
  | nil => rfl
  | cons f fields ih =>
    rw [map_cons, flatten_cons, Field.bytes, append_assoc, append_assoc] at h
    have hl := length_of_drop hpos h
    rw [length_append] at hl
    have hdrop := drop_append_length h
    obtain ⟨ht, hadd, hle, hdrop'⟩ := (hi f mem_cons_self).at hb (by omega) hdrop
    have hprev : prev.any (fun q => decide (f.id ≤ q)) = false := by
      cases prev with
      | none => rfl
      | some q =>
        have hq := (pairwise_cons.mp hord).1 f.id mem_cons_self
        simpa using hq
    have hord' : ((some f.id).toList ++ fields.map Field.id).Pairwise (· < ·) :=
      (pairwise_append.mp hord).2.1
    rw [length_cons, validateFields, h, (hid f mem_cons_self).readCanonical, bind_ok]
    dsimp only
    rw [checkedAdd_ok_iff.mpr ⟨by omega, rfl⟩, bind_ok, hprev, if_neg (by simp), ht, bind_ok]
    rw [hadd, bind_ok, ih (fun g hg => hid g (mem_cons_of_mem _ hg))
      (fun g hg => hi g (mem_cons_of_mem _ hg)) (some f.id) hord' hle hdrop',
      map_cons, flatten_cons, length_append, Field.bytes, length_append]
    congr 1
    omega

theorem checkKeyOrder_complete {prev : Option Bytes} {keyBytes : Bytes}
    (h : ∀ q ∈ prev, q < keyBytes) : checkKeyOrder prev keyBytes = .ok () := by
  cases prev with
  | none => rfl
  | some q =>
    have hq := h q rfl
    rw [checkKeyOrder, if_neg (not_lt.mpr hq.le), if_neg hq.ne']

theorem validateEntries_complete (hb : bytes.length < 2 ^ 63) {entries : List Entry}
    (hk : ∀ e ∈ entries, ReadsItem tagged e.key) (hv : ∀ e ∈ entries, ReadsItem tagged e.value)
    (hs : ∀ e ∈ entries, isScalarValueTag e.key.tag) (prev : Option Bytes)
    (hord : (prev.toList ++ entries.map (fun e => e.key.bytes)).Pairwise (· < ·)) {rest : Bytes}
    (hpos : pos ≤ bytes.length) (h : bytes.drop pos = (entries.map Entry.bytes).flatten ++ rest) :
    validateEntries tagged bytes entries.length pos prev =
      .ok (pos + (entries.map Entry.bytes).flatten.length) := by
  induction entries generalizing pos prev with
  | nil => rfl
  | cons e entries ih =>
    rw [map_cons, flatten_cons, Entry.bytes, append_assoc, append_assoc] at h
    obtain ⟨ht, hadd, hle, hdrop⟩ := (hk e mem_cons_self).at hb hpos h
    obtain ⟨ht', hadd', hle', hdrop'⟩ := (hv e mem_cons_self).at hb hle hdrop
    have hkb : (bytes.take (pos + e.key.bytes.length)).drop pos = e.key.bytes := by
      rw [drop_take, h, Nat.add_sub_cancel_left, take_left]
    have hprev : ∀ q ∈ prev, q < e.key.bytes := by
      intro q hq
      rw [hq] at hord
      exact (pairwise_cons.mp hord).1 _ mem_cons_self
    have hord' : ((some e.key.bytes).toList ++ entries.map (fun e => e.key.bytes)).Pairwise
        (· < ·) := (pairwise_append.mp hord).2.1
    rw [length_cons, validateEntries, ht, bind_ok]
    dsimp only
    rw [hs e mem_cons_self, if_neg (by simp), hadd, bind_ok, hkb,
      checkKeyOrder_complete hprev, bind_ok, ht', bind_ok]
    rw [hadd', bind_ok, ih (fun f hf => hk f (mem_cons_of_mem _ hf))
      (fun f hf => hv f (mem_cons_of_mem _ hf))
      (fun f hf => hs f (mem_cons_of_mem _ hf)) (some e.key.bytes) hord' hle' hdrop',
      map_cons, flatten_cons, length_append, Entry.bytes, length_append]
    congr 1
    omega

theorem decodeLengthPrefixed_complete {p : Bool} {x rest : Bytes} (what : String)
    (hx : VarintSpelling p payload.length x) (hlen : (x ++ payload ++ rest).length < 2 ^ 63) :
    decodeLengthPrefixed (x ++ payload ++ rest) what = .ok (payload, (x ++ payload).length) := by
  have hl : x.length + payload.length ≤ (x ++ payload ++ rest).length := by simp
  rw [decodeLengthPrefixed, append_assoc, hx.readCanonical, bind_ok]
  dsimp only
  rw [← append_assoc, checkedAdd_ok_iff.mpr ⟨by omega, rfl⟩, bind_ok, if_neg (by omega),
    length_append, ← length_append, take_left, drop_left]

theorem length_le_of_mem_map {α : Type} {f : α → Bytes} {as : List α} {a : α} (h : a ∈ as) :
    (f a).length ≤ (as.map f).flatten.length :=
  (sublist_flatten_of_mem (mem_map_of_mem h)).length_le

theorem validateMinWidth_complete {x rest : Bytes} {width : Nat} {what : String}
    (hx : x.length = width) : validateMinWidth (x ++ rest) width what = .ok x.length := by
  rw [validateMinWidth, if_neg (by rw [length_append]; omega), hx]

theorem validatePayloadInner_complete {p : Bool} {tag : ValueTag} {x : Bytes}
    (h : Spells P p tag x) {depth : Nat} (rest : Bytes) (hd : x.length < depth)
    (hlen : (x ++ rest).length < 2 ^ 63) :
    validatePayloadInner P depth tag (x ++ rest) = .ok x.length := by
  induction h generalizing depth rest with
  | @fixed tag k x hk hx =>
    obtain ⟨depth, rfl⟩ := Nat.exists_eq_add_one_of_ne_zero (by omega : depth ≠ 0)
    cases tag <;> cases hk <;>
      first
        | exact validateMinWidth_complete hx
        | (rw [eq_nil_of_length_eq_zero hx]; rfl)
  | @text p tag x payload ht hx =>
    obtain ⟨depth, rfl⟩ := Nat.exists_eq_add_one_of_ne_zero (by omega : depth ≠ 0)
    have hdec := fun what => decodeLengthPrefixed_complete what hx hlen
    cases tag with
    | utf8 | json =>
      rw [validatePayloadInner, hdec, bind_ok]
      exact if_pos ht
    | binary =>
      rw [validatePayloadInner, hdec, map_ok]
    | _ => exact ht.elim
  | @list p x items hx ht hp ih =>
    obtain ⟨depth, rfl⟩ := Nat.exists_eq_add_one_of_ne_zero (by omega : depth ≠ 0)
    have hpos := hx.pos
    rw [length_append] at hd
    rw [validatePayloadInner, append_assoc, hx.readCanonical, bind_ok]
    dsimp only
    rw [append_assoc] at hlen
    have hread : ∀ i ∈ items, ReadsItem (validateTaggedValue (validatePayloadInner P depth)) i := by
      intro i hi
      refine validateTaggedValue_complete (ht i hi) (fun rest hr => ih i hi rest ?_ hr)
      have hle := length_le_of_mem_map (f := Item.bytes) hi
      rw [Item.bytes, length_append] at hle
      omega
    rw [validateElements_complete hlen hread (by simp) drop_left, length_append]
  | @struct p x fields hx hid ht hp ho ih =>
    obtain ⟨depth, rfl⟩ := Nat.exists_eq_add_one_of_ne_zero (by omega : depth ≠ 0)
    have hpos := hx.pos
    rw [length_append] at hd
    rw [validatePayloadInner, append_assoc, hx.readCanonical, bind_ok]
    dsimp only
    rw [append_assoc] at hlen
    have hread : ∀ f ∈ fields,
        ReadsItem (validateTaggedValue (validatePayloadInner P depth)) f.item := by
      intro f hf
      refine validateTaggedValue_complete (ht f hf) (fun rest hr => ih f hf rest ?_ hr)
      have hle := length_le_of_mem_map (f := Field.bytes) hf
      rw [Field.bytes, Item.bytes, length_append, length_append] at hle
      omega
    rw [validateFields_complete hlen hid hread none ho (by simp) drop_left, length_append]
  | @map p x entries hx hk hkp hv hvp hs ho ihk ihv =>
    obtain ⟨depth, rfl⟩ := Nat.exists_eq_add_one_of_ne_zero (by omega : depth ≠ 0)
    have hpos := hx.pos
    rw [length_append] at hd
    rw [validatePayloadInner, append_assoc, hx.readCanonical, bind_ok]
    dsimp only
    rw [append_assoc] at hlen
    have hle : ∀ e ∈ entries, e.key.payload.length < depth ∧ e.value.payload.length < depth := by
      intro e he
      have hle := length_le_of_mem_map (f := Entry.bytes) he
      rw [Entry.bytes, Item.bytes, Item.bytes, length_append, length_append,
        length_append] at hle
      omega
    have hreadk : ∀ e ∈ entries,
        ReadsItem (validateTaggedValue (validatePayloadInner P depth)) e.key := fun e he =>
      validateTaggedValue_complete (hk e he) (fun rest hr => ihk e he rest (hle e he).1 hr)
    have hreadv : ∀ e ∈ entries,
        ReadsItem (validateTaggedValue (validatePayloadInner P depth)) e.value := fun e he =>
      validateTaggedValue_complete (hv e he) (fun rest hr => ihv e he rest (hle e he).2 hr)
    rw [validateEntries_complete hlen hreadk hreadv hs none ho (by simp) drop_left,
      length_append]

theorem validateCanonicalPayload_iff (tag : ValueTag) {bytes : Bytes} (hb : bytes.length < 2 ^ 63) :
    validateCanonicalPayload P tag bytes = .ok () ↔ ∃ p, Spells P p tag bytes := by
  constructor
  · intro h
    obtain ⟨consumed, hk, h⟩ := bind_eq_ok_iff.mp h
    split at h
    · cases h
    · rename_i hc
      obtain ⟨p, x, rest, rfl, hk, hx⟩ := validatePayloadInner_sound _ _ _ _ hk
      have hrest : rest = [] := by
        apply eq_nil_of_length_eq_zero
        rw [length_append] at hc
        omega
      subst hrest
      exact ⟨p, by rwa [append_nil]⟩
  · rintro ⟨p, hp⟩
    have hc := validatePayloadInner_complete hp [] (Nat.lt_succ_self _) (by rwa [append_nil])
    rw [append_nil] at hc
    rw [validateCanonicalPayload, hc, bind_ok, if_neg (by simp)]

end CoveFormat.CanonicalScan
