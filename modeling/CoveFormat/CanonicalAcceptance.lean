import CoveFormat.CanonicalValidation

namespace CoveFormat.CanonicalAcceptance

open ByteCodes SortedKeys Wire Canonical CanonicalValidator CanonicalGrammar CanonicalScan
  CanonicalIdentity CanonicalValidation List

variable {P : TextPredicates}

variable {tag : ValueTag} {x : Bytes}

theorem text_minimal {text : Bytes} (ht : TextPayload P tag text)
    (hx : Except.ok (ε := CoveError) (lengthPrefixed text) = .ok x) (hlen : x.length < 2 ^ 63) :
    Spells P false tag x := by
  cases hx
  rw [lengthPrefixed, encodeU64Leb128_eq_varint] at hlen ⊢
  rw [length_append] at hlen
  exact .text ht (minimal_spelling (by omega))

variable {k : Nat}

theorem width_minimal {n : Nat} (hk : payloadWidth tag = some k)
    (hx : Except.ok (ε := CoveError) (leBytes k n) = .ok x) : Spells P false tag x := by
  cases hx
  exact .fixed hk (leBytes_length k n)

theorem scalar_minimal {v : CanonicalValue P} (hs : v.isScalarKey) : EncodesMinimal v := by
  intro x hlen hx
  match v, hs with
  | .null, _ | .bool true, _ | .bool false, _ => exact .fixed rfl (by rw [← Except.ok.inj hx]; rfl)
  | .int _ _, _ => exact .fixed rfl (by rw [(encodeI64Width_ok hx).2, leBytes_length])
  | .uint _ _, _ => exact .fixed rfl (by rw [(encodeU64Width_ok hx).2, leBytes_length])
  | .float32 _, _ | .float64 _, _ | .decimal64 _, _ | .decimal128 _, _ | .dateDays _, _
  | .timestampMicros _, _ | .timestampNanos _, _ => exact width_minimal rfl hx
  | .uuid b, _ => exact .fixed rfl (by rw [← Except.ok.inj hx]; exact b.property)
  | .utf8 t, _ => exact text_minimal t.property hx hlen
  | .bytes b, _ => exact text_minimal trivial hx hlen
  | .json t, _ =>
    rw [encode] at hx
    split at hx
    · rename_i hj
      exact text_minimal hj hx hlen
    · cases hx

theorem encodes_minimal (v : CanonicalValue P) : EncodesMinimal v := by
  induction v using value_induction with
  | scalar v h => exact scalar_minimal h
  | list es ih => exact list_minimal ih
  | struct fs ih => exact struct_minimal ih
  | map es ih => exact map_minimal ih

/-- `x` is the payload that some value of this tag encodes to. -/
def Encoded (P : TextPredicates) (tag : ValueTag) (x : Bytes) : Prop :=
  ∃ v : CanonicalValue P, v.valueTag = tag ∧ encode v = .ok x

theorem encodeI64Width_signed (h : x.length = 8) :
    encodeI64Width 8 (signed 64 (leNat x)) = .ok x := by
  have hn : leNat x < 2 ^ 64 := by
    have hlt := leNat_lt x
    rwa [h] at hlt
  have hl : -2 ^ 63 ≤ signed 64 (leNat x) := BitVec.le_toInt (BitVec.ofNat 64 (leNat x))
  have hu : signed 64 (leNat x) < 2 ^ 63 := BitVec.toInt_lt
  rw [encodeI64Width, if_pos (by omega), if_pos (by constructor <;> norm_num at * <;> omega),
    unsigned_signed hn]
  exact congrArg Except.ok (h ▸ leBytes_leNat x)

theorem leBytes_ofNat {w : Nat} (hw : 2 ^ w = 256 ^ k) (h : x.length = k) :
    leBytes k (BitVec.ofNat w (leNat x)).toNat = x := by
  have hn : leNat x < 2 ^ w := by
    have hlt := leNat_lt x
    rwa [h, ← hw] at hlt
  rw [BitVec.toNat_ofNat, Nat.mod_eq_of_lt hn, ← h, leBytes_leNat]

theorem fixed_encoded (hk : payloadWidth tag = some k) (hx : x.length = k) : Encoded P tag x := by
  subst hx
  have hbits {w k : Nat} (hw : 2 ^ w = 256 ^ k) (h : x.length = k) :
      Except.ok (ε := CoveError) (leBytes k (BitVec.ofNat w (leNat x)).toNat) = .ok x :=
    congrArg Except.ok (leBytes_ofNat hw h)
  have hempty (h : x.length = 0) : Except.ok (ε := CoveError) [] = .ok x :=
    congrArg Except.ok (eq_nil_of_length_eq_zero h).symm
  cases tag with
  | null => exact ⟨.null, rfl, hempty (Option.some.inj hk).symm⟩
  | boolFalse => exact ⟨.bool false, rfl, hempty (Option.some.inj hk).symm⟩
  | boolTrue => exact ⟨.bool true, rfl, hempty (Option.some.inj hk).symm⟩
  | int64 => exact ⟨.int 8 _, rfl, encodeI64Width_signed (Option.some.inj hk).symm⟩
  | uint64 =>
    have h8 : x.length = 8 := (Option.some.inj hk).symm
    have hn : leNat x < 2 ^ 64 := by
      have hlt := leNat_lt x
      rwa [h8] at hlt
    refine ⟨.uint 8 (leNat x), rfl, ?_⟩
    rw [encode, encodeU64Width, if_pos (by omega), if_pos (by omega), Nat.mod_eq_of_lt hn]
    exact congrArg Except.ok (h8 ▸ leBytes_leNat x)
  | float32Bits => exact ⟨.float32 _, rfl, hbits rfl (Option.some.inj hk).symm⟩
  | float64Bits => exact ⟨.float64 _, rfl, hbits rfl (Option.some.inj hk).symm⟩
  | decimal64 => exact ⟨.decimal64 _, rfl, hbits rfl (Option.some.inj hk).symm⟩
  | decimal128 => exact ⟨.decimal128 _, rfl, hbits rfl (Option.some.inj hk).symm⟩
  | dateDays => exact ⟨.dateDays _, rfl, hbits rfl (Option.some.inj hk).symm⟩
  | timestampMicros => exact ⟨.timestampMicros _, rfl, hbits rfl (Option.some.inj hk).symm⟩
  | timestampNanos => exact ⟨.timestampNanos _, rfl, hbits rfl (Option.some.inj hk).symm⟩
  | uuid => exact ⟨.uuid ⟨x, (Option.some.inj hk).symm⟩, rfl, rfl⟩
  | utf8 | binary | json | list | struct | map => cases hk

theorem text_encoded (ht : TextPayload P tag payload) :
    Encoded P tag (varint payload.length ++ payload) := by
  rw [← encodeU64Leb128_eq_varint]
  cases tag with
  | utf8 => exact ⟨.utf8 ⟨payload, ht⟩, rfl, rfl⟩
  | binary => exact ⟨.bytes payload, rfl, rfl⟩
  | json =>
    have hj : P.jsonValid payload := ht
    refine ⟨.json ⟨payload, P.json_utf8 payload hj⟩, rfl, ?_⟩
    rw [encode, if_pos hj]
    rfl
  | null | boolFalse | boolTrue | int64 | uint64 | float32Bits | float64Bits | decimal64 | decimal128
  | dateDays | timestampMicros | timestampNanos | uuid | list | struct | map => exact ht.elim

theorem item_encoded {i : Item} (ht : i.TagSpelled) (hp : i.padded = false)
    (ih : i.payloadPadded = false → Encoded P i.tag i.payload) :
    ∃ v : CanonicalValue P, v.valueTag = i.tag ∧ TaggedCode v i.bytes := by
  obtain ⟨htp, hpp⟩ := Bool.or_eq_false_iff.mp hp
  obtain ⟨v, hv, hx⟩ := ih hpp
  rw [Item.TagSpelled, htp] at ht
  refine ⟨v, hv, (taggedCode_iff v i.bytes).mpr ⟨i.payload, hx, ?_⟩⟩
  rw [hv, ← ht.eq_varint, Item.bytes]

theorem list_encoded {items : List Item} (hp : items.any Item.padded = false)
    (ht : ∀ i ∈ items, i.TagSpelled)
    (ih : ∀ i ∈ items, i.payloadPadded = false → Encoded P i.tag i.payload) :
    Encoded P .list (varint items.length ++ (items.map Item.bytes).flatten) := by
  have hpad := any_eq_false.mp hp
  obtain ⟨vs, hvs⟩ := exists_forall₂ (R := fun (i : Item) (v : CanonicalValue P) => TaggedCode v i.bytes)
    (l := items) fun i hi => by
      obtain ⟨v, -, hv⟩ := item_encoded (ht i hi) (Bool.eq_false_iff.mpr (hpad i hi)) (ih i hi)
      exact ⟨v, hv⟩
  refine ⟨.list vs, rfl, (encode_list_ok_iff vs _).mpr ⟨items.map Item.bytes, ?_, ?_⟩⟩
  · exact forall₂_map_right_iff.mpr hvs.flip
  · rw [hvs.length_eq]

theorem struct_encoded {fields : List Field} (hp : fields.any Field.padded = false)
    (hid : ∀ f ∈ fields, VarintSpelling f.idPadded f.id f.idBytes)
    (ht : ∀ f ∈ fields, f.item.TagSpelled)
    (ih : ∀ f ∈ fields, f.item.payloadPadded = false → Encoded P f.item.tag f.item.payload)
    (ho : (fields.map Field.id).Pairwise (· < ·)) :
    Encoded P .struct (varint fields.length ++ (fields.map Field.bytes).flatten) := by
  have hpad := any_eq_false.mp hp
  obtain ⟨fs, hfs⟩ := exists_forall₂
    (R := fun (f : Field) (g : UInt64 × CanonicalValue P) => FieldCode g f.bytes ∧ fieldId g = f.id)
    (l := fields) fun f hf => by
      obtain ⟨hidp, hip⟩ := Bool.or_eq_false_iff.mp (Bool.eq_false_iff.mpr (hpad f hf))
      have hspell := hid f hf
      have hlt := hspell.lt
      rw [hidp] at hspell
      obtain ⟨v, -, hv⟩ := item_encoded (ht f hf) hip (ih f hf)
      have htoNat : (UInt64.ofNat f.id).toNat = f.id := UInt64.toNat_ofNat_of_lt' hlt
      exact ⟨(UInt64.ofNat f.id, v),
        ⟨f.item.bytes, hv, by rw [htoNat, ← hspell.eq_varint, Field.bytes]⟩, htoNat⟩
  have hids : fs.map fieldId = fields.map Field.id := map_eq_of_forall₂ hfs fun _ _ h => h.2
  have hstrict : fs.Pairwise (fun f g => fieldId f < fieldId g) :=
    pairwise_map.mp (hids ▸ ho)
  have hsorted : sortByKey fieldId fs = fs := sortByKey_eq (List.Perm.refl fs) hstrict
  refine ⟨.struct fs, rfl, (encode_struct_ok_iff fs _).mpr
    ⟨nodup_keys_of_strict hstrict, fields.map Field.bytes, ?_, ?_⟩⟩
  · rw [hsorted]
    exact forall₂_map_right_iff.mpr (hfs.imp fun _ _ h => h.1).flip
  · rw [hsorted, hfs.length_eq]

theorem map_encoded {entries : List Entry} (hp : entries.any Entry.padded = false)
    (hk : ∀ e ∈ entries, e.key.TagSpelled) (hv : ∀ e ∈ entries, e.value.TagSpelled)
    (ihk : ∀ e ∈ entries, e.key.payloadPadded = false → Encoded P e.key.tag e.key.payload)
    (ihv : ∀ e ∈ entries, e.value.payloadPadded = false → Encoded P e.value.tag e.value.payload)
    (hs : ∀ e ∈ entries, isScalarValueTag e.key.tag)
    (ho : (entries.map (fun e => e.key.bytes)).Pairwise (· < ·)) :
    Encoded P .map (varint entries.length ++ (entries.map Entry.bytes).flatten) := by
  have hpad := any_eq_false.mp hp
  obtain ⟨es, hes⟩ := exists_forall₂
    (R := fun (e : Entry) (g : CanonicalValue P × CanonicalValue P) =>
      EntryCode g (e.key.bytes, e.value.bytes))
    (l := entries) fun e he => by
      obtain ⟨hkp, hvp⟩ := Bool.or_eq_false_iff.mp (Bool.eq_false_iff.mpr (hpad e he))
      obtain ⟨k, hkt, hkc⟩ := item_encoded (hk e he) hkp (ihk e he)
      obtain ⟨v, -, hvc⟩ := item_encoded (hv e he) hvp (ihv e he)
      refine ⟨(k, v), ?_, hkc, hvc⟩
      rw [← isScalarValueTag_valueTag, hkt]
      exact hs e he
  let pairs := entries.map (fun e => (e.key.bytes, e.value.bytes))
  have hstrict : pairs.Pairwise (fun p q => p.1 < q.1) :=
    pairwise_map.mpr (pairwise_map.mp ho)
  have hsorted : sortByKey Prod.fst pairs = pairs := sortByKey_eq (List.Perm.refl pairs) hstrict
  refine ⟨.map es, rfl, (encode_map_ok_iff es _).mpr ⟨pairs, ?_, nodup_keys_of_strict hstrict, ?_⟩⟩
  · exact forall₂_map_right_iff.mpr hes.flip
  · rw [hsorted, length_map, map_map]
    rfl

theorem spells_encoded {p : Bool} (h : Spells P p tag x) (hp : p = false) : Encoded P tag x := by
  induction h with
  | fixed hk hx => exact fixed_encoded hk hx
  | text ht hx =>
    subst hp
    rw [hx.eq_varint]
    exact text_encoded ht
  | list items hx ht _ ih =>
    obtain ⟨rfl, hitems⟩ := Bool.or_eq_false_iff.mp hp
    rw [hx.eq_varint]
    exact list_encoded hitems ht ih
  | struct fields hx hid ht _ ho ih =>
    obtain ⟨rfl, hfields⟩ := Bool.or_eq_false_iff.mp hp
    rw [hx.eq_varint]
    exact struct_encoded hfields hid ht ih ho
  | map entries hx hk _ hv _ hs ho ihk ihv =>
    obtain ⟨rfl, hentries⟩ := Bool.or_eq_false_iff.mp hp
    rw [hx.eq_varint]
    exact map_encoded hentries hk hv ihk ihv hs ho

theorem encoded_iff (hx : x.length < 2 ^ 63) : Encoded P tag x ↔ Spells P false tag x := by
  constructor
  · rintro ⟨v, rfl, hv⟩
    exact encodes_minimal v x hx hv
  · intro h
    exact spells_encoded h rfl

/-- A byte slice of the source is at most `isize::MAX` bytes long. -/
abbrev ByteSlice := {b : Bytes // b.length < 2 ^ 63}

/-- The validator tells the encodings from the other byte strings, except that it
also takes the spellings with a padded varint. -/
theorem validateCanonicalPayload_exact_iff (tag : ValueTag) (bytes : ByteSlice) :
    (validateCanonicalPayload P tag bytes.val = .ok () ↔
      ∃ v : CanonicalValue P, v.valueTag = tag ∧ encode v = .ok bytes.val) ↔
      ¬ Spells P true tag bytes.val := by
  obtain ⟨bytes, hb⟩ := bytes
  rw [validateCanonicalPayload_iff tag hb]
  change ((∃ p, Spells P p tag bytes) ↔ Encoded P tag bytes) ↔ _
  rw [encoded_iff hb]
  constructor
  · intro h hpad
    have hmin := h.mp ⟨true, hpad⟩
    have hpp := (spells_separates hmin true bytes [] [] hpad rfl).1
    cases hpp
  · intro h
    constructor
    · rintro ⟨p, hp⟩
      cases p with
      | false => exact hp
      | true => exact absurd hp h
    · intro hp
      exact ⟨false, hp⟩

/-- A length of zero spelled in two bytes. -/
theorem padded_length_accepted : ¬ ∀ (tag : ValueTag) (bytes : ByteSlice),
      validateCanonicalPayload asciiText tag bytes.val = .ok () ↔
        ∃ v : CanonicalValue asciiText, v.valueTag = tag ∧ encode v = .ok bytes.val := by
  intro h
  have hv : validateCanonicalPayload asciiText .binary [0x80, 0x00] = .ok () := by decide
  have hpad : Spells asciiText true .binary ([0x80, 0x00] ++ []) :=
    .text trivial ⟨by decide, by simp [varint_small]⟩
  have henc := (h .binary ⟨[0x80, 0x00], by decide⟩).mp hv
  have hmin := (encoded_iff (show [0x80, 0x00].length < 2 ^ 63 by decide)).mp henc
  have hpp := (spells_separates hmin true _ [] [] hpad rfl).1
  cases hpp

end CoveFormat.CanonicalAcceptance
