import CoveFormat.Canonical
import Mathlib.Data.List.Perm.Basic
import Mathlib.Tactic.NormNum

namespace CoveFormat.CanonicalIdentity

open ByteCodes SortedKeys ExceptRules Wire Canonical SelfDelimiting List Except

variable {P : TextPredicates}

/-- Equality after forgetting integer width, struct field order and map pair order. -/
inductive Same : CanonicalValue P → CanonicalValue P → Prop
  | refl (v) : Same v v
  | int (width width' value) : Same (.int width value) (.int width' value)
  | uint (width width' value) : Same (.uint width value) (.uint width' value)
  | list {es fs} (h : Forall₂ Same es fs) : Same (.list es) (.list fs)
  | struct {fs fs' gs gs' : List (UInt64 × CanonicalValue P)} (hf : fs.Perm fs')
    (hid : fs'.map Prod.fst = gs'.map Prod.fst)
      (hv : Forall₂ Same (fs'.map Prod.snd) (gs'.map Prod.snd)) (hg : gs'.Perm gs) :
      Same (.struct fs) (.struct gs)
  | map {es es' fs fs' : List (CanonicalValue P × CanonicalValue P)} (he : es.Perm es')
      (hk : Forall₂ Same (es'.map Prod.fst) (fs'.map Prod.fst))
      (hv : Forall₂ Same (es'.map Prod.snd) (fs'.map Prod.snd)) (hf : fs'.Perm fs) :
      Same (.map es) (.map fs)

theorem value_induction {motive : CanonicalValue P → Prop} (scalar : ∀ v, v.isScalarKey → motive v)
    (list : ∀ es, (∀ e ∈ es, motive e) → motive (.list es))
    (struct : ∀ fs, (∀ f ∈ fs, motive f.2) → motive (.struct fs))
    (map : ∀ es, (∀ e ∈ es, motive e.1 ∧ motive e.2) → motive (.map es))
    (v : CanonicalValue P) : motive v := by
  refine @CanonicalValue.rec P motive (fun es => ∀ e ∈ es, motive e)
    (fun fs => ∀ f ∈ fs, motive f.2) (fun es => ∀ e ∈ es, motive e.1 ∧ motive e.2)
    (fun f => motive f.2) (fun e => motive e.1 ∧ motive e.2)
    (scalar _ rfl) (fun _ => scalar _ rfl) (fun _ _ => scalar _ rfl) (fun _ _ => scalar _ rfl)
    (fun _ => scalar _ rfl) (fun _ => scalar _ rfl) (fun _ => scalar _ rfl) (fun _ => scalar _ rfl)
    (fun _ => scalar _ rfl) (fun _ => scalar _ rfl) (fun _ => scalar _ rfl) (fun _ => scalar _ rfl)
    (fun _ => scalar _ rfl) (fun _ => scalar _ rfl) (fun _ => scalar _ rfl)
    (fun es h => list es h) (fun fs h => struct fs h) (fun es h => map es h)
    ?_ ?_ ?_ ?_ ?_ ?_ ?_ ?_ v
  · simp
  · intro e es he hes
    simpa using ⟨he, hes⟩
  · simp
  · intro f fs hf hfs
    exact forall_mem_cons.mpr ⟨hf, hfs⟩
  · simp
  · intro e es he hes
    exact forall_mem_cons.mpr ⟨he, hes⟩
  · intro _ _ h
    exact h
  · intro _ _ h g
    exact ⟨h, g⟩

/-- `TaggedCode v z`: `z` is the tagged encoding of `v`. -/
def TaggedCode (v : CanonicalValue P) (z : Bytes) : Prop := encodeTagged v = .ok z

theorem taggedCode_iff (v : CanonicalValue P) (z : Bytes) :
    TaggedCode v z ↔ ∃ x, encode v = .ok x ∧ varint v.valueTag.code ++ x = z := by
  rw [TaggedCode, encodeTagged, withTag, map_eq_ok_iff]
  simp only [encodeU64Leb128_eq_varint]

def FieldCode (f : UInt64 × CanonicalValue P) (z : Bytes) : Prop :=
  ∃ y, TaggedCode f.2 y ∧ z = varint f.1.toNat ++ y

theorem encodeElements_ok_iff (es : List (CanonicalValue P)) (x : Bytes) :
    encodeElements es = .ok x ↔ ∃ xs, Forall₂ TaggedCode es xs ∧ x = xs.flatten := by
  induction es generalizing x with
  | nil =>
    simp only [encodeElements, ok.injEq, forall₂_nil_left_iff]
    constructor
    · rintro rfl
      exact ⟨[], rfl, rfl⟩
    · rintro ⟨_, rfl, rfl⟩
      rfl
  | cons e es ih =>
    rw [encodeElements, bind_eq_ok_iff]
    constructor
    · rintro ⟨z, hz, h⟩
      obtain ⟨y, hy, rfl⟩ := map_eq_ok_iff.mp h
      obtain ⟨xs, hxs, rfl⟩ := (ih y).mp hy
      exact ⟨z :: xs, .cons hz hxs, rfl⟩
    · rintro ⟨xs, hxs, rfl⟩
      obtain ⟨z, zs, hz, hzs, rfl⟩ := forall₂_cons_left_iff.mp hxs
      exact ⟨z, hz, map_eq_ok_iff.mpr ⟨zs.flatten, (ih _).mpr ⟨zs, hzs, rfl⟩, rfl⟩⟩

theorem encode_list_ok_iff (es : List (CanonicalValue P)) (x : Bytes) : encode (.list es) = .ok x ↔
      ∃ xs, Forall₂ TaggedCode es xs ∧ x = varint es.length ++ xs.flatten := by
  rw [encode, map_eq_ok_iff, encodeU64Leb128_eq_varint]
  constructor
  · rintro ⟨y, hy, rfl⟩
    obtain ⟨xs, hxs, rfl⟩ := (encodeElements_ok_iff es y).mp hy
    exact ⟨xs, hxs, rfl⟩
  · rintro ⟨xs, hxs, rfl⟩
    exact ⟨_, (encodeElements_ok_iff es _).mpr ⟨xs, hxs, rfl⟩, rfl⟩

theorem encodeFields_eq (fs : List (UInt64 × CanonicalValue P)) :
    encodeFields fs = fs.map (fun f => (f.1, encodeTagged f.2)) := by
  induction fs with
  | nil => rfl
  | cons f fs ih =>
    rw [encodeFields, ih]
    rfl

theorem joinFields_ok_iff (fs : List (UInt64 × CanonicalValue P)) (x : Bytes) :
    joinFields (fs.map (fun f => (f.1, encodeTagged f.2))) = .ok x ↔
      ∃ xs, Forall₂ FieldCode fs xs ∧ x = xs.flatten := by
  induction fs generalizing x with
  | nil =>
    simp only [map_nil, joinFields, ok.injEq, forall₂_nil_left_iff]
    constructor
    · rintro rfl
      exact ⟨[], rfl, rfl⟩
    · rintro ⟨_, rfl, rfl⟩
      rfl
  | cons f fs ih =>
    rw [map_cons]
    cases hf : encodeTagged f.2 with
    | error e =>
      constructor
      · intro h
        cases h
      · rintro ⟨xs, hxs, rfl⟩
        obtain ⟨z, zs, ⟨y, hy, -⟩, -, -⟩ := forall₂_cons_left_iff.mp hxs
        rw [TaggedCode, hf] at hy
        cases hy
    | ok z =>
      rw [joinFields, map_eq_ok_iff, encodeU64Leb128_eq_varint]
      constructor
      · rintro ⟨y, hy, rfl⟩
        obtain ⟨xs, hxs, rfl⟩ := (ih y).mp hy
        exact ⟨(varint f.1.toNat ++ z) :: xs, .cons ⟨z, hf, rfl⟩ hxs, rfl⟩
      · rintro ⟨xs, hxs, rfl⟩
        obtain ⟨w, ws, ⟨y, hy, rfl⟩, hws, rfl⟩ := forall₂_cons_left_iff.mp hxs
        rw [TaggedCode, hf, ok.injEq] at hy
        subst hy
        exact ⟨ws.flatten, (ih _).mpr ⟨ws, hws, rfl⟩, rfl⟩

def fieldId (f : UInt64 × CanonicalValue P) : Nat := f.1.toNat

theorem encode_struct_ok_iff (fs : List (UInt64 × CanonicalValue P)) (x : Bytes) :
    encode (.struct fs) = .ok x ↔ (fs.map fieldId).Nodup ∧
      ∃ xs, Forall₂ FieldCode (sortByKey fieldId fs) xs ∧
        x = varint (sortByKey fieldId fs).length ++ xs.flatten := by
  rw [encode, encodeFields_eq, canonicalizeStruct, sortByKey_map, map_map]
  change (if adjacentEqual ((sortByKey fieldId fs).map fieldId) then _ else _) = _ ↔ _
  rw [← adjacentEqual_sortByKey]
  cases adjacentEqual ((sortByKey fieldId fs).map fieldId) with
  | true => simp
  | false =>
    simp only [Bool.false_eq_true, if_false, true_and]
    rw [map_eq_ok_iff, encodeU64Leb128_eq_varint, length_map]
    constructor
    · rintro ⟨y, hy, rfl⟩
      obtain ⟨xs, hxs, rfl⟩ := (joinFields_ok_iff _ y).mp hy
      exact ⟨xs, hxs, rfl⟩
    · rintro ⟨xs, hxs, rfl⟩
      exact ⟨_, (joinFields_ok_iff _ _).mpr ⟨xs, hxs, rfl⟩, rfl⟩

def EntryCode (e : CanonicalValue P × CanonicalValue P) (p : Bytes × Bytes) : Prop :=
  e.1.isScalarKey ∧ TaggedCode e.1 p.1 ∧ TaggedCode e.2 p.2

theorem encodeEntries_ok_iff (es : List (CanonicalValue P × CanonicalValue P))
    (pairs : List (Bytes × Bytes)) :
    encodeEntries es = .ok pairs ↔ Forall₂ EntryCode es pairs := by
  induction es generalizing pairs with
  | nil => simp [encodeEntries, eq_comm]
  | cons e es ih =>
    obtain ⟨k, v⟩ := e
    rw [encodeEntries, forall₂_cons_left_iff]
    cases hk : k.isScalarKey with
    | false => simp [EntryCode, hk]
    | true =>
      rw [if_neg (by simp), bind_eq_ok_iff]
      constructor
      · rintro ⟨x, hx, h⟩
        obtain ⟨y, hy, h⟩ := bind_eq_ok_iff.mp h
        obtain ⟨ps, hps, rfl⟩ := map_eq_ok_iff.mp h
        exact ⟨(x, y), ps, ⟨hk, hx, hy⟩, (ih ps).mp hps, rfl⟩
      · rintro ⟨⟨x, y⟩, ps, ⟨-, hx, hy⟩, hps, rfl⟩
        exact ⟨x, hx, bind_eq_ok_iff.mpr ⟨y, hy, map_eq_ok_iff.mpr ⟨ps, (ih ps).mpr hps, rfl⟩⟩⟩

theorem encode_map_ok_iff (es : List (CanonicalValue P × CanonicalValue P)) (x : Bytes) :
    encode (.map es) = .ok x ↔ ∃ pairs, Forall₂ EntryCode es pairs ∧
      (pairs.map Prod.fst).Nodup ∧
      x = varint (sortByKey Prod.fst pairs).length ++
        ((sortByKey Prod.fst pairs).map (fun p => p.1 ++ p.2)).flatten := by
  have hsort (pairs : List (Bytes × Bytes)) : (sortMapEntries pairs).map joinEntries = .ok x ↔
      (pairs.map Prod.fst).Nodup ∧ x = varint (sortByKey Prod.fst pairs).length ++
        ((sortByKey Prod.fst pairs).map (fun p => p.1 ++ p.2)).flatten := by
    rw [sortMapEntries, ← adjacentEqual_sortByKey]
    cases adjacentEqual ((sortByKey Prod.fst pairs).map Prod.fst) with
    | true => simp [Except.map]
    | false =>
      simp [Except.map, joinEntries, encodeU64Leb128_eq_varint, flatMap_def, eq_comm]
  rw [encode, map_eq_ok_iff]
  constructor
  · rintro ⟨sorted, hb, rfl⟩
    obtain ⟨pairs, hp, hsorted⟩ := bind_eq_ok_iff.mp hb
    exact ⟨pairs, (encodeEntries_ok_iff es pairs).mp hp,
      (hsort pairs).mp (map_eq_ok_iff.mpr ⟨sorted, hsorted, rfl⟩)⟩
  · rintro ⟨pairs, hp, hx⟩
    obtain ⟨sorted, hs, rfl⟩ := map_eq_ok_iff.mp ((hsort pairs).mpr hx)
    exact ⟨sorted, bind_eq_ok_iff.mpr ⟨pairs, (encodeEntries_ok_iff es pairs).mpr hp, hs⟩, rfl⟩

/-- The payloads of two values of one tag that agree are the same payload, of the same value. -/
def PayloadSeparates (v : CanonicalValue P) : Prop :=
  ∀ w x y r s, v.valueTag = w.valueTag → encode v = .ok x → encode w = .ok y →
    x ++ r = y ++ s → Same v w ∧ x = y

variable {v : CanonicalValue P}

theorem PayloadSeparates.tagged (h : PayloadSeparates v) : Separates TaggedCode Same v := by
  intro w x y r s hx hy he
  obtain ⟨px, hpx, rfl⟩ := (taggedCode_iff v x).mp hx
  obtain ⟨py, hpy, rfl⟩ := (taggedCode_iff w y).mp hy
  rw [append_assoc, append_assoc] at he
  obtain ⟨hc, he⟩ := varint_separates _ _ _ _ he
  obtain ⟨hs, rfl⟩ := h w px py r s (code_inj hc) hpx hpy he
  exact ⟨hs, by rw [hc]⟩

variable {a b r s : Bytes}

theorem lengthPrefixed_separates (h : lengthPrefixed a ++ r = lengthPrefixed b ++ s) : a = b := by
  simp only [lengthPrefixed, encodeU64Leb128_eq_varint, append_assoc] at h
  obtain ⟨hl, h⟩ := varint_separates _ _ _ _ h
  exact append_inj_left h hl

variable {width : Nat} {x : Bytes}

theorem encodeI64Width_ok {value : Int} (h : encodeI64Width width value = .ok x) :
    (-2 ^ 63 ≤ value ∧ value < 2 ^ 63) ∧ x = leBytes 8 (unsigned 64 value) := by
  rw [encodeI64Width] at h
  split at h
  · rename_i hw
    split at h
    · rename_i hr
      refine ⟨?_, (ok.inj h).symm⟩
      rcases hw with rfl | rfl | rfl | rfl <;> norm_num at hr ⊢ <;> omega
    · cases h
  · cases h

theorem encodeU64Width_ok {value : Nat} (h : encodeU64Width width value = .ok x) :
    value < 2 ^ 64 ∧ x = leBytes 8 value := by
  rw [encodeU64Width] at h
  split at h
  · rename_i hw
    split at h
    · rename_i hr
      have hv : value < 2 ^ 64 := by
        rcases hw with rfl | rfl | rfl | rfl <;> norm_num at hr ⊢ <;> omega
      rw [Nat.mod_eq_of_lt hv] at h
      exact ⟨hv, (ok.inj h).symm⟩
    · cases h
  · cases h

variable {y : Bytes}

theorem bitVec_separates {k w : Nat} {a b : BitVec w} (hw : 2 ^ w = 256 ^ k)
    (hx : ok (ε := CoveError) (leBytes k a.toNat) = .ok x)
    (hy : ok (ε := CoveError) (leBytes k b.toNat) = .ok y) (he : x ++ r = y ++ s) :
    a = b ∧ x = y := by
  cases hx
  cases hy
  have hab := leBytes_separates (hw ▸ a.isLt) (hw ▸ b.isLt) he
  exact ⟨BitVec.eq_of_toNat_eq hab, by rw [hab]⟩

theorem text_separates (hx : ok (ε := CoveError) (lengthPrefixed a) = .ok x)
    (hy : ok (ε := CoveError) (lengthPrefixed b) = .ok y) (he : x ++ r = y ++ s) :
    a = b ∧ x = y := by
  cases hx
  cases hy
  have hab := lengthPrefixed_separates he
  exact ⟨hab, by rw [hab]⟩

variable {w : CanonicalValue P}

theorem same_of_eq (h : v = w ∧ x = y) : Same v w ∧ x = y :=
  ⟨h.1 ▸ Same.refl v, h.2⟩

theorem scalar_separates (hs : v.isScalarKey) : PayloadSeparates v := by
  intro w x y r s ht hx hy he
  match v, w, hs, ht with
  | .null, .null, _, _ | .bool true, .bool true, _, _ | .bool false, .bool false, _, _ =>
    exact same_of_eq ⟨rfl, (ok.inj hx).symm.trans (ok.inj hy)⟩
  | .int _ a, .int _ b, _, _ =>
    obtain ⟨ha, rfl⟩ := encodeI64Width_ok hx
    obtain ⟨hb, rfl⟩ := encodeI64Width_ok hy
    have hu := leBytes_separates (unsigned_lt 64 a) (unsigned_lt 64 b) he
    obtain rfl := unsigned_inj (by omega) ha hb hu
    exact ⟨.int _ _ _, rfl⟩
  | .uint _ a, .uint _ b, _, _ =>
    obtain ⟨ha, rfl⟩ := encodeU64Width_ok hx
    obtain ⟨hb, rfl⟩ := encodeU64Width_ok hy
    obtain rfl := leBytes_separates ha hb he
    exact ⟨.uint _ _ _, rfl⟩
  | .float32 a, .float32 b, _, _ =>
    exact same_of_eq ((bitVec_separates (k := 4) rfl hx hy he).imp_left (by rintro rfl; rfl))
  | .float64 a, .float64 b, _, _ | .decimal64 a, .decimal64 b, _, _ =>
    exact same_of_eq ((bitVec_separates (k := 8) rfl hx hy he).imp_left (by rintro rfl; rfl))
  | .decimal128 a, .decimal128 b, _, _ =>
    exact same_of_eq ((bitVec_separates (k := 16) rfl hx hy he).imp_left (by rintro rfl; rfl))
  | .dateDays a, .dateDays b, _, _ =>
    exact same_of_eq ((bitVec_separates (k := 4) rfl hx hy he).imp_left (by rintro rfl; rfl))
  | .timestampMicros a, .timestampMicros b, _, _ | .timestampNanos a, .timestampNanos b, _, _ =>
    exact same_of_eq ((bitVec_separates (k := 8) rfl hx hy he).imp_left (by rintro rfl; rfl))
  | .uuid a, .uuid b, _, _ =>
    cases hx
    cases hy
    have hab := append_inj_left he (a.property.trans b.property.symm)
    exact same_of_eq ⟨by rw [Subtype.ext hab], hab⟩
  | .utf8 a, .utf8 b, _, _ =>
    obtain ⟨hab, hxy⟩ := text_separates hx hy he
    exact same_of_eq ⟨by rw [Subtype.ext hab], hxy⟩
  | .bytes a, .bytes b, _, _ =>
    obtain ⟨hab, hxy⟩ := text_separates hx hy he
    exact same_of_eq ⟨by rw [hab], hxy⟩
  | .json a, .json b, _, _ =>
    rw [encode] at hx hy
    split at hx
    · split at hy
      · obtain ⟨hab, hxy⟩ := text_separates hx hy he
        exact same_of_eq ⟨by rw [Subtype.ext hab], hxy⟩
      · cases hy
    · cases hx

theorem list_of_tag (h : ValueTag.list = w.valueTag) : ∃ es, w = .list es := by
  match w, h with
  | .list es, _ => exact ⟨es, rfl⟩

theorem struct_of_tag (h : ValueTag.struct = w.valueTag) : ∃ fs, w = .struct fs := by
  match w, h with
  | .struct fs, _ => exact ⟨fs, rfl⟩

theorem map_of_tag (h : ValueTag.map = w.valueTag) : ∃ es, w = .map es := by
  match w, h with
  | .map es, _ => exact ⟨es, rfl⟩

theorem list_separates {es : List (CanonicalValue P)} (ih : ∀ e ∈ es, PayloadSeparates e) :
    PayloadSeparates (.list es) := by
  intro w x y r s ht hx hy he
  obtain ⟨fs, rfl⟩ := list_of_tag ht
  obtain ⟨xs, hxs, rfl⟩ := (encode_list_ok_iff es x).mp hx
  obtain ⟨ys, hys, rfl⟩ := (encode_list_ok_iff fs y).mp hy
  rw [append_assoc, append_assoc] at he
  obtain ⟨hlen, he⟩ := varint_separates _ _ _ _ he
  obtain ⟨hs, rfl⟩ := separates_sequence (fun e h => (ih e h).tagged) hlen hxs hys he
  exact ⟨.list hs, by rw [hlen]⟩

def SameField (f g : UInt64 × CanonicalValue P) : Prop := f.1 = g.1 ∧ Same f.2 g.2

variable {f : UInt64 × CanonicalValue P}

theorem fieldCode_separates (h : PayloadSeparates f.2) : Separates FieldCode SameField f := by
  rintro g z w r s ⟨y, hy, rfl⟩ ⟨y', hy', rfl⟩ he
  rw [append_assoc, append_assoc] at he
  obtain ⟨hid, he⟩ := varint_separates _ _ _ _ he
  obtain ⟨hs, rfl⟩ := h.tagged g.2 y y' r s hy hy' he
  exact ⟨⟨UInt64.toNat_inj.mp hid, hs⟩, by rw [hid]⟩

variable {fs gs : List (UInt64 × CanonicalValue P)}

theorem forall₂_sameField (h : Forall₂ SameField fs gs) :
    fs.map Prod.fst = gs.map Prod.fst ∧ Forall₂ Same (fs.map Prod.snd) (gs.map Prod.snd) := by
  induction h with
  | nil => exact ⟨rfl, .nil⟩
  | cons hfg _ ih =>
    refine ⟨?_, .cons hfg.2 ih.2⟩
    rw [map_cons, map_cons, hfg.1, ih.1]

theorem struct_separates (ih : ∀ f ∈ fs, PayloadSeparates f.2) : PayloadSeparates (.struct fs) := by
  intro w x y r s ht hx hy he
  obtain ⟨gs, rfl⟩ := struct_of_tag ht
  obtain ⟨-, xs, hxs, rfl⟩ := (encode_struct_ok_iff fs x).mp hx
  obtain ⟨-, ys, hys, rfl⟩ := (encode_struct_ok_iff gs y).mp hy
  rw [append_assoc, append_assoc] at he
  obtain ⟨hlen, he⟩ := varint_separates _ _ _ _ he
  have hsep : ∀ f ∈ sortByKey fieldId fs, Separates FieldCode SameField f := fun f hf =>
    fieldCode_separates (ih f ((sortByKey_perm fieldId fs).mem_iff.mp hf))
  obtain ⟨hs, rfl⟩ := separates_sequence hsep hlen hxs hys he
  obtain ⟨hid, hv⟩ := forall₂_sameField hs
  exact ⟨.struct (sortByKey_perm fieldId fs).symm hid hv (sortByKey_perm fieldId gs), by rw [hlen]⟩

def SameEntry (e f : CanonicalValue P × CanonicalValue P) : Prop := Same e.1 f.1 ∧ Same e.2 f.2

variable {es : List (CanonicalValue P × CanonicalValue P)}

theorem forall₂_sameEntry {fs : List (CanonicalValue P × CanonicalValue P)}
    (h : Forall₂ SameEntry es fs) :
    Forall₂ Same (es.map Prod.fst) (fs.map Prod.fst) ∧
      Forall₂ Same (es.map Prod.snd) (fs.map Prod.snd) := by
  induction h with
  | nil => exact ⟨.nil, .nil⟩
  | cons hef _ ih => exact ⟨.cons hef.1 ih.1, .cons hef.2 ih.2⟩

variable {ps : List (Bytes × Bytes)}

theorem forall₂_entryCode_flatten (h : Forall₂ EntryCode es ps) :
    Forall₂ (Paired TaggedCode TaggedCode) es (ps.map (fun p => p.1 ++ p.2)) := by
  induction h with
  | nil => exact .nil
  | cons hep _ ih => exact .cons ⟨_, _, hep.2.1, hep.2.2, rfl⟩ ih

variable {qs : List (Bytes × Bytes)}

theorem exists_entries_perm (h : Forall₂ EntryCode es ps) (hq : qs.Perm ps) :
    ∃ es', es.Perm es' ∧ Forall₂ EntryCode es' qs := by
  obtain ⟨es', hes', hp⟩ := perm_comp_forall₂ hq h.flip
  exact ⟨es', hp.symm, hes'.flip⟩

theorem map_separates (ih : ∀ e ∈ es, PayloadSeparates e.1 ∧ PayloadSeparates e.2) :
    PayloadSeparates (.map es) := by
  intro w x y r s ht hx hy he
  obtain ⟨fs, rfl⟩ := map_of_tag ht
  obtain ⟨ps, hps, -, rfl⟩ := (encode_map_ok_iff es x).mp hx
  obtain ⟨qs, hqs, -, rfl⟩ := (encode_map_ok_iff fs y).mp hy
  rw [append_assoc, append_assoc] at he
  obtain ⟨hlen, he⟩ := varint_separates _ _ _ _ he
  obtain ⟨es', hes, hps'⟩ := exists_entries_perm hps (sortByKey_perm Prod.fst ps)
  obtain ⟨fs', hfs, hqs'⟩ := exists_entries_perm hqs (sortByKey_perm Prod.fst qs)
  have hsep : ∀ e ∈ es', Separates (Paired TaggedCode TaggedCode) SameEntry e := fun e he' =>
    (ih e (hes.mem_iff.mpr he')).1.tagged.pair (ih e (hes.mem_iff.mpr he')).2.tagged
  have hlen' : es'.length = fs'.length := by rw [hps'.length_eq, hqs'.length_eq, hlen]
  obtain ⟨hs, hpq⟩ := separates_sequence hsep hlen' (forall₂_entryCode_flatten hps')
    (forall₂_entryCode_flatten hqs') he
  obtain ⟨hk, hv⟩ := forall₂_sameEntry hs
  exact ⟨.map hes hk hv hfs.symm, by rw [hlen, hpq]⟩

theorem payload_separates (v : CanonicalValue P) : PayloadSeparates v := by
  induction v using value_induction with
  | scalar v h => exact scalar_separates h
  | list es ih => exact list_separates ih
  | struct fs ih => exact struct_separates ih
  | map es ih => exact map_separates ih

theorem Same.valueTag_eq (h : Same v w) : v.valueTag = w.valueTag := by
  cases h <;> rfl

/-- Values equal up to width and order have at most one encoding between them. -/
def EncodesAlike (v : CanonicalValue P) : Prop :=
  ∀ w x y, Same v w → encode v = .ok x → encode w = .ok y → x = y

theorem EncodesAlike.tagged (h : EncodesAlike v) (hs : Same v w) (hx : TaggedCode v x)
    (hy : TaggedCode w y) : x = y := by
  obtain ⟨px, hpx, rfl⟩ := (taggedCode_iff v x).mp hx
  obtain ⟨py, hpy, rfl⟩ := (taggedCode_iff w y).mp hy
  rw [hs.valueTag_eq, h w px py hs hpx hpy]

theorem encodesAlike_refl (hx : encode v = .ok x) (hy : encode v = .ok y) : x = y :=
  ok.inj (hx.symm.trans hy)

theorem scalar_alike (h : v.isScalarKey) : EncodesAlike v := by
  intro w x y hs hx hy
  cases hs with
  | refl => exact encodesAlike_refl hx hy
  | int a b value => rw [(encodeI64Width_ok hx).2, (encodeI64Width_ok hy).2]
  | uint a b value => rw [(encodeU64Width_ok hx).2, (encodeU64Width_ok hy).2]
  | list _ | struct _ _ _ _ | map _ _ _ _ => cases h

theorem forall₂_alike {α : Type} {E : α → Bytes → Prop} {R : α → α → Prop} {as bs : List α}
    {xs ys : List Bytes} (h : ∀ a ∈ as, ∀ b x y, R a b → E a x → E b y → x = y)
    (hr : Forall₂ R as bs) (hx : Forall₂ E as xs) (hy : Forall₂ E bs ys) :
    xs = ys := by
  induction hr generalizing xs ys with
  | nil =>
    cases hx
    cases hy
    rfl
  | @cons a b as bs hab _ ih =>
    obtain ⟨x, xs, hax, hxs, rfl⟩ := forall₂_cons_left_iff.mp hx
    obtain ⟨y, ys, hby, hys, rfl⟩ := forall₂_cons_left_iff.mp hy
    rw [h a mem_cons_self b x y hab hax hby,
      ih (fun a' ha' => h a' (mem_cons_of_mem _ ha')) hxs hys]

theorem list_alike {es : List (CanonicalValue P)} (ih : ∀ e ∈ es, EncodesAlike e) :
    EncodesAlike (.list es) := by
  intro w x y hs hx hy
  cases hs with
  | refl => exact encodesAlike_refl hx hy
  | @list _ fs hf =>
    obtain ⟨xs, hxs, rfl⟩ := (encode_list_ok_iff es x).mp hx
    obtain ⟨ys, hys, rfl⟩ := (encode_list_ok_iff fs y).mp hy
    rw [hf.length_eq, forall₂_alike (fun e he _ _ _ => (ih e he).tagged) hf hxs hys]

theorem sameField_of_maps (hid : fs.map Prod.fst = gs.map Prod.fst)
    (hv : Forall₂ Same (fs.map Prod.snd) (gs.map Prod.snd)) :
    Forall₂ SameField fs gs := by
  induction fs generalizing gs with
  | nil =>
    cases gs with
    | nil => exact .nil
    | cons g gs => cases hid
  | cons f fs ih =>
    cases gs with
    | nil => cases hid
    | cons g gs =>
      rw [map_cons, map_cons, List.cons.injEq] at hid
      rw [map_cons, map_cons, forall₂_cons] at hv
      exact .cons ⟨hid.1, hv.1⟩ (ih hid.2 hv.2)

theorem fieldCode_alike {g : UInt64 × CanonicalValue P} (h : EncodesAlike f.2) (hs : SameField f g)
    (hx : FieldCode f x) (hy : FieldCode g y) : x = y := by
  obtain ⟨px, hpx, rfl⟩ := hx
  obtain ⟨py, hpy, rfl⟩ := hy
  rw [hs.1, h.tagged hs.2 hpx hpy]

theorem struct_alike (ih : ∀ f ∈ fs, EncodesAlike f.2) : EncodesAlike (.struct fs) := by
  intro w x y hs hx hy
  cases hs with
  | refl => exact encodesAlike_refl hx hy
  | @struct _ fs' gs gs' hf hid hv hg =>
    obtain ⟨hn, xs, hxs, rfl⟩ := (encode_struct_ok_iff fs x).mp hx
    obtain ⟨hm, ys, hys, rfl⟩ := (encode_struct_ok_iff gs y).mp hy
    have hsame := forall₂_sortByKey fieldId
      (fun f g (h : SameField f g) => congrArg UInt64.toNat h.1) (sameField_of_maps hid hv)
    rw [sortByKey_congr hf.symm hn, sortByKey_congr hg hm] at hsame
    have halike : ∀ f ∈ sortByKey fieldId fs, ∀ g x y, SameField f g → FieldCode f x →
        FieldCode g y → x = y := fun f hmem _ _ _ =>
      fieldCode_alike (ih f ((sortByKey_perm fieldId fs).mem_iff.mp hmem))
    rw [hsame.length_eq, forall₂_alike halike hsame hxs hys]

theorem sameEntry_of_maps {fs : List (CanonicalValue P × CanonicalValue P)}
    (hk : Forall₂ Same (es.map Prod.fst) (fs.map Prod.fst))
    (hv : Forall₂ Same (es.map Prod.snd) (fs.map Prod.snd)) :
    Forall₂ SameEntry es fs := by
  induction es generalizing fs with
  | nil =>
    cases fs with
    | nil => exact .nil
    | cons f fs => cases hk
  | cons e es ih =>
    cases fs with
    | nil => cases hk
    | cons f fs =>
      rw [map_cons, map_cons, forall₂_cons] at hk hv
      exact .cons ⟨hk.1, hv.1⟩ (ih hk.2 hv.2)

theorem entryCode_alike {fs : List (CanonicalValue P × CanonicalValue P)}
    (ih : ∀ e ∈ es, EncodesAlike e.1 ∧ EncodesAlike e.2) (hs : Forall₂ SameEntry es fs)
    (hp : Forall₂ EntryCode es ps) (hq : Forall₂ EntryCode fs qs) : ps = qs := by
  induction hs generalizing ps qs with
  | nil =>
    cases hp
    cases hq
    rfl
  | @cons e f es fs hef _ ih' =>
    obtain ⟨p, ps, hep, hps, rfl⟩ := forall₂_cons_left_iff.mp hp
    obtain ⟨q, qs, hfq, hqs, rfl⟩ := forall₂_cons_left_iff.mp hq
    obtain ⟨hk, hv⟩ := ih e mem_cons_self
    have hpq : p = q :=
      Prod.ext (hk.tagged hef.1 hep.2.1 hfq.2.1) (hv.tagged hef.2 hep.2.2 hfq.2.2)
    rw [hpq, ih' (fun e' he' => ih e' (mem_cons_of_mem _ he')) hps hqs]

theorem map_alike (ih : ∀ e ∈ es, EncodesAlike e.1 ∧ EncodesAlike e.2) : EncodesAlike (.map es) := by
  intro w x y hs hx hy
  cases hs with
  | refl => exact encodesAlike_refl hx hy
  | @map _ es' fs fs' he hk hv hf =>
    obtain ⟨ps, hps, hnp, rfl⟩ := (encode_map_ok_iff es x).mp hx
    obtain ⟨qs, hqs, hnq, rfl⟩ := (encode_map_ok_iff fs y).mp hy
    obtain ⟨ps', hps', hpp⟩ := perm_comp_forall₂ he.symm hps
    obtain ⟨qs', hqs', hqq⟩ := perm_comp_forall₂ hf hqs
    have hpq : ps' = qs' := entryCode_alike (fun e hmem => ih e (he.mem_iff.mpr hmem))
      (sameEntry_of_maps hk hv) hps' hqs'
    have hperm : ps.Perm qs := hpp.symm.trans (hpq ▸ hqq)
    rw [sortByKey_congr hperm hnq]

theorem encodes_alike (v : CanonicalValue P) : EncodesAlike v := by
  induction v using value_induction with
  | scalar v h => exact scalar_alike h
  | list es ih => exact list_alike ih
  | struct fs ih => exact struct_alike ih
  | map es ih => exact map_alike ih

/-- Canonical bytes identify values of one tag, and tagged encodings are self-delimiting. -/
theorem canonical_identity (v w : CanonicalValue P) :
    (∀ x y, v.valueTag = w.valueTag → encode v = .ok x → encode w = .ok y → (x = y ↔ Same v w)) ∧
    ∀ x y s, encodeTagged v = .ok x → encodeTagged w = .ok y → x <+: y ++ s → Same v w := by
  constructor
  · intro x y ht hx hy
    constructor
    · intro he
      exact (payload_separates v w x y [] [] ht hx hy (by rw [he])).1
    · intro hs
      exact encodes_alike v w x y hs hx hy
  · intro x y s hx hy hp
    obtain ⟨r, hr⟩ := hp
    exact ((payload_separates v).tagged w x y r s hx hy hr).1

def asciiText : TextPredicates where
  utf8Valid b := b.all (· < 128)
  jsonValid b := b.length == 1 && b.all (fun c => 48 ≤ c && c < 58)
  json_utf8 b h := by
    simp only [Bool.and_eq_true, List.all_eq_true, decide_eq_true_eq] at h ⊢
    intro c hc
    exact lt_trans (h.2 c hc).2 (by decide)

def narrowFirst : CanonicalValue asciiText := .struct [(1, .bool true), (2, .int 1 5)]

def wideFirst : CanonicalValue asciiText := .struct [(2, .int 8 5), (1, .bool true)]

theorem encode_narrowFirst : encode narrowFirst = .ok [2, 1, 2, 2, 3, 5, 0, 0, 0, 0, 0, 0, 0] := by
  simp [narrowFirst, encode, encodeFields, withTag, encodeI64Width, encodeU64Leb128_eq_varint,
    varint_small, Except.map, CanonicalValue.valueTag, ValueTag.code, canonicalizeStruct, sortByKey,
    joinFields, adjacentEqual, leBytes, unsigned]

theorem encode_wideFirst : encode wideFirst = .ok [2, 1, 2, 2, 3, 5, 0, 0, 0, 0, 0, 0, 0] := by
  simp [wideFirst, encode, encodeFields, withTag, encodeI64Width, encodeU64Leb128_eq_varint,
    varint_small, Except.map, CanonicalValue.valueTag, ValueTag.code, canonicalizeStruct, sortByKey,
    joinFields, adjacentEqual, leBytes, unsigned]

theorem canonical_identity_widths :
    narrowFirst.valueTag = wideFirst.valueTag ∧ Same narrowFirst wideFirst :=
  ⟨rfl, ((canonical_identity narrowFirst wideFirst).1 _ _ rfl encode_narrowFirst
    encode_wideFirst).mp rfl⟩

end CoveFormat.CanonicalIdentity
