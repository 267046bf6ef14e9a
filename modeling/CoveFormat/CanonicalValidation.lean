import CoveFormat.CanonicalIdentity
import CoveFormat.CanonicalScan

variable {payload : Bytes}

namespace CoveFormat.CanonicalValidation

open ByteCodes SortedKeys Wire Canonical CanonicalValidator CanonicalGrammar CanonicalIdentity
  SelfDelimiting List Option Except

variable {α β : Type} {R : α → β → Prop} {as : List α}

variable {P : TextPredicates}

variable {n : Nat}

theorem minimal_spelling (h : n < 2 ^ 64) : VarintSpelling false n (varint n) := by
  have hd := decodeU64Leb128_varint h []
  rw [append_nil] at hd
  exact ⟨hd, by simp⟩

variable {p : Bool} {x : Bytes}

theorem varintSpelling_separates {q : Bool} {m : Nat} {y r s : Bytes} (hx : VarintSpelling p m x)
    (hy : VarintSpelling q n y) (h : x ++ r = y ++ s) : m = n ∧ x = y ∧ p = q := by
  have hr := hx.read r
  rw [h, hy.read s, ok.injEq, Prod.mk.injEq] at hr
  obtain ⟨rfl, hlen⟩ := hr
  have hxy : x = y := append_inj_left h hlen.symm
  subst hxy
  have hpq : p = true ↔ q = true := hx.2.trans hy.2.symm
  exact ⟨rfl, rfl, Bool.eq_iff_iff.mpr hpq⟩

theorem exists_forall₂ {l : List α} (h : ∀ a ∈ l, ∃ b, R a b) : ∃ bs, Forall₂ R l bs := by
  induction l with
  | nil => exact ⟨[], .nil⟩
  | cons a l ih =>
    obtain ⟨b, hb⟩ := h a mem_cons_self
    obtain ⟨bs, hbs⟩ := ih fun a' ha' => h a' (mem_cons_of_mem _ ha')
    exact ⟨b :: bs, .cons hb hbs⟩

theorem any_congr_forall₂ {f : α → Bool} {bs : List α}
    (h : Forall₂ (fun a b => f a = f b) as bs) : as.any f = bs.any f := by
  induction h with
  | nil => rfl
  | cons hab _ ih => rw [any_cons, any_cons, hab, ih]

theorem forall₂_self_map {f : α → β} (h : ∀ a ∈ as, R a (f a)) : Forall₂ R as (as.map f) :=
  forall₂_map_right_iff.mpr (forall₂_same.mpr h)

theorem length_le_flatten {xs : List (List α)} (h : ∀ x ∈ xs, 0 < x.length) :
    xs.length ≤ xs.flatten.length := by
  induction xs with
  | nil => simp
  | cons x xs ih =>
    have hx := h x mem_cons_self
    have hxs := ih fun y hy => h y (mem_cons_of_mem _ hy)
    rw [length_cons, flatten_cons, length_append]
    omega

def ItemCode (P : TextPredicates) (i : Item) (z : Bytes) : Prop := i.Spelled P ∧ z = i.bytes

/-- A payload of a tag ends where any agreeing payload of that tag ends, and the
two are padded together. -/
def SpellingSeparates (P : TextPredicates) (p : Bool) (tag : ValueTag) (x : Bytes) : Prop :=
  ∀ q y r s, Spells P q tag y → x ++ r = y ++ s → p = q ∧ x = y

theorem item_separates {i : Item} (h : SpellingSeparates P i.payloadPadded i.tag i.payload) :
    Separates (ItemCode P) (fun i j => i.padded = j.padded) i := by
  rintro j _ _ r s ⟨⟨hi, -⟩, rfl⟩ ⟨⟨hj, hjp⟩, rfl⟩ he
  rw [Item.bytes, Item.bytes, append_assoc, append_assoc] at he
  obtain ⟨hc, hb, ht⟩ := varintSpelling_separates hi hj he
  rw [hb] at he
  rw [← code_inj hc] at hjp
  obtain ⟨hp, hx⟩ := h _ _ r s hjp (append_cancel_left he)
  exact ⟨show i.padded = j.padded by rw [Item.padded, Item.padded, ht, hp],
    by rw [Item.bytes, Item.bytes, hb, hx]⟩

def FieldSpelling (P : TextPredicates) (f : Field) (z : Bytes) : Prop := f.Spelled P ∧ z = f.bytes

theorem field_separates {f : Field}
    (h : SpellingSeparates P f.item.payloadPadded f.item.tag f.item.payload) :
    Separates (FieldSpelling P) (fun f g => f.padded = g.padded) f := by
  rintro g _ _ r s ⟨⟨hf, hi⟩, rfl⟩ ⟨⟨hg, hj⟩, rfl⟩ he
  rw [Field.bytes, Field.bytes, append_assoc, append_assoc] at he
  obtain ⟨-, hb, hp⟩ := varintSpelling_separates hf hg he
  rw [hb] at he
  obtain ⟨hq, hz⟩ := item_separates h g.item _ _ r s ⟨hi, rfl⟩ ⟨hj, rfl⟩ (append_cancel_left he)
  exact ⟨show f.padded = g.padded by rw [Field.padded, Field.padded, hp, hq],
    by rw [Field.bytes, Field.bytes, hb, hz]⟩

def EntrySpelling (P : TextPredicates) (e : Entry) (z : Bytes) : Prop :=
  (e.key.Spelled P ∧ e.value.Spelled P) ∧ z = e.bytes

theorem entry_separates {e : Entry}
    (hk : SpellingSeparates P e.key.payloadPadded e.key.tag e.key.payload)
    (hv : SpellingSeparates P e.value.payloadPadded e.value.tag e.value.payload) :
    Separates (EntrySpelling P) (fun e f => e.padded = f.padded) e := by
  rintro f _ _ r s ⟨⟨hek, hev⟩, rfl⟩ ⟨⟨hfk, hfv⟩, rfl⟩ he
  rw [Entry.bytes, Entry.bytes, append_assoc, append_assoc] at he
  obtain ⟨hp, hb⟩ := item_separates hk f.key _ _ _ _ ⟨hek, rfl⟩ ⟨hfk, rfl⟩ he
  rw [hb] at he
  obtain ⟨hq, hz⟩ := item_separates hv f.value _ _ r s ⟨hev, rfl⟩ ⟨hfv, rfl⟩
    (append_cancel_left he)
  exact ⟨show e.padded = f.padded by rw [Entry.padded, Entry.padded, hp, hq],
    by rw [Entry.bytes, Entry.bytes, hb, hz]⟩

variable {tag : ValueTag}

theorem text_payloadWidth (h : TextPayload P tag payload) : payloadWidth tag = none := by
  cases tag <;> first | rfl | exact h.elim

theorem spells_separates (h : Spells P p tag x) : SpellingSeparates P p tag x := by
  induction h with
  | @fixed tag k x hk hx =>
    intro q y r s hy he
    cases hy with
    | @fixed _ k' _ hk' hx' =>
      rw [hk, some.injEq] at hk'
      exact ⟨rfl, append_inj_left he (by omega)⟩
    | text ht _ => rw [text_payloadWidth ht] at hk; cases hk
    | list _ _ _ _ | struct _ _ _ _ _ _ | map _ _ _ _ _ _ _ _ => cases hk
  | @text p tag x payload ht hx =>
    intro q y r s hy he
    cases hy with
    | fixed hk' _ => rw [text_payloadWidth ht] at hk'; cases hk'
    | @text _ _ y' payload' ht' hx' =>
      rw [append_assoc, append_assoc] at he
      obtain ⟨hlen, rfl, rfl⟩ := varintSpelling_separates hx hx' he
      have hpay := append_inj_left (append_cancel_left he) hlen
      exact ⟨rfl, by rw [hpay]⟩
    | list _ _ _ _ | struct _ _ _ _ _ _ | map _ _ _ _ _ _ _ _ => exact ht.elim
  | @list p x items hx ht hp ih =>
    intro q y r s hy he
    cases hy with
    | fixed hk _ => cases hk
    | text ht _ => exact ht.elim
    | @list q' y' jtems hy' ht' hp' =>
      rw [append_assoc, append_assoc] at he
      obtain ⟨hlen, rfl, rfl⟩ := varintSpelling_separates hx hy' he
      obtain ⟨hpad, hb⟩ := separates_sequence (fun i hi => item_separates (ih i hi)) hlen
        (forall₂_self_map fun i hi => ⟨⟨ht i hi, hp i hi⟩, rfl⟩)
        (forall₂_self_map fun i hi => ⟨⟨ht' i hi, hp' i hi⟩, rfl⟩) (append_cancel_left he)
      exact ⟨by rw [any_congr_forall₂ hpad], by rw [hb]⟩
  | @struct p x fields hx hid ht hp ho ih =>
    intro q y r s hy he
    cases hy with
    | fixed hk _ => cases hk
    | text ht _ => exact ht.elim
    | @struct q' y' gields hy' hid' ht' hp' ho' =>
      rw [append_assoc, append_assoc] at he
      obtain ⟨hlen, rfl, rfl⟩ := varintSpelling_separates hx hy' he
      obtain ⟨hpad, hb⟩ := separates_sequence (fun f hf => field_separates (ih f hf)) hlen
        (forall₂_self_map fun f hf => ⟨⟨hid f hf, ht f hf, hp f hf⟩, rfl⟩)
        (forall₂_self_map fun f hf => ⟨⟨hid' f hf, ht' f hf, hp' f hf⟩, rfl⟩)
        (append_cancel_left he)
      exact ⟨by rw [any_congr_forall₂ hpad], by rw [hb]⟩
  | @map p x entries hx hk hkp hv hvp hs ho ihk ihv =>
    intro q y r s hy he
    cases hy with
    | fixed hk _ => cases hk
    | text ht _ => exact ht.elim
    | @map q' y' fntries hy' hk' hkp' hv' hvp' hs' ho' =>
      rw [append_assoc, append_assoc] at he
      obtain ⟨hlen, rfl, rfl⟩ := varintSpelling_separates hx hy' he
      obtain ⟨hpad, hb⟩ := separates_sequence
        (fun e he => entry_separates (ihk e he) (ihv e he)) hlen
        (forall₂_self_map fun e he => ⟨⟨⟨hk e he, hkp e he⟩, hv e he, hvp e he⟩, rfl⟩)
        (forall₂_self_map fun e he => ⟨⟨⟨hk' e he, hkp' e he⟩, hv' e he, hvp' e he⟩, rfl⟩)
        (append_cancel_left he)
      exact ⟨by rw [any_congr_forall₂ hpad], by rw [hb]⟩

def MinimalItem (P : TextPredicates) (i : Item) : Prop := i.Spelled P ∧ i.padded = false

/-- Encodings of `v` that fit in memory are minimal spellings of its tag. -/
def EncodesMinimal (v : CanonicalValue P) : Prop :=
  ∀ x, x.length < 2 ^ 63 → encode v = .ok x → Spells P false v.valueTag x

variable {v : CanonicalValue P} {z : Bytes}

theorem EncodesMinimal.item (h : EncodesMinimal v) (hz : TaggedCode v z) (hlen : z.length < 2 ^ 63) :
    ∃ i : Item, MinimalItem P i ∧ i.tag = v.valueTag ∧ i.bytes = z := by
  obtain ⟨x, hx, rfl⟩ := (taggedCode_iff v z).mp hz
  rw [length_append] at hlen
  have hc := code_lt v.valueTag
  exact ⟨⟨varint v.valueTag.code, v.valueTag, x, false, false⟩,
    ⟨⟨minimal_spelling (show v.valueTag.code < 2 ^ 64 by omega), h x (by omega) hx⟩, rfl⟩, rfl, rfl⟩

theorem tagged_length_pos (h : TaggedCode v z) : 0 < z.length := by
  obtain ⟨x, -, rfl⟩ := (taggedCode_iff v z).mp h
  have hp := varint_length_pos v.valueTag.code
  rw [length_append]
  omega

variable {bs : List β}

theorem forall₂_right {Q : β → Prop} (h : Forall₂ R as bs) (hq : ∀ a ∈ as, ∀ b, R a b → Q b) :
    ∀ b ∈ bs, Q b := by
  induction h with
  | nil => simp
  | cons hab _ ih =>
    exact forall_mem_cons.mpr ⟨hq _ mem_cons_self _ hab,
      ih fun a' ha' => hq a' (mem_cons_of_mem _ ha')⟩

variable {γ : Type}

theorem map_eq_of_forall₂ {f : α → γ} {g : β → γ} (h : Forall₂ R as bs)
    (hfg : ∀ a b, R a b → g b = f a) : bs.map g = as.map f := by
  induction h with
  | nil => rfl
  | cons hab _ ih => rw [map_cons, map_cons, hfg _ _ hab, ih]

theorem exists_spellings {E : α → Bytes → Prop} {G : α → γ → Prop} {g : γ → Bytes} {limit : Nat}
    {xs : List Bytes} (hx : Forall₂ E as xs) (hl : xs.flatten.length < limit)
    (h : ∀ a ∈ as, ∀ z, E a z → z.length < limit → ∃ c, G a c ∧ g c = z) :
    ∃ cs : List γ, Forall₂ G as cs ∧ cs.map g = xs := by
  induction hx with
  | nil => exact ⟨[], .nil, rfl⟩
  | @cons a z as xs haz _ ih =>
    rw [flatten_cons, length_append] at hl
    obtain ⟨c, hc, hcz⟩ := h a mem_cons_self z haz (by omega)
    obtain ⟨cs, hcs, hmap⟩ := ih (by omega) fun a' ha' => h a' (mem_cons_of_mem _ ha')
    exact ⟨c :: cs, .cons hc hcs, by rw [map_cons, hcz, hmap]⟩

theorem any_padded {f : γ → Bool} {cs : List γ} (h : ∀ c ∈ cs, f c = false) : cs.any f = false :=
  any_eq_false.mpr fun c hc => by simp [h c hc]

theorem list_minimal {es : List (CanonicalValue P)} (ih : ∀ e ∈ es, EncodesMinimal e) :
    EncodesMinimal (.list es) := by
  intro x hlen hx
  obtain ⟨xs, hxs, rfl⟩ := (encode_list_ok_iff es x).mp hx
  rw [length_append] at hlen
  have hcount := length_le_flatten (forall₂_right hxs fun _ _ _ h => tagged_length_pos h)
  obtain ⟨items, hitems, rfl⟩ := exists_spellings (G := fun _ i => MinimalItem P i)
    (g := Item.bytes) hxs
    (show _ < 2 ^ 63 by omega) fun e he z hz hle => by
      obtain ⟨i, hi, -, hb⟩ := (ih e he).item hz hle
      exact ⟨i, hi, hb⟩
  have hgood := forall₂_right hitems fun _ _ _ h => h
  rw [length_map] at hcount
  have hs := Spells.list items (minimal_spelling (by omega)) (fun i hi => (hgood i hi).1.1)
    (fun i hi => (hgood i hi).1.2)
  rw [any_padded fun i hi => (hgood i hi).2, ← hitems.length_eq] at hs
  exact hs

theorem fieldCode_length_pos {f : UInt64 × CanonicalValue P} (h : FieldCode f z) :
    0 < z.length := by
  obtain ⟨y, -, rfl⟩ := h
  have hp := varint_length_pos f.1.toNat
  rw [length_append]
  omega

theorem struct_minimal {fs : List (UInt64 × CanonicalValue P)}
    (ih : ∀ f ∈ fs, EncodesMinimal f.2) : EncodesMinimal (.struct fs) := by
  intro x hlen hx
  obtain ⟨hnodup, xs, hxs, rfl⟩ := (encode_struct_ok_iff fs x).mp hx
  rw [length_append] at hlen
  have hcount := length_le_flatten (forall₂_right hxs fun _ _ _ h => fieldCode_length_pos h)
  obtain ⟨fields, hfields, rfl⟩ := exists_spellings
    (G := fun f (g : Field) => (g.Spelled P ∧ g.padded = false) ∧ g.id = fieldId f)
    (g := Field.bytes) hxs
    (show _ < 2 ^ 63 by omega) fun f hf z hz hle => by
      obtain ⟨y, hy, rfl⟩ := hz
      rw [length_append] at hle
      obtain ⟨i, hi, -, rfl⟩ :=
        (ih f ((sortByKey_perm fieldId fs).mem_iff.mp hf)).item hy (by omega)
      exact ⟨⟨f.1.toNat, varint f.1.toNat, false, i⟩,
        ⟨⟨⟨minimal_spelling f.1.toNat_lt, hi.1⟩, hi.2⟩, rfl⟩, rfl⟩
  have hgood := forall₂_right hfields fun _ _ _ h => h.1
  have hids := map_eq_of_forall₂ hfields fun _ _ h => h.2
  have hord : (fields.map Field.id).Pairwise (· < ·) := by
    rw [hids]
    exact pairwise_map.mpr (sortByKey_strict hnodup)
  rw [length_map] at hcount
  have hs := Spells.struct fields (minimal_spelling (by omega)) (fun f hf => (hgood f hf).1.1)
    (fun f hf => (hgood f hf).1.2.1) (fun f hf => (hgood f hf).1.2.2) hord
  rw [any_padded fun f hf => (hgood f hf).2, ← hfields.length_eq] at hs
  exact hs

theorem isScalarValueTag_valueTag (v : CanonicalValue P) :
    isScalarValueTag v.valueTag = v.isScalarKey := by
  cases v <;> first | rfl | (rename_i b; cases b <;> rfl)

variable {es : List (CanonicalValue P × CanonicalValue P)}

theorem entries_minimal {ps : List (Bytes × Bytes)}
    (ih : ∀ e ∈ es, EncodesMinimal e.1 ∧ EncodesMinimal e.2) (hps : Forall₂ EntryCode es ps)
    (hl : (ps.map (fun p => p.1 ++ p.2)).flatten.length < 2 ^ 63) :
    ∃ entries : List Entry,
      Forall₂ (fun p (e : Entry) => (e.Spelled P ∧ e.padded = false) ∧ e.key.bytes = p.1) ps
        entries ∧ entries.map Entry.bytes = ps.map (fun p => p.1 ++ p.2) := by
  induction hps with
  | nil => exact ⟨[], .nil, rfl⟩
  | @cons e p es ps hep _ ihps =>
    obtain ⟨hscalar, hkey, hvalue⟩ := hep
    rw [map_cons, flatten_cons, length_append, length_append] at hl
    obtain ⟨hk, hv⟩ := ih e mem_cons_self
    obtain ⟨i, ⟨hi, hip⟩, htag, hib⟩ := hk.item hkey (by omega)
    obtain ⟨j, ⟨hj, hjp⟩, -, hjb⟩ := hv.item hvalue (by omega)
    have hs : isScalarValueTag i.tag := by rw [htag, isScalarValueTag_valueTag, hscalar]
    obtain ⟨entries, hentries, hbytes⟩ :=
      ihps (fun e' he' => ih e' (mem_cons_of_mem _ he')) (by omega)
    refine ⟨⟨i, j⟩ :: entries, .cons ⟨⟨⟨⟨hi, hs⟩, hj⟩, ?_⟩, hib⟩ hentries, ?_⟩
    · rw [Entry.padded, hip, hjp, Bool.or_self]
    · rw [map_cons, map_cons, Entry.bytes, hib, hjb, hbytes]

theorem map_minimal (ih : ∀ e ∈ es, EncodesMinimal e.1 ∧ EncodesMinimal e.2) : EncodesMinimal (.map es) := by
  intro x hlen hx
  obtain ⟨ps, hps, hnodup, rfl⟩ := (encode_map_ok_iff es x).mp hx
  obtain ⟨es', hes, hps'⟩ := exists_entries_perm hps (sortByKey_perm Prod.fst ps)
  rw [length_append] at hlen
  have hcode : Forall₂ (fun e z => ∃ p : Bytes × Bytes, EntryCode e p ∧ z = p.1 ++ p.2) es'
      ((sortByKey Prod.fst ps).map (fun p => p.1 ++ p.2)) :=
    forall₂_map_right_iff.mpr (hps'.imp fun _ p h => ⟨p, h, rfl⟩)
  have hcount := length_le_flatten (forall₂_right hcode fun e _ z ⟨p, hp, hz⟩ => by
    have hpos := tagged_length_pos hp.2.1
    rw [hz, length_append]
    omega)
  obtain ⟨entries, hentries, hbytes⟩ := entries_minimal (fun e he => ih e (hes.mem_iff.mpr he)) hps'
    (show _ < 2 ^ 63 by omega)
  have hgood := forall₂_right hentries fun _ _ _ h => h.1
  have hkeys := map_eq_of_forall₂ hentries fun _ _ h => h.2
  have hord : (entries.map (fun e => e.key.bytes)).Pairwise (· < ·) := by
    rw [hkeys]
    exact pairwise_map.mpr (sortByKey_strict hnodup)
  rw [length_map] at hcount
  have hlen' := hentries.length_eq
  have hs := Spells.map entries (minimal_spelling (by omega)) (fun e he => (hgood e he).1.1.1.1)
    (fun e he => (hgood e he).1.1.1.2) (fun e he => (hgood e he).1.2.1)
    (fun e he => (hgood e he).1.2.2) (fun e he => (hgood e he).1.1.2) hord
  rw [any_padded fun e he => (hgood e he).2, ← hentries.length_eq, hbytes] at hs
  exact hs

end CoveFormat.CanonicalValidation
