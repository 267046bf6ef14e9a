import CoveFormat.GoidSeparation

namespace CoveFormat.PlanOrder

open ExceptRules SortedKeys Grouping IdentityKeys IdentityPlanning IdentityComponents GoidSeparation
  List Except

variable {reviewed : List ReviewedDecision} {Goid : Type} {goids : GoidLibrary Goid}

variable {context : MappingContext} {lib : KeyLibrary} {keys keys' : List IdentityKey}

/-- A merge or decision between two identities, wherever they stand. -/
def Step (context : MappingContext) (keys : List IdentityKey) (a b : IdentityKey) : Prop :=
  a ∈ keys ∧ b ∈ keys ∧ (KeyEdge context a b ∨ KeyEdge context b a)

def Linked (context : MappingContext) (keys : List IdentityKey) : IdentityKey → IdentityKey → Prop :=
  Relation.TransGen (Step context keys)

variable {a b : IdentityKey}

theorem Step.symm (h : Step context keys a b) : Step context keys b a :=
  ⟨h.2.1, h.1, h.2.2.symm⟩

theorem Linked.symm (h : Linked context keys a b) : Linked context keys b a := by
  induction h with
  | single h => exact .single h.symm
  | tail _ h ih => exact .head h.symm ih

theorem linked_congr (h : ∀ a, a ∈ keys ↔ a ∈ keys') :
    Linked context keys a b ↔ Linked context keys' a b := by
  have hstep : Step context keys = Step context keys' := by
    funext c d
    rw [Step, Step, h, h]
  rw [Linked, Linked, hstep]

variable {i j : Nat}

theorem linked_of_connected (h : Connected context keys i j) :
    i = j ∨ ∃ a b, keys[i]? = some a ∧ keys[j]? = some b ∧ Linked context keys a b := by
  induction h with
  | rel i j h =>
    obtain ⟨a, b, ha, hb, hab⟩ := h
    exact .inr ⟨a, b, ha, hb, .single ⟨mem_of_getElem? ha, mem_of_getElem? hb, .inl hab⟩⟩
  | refl i => exact .inl rfl
  | symm i j _ ih =>
    rcases ih with rfl | ⟨a, b, ha, hb, hab⟩
    · exact .inl rfl
    · exact .inr ⟨b, a, hb, ha, hab.symm⟩
  | trans i j k _ _ ih ih' =>
    rcases ih with rfl | ⟨a, b, ha, hb, hab⟩
    · exact ih'
    · rcases ih' with rfl | ⟨b', c, hb', hc, hbc⟩
      · exact .inr ⟨a, b, ha, hb, hab⟩
      · obtain rfl := Option.some.inj (hb.symm.trans hb')
        exact .inr ⟨a, c, ha, hc, hab.trans hbc⟩

theorem connected_of_linked (ha : keys[i]? = some a) (hb : keys[j]? = some b)
    (h : Linked context keys a b) : Connected context keys i j := by
  have hstep : ∀ {i j c d}, keys[i]? = some c → keys[j]? = some d → Step context keys c d →
      Connected context keys i j := by
    intro i j c d hc hd hcd
    rcases hcd.2.2 with hcd | hdc
    · exact .rel i j ⟨c, d, hc, hd, hcd⟩
    · exact .symm j i (.rel j i ⟨d, c, hd, hc, hdc⟩)
  induction h generalizing j with
  | single h => exact hstep ha hb h
  | @tail c d _ hcd ih =>
    obtain ⟨m, hm⟩ := mem_iff_getElem?.mp hcd.1
    exact .trans i m j (ih hm) (hstep hm hb hcd)

theorem connected_iff (ha : keys[i]? = some a) (hb : keys[j]? = some b) :
    Connected context keys i j ↔ i = j ∨ Linked context keys a b := by
  constructor
  · intro h
    rcases linked_of_connected h with rfl | ⟨a', b', ha', hb', h⟩
    · exact .inl rfl
    · obtain rfl := Option.some.inj (ha.symm.trans ha')
      obtain rfl := Option.some.inj (hb.symm.trans hb')
      exact .inr h
  · rintro (rfl | h)
    · exact .refl i
    · exact connected_of_linked ha hb h

/-- The identities in the class of an identity. -/
def InClass (context : MappingContext) (keys : List IdentityKey) (a b : IdentityKey) : Prop :=
  b ∈ keys ∧ (b = a ∨ Linked context keys a b)

theorem inClass_congr (h : ∀ a, a ∈ keys ↔ a ∈ keys') :
    InClass context keys a b ↔ InClass context keys' a b := by
  rw [InClass, InClass, h, linked_congr h]

variable {k : Nat}

theorem exists_connected_iff (ha : keys[k]? = some a) :
    (∃ j, Connected context keys k j ∧ keys[j]? = some b) ↔ InClass context keys a b := by
  constructor
  · rintro ⟨j, hkj, hb⟩
    refine ⟨mem_of_getElem? hb, ?_⟩
    rcases (connected_iff ha hb).mp hkj with rfl | h
    · exact .inl (Option.some.inj (hb.symm.trans ha))
    · exact .inr h
  · rintro ⟨hmem, rfl | h⟩
    · exact ⟨k, .refl k, ha⟩
    · obtain ⟨j, hj⟩ := mem_iff_getElem?.mp hmem
      exact ⟨j, (connected_iff ha hj).mpr (.inr h), hj⟩

theorem keysAt_eq (indexes : List Nat) : keysAt keys indexes = indexes.filterMap (keys[·]?) := by
  rw [keysAt, placed, map_filterMap]
  apply filterMap_congr
  intro i _
  cases keys[i]? <;> rfl

theorem keysAt_range : keysAt keys (List.range keys.length) = keys := by
  rw [keysAt_eq]
  induction keys with
  | nil => rfl
  | cons a keys ih =>
    rw [length_cons, range_succ_eq_map]
    simp only [filterMap_cons, List.getElem?_cons_zero, filterMap_map]
    exact congrArg (a :: ·) ih

theorem keysAt_filter (p : IdentityKey → Bool) (indexes : List Nat) :
    keysAt keys (indexes.filter fun i => (keys[i]?).any p) = (keysAt keys indexes).filter p := by
  rw [keysAt_eq, keysAt_eq, filterMap_filter, filter_filterMap]
  apply filterMap_congr
  intro i _
  cases keys[i]? <;> simp [Option.filter]

section

variable (reference : MapTypedIdentityReference)

theorem keysAt_matchedIndexes :
    keysAt keys (matchedIndexes context reference keys) =
      keys.filter (matchesReference context reference) := by
  rw [matchedIndexes, keysAt_filter, keysAt_range]

theorem length_matchedIndexes :
    (matchedIndexes context reference keys).length =
      (keys.filter (matchesReference context reference)).length := by
  rw [← keysAt_matchedIndexes, keysAt_eq]
  refine (filterMap_length_eq_length.mpr fun i hi => ?_).symm
  obtain ⟨a, ha, -⟩ := mem_matchedIndexes.mp hi
  rw [ha]
  rfl

end

theorem resolvable_perm (h : keys.Perm keys') {reference : MapTypedIdentityReference}
    (hr : Resolvable context reference keys) : Resolvable context reference keys' := by
  have hlen : (matchedIndexes context reference keys).length =
      (matchedIndexes context reference keys').length := by
    rw [length_matchedIndexes, length_matchedIndexes]
    exact (h.filter _).length_eq
  refine ⟨fun ⟨key, hkey, htype⟩ => hr.supported ⟨key, h.mem_iff.mpr hkey, htype⟩, ?_,
    fun hd => hlen ▸ hr.unambiguous hd⟩
  intro hnil
  apply hr.matched
  apply eq_nil_of_length_eq_zero
  rw [hlen, hnil, length_nil]

variable {matched matched' : List IdentityKey} {objectType : String}

section

variable (h : matched.Perm matched')
include h

theorem reviewedSameObjectObjectType_perm
    (hok : reviewedSameObjectObjectType matched = .ok objectType) :
    reviewedSameObjectObjectType matched' = .ok objectType := by
  have hall : ∀ {matched : List IdentityKey}, reviewedSameObjectObjectType matched = .ok objectType ↔
      matched ≠ [] ∧ ∀ key ∈ matched, key.objectType = objectType := by
    intro matched
    cases matched with
    | nil => simp [reviewedSameObjectObjectType]
    | cons first rest =>
      simp only [reviewedSameObjectObjectType, andThen_eq_ok_iff, checkAll_eq_ok_iff,
        rejectIf_eq_ok_iff, not_not, ok.injEq]
      constructor
      · rintro ⟨_, hrest, rfl⟩
        exact ⟨cons_ne_nil _ _, forall_mem_cons.mpr ⟨rfl, hrest⟩⟩
      · rintro ⟨-, hkeys⟩
        obtain ⟨rfl, hrest⟩ := forall_mem_cons.mp hkeys
        exact ⟨(), hrest, rfl⟩
  obtain ⟨hne, hkeys⟩ := hall.mp hok
  refine hall.mpr ⟨?_, fun key hkey => hkeys key (h.mem_iff.mpr hkey)⟩
  rintro rfl
  exact hne h.eq_nil

theorem validateReviewedSameObjectAllowed_perm
    (hok : validateReviewedSameObjectAllowed context matched = .ok objectType) :
    validateReviewedSameObjectAllowed context matched' = .ok objectType := by
  simp only [validateReviewedSameObjectAllowed, andThen_eq_ok_iff, checkAll_eq_ok_iff] at hok ⊢
  obtain ⟨found, htype, _, hall, hfound⟩ := hok
  exact ⟨found, reviewedSameObjectObjectType_perm h htype, (),
    fun key hkey => hall key (h.mem_iff.mpr hkey), hfound⟩

theorem reviewedDecisionRequiresAnchor_perm :
    reviewedDecisionRequiresAnchor matched = reviewedDecisionRequiresAnchor matched' := by
  rw [reviewedDecisionRequiresAnchor, reviewedDecisionRequiresAnchor,
    (h.map _).dedup.length_eq, (h.map IdentityKey.resolverFamily).dedup.length_eq]

end

variable {decision : MapReviewedDecision}

theorem judge_perm (h : matched.Perm matched') {verdict : Verdict}
    (hok : judge context lib decision matched = .ok verdict) :
    judge context lib decision matched' = .ok verdict := by
  rw [judge] at hok ⊢
  split
  · rename_i hsame
    rw [if_pos hsame] at hok
    simp only [andThen_eq_ok_iff] at hok ⊢
    obtain ⟨objectType, htype, _, hrequired, hok⟩ := hok
    rw [reviewedDecisionRequiresAnchor_perm h] at hrequired
    exact ⟨objectType, validateReviewedSameObjectAllowed_perm h htype, (), hrequired, hok⟩
  · rename_i hsame
    rwa [if_neg hsame] at hok

theorem keysAt_append (indexes indexes' : List Nat) :
    keysAt keys (indexes ++ indexes') = keysAt keys indexes ++ keysAt keys indexes' := by
  rw [keysAt_eq, keysAt_eq, keysAt_eq, filterMap_append]

theorem reviewed_perm (h : keys.Perm keys') {reviewed : ReviewedDecision}
    (hr : Reviewed context lib keys decision reviewed) :
    ∃ reviewed', Reviewed context lib keys' decision reviewed' := by
  refine ⟨⟨_, _, reviewed.verdict⟩, resolvable_perm h hr.left, resolvable_perm h hr.right, rfl, rfl,
    judge_perm ?_ hr.verdict⟩
  simp only [keysAt_append, keysAt_matchedIndexes]
  exact (h.filter _).append (h.filter _)

theorem accepted_perm (h : keys.Perm keys')
    (hr : Forall₂ (Reviewed context lib keys) context.reviewedDecisions reviewed) :
    ∃ reviewed', Forall₂ (Reviewed context lib keys') context.reviewedDecisions reviewed' := by
  generalize context.reviewedDecisions = decisions at hr
  induction hr with
  | nil => exact ⟨[], .nil⟩
  | cons hd _ ih =>
    obtain ⟨found, hfound⟩ := reviewed_perm h hd
    obtain ⟨rest, hrest⟩ := ih
    exact ⟨found :: rest, .cons hfound hrest⟩

section

variable (h : List.Forall₂ (Reviewed context lib keys) context.reviewedDecisions reviewed)
include h

theorem mem_keysAt_class {k : Nat} {a b : IdentityKey} (ha : keys[k]? = some a) :
    b ∈ keysAt keys (componentOf (identityForest keys (sameObjectEdges reviewed)) keys.length k) ↔
      InClass context keys a b := by
  rw [mem_keysAt, ← exists_connected_iff ha]
  constructor
  · rintro ⟨j, hj, hb⟩
    exact ⟨j, ((mem_class h).mp hj).2, hb⟩
  · rintro ⟨j, hj, hb⟩
    exact ⟨j, (mem_class h).mpr ⟨(List.getElem?_eq_some_iff.mp hb).1, hj⟩, hb⟩

theorem validateDoNotMerge_iff {constraints : List (String × String)} :
    validateDoNotMerge constraints
        (components (identityForest keys (sameObjectEdges reviewed)) keys.length) keys = .ok () ↔
      ∀ a ∈ keys, ∀ constraint ∈ constraints,
        ¬ ((∃ b, InClass context keys a b ∧ constraint.1 ∈ b.aliases) ∧
          ∃ b, InClass context keys a b ∧ constraint.2 ∈ b.aliases) := by
  simp only [validateDoNotMerge, checkAll_eq_ok_iff, rejectIf_eq_ok_iff, mem_flatMap]
  constructor
  · intro hall a ha constraint hc
    obtain ⟨k, hk⟩ := mem_iff_getElem?.mp ha
    have hcheck := hall _ (mem_components.mpr ⟨k, (List.getElem?_eq_some_iff.mp hk).1, rfl⟩)
      constraint hc
    simpa only [mem_keysAt_class h hk] using hcheck
  · intro hall component hcomponent constraint hc
    obtain ⟨k, hk, rfl⟩ := mem_components.mp hcomponent
    have hcheck := hall _ (getElem_mem hk) constraint hc
    simpa only [mem_keysAt_class h (List.getElem?_eq_getElem hk)] using hcheck

theorem validateReviewedDoNotMerge_iff :
    validateReviewedDoNotMerge (reviewed.filterMap (·.doNotMerge))
        (identityForest keys (sameObjectEdges reviewed)) = .ok () ↔
      ∀ decision ∈ context.reviewedDecisions, decision.decision = "do_not_merge" →
        ∀ a ∈ keys, matchesReference context decision.left a = true →
          ∀ b, matchesReference context decision.right b = true → ¬ InClass context keys a b := by
  simp only [validateReviewedDoNotMerge, checkAll_eq_ok_iff, rejectIf_eq_ok_iff, mem_doNotMerge h]
  constructor
  · intro hall decision hd hkind a ha hma b hmb hab
    obtain ⟨i, hi⟩ := mem_iff_getElem?.mp ha
    obtain ⟨j, hij, hj⟩ := (exists_connected_iff hi).mpr hab
    exact hall _ ⟨decision, hd, hkind, rfl⟩ i (mem_matchedIndexes.mpr ⟨a, hi, hma⟩) j
      (mem_matchedIndexes.mpr ⟨b, hj, hmb⟩) ((joined_identityForest h).mpr hij)
  · rintro hall _ ⟨decision, hd, hkind, rfl⟩ i hi j hj hroot
    obtain ⟨a, ha, hma⟩ := mem_matchedIndexes.mp hi
    obtain ⟨b, hb, hmb⟩ := mem_matchedIndexes.mp hj
    have hij := (joined_identityForest h).mp hroot
    exact hall decision hd hkind a (mem_of_getElem? ha) hma b hmb
      ((exists_connected_iff ha).mp ⟨j, hij, hb⟩)

end

/-- Identities that differ at most in the row rule that asserts them. -/
def Twin (a b : IdentityKey) : Prop := a = { b with rowRuleId := a.rowRuleId }

/-- Two identities of one row and one rule are twins, and so are two anchors of one rank. -/
structure RowKeys (keys : List IdentityKey) : Prop where
  anchor : ∀ a ∈ keys, ∀ b ∈ keys, a.anchorSortKey = b.anchorSortKey → Twin a b
  row : ∀ a ∈ keys, ∀ b ∈ keys, a.sourceId = b.sourceId → a.rowIndex = b.rowIndex →
    a.identityRuleId = b.identityRuleId → Twin a b

theorem Twin.congr {β : Type} (h : Twin a b) (f : IdentityKey → β)
    (hf : ∀ rowRuleId, f { b with rowRuleId := rowRuleId } = f b) : f a = f b :=
  (congrArg f (show a = _ from h)).trans (hf a.rowRuleId)

theorem Twin.componentName (h : Twin a b) (found : Option ReviewedAnchor) (hasReviewedMerge : Bool) :
    componentName a found hasReviewedMerge = componentName b found hasReviewedMerge :=
  h.congr (IdentityPlanning.componentName · found hasReviewedMerge) fun _ => rfl

variable {c : IdentityKey}

theorem Twin.keyEdge (h : Twin a b) :
    (KeyEdge context a c ∨ KeyEdge context c a) ↔ (KeyEdge context b c ∨ KeyEdge context c b) := by
  have hgroup : a.mergeGroupKey = b.mergeGroupKey := h.congr IdentityKey.mergeGroupKey fun _ => rfl
  have hmatch : ∀ reference, matchesReference context reference a =
      matchesReference context reference b := fun reference =>
    h.congr (matchesReference context reference) fun _ => rfl
  simp only [KeyEdge, hgroup, hmatch]

theorem Twin.linked (h : Twin a b) (hb : b ∈ keys) (hac : Linked context keys a c) :
    Linked context keys b c := by
  obtain ⟨d, had, hdc⟩ := Relation.TransGen.head'_iff.mp hac
  have hbd : Step context keys b d := ⟨hb, had.2.1, h.keyEdge.mp had.2.2⟩
  exact Relation.TransGen.head' hbd hdc

theorem reviewedClass_iff (ha : keys[k]? = some a) :
    ReviewedClass context keys k decision ↔
      decision ∈ context.reviewedDecisions ∧ decision.decision = "same_object" ∧
        ∃ b, InClass context keys a b ∧ (matchesReference context decision.left b = true ∨
          matchesReference context decision.right b = true) := by
  rw [ReviewedClass]
  simp only [← exists_connected_iff ha]
  constructor
  · rintro ⟨hd, hsame, i, b, hi, hb, hm⟩
    exact ⟨hd, hsame, b, ⟨i, hi, hb⟩, hm⟩
  · rintro ⟨hd, hsame, b, ⟨i, hi, hb⟩, hm⟩
    exact ⟨hd, hsame, i, b, hi, hb, hm⟩

theorem LeastOf.le (ha : keys[k]? = some a) (h : LeastOf context keys k i b)
    (hc : InClass context keys a c) : b.anchorSortKey ≤ c.anchorSortKey := by
  obtain ⟨j, hj, hcj⟩ := (exists_connected_iff ha).mpr hc
  rcases Prod.Lex.toLex_le_toLex.mp (h.2.2 j c hj hcj) with hlt | ⟨heq, -⟩
  · exact hlt.le
  · exact heq.le

theorem name_perm (h : keys.Perm keys') (hrow : RowKeys keys) {reviewed' : List ReviewedDecision}
    (hr : Forall₂ (Reviewed context lib keys) context.reviewedDecisions reviewed)
    (hr' : Forall₂ (Reviewed context lib keys') context.reviewedDecisions reviewed') {k' : Nat}
    (ha : keys[k]? = some a) (ha' : keys'[k']? = some a) {name : ComponentName}
    (hname : nameComponent keys (sameObjectEdges reviewed)
      (componentOf (identityForest keys (sameObjectEdges reviewed)) keys.length k) = .ok name) :
    nameComponent keys' (sameObjectEdges reviewed')
      (componentOf (identityForest keys' (sameObjectEdges reviewed')) keys'.length k') = .ok name := by
  obtain ⟨i, b, found, hasReviewedMerge, hleast, hfound, hmerge, rfl⟩ :=
    (nameComponent_eq_ok_iff hr).mp hname
  have hclass : ∀ b, InClass context keys a b ↔ InClass context keys' a b :=
    fun b => inClass_congr fun c => h.mem_iff
  have hreviewed : ∀ decision, ReviewedClass context keys k decision ↔
      ReviewedClass context keys' k' decision := by
    intro decision
    rw [reviewedClass_iff ha, reviewedClass_iff ha']
    simp only [hclass]
  obtain ⟨i', b', hleast'⟩ := exists_least hr' (List.getElem?_eq_some_iff.mp ha').1
  have hb := (exists_connected_iff ha).mp ⟨i, hleast.1, hleast.2.1⟩
  have hb' := (exists_connected_iff ha').mp ⟨i', hleast'.1, hleast'.2.1⟩
  have htwin : Twin b b' := by
    refine hrow.anchor b hb.1 b' (h.mem_iff.mpr hb'.1) (le_antisymm ?_ ?_)
    · exact LeastOf.le ha hleast ((hclass b').mpr hb')
    · exact LeastOf.le ha' hleast' ((hclass b).mp hb)
  refine (nameComponent_eq_ok_iff hr').mpr ⟨i', b', found, hasReviewedMerge, hleast', ?_, ?_,
    htwin.componentName found hasReviewedMerge⟩
  · intro anchor
    rw [← hfound]
    simp only [hreviewed]
  · rw [hmerge]
    simp only [hreviewed]

section

/-- Names for the identities of a list: each is named like its component. -/
def Names (keys : List IdentityKey) (reviewed : List ReviewedDecision)
    (names : IdentityKey → ComponentName) : Prop :=
  ∀ k a, keys[k]? = some a → nameComponent keys (sameObjectEdges reviewed)
    (componentOf (identityForest keys (sameObjectEdges reviewed)) keys.length k) = .ok (names a)

theorem exists_names (hrow : RowKeys keys) {named : List (List (Nat × PlannedIdentity Goid))}
    (h : Planned goids context lib keys reviewed named) : ∃ names, Names keys reviewed names := by
  have hname : ∀ a, ∃ name, ∀ k, keys[k]? = some a → nameComponent keys (sameObjectEdges reviewed)
      (componentOf (identityForest keys (sameObjectEdges reviewed)) keys.length k) = .ok name := by
    intro a
    by_cases ha : a ∈ keys
    · obtain ⟨k, hk⟩ := mem_iff_getElem?.mp ha
      obtain ⟨_, -, name, hname, -⟩ := forall₂_mem_left h.named
        (mem_components.mpr ⟨k, (List.getElem?_eq_some_iff.mp hk).1, rfl⟩)
      exact ⟨name, fun k' hk' => name_perm (.refl keys) hrow h.accepted h.accepted hk hk' hname⟩
    · refine ⟨⟨"", 0, "", [], "", none⟩, fun k hk => absurd (mem_of_getElem? hk) ha⟩
  exact ⟨fun a => (hname a).choose, fun k a hk => (hname a).choose_spec k hk⟩

variable {names : IdentityKey → ComponentName}

theorem names_perm (h : keys.Perm keys') (hrow : RowKeys keys) {reviewed' : List ReviewedDecision}
    (hr : Forall₂ (Reviewed context lib keys) context.reviewedDecisions reviewed)
    (hr' : Forall₂ (Reviewed context lib keys') context.reviewedDecisions reviewed')
    (hnames : Names keys reviewed names) : Names keys' reviewed' names := by
  intro k' a ha'
  obtain ⟨k, ha⟩ := mem_iff_getElem?.mp (h.mem_iff.mpr (mem_of_getElem? ha'))
  exact name_perm h hrow hr hr' ha ha' (hnames k a ha)

theorem map_placed {β : Type} (f : IdentityKey → β) (indexes : List Nat) :
    (placed keys indexes).map (fun member => f member.2) = (keysAt keys indexes).map f := by
  rw [keysAt, map_map]
  rfl

theorem planKeys_of_names (goids : GoidLibrary Goid)
    (hr : Forall₂ (Reviewed context lib keys) context.reviewedDecisions reviewed)
    (hapart : validateDoNotMerge context.doNotMerge
      (components (identityForest keys (sameObjectEdges reviewed)) keys.length) keys = .ok ())
    (hreviewed : validateReviewedDoNotMerge (reviewed.filterMap (·.doNotMerge))
      (identityForest keys (sameObjectEdges reviewed)) = .ok ())
    (hnames : Names keys reviewed names) :
    ∃ planned, planKeys goids context lib keys = .ok planned ∧
      planned.map (·.2) = (keysAt keys (sortByKey
        (identityForest keys (sameObjectEdges reviewed)).root (List.range keys.length))).map
          fun a => plannedIdentity goids context (names a) a := by
  have hnamed : Forall₂ (fun component identities => ∃ name,
      nameComponent keys (sameObjectEdges reviewed) component.2 = .ok name ∧
      (placed keys component.2).map (fun member =>
        (member.1, plannedIdentity goids context name member.2)) = identities)
      (components (identityForest keys (sameObjectEdges reviewed)) keys.length)
      ((components (identityForest keys (sameObjectEdges reviewed)) keys.length).map
        fun component => (placed keys component.2).map fun member =>
          (member.1, plannedIdentity goids context (names member.2) member.2)) := by
    rw [forall₂_map_right_iff, forall₂_same]
    intro component hcomponent
    obtain ⟨k, hk, rfl⟩ := mem_components.mp hcomponent
    refine ⟨_, hnames k _ (List.getElem?_eq_getElem hk), map_congr_left fun member hm => ?_⟩
    obtain ⟨hj, ha⟩ := mem_placed.mp hm
    have hroot : componentOf (identityForest keys (sameObjectEdges reviewed)) keys.length k =
        componentOf (identityForest keys (sameObjectEdges reviewed)) keys.length member.1 :=
      congrArg (fun r => under _ r (List.range keys.length)) (mem_componentOf.mp hj).2
    have hname := hnames k _ (List.getElem?_eq_getElem hk)
    rw [hroot, hnames member.1 member.2 ha] at hname
    rw [ok.inj hname]
  refine ⟨_, planKeys_eq_ok_iff.mpr ⟨reviewed, _, ⟨hr, hapart, hreviewed, hnamed⟩, rfl⟩, ?_⟩
  rw [← flatMap_grouped, ← flatMap_def, map_flatMap]
  change (components _ _).flatMap _ = (keysAt keys ((components _ _).flatMap (·.2))).map _
  rw [keysAt_eq, filterMap_flatMap, map_flatMap]
  apply flatMap_congr
  intro component _
  rw [map_map, ← keysAt_eq, ← map_placed]
  rfl

end

def ofRow (sourceId : String) (rowIndex : Nat) (identityRuleId : String) (a : IdentityKey) : Bool :=
  a.sourceId == sourceId && a.rowIndex == rowIndex && a.identityRuleId == identityRuleId

theorem ofRow_iff {sourceId identityRuleId : String} {rowIndex : Nat} :
    ofRow sourceId rowIndex identityRuleId a = true ↔
      a.sourceId = sourceId ∧ a.rowIndex = rowIndex ∧ a.identityRuleId = identityRuleId := by
  simp [ofRow, and_assoc]

section

theorem root_le_of_twin
    (hr : Forall₂ (Reviewed context lib keys) context.reviewedDecisions reviewed)
    {i j : Nat} {a b : IdentityKey} (hij : i ≤ j) (ha : keys[i]? = some a) (hb : keys[j]? = some b)
    (htwin : Twin b a) :
    (identityForest keys (sameObjectEdges reviewed)).root i ≤
      (identityForest keys (sameObjectEdges reviewed)).root j := by
  by_cases hconnected : Connected context keys i j
  · exact ((joined_identityForest hr).mpr hconnected).le
  · have hroot : (identityForest keys (sameObjectEdges reviewed)).root j = j := by
      by_contra hne
      have hle := UnionFind.root_le (identityForest keys (sameObjectEdges reviewed)) j
      have hlt := Nat.lt_of_le_of_lt hle (List.getElem?_eq_some_iff.mp hb).1
      have hc := List.getElem?_eq_getElem hlt
      have hjr : Connected context keys j _ :=
        (joined_identityForest hr).mp (UnionFind.root_root _ j).symm
      rcases (connected_iff hb hc).mp hjr with heq | hlinked
      · exact hne heq.symm
      · have hlinked := htwin.linked (mem_of_getElem? ha) hlinked
        exact hconnected (.trans _ _ _ (connected_of_linked ha hc hlinked) (.symm _ _ hjr))
    rw [hroot]
    exact Nat.le_trans (UnionFind.root_le _ i) hij

theorem filter_ofRow_sorted (hrow : RowKeys keys)
    (hr : Forall₂ (Reviewed context lib keys) context.reviewedDecisions reviewed)
    (sourceId : String) (rowIndex : Nat) (identityRuleId : String) :
    (keysAt keys (sortByKey (identityForest keys (sameObjectEdges reviewed)).root
      (List.range keys.length))).filter (ofRow sourceId rowIndex identityRuleId) =
        keys.filter (ofRow sourceId rowIndex identityRuleId) := by
  rw [← keysAt_filter, ← sortByKey_filter, sortByKey_of_sorted, keysAt_filter, keysAt_range]
  have hlt := (pairwise_lt_range (n := keys.length)).filter
    fun i => (keys[i]?).any (ofRow sourceId rowIndex identityRuleId)
  refine hlt.imp_of_mem fun {i j} hi hj hij => ?_
  obtain ⟨a, ha, hoa⟩ := (Option.any_eq_true _ _).mp (mem_filter.mp hi).2
  obtain ⟨b, hb, hob⟩ := (Option.any_eq_true _ _).mp (mem_filter.mp hj).2
  obtain ⟨hsa, hna, hra⟩ := ofRow_iff.mp hoa
  obtain ⟨hsb, hnb, hrb⟩ := ofRow_iff.mp hob
  exact root_le_of_twin hr hij.le ha hb (hrow.row b (mem_of_getElem? hb) a
    (mem_of_getElem? ha) (hsb.trans hsa.symm) (hnb.trans hna.symm) (hrb.trans hra.symm))

variable [LinearOrder Goid]

theorem under_planned (names : IdentityKey → ComponentName) (sourceId : String) (rowIndex : Nat)
    (identityRuleId : String) (goid : Goid) (members : List IdentityKey) :
    under (fun p : PlannedIdentity Goid => p.sortKey)
        (toLex (sourceId, toLex (rowIndex, toLex (identityRuleId, goid))))
        (members.map fun a => plannedIdentity goids context (names a) a) =
      ((members.filter (ofRow sourceId rowIndex identityRuleId)).filter fun a =>
        (names a).goid goids context = goid).map
          fun a => plannedIdentity goids context (names a) a := by
  rw [under, filter_map, filter_filter]
  congr 1
  apply filter_congr
  intro a _
  rw [Function.comp, Bool.eq_iff_iff, Bool.and_eq_true, decide_eq_true_eq, decide_eq_true_eq,
    ofRow_iff]
  simp only [PlannedIdentity.sortKey, plannedIdentity, EmbeddingLike.apply_eq_iff_eq, Prod.mk.injEq]
  tauto

theorem perm_of_rows (h : ∀ sourceId rowIndex identityRuleId,
      keys.filter (ofRow sourceId rowIndex identityRuleId) =
        keys'.filter (ofRow sourceId rowIndex identityRuleId)) : keys.Perm keys' := by
  apply perm_iff_count.mpr
  intro a
  have ha : ofRow a.sourceId a.rowIndex a.identityRuleId a = true := ofRow_iff.mpr ⟨rfl, rfl, rfl⟩
  rw [← count_filter ha, h, count_filter ha]

theorem planKeys_congr (hrow : RowKeys keys) (hrows : ∀ sourceId rowIndex identityRuleId,
      keys.filter (ofRow sourceId rowIndex identityRuleId) =
        keys'.filter (ofRow sourceId rowIndex identityRuleId))
    {planned : List (Nat × PlannedIdentity Goid)}
    (h : planKeys goids context lib keys = .ok planned) :
    ∃ planned', planKeys goids context lib keys' = .ok planned' ∧
      sortByKey (·.sortKey) (planned'.map (·.2)) = sortByKey (·.sortKey) (planned.map (·.2)) := by
  have hperm := perm_of_rows hrows
  have hmem : ∀ a, a ∈ keys ↔ a ∈ keys' := fun a => hperm.mem_iff
  have hrow' : RowKeys keys' :=
    ⟨fun a ha b hb => hrow.anchor a ((hmem a).mpr ha) b ((hmem b).mpr hb),
      fun a ha b hb => hrow.row a ((hmem a).mpr ha) b ((hmem b).mpr hb)⟩
  obtain ⟨reviewed, named, hrun, -⟩ := planKeys_eq_ok_iff.mp h
  obtain ⟨reviewed', hr'⟩ := accepted_perm hperm hrun.accepted
  obtain ⟨names, hnames⟩ := exists_names hrow hrun
  have hnames' := names_perm hperm hrow hrun.accepted hr' hnames
  have hclass : ∀ a b, InClass context keys a b ↔ InClass context keys' a b :=
    fun a b => inClass_congr hmem
  have hapart' := (validateDoNotMerge_iff hr').mpr (by
    simpa only [hmem, hclass] using (validateDoNotMerge_iff hrun.accepted).mp hrun.apart)
  have hreviewed' := (validateReviewedDoNotMerge_iff hr').mpr (by
    simpa only [hmem, hclass] using (validateReviewedDoNotMerge_iff hrun.accepted).mp hrun.reviewedApart)
  obtain ⟨found, hfound, hmap⟩ := planKeys_of_names goids hrun.accepted hrun.apart
    hrun.reviewedApart hnames
  obtain rfl := ok.inj (h.symm.trans hfound)
  obtain ⟨planned', hplanned', hmap'⟩ := planKeys_of_names goids hr' hapart' hreviewed' hnames'
  refine ⟨planned', hplanned', sortByKey_eq_of_under fun sortKey => ?_⟩
  rw [hmap, hmap']
  change under (fun p : PlannedIdentity Goid => p.sortKey) (toLex (sortKey.1,
    toLex (sortKey.2.1, toLex (sortKey.2.2.1, sortKey.2.2.2)))) _ =
      under (fun p : PlannedIdentity Goid => p.sortKey) (toLex (sortKey.1,
        toLex (sortKey.2.1, toLex (sortKey.2.2.1, sortKey.2.2.2)))) _
  rw [under_planned, under_planned, filter_ofRow_sorted hrow' hr', filter_ofRow_sorted hrow hrun.accepted,
    hrows]

end

end CoveFormat.PlanOrder
