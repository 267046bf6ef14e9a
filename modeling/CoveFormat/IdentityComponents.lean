import CoveFormat.IdentityPlanning

namespace CoveFormat.IdentityComponents

open ByteCodes Except ExceptRules Grouping IdentityKeys IdentityPlanning List

variable {context : MappingContext} {lib : KeyLibrary} {keys : List IdentityKey}

theorem okOr_eq_ok_iff {α : Type} {found : Option α} {message : String} {a : α} :
    okOr found message = .ok a ↔ found = some a := by
  cases found <;> simp [okOr]

variable {reference : MapTypedIdentityReference} {i : Nat}

theorem mem_matchedIndexes :
    i ∈ matchedIndexes context reference keys ↔
      ∃ a, keys[i]? = some a ∧ matchesReference context reference a = true := by
  rw [matchedIndexes, mem_filter, mem_range]
  constructor
  · rintro ⟨hi, hm⟩
    rw [List.getElem?_eq_getElem hi] at hm ⊢
    exact ⟨_, rfl, hm⟩
  · rintro ⟨a, ha, hm⟩
    refine ⟨(List.getElem?_eq_some_iff.mp ha).1, ?_⟩
    rw [ha]
    exact hm

/-- The conditions under which a reference is resolved. -/
structure Resolvable (context : MappingContext) (reference : MapTypedIdentityReference)
    (keys : List IdentityKey) : Prop where
  supported : (∃ key ∈ keys, key.objectType = reference.objectType) →
    reference.kind ∈ referenceKinds
  matched : matchedIndexes context reference keys ≠ []
  unambiguous : reference.kind = "row_digest" →
    (matchedIndexes context reference keys).length ≤ 1

variable {indexes : List Nat}

theorem resolveTypedReference_eq_ok_iff :
    resolveTypedReference context reference keys = .ok indexes ↔
      Resolvable context reference keys ∧ indexes = matchedIndexes context reference keys := by
  simp only [resolveTypedReference, andThen_eq_ok_iff, rejectIf_eq_ok_iff]
  constructor
  · rintro ⟨_, hkind, _, hmatched, _, hdigest, h⟩
    refine ⟨⟨fun hkey => ?_, hmatched, fun hd => ?_⟩, (ok.inj h).symm⟩
    · by_contra hnot
      exact hkind ⟨hnot, hkey⟩
    · exact Nat.le_of_not_lt fun hlt => hdigest ⟨hd, hlt⟩
  · rintro ⟨hr, rfl⟩
    exact ⟨(), fun h => h.1 (hr.supported h.2), (), hr.matched, (),
      fun h => absurd h.2 (Nat.not_lt_of_le (hr.unambiguous h.1)), rfl⟩

/-- An automatic merge of two identities, or a reviewed decision that they are the same. -/
def KeyEdge (context : MappingContext) (a b : IdentityKey) : Prop :=
  (∃ group, a.mergeGroupKey = some group ∧ b.mergeGroupKey = some group) ∨
    ∃ decision ∈ context.reviewedDecisions, decision.decision = "same_object" ∧
      matchesReference context decision.left a = true ∧
        matchesReference context decision.right b = true

def IndexEdge (context : MappingContext) (keys : List IdentityKey) (i j : Nat) : Prop :=
  ∃ a b, keys[i]? = some a ∧ keys[j]? = some b ∧ KeyEdge context a b

/-- Two identities, given by their places, that a chain of merges and decisions connects. -/
def Connected (context : MappingContext) (keys : List IdentityKey) (i j : Nat) : Prop :=
  Relation.EqvGen (IndexEdge context keys) i j

variable {r : Nat → Nat → Prop} {group : List Nat} {j : Nat}

theorem groupEdges_connect (h : ∀ edge ∈ groupEdges group, r edge.1 edge.2) (hi : i ∈ group)
    (hj : j ∈ group) : Relation.EqvGen r i j := by
  cases group with
  | nil => cases hi
  | cons first rest =>
    have hfirst : ∀ k ∈ first :: rest, Relation.EqvGen r first k := by
      intro k hk
      rcases mem_cons.mp hk with rfl | hk
      · exact .refl k
      · exact .rel _ _ (h (first, k) (mem_map_of_mem hk))
    exact .trans _ _ _ (.symm _ _ (hfirst i hi)) (hfirst j hj)

variable {edge : Nat × Nat}

theorem mem_groupEdges (h : edge ∈ groupEdges group) : edge.1 ∈ group ∧ edge.2 ∈ group := by
  cases group with
  | nil => cases h
  | cons first rest =>
    obtain ⟨index, hindex, rfl⟩ := mem_map.mp h
    exact ⟨mem_cons_self, mem_cons_of_mem _ hindex⟩

variable {g : Bytes}

theorem mem_mergeGroup :
    i ∈ (under (·.1) g (keys.zipIdx.filterMap fun (key, index) =>
      key.mergeGroupKey.map (·, index))).map (·.2) ↔
      ∃ a, keys[i]? = some a ∧ a.mergeGroupKey = some g := by
  simp only [mem_map, mem_under, mem_filterMap, Prod.exists, mem_zipIdx_iff_getElem?,
    Option.map_eq_some_iff]
  constructor
  · rintro ⟨_, index, ⟨⟨a, _, ha, _, hg, hpair⟩, rfl⟩, rfl⟩
    cases hpair
    exact ⟨a, ha, hg⟩
  · rintro ⟨a, ha, hg⟩
    exact ⟨g, i, ⟨⟨a, i, ha, g, hg, rfl⟩, rfl⟩, rfl⟩

theorem mergeEdge_indexEdge (h : edge ∈ mergeEdges keys) :
    IndexEdge context keys edge.1 edge.2 := by
  obtain ⟨group, hgroup, hedge⟩ := mem_flatMap.mp h
  obtain ⟨g, -, rfl⟩ := mem_map.mp hgroup
  obtain ⟨h1, h2⟩ := mem_groupEdges hedge
  obtain ⟨a, ha, hga⟩ := mem_mergeGroup.mp h1
  obtain ⟨b, hb, hgb⟩ := mem_mergeGroup.mp h2
  exact ⟨a, b, ha, hb, .inl ⟨g, hga, hgb⟩⟩

variable {a : IdentityKey}

theorem connected_of_group (h : ∀ edge ∈ mergeEdges keys, r edge.1 edge.2) {b : IdentityKey}
    (ha : keys[i]? = some a) (hb : keys[j]? = some b) (hga : a.mergeGroupKey = some g)
    (hgb : b.mergeGroupKey = some g) : Relation.EqvGen r i j := by
  have hmem : g ∈ keysOf (·.1) (keys.zipIdx.filterMap fun (key, index) =>
      key.mergeGroupKey.map (·, index)) := by
    refine mem_keysOf.mpr ⟨(g, i), mem_filterMap.mpr ⟨(a, i), ?_, ?_⟩, rfl⟩
    · exact mem_zipIdx_iff_getElem?.mpr ha
    · simp only [hga, Option.map_some]
  refine groupEdges_connect (fun edge hedge => h edge ?_) (mem_mergeGroup.mpr ⟨a, ha, hga⟩)
    (mem_mergeGroup.mpr ⟨b, hb, hgb⟩)
  exact mem_flatMap.mpr ⟨_, mem_map_of_mem hmem, hedge⟩

def decisionAnchor (context : MappingContext) (lib : KeyLibrary) (decision : MapReviewedDecision) :
    Option ReviewedAnchor :=
  decision.canonicalAnchor.bind fun anchor => (reviewedAnchor context lib anchor).toOption

variable {decision : MapReviewedDecision}

theorem judge_ok {matched : List IdentityKey} {verdict : Verdict}
    (h : judge context lib decision matched = .ok verdict) :
    (decision.decision = "same_object" ∧
        verdict = .sameObject (decisionAnchor context lib decision)) ∨
      (decision.decision = "do_not_merge" ∧ verdict = .doNotMerge) := by
  rw [judge] at h
  split at h
  · rename_i hsame
    left
    refine ⟨hsame, ?_⟩
    simp only [andThen_eq_ok_iff, rejectIf_eq_ok_iff] at h
    obtain ⟨objectType, -, _, -, h⟩ := h
    split at h
    · rename_i hnone
      rw [decisionAnchor, hnone]
      exact (ok.inj h).symm
    · rename_i anchor hsome
      simp only [andThen_eq_ok_iff] at h
      obtain ⟨_, -, reviewed, hreviewed, h⟩ := h
      rw [decisionAnchor, hsome, Option.bind_some, hreviewed]
      exact (ok.inj h).symm
  · split at h
    · rename_i hmerge
      exact .inr ⟨hmerge, (ok.inj h).symm⟩
    · cases h

/-- What an accepted decision was turned into. -/
structure Reviewed (context : MappingContext) (lib : KeyLibrary) (keys : List IdentityKey)
    (decision : MapReviewedDecision) (reviewed : ReviewedDecision) : Prop where
  left : Resolvable context decision.left keys
  right : Resolvable context decision.right keys
  left_eq : reviewed.left = matchedIndexes context decision.left keys
  right_eq : reviewed.right = matchedIndexes context decision.right keys
  verdict : judge context lib decision (keysAt keys
    (matchedIndexes context decision.left keys ++ matchedIndexes context decision.right keys)) =
      .ok reviewed.verdict

theorem reviewDecision_eq_ok_iff {reviewed : ReviewedDecision} :
    reviewDecision context lib keys decision = .ok reviewed ↔
      Reviewed context lib keys decision reviewed := by
  simp only [reviewDecision, andThen_eq_ok_iff, resolveTypedReference_eq_ok_iff]
  constructor
  · rintro ⟨_, ⟨hl, rfl⟩, _, ⟨hr, rfl⟩, verdict, hv, h⟩
    cases h
    exact ⟨hl, hr, rfl, rfl, hv⟩
  · intro h
    refine ⟨_, ⟨h.left, rfl⟩, _, ⟨h.right, rfl⟩, _, h.verdict, ?_⟩
    obtain ⟨left, right, verdict⟩ := reviewed
    obtain rfl := h.left_eq
    obtain rfl := h.right_eq
    rfl

variable {reviewed : List ReviewedDecision}

section

variable (h : List.Forall₂ (Reviewed context lib keys) context.reviewedDecisions reviewed)
include h

theorem mem_sameObject {edge : ReviewedSameObjectEdge} :
    edge ∈ sameObjectEdges reviewed ↔
      ∃ decision ∈ context.reviewedDecisions, decision.decision = "same_object" ∧
        edge.left ∈ matchedIndexes context decision.left keys ∧
        edge.right ∈ matchedIndexes context decision.right keys ∧
        edge.canonicalAnchor = decisionAnchor context lib decision := by
  rw [sameObjectEdges]
  generalize context.reviewedDecisions = decisions at h
  induction h with
  | nil => simp
  | @cons decision found decisions reviewed hd _ ih =>
    simp only [flatMap_cons, mem_append, ih, mem_cons, exists_eq_or_imp]
    apply or_congr_left
    rw [ReviewedDecision.sameObject]
    rcases judge_ok hd.verdict with ⟨hsame, hv⟩ | ⟨hmerge, hv⟩
    · rw [hv, hd.left_eq, hd.right_eq]
      simp only [mem_flatMap, mem_map]
      constructor
      · rintro ⟨l, hl, r, hr, rfl⟩
        exact ⟨hsame, hl, hr, rfl⟩
      · rintro ⟨-, hl, hr, ha⟩
        exact ⟨edge.left, hl, edge.right, hr, by rw [← ha]⟩
    · rw [hv]
      simp [hmerge]

theorem mem_doNotMerge {constraint : ReviewedDoNotMergeConstraint} :
    constraint ∈ reviewed.filterMap (·.doNotMerge) ↔
      ∃ decision ∈ context.reviewedDecisions, decision.decision = "do_not_merge" ∧
        constraint = ⟨matchedIndexes context decision.left keys,
          matchedIndexes context decision.right keys⟩ := by
  generalize context.reviewedDecisions = decisions at h
  induction h with
  | nil => simp
  | @cons decision found decisions reviewed hd _ ih =>
    simp only [mem_cons, exists_eq_or_imp, ← ih]
    rcases judge_ok hd.verdict with ⟨hsame, hv⟩ | ⟨hmerge, hv⟩
    · simp [ReviewedDecision.doNotMerge, hv, hsame]
    · simp [ReviewedDecision.doNotMerge, hv, hmerge, hd.left_eq, hd.right_eq]

end

theorem matchedIndexes_lt (h : i ∈ matchedIndexes context reference keys) : i < keys.length :=
  mem_range.mp (mem_of_mem_filter h)

theorem IndexEdge.lt (h : IndexEdge context keys i j) : i < keys.length ∧ j < keys.length := by
  obtain ⟨a, b, ha, hb, -⟩ := h
  exact ⟨(List.getElem?_eq_some_iff.mp ha).1, (List.getElem?_eq_some_iff.mp hb).1⟩

theorem unionAll_append (uf : UnionFind) (edges edges' : List (Nat × Nat)) :
    (uf.unionAll edges).unionAll edges' = uf.unionAll (edges ++ edges') :=
  List.foldl_append.symm

theorem joined_identityForest
    (h : Forall₂ (Reviewed context lib keys) context.reviewedDecisions reviewed) :
    (identityForest keys (sameObjectEdges reviewed)).Joined i j ↔
      Connected context keys i j := by
  have hedges : ∀ edge ∈ mergeEdges keys ++
      (sameObjectEdges reviewed).map (fun edge => (edge.left, edge.right)),
      IndexEdge context keys edge.1 edge.2 := by
    intro edge hedge
    rcases mem_append.mp hedge with hedge | hedge
    · exact mergeEdge_indexEdge hedge
    · obtain ⟨found, hfound, rfl⟩ := mem_map.mp hedge
      obtain ⟨decision, hd, hsame, hl, hr, -⟩ := (mem_sameObject h).mp hfound
      obtain ⟨a, ha, hma⟩ := mem_matchedIndexes.mp hl
      obtain ⟨b, hb, hmb⟩ := mem_matchedIndexes.mp hr
      exact ⟨a, b, ha, hb, .inr ⟨decision, hd, hsame, hma, hmb⟩⟩
  rw [identityForest, unionAll_append,
    UnionFind.joined_unionAll_new fun edge hedge => (hedges edge hedge).lt]
  constructor
  · apply UnionFind.eqvGen_le_of
    intro a b hab
    exact .rel a b (hedges (a, b) hab)
  · apply UnionFind.eqvGen_le_of
    rintro i j ⟨a, b, ha, hb, ⟨g, hga, hgb⟩ | ⟨decision, hd, hsame, hl, hr⟩⟩
    · exact connected_of_group (fun edge hedge => mem_append_left _ hedge) ha hb hga hgb
    · apply Relation.EqvGen.rel
      refine mem_append_right _ (mem_map.mpr
        ⟨⟨i, j, decisionAnchor context lib decision⟩, ?_, rfl⟩)
      exact (mem_sameObject h).mpr ⟨decision, hd, hsame, mem_matchedIndexes.mpr ⟨a, ha, hl⟩,
        mem_matchedIndexes.mpr ⟨b, hb, hr⟩, rfl⟩

theorem mem_placed : (i, a) ∈ placed keys indexes ↔ i ∈ indexes ∧ keys[i]? = some a := by
  simp only [placed, mem_filterMap, Option.map_eq_some_iff, Prod.mk.injEq]
  constructor
  · rintro ⟨j, hj, b, hb, rfl, rfl⟩
    exact ⟨hj, hb⟩
  · rintro ⟨hi, ha⟩
    exact ⟨i, hi, a, ha, rfl, rfl⟩

theorem mem_keysAt : a ∈ keysAt keys indexes ↔ ∃ i ∈ indexes, keys[i]? = some a := by
  simp only [keysAt, mem_map, Prod.exists, exists_eq_right, mem_placed]

def componentOf (forest : UnionFind) (count i : Nat) : List Nat :=
  under forest.root (forest.root i) (range count)

variable {forest : UnionFind} {count : Nat}

theorem mem_components {component : Nat × List Nat} :
    component ∈ components forest count ↔
      ∃ i < count, component = (forest.root i, componentOf forest count i) := by
  simp only [components, grouped, mem_map, mem_keysOf, mem_range]
  constructor
  · rintro ⟨_, ⟨i, hi, rfl⟩, rfl⟩
    exact ⟨i, hi, rfl⟩
  · rintro ⟨i, hi, rfl⟩
    exact ⟨_, ⟨i, hi, rfl⟩, rfl⟩

theorem mem_componentOf : j ∈ componentOf forest count i ↔ j < count ∧ forest.Joined i j := by
  rw [componentOf, mem_under, mem_range]
  exact and_congr_right fun _ => eq_comm

/-- What a successful run of the planner has established. -/
structure Planned {Goid : Type} (goids : GoidLibrary Goid) (context : MappingContext)
    (lib : KeyLibrary) (keys : List IdentityKey) (reviewed : List ReviewedDecision)
    (named : List (List (Nat × PlannedIdentity Goid))) : Prop where
  accepted : Forall₂ (Reviewed context lib keys) context.reviewedDecisions reviewed
  apart : validateDoNotMerge context.doNotMerge
    (components (identityForest keys (sameObjectEdges reviewed)) keys.length) keys = .ok ()
  reviewedApart : validateReviewedDoNotMerge (reviewed.filterMap (·.doNotMerge))
    (identityForest keys (sameObjectEdges reviewed)) = .ok ()
  named : Forall₂ (fun component identities => ∃ name,
      nameComponent keys (sameObjectEdges reviewed) component.2 = .ok name ∧
      (placed keys component.2).map (fun member =>
        (member.1, plannedIdentity goids context name member.2)) = identities)
    (components (identityForest keys (sameObjectEdges reviewed)) keys.length) named

variable {Goid : Type} {goids : GoidLibrary Goid}

theorem planKeys_eq_ok_iff {planned : List (Nat × PlannedIdentity Goid)} :
    planKeys goids context lib keys = .ok planned ↔
      ∃ reviewed named, Planned goids context lib keys reviewed named ∧ named.flatten = planned := by
  simp only [planKeys, andThen_eq_ok_iff, mapM_eq_ok_iff, reviewDecision_eq_ok_iff, ok.injEq]
  constructor
  · rintro ⟨reviewed, hr, _, hd, _, hrd, named, hn, rfl⟩
    exact ⟨reviewed, named, ⟨hr, hd, hrd, hn⟩, rfl⟩
  · rintro ⟨reviewed, named, h, rfl⟩
    exact ⟨reviewed, h.accepted, (), h.apart, (), h.reviewedApart, named, h.named, rfl⟩

theorem mem_planned {named : List (List (Nat × PlannedIdentity Goid))}
    (h : Planned goids context lib keys reviewed named) {p : PlannedIdentity Goid} :
    (i, p) ∈ named.flatten ↔ ∃ a name, keys[i]? = some a ∧
      nameComponent keys (sameObjectEdges reviewed)
        (componentOf (identityForest keys (sameObjectEdges reviewed)) keys.length i) =
          .ok name ∧ p = plannedIdentity goids context name a := by
  rw [mem_flatten]
  constructor
  · rintro ⟨identities, hidentities, hp⟩
    obtain ⟨component, hcomponent, name, hname, rfl⟩ :=
      forall₂_mem_left h.named.flip hidentities
    obtain ⟨⟨j, a⟩, hj, heq⟩ := mem_map.mp hp
    obtain ⟨rfl, rfl⟩ := Prod.mk.inj heq
    obtain ⟨k, hk, rfl⟩ := mem_components.mp hcomponent
    obtain ⟨hj, ha⟩ := mem_placed.mp hj
    have hroot : componentOf _ keys.length k = componentOf _ keys.length j :=
      congrArg (fun r => under _ r (List.range keys.length)) (mem_componentOf.mp hj).2
    rw [hroot] at hname
    exact ⟨a, name, ha, hname, rfl⟩
  · rintro ⟨a, name, ha, hname, rfl⟩
    have hi := (List.getElem?_eq_some_iff.mp ha).1
    obtain ⟨identities, hidentities, name', hname', rfl⟩ :=
      forall₂_mem_left h.named (mem_components.mpr ⟨i, hi, rfl⟩)
    rw [← ok.inj (hname.symm.trans hname')] at hidentities
    exact ⟨_, hidentities, mem_map.mpr
      ⟨(i, a), mem_placed.mpr ⟨mem_componentOf.mpr ⟨hi, rfl⟩, ha⟩, rfl⟩⟩

end CoveFormat.IdentityComponents
