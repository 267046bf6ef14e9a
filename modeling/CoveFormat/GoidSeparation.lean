import CoveFormat.IdentityComponents

namespace CoveFormat.GoidSeparation

open ByteCodes ExceptRules SortedKeys IdentityKeys IdentityPlanning IdentityComponents List

variable {context : MappingContext} {lib : KeyLibrary} {keys : List IdentityKey}

/-- The first of the least identities in the class of the identity at `k`. -/
def LeastOf (context : MappingContext) (keys : List IdentityKey) (k i : Nat) (a : IdentityKey) :
    Prop :=
  Connected context keys k i ∧ keys[i]? = some a ∧
    ∀ j b, Connected context keys k j → keys[j]? = some b →
      toLex (a.anchorSortKey, i) ≤ toLex (b.anchorSortKey, j)

/-- A same-object decision that matches an identity in the class of the one at `k`. -/
def ReviewedClass (context : MappingContext) (keys : List IdentityKey) (k : Nat)
    (decision : MapReviewedDecision) : Prop :=
  decision ∈ context.reviewedDecisions ∧ decision.decision = "same_object" ∧
    ∃ i a, Connected context keys k i ∧ keys[i]? = some a ∧
      (matchesReference context decision.left a = true ∨
        matchesReference context decision.right a = true)

/-- The parts of a global object id that depend on the identity. -/
structure GoidParts where
  objectTypeId : Bytes
  identityRuleId : String
  joinKeyTuple : Bytes
  sourceScope : String
  deriving DecidableEq

/-- What identifies the class of the identity at `k`: its least identity with its source
scope while no review has touched the class, its least identity without the scope or the
reviewed anchor afterwards. -/
inductive Identifies (context : MappingContext) (lib : KeyLibrary) (keys : List IdentityKey)
    (k : Nat) : GoidParts → Prop
  | automatic {i : Nat} {a : IdentityKey} (least : LeastOf context keys k i a)
      (unreviewed : ∀ decision, ¬ ReviewedClass context keys k decision) :
      Identifies context lib keys k ⟨leBytes 4 a.objectTypeId, a.identityRuleId, a.joinKeyTuple,
        a.goidSourceScope.getD ""⟩
  | merged {i : Nat} {a : IdentityKey} {decision : MapReviewedDecision}
      (least : LeastOf context keys k i a) (reviewed : ReviewedClass context keys k decision)
      (unanchored : ∀ decision, ReviewedClass context keys k decision →
        decisionAnchor context lib decision = none) :
      Identifies context lib keys k ⟨leBytes 4 a.objectTypeId, a.identityRuleId, a.joinKeyTuple, ""⟩
  | anchored {i : Nat} {a : IdentityKey} {decision : MapReviewedDecision} {anchor : ReviewedAnchor}
      (least : LeastOf context keys k i a) (reviewed : ReviewedClass context keys k decision)
      (anchored : decisionAnchor context lib decision = some anchor) :
      Identifies context lib keys k ⟨leBytes 4 a.objectTypeId, anchor.identityRuleId,
        anchor.joinKeyTuple, ""⟩

variable {k j : Nat} {a : IdentityKey}

theorem LeastOf.unique {i : Nat} {b : IdentityKey} (ha : LeastOf context keys k i a)
    (hb : LeastOf context keys k j b) : a = b := by
  have heq := le_antisymm (ha.2.2 j b hb.1 hb.2.1) (hb.2.2 i a ha.1 ha.2.1)
  obtain rfl : i = j := (Prod.mk.inj (toLex.injective heq)).2
  exact Option.some.inj (ha.2.1.symm.trans hb.2.1)

variable {reviewed : List ReviewedDecision}

section

variable (h : List.Forall₂ (Reviewed context lib keys) context.reviewedDecisions reviewed)
include h

theorem mem_class :
    j ∈ componentOf (identityForest keys (sameObjectEdges reviewed)) keys.length k ↔
      j < keys.length ∧ Connected context keys k j := by
  rw [mem_componentOf, joined_identityForest h]

theorem edge_inside_iff {anchor : Option ReviewedAnchor} :
    (∃ edge ∈ sameObjectEdges reviewed, edge.inside
        (componentOf (identityForest keys (sameObjectEdges reviewed)) keys.length k) = true ∧
        edge.canonicalAnchor = anchor) ↔
      ∃ decision, ReviewedClass context keys k decision ∧
        decisionAnchor context lib decision = anchor := by
  simp only [ReviewedSameObjectEdge.inside, Bool.and_eq_true, contains_iff_mem, mem_class h]
  constructor
  · rintro ⟨edge, hedge, ⟨⟨-, hleft⟩, -⟩, rfl⟩
    obtain ⟨decision, hd, hsame, hl, -, hanchor⟩ := (mem_sameObject h).mp hedge
    obtain ⟨a, ha, hm⟩ := mem_matchedIndexes.mp hl
    exact ⟨decision, ⟨hd, hsame, edge.left, a, hleft, ha, .inl hm⟩, hanchor.symm⟩
  · rintro ⟨decision, ⟨hd, hsame, i, a, hi, ha, hm⟩, rfl⟩
    obtain ⟨found, -, hfound⟩ := forall₂_mem_left h hd
    obtain ⟨l, hl⟩ := exists_mem_of_ne_nil _ hfound.left.matched
    obtain ⟨r, hr⟩ := exists_mem_of_ne_nil _ hfound.right.matched
    have hedge : ∀ l ∈ matchedIndexes context decision.left keys,
        ∀ r ∈ matchedIndexes context decision.right keys, Connected context keys l r := by
      intro l hl r hr
      obtain ⟨b, hb, hmb⟩ := mem_matchedIndexes.mp hl
      obtain ⟨c, hc, hmc⟩ := mem_matchedIndexes.mp hr
      exact .rel l r ⟨b, c, hb, hc, .inr ⟨decision, hd, hsame, hmb, hmc⟩⟩
    rcases hm with hm | hm
    · have hi' := mem_matchedIndexes.mpr ⟨a, ha, hm⟩
      refine ⟨⟨i, r, decisionAnchor context lib decision⟩,
        (mem_sameObject h).mpr ⟨decision, hd, hsame, hi', hr, rfl⟩, ⟨⟨matchedIndexes_lt hi', hi⟩,
          matchedIndexes_lt hr, hi.trans _ _ _ (hedge i hi' r hr)⟩, rfl⟩
    · have hi' := mem_matchedIndexes.mpr ⟨a, ha, hm⟩
      refine ⟨⟨l, i, decisionAnchor context lib decision⟩,
        (mem_sameObject h).mpr ⟨decision, hd, hsame, hl, hi', rfl⟩, ⟨⟨matchedIndexes_lt hl,
          hi.trans _ _ _ (.symm _ _ (hedge l hl i hi'))⟩, matchedIndexes_lt hi', hi⟩, rfl⟩

theorem anchorOf_eq_some_iff :
    anchorOf (placed keys
        (componentOf (identityForest keys (sameObjectEdges reviewed)) keys.length k)) = some a ↔
      ∃ i, LeastOf context keys k i a := by
  have hleast : ∀ i a, (i, a) ∈ (placed keys (componentOf
      (identityForest keys (sameObjectEdges reviewed)) keys.length k)).argmin
        (fun member => toLex (member.2.anchorSortKey, member.1)) → LeastOf context keys k i a := by
    intro i a hmin
    obtain ⟨hi, ha⟩ := mem_placed.mp (argmin_mem hmin)
    refine ⟨((mem_class h).mp hi).2, ha, fun j b hj hb => ?_⟩
    refine le_of_mem_argmin (a := (j, b)) (mem_placed.mpr ⟨?_, hb⟩) hmin
    exact (mem_class h).mpr ⟨(List.getElem?_eq_some_iff.mp hb).1, hj⟩
  rw [anchorOf, Option.map_eq_some_iff]
  constructor
  · rintro ⟨⟨i, a⟩, hmin, rfl⟩
    exact ⟨i, hleast i a hmin⟩
  · rintro ⟨i, ha⟩
    have hmem : (i, a) ∈ placed keys
        (componentOf (identityForest keys (sameObjectEdges reviewed)) keys.length k) :=
      mem_placed.mpr ⟨(mem_class h).mpr ⟨(List.getElem?_eq_some_iff.mp ha.2.1).1, ha.1⟩, ha.2.1⟩
    cases hmin : (placed keys (componentOf (identityForest keys (sameObjectEdges reviewed))
      keys.length k)).argmin (fun member => toLex (member.2.anchorSortKey, member.1)) with
    | none => exact absurd (argmin_eq_none.mp hmin) (ne_nil_of_mem hmem)
    | some member => exact ⟨member, rfl, (hleast member.1 member.2 hmin).unique ha⟩

theorem exists_least (hk : k < keys.length) : ∃ i a, LeastOf context keys k i a := by
  have hmem : (k, keys[k]) ∈ placed keys
      (componentOf (identityForest keys (sameObjectEdges reviewed)) keys.length k) :=
    mem_placed.mpr ⟨(mem_class h).mpr ⟨hk, .refl k⟩, List.getElem?_eq_getElem hk⟩
  cases hanchor : anchorOf (placed keys
      (componentOf (identityForest keys (sameObjectEdges reviewed)) keys.length k)) with
  | none =>
    rw [anchorOf, Option.map_eq_none_iff] at hanchor
    exact absurd (argmin_eq_none.mp hanchor) (ne_nil_of_mem hmem)
  | some a =>
    obtain ⟨i, hleast⟩ := (anchorOf_eq_some_iff h).mp hanchor
    exact ⟨i, a, hleast⟩

end

theorem reviewedAnchorForComponent_eq_ok_iff {indexes : List Nat}
    {edges : List ReviewedSameObjectEdge} {found : Option ReviewedAnchor} :
    reviewedAnchorForComponent indexes edges = .ok found ↔
      ∀ anchor, (∃ edge ∈ edges, edge.inside indexes = true ∧ edge.canonicalAnchor = some anchor) ↔
        found = some anchor := by
  simp only [reviewedAnchorForComponent, andThen_eq_ok_iff, rejectIf_eq_ok_iff]
  have hmem : ∀ anchor, anchor ∈
      ((edges.filter (·.inside indexes)).filterMap (·.canonicalAnchor)).dedup ↔
        ∃ edge ∈ edges, edge.inside indexes = true ∧ edge.canonicalAnchor = some anchor := by
    intro anchor
    rw [mem_dedup, mem_filterMap]
    simp only [mem_filter, and_assoc]
  have hnodup := nodup_dedup ((edges.filter (·.inside indexes)).filterMap (·.canonicalAnchor))
  simp only [← hmem]
  generalize ((edges.filter (·.inside indexes)).filterMap (·.canonicalAnchor)).dedup = anchors at hnodup
  constructor
  · rintro ⟨_, hlen, hhead⟩ anchor
    cases hhead
    rcases anchors with _ | ⟨x, _ | ⟨y, rest⟩⟩
    · simp
    · simp [eq_comm]
    · exact absurd (by simp) hlen
  · intro hall
    rcases anchors with _ | ⟨x, _ | ⟨y, rest⟩⟩
    · cases found with
      | none => exact ⟨(), by simp, rfl⟩
      | some x => exact absurd ((hall x).mpr rfl) not_mem_nil
    · rw [(hall x).mp mem_cons_self]
      exact ⟨(), by simp, rfl⟩
    · have hx := (hall x).mp mem_cons_self
      have hy := (hall y).mp (mem_cons_of_mem _ mem_cons_self)
      have hxy : x = y := Option.some.inj (hx.symm.trans hy)
      exact absurd (hxy ▸ mem_cons_self) (nodup_cons.mp hnodup).1

def parts (name : ComponentName) : GoidParts where
  objectTypeId := leBytes 4 name.objectTypeId
  identityRuleId := name.identityRuleId
  joinKeyTuple := name.joinKeyTuple
  sourceScope := name.sourceScope.getD ""

theorem any_inside_iff
    (h : Forall₂ (Reviewed context lib keys) context.reviewedDecisions reviewed) :
    (sameObjectEdges reviewed).any (·.inside
        (componentOf (identityForest keys (sameObjectEdges reviewed)) keys.length k)) = true ↔
      ∃ decision, ReviewedClass context keys k decision := by
  rw [any_eq_true]
  constructor
  · rintro ⟨edge, hedge, hin⟩
    obtain ⟨decision, hdecision, -⟩ := (edge_inside_iff h).mp ⟨edge, hedge, hin, rfl⟩
    exact ⟨decision, hdecision⟩
  · rintro ⟨decision, hdecision⟩
    obtain ⟨edge, hedge, hin, -⟩ := (edge_inside_iff h).mpr ⟨decision, hdecision, rfl⟩
    exact ⟨edge, hedge, hin⟩

variable {name : ComponentName} {found : GoidParts}

section

variable (h : List.Forall₂ (Reviewed context lib keys) context.reviewedDecisions reviewed)
include h

theorem nameComponent_eq_ok_iff :
    nameComponent keys (sameObjectEdges reviewed)
        (componentOf (identityForest keys (sameObjectEdges reviewed)) keys.length k) = .ok name ↔
      ∃ i a found hasReviewedMerge, LeastOf context keys k i a ∧
        (∀ anchor, (∃ decision, ReviewedClass context keys k decision ∧
          decisionAnchor context lib decision = some anchor) ↔ found = some anchor) ∧
        (hasReviewedMerge = true ↔ ∃ decision, ReviewedClass context keys k decision) ∧
        name = componentName a found hasReviewedMerge := by
  simp only [nameComponent, andThen_eq_ok_iff, okOr_eq_ok_iff, anchorOf_eq_some_iff h,
    reviewedAnchorForComponent_eq_ok_iff, edge_inside_iff h, Except.ok.injEq]
  constructor
  · rintro ⟨a, ⟨i, hleast⟩, found, hfound, rfl⟩
    exact ⟨i, a, found, _, hleast, hfound, any_inside_iff h, rfl⟩
  · rintro ⟨i, a, found, hasReviewedMerge, hleast, hfound, hmerge, rfl⟩
    refine ⟨a, ⟨i, hleast⟩, found, hfound, congrArg (componentName a found) ?_⟩
    exact Bool.eq_iff_iff.mpr ((any_inside_iff h).trans hmerge.symm)

theorem name_identifies
    (hname : nameComponent keys (sameObjectEdges reviewed)
      (componentOf (identityForest keys (sameObjectEdges reviewed)) keys.length k) = .ok name) :
    Identifies context lib keys k (parts name) := by
  obtain ⟨i, a, found, hasReviewedMerge, hleast, hfound, hmerge, rfl⟩ :=
    (nameComponent_eq_ok_iff h).mp hname
  cases found with
  | some anchor =>
    obtain ⟨decision, hdecision, hanchor⟩ := (hfound anchor).mpr rfl
    exact .anchored hleast hdecision hanchor
  | none =>
    cases hasReviewedMerge with
    | true =>
      obtain ⟨decision, hdecision⟩ := hmerge.mp rfl
      refine .merged hleast hdecision fun other hother => ?_
      apply Option.eq_none_iff_forall_ne_some.mpr
      intro anchor hanchor
      cases (hfound anchor).mp ⟨other, hother, hanchor⟩
    | false =>
      refine .automatic hleast fun decision hdecision => ?_
      cases hmerge.mpr ⟨decision, hdecision⟩

theorem identifies_unique
    (hname : nameComponent keys (sameObjectEdges reviewed)
      (componentOf (identityForest keys (sameObjectEdges reviewed)) keys.length k) = .ok name)
    (hfound : Identifies context lib keys k found) : found = parts name := by
  have hsingle : ∀ d d' anchor anchor', ReviewedClass context keys k d →
      ReviewedClass context keys k d' → decisionAnchor context lib d = some anchor →
        decisionAnchor context lib d' = some anchor' → anchor = anchor' := by
    obtain ⟨-, -, found, -, -, hanchor, -, -⟩ := (nameComponent_eq_ok_iff h).mp hname
    intro d d' anchor anchor' hd hd' ha ha'
    exact Option.some.inj (((hanchor anchor).mp ⟨d, hd, ha⟩).symm.trans
      ((hanchor anchor').mp ⟨d', hd', ha'⟩))
  have hparts := name_identifies h hname
  generalize parts name = named at hparts
  cases hfound with
  | automatic least unreviewed =>
    cases hparts with
    | automatic least' _ => rw [least.unique least']
    | merged _ reviewed _ | anchored _ reviewed _ => exact absurd reviewed (unreviewed _)
  | merged least reviewed unanchored =>
    cases hparts with
    | automatic _ unreviewed => exact absurd reviewed (unreviewed _)
    | merged least' _ _ => rw [least.unique least']
    | anchored _ reviewed' anchored =>
      rw [unanchored _ reviewed'] at anchored
      cases anchored
  | anchored least reviewed anchored =>
    cases hparts with
    | automatic _ unreviewed => exact absurd reviewed (unreviewed _)
    | merged _ _ unanchored =>
      rw [unanchored _ reviewed] at anchored
      cases anchored
    | anchored least' reviewed' anchored' =>
      rw [least.unique least', hsingle _ _ _ _ reviewed reviewed' anchored anchored']

end

section

variable {Goid : Type} {goids : GoidLibrary Goid}

theorem goid_eq_iff (hinj : Function.Injective goids.goid16Parts) {name name' : ComponentName} :
    name.goid goids context = name'.goid goids context ↔ parts name = parts name' := by
  rw [ComponentName.goid, ComponentName.goid, mappedGoid, mappedGoid, hinj.eq_iff]
  simp only [List.cons.injEq, and_true, true_and, parts, GoidParts.mk.injEq]
  constructor
  · rintro ⟨htype, hrule, htuple, hscope⟩
    exact ⟨htype, asBytes_inj hrule, htuple, asBytes_inj hscope⟩
  · rintro ⟨htype, hrule, htuple, hscope⟩
    rw [htype, hrule, htuple, hscope]
    exact ⟨rfl, rfl, rfl, rfl⟩

/-- Global object ids identify exactly the classes of the identities, and so keep the two
sides of every do-not-merge constraint apart. -/
structure GoidsSeparate (context : MappingContext) (keys : List IdentityKey)
    (planned : List (Nat × PlannedIdentity Goid)) : Prop where
  identify : ∀ x ∈ planned, ∀ y ∈ planned,
    x.2.goid = y.2.goid ↔ Connected context keys x.1 y.1
  declared : ∀ constraint ∈ context.doNotMerge, ∀ x ∈ planned, ∀ y ∈ planned, ∀ a b,
    keys[x.1]? = some a → keys[y.1]? = some b → constraint.1 ∈ a.aliases →
      constraint.2 ∈ b.aliases → x.2.goid ≠ y.2.goid
  reviewed : ∀ decision ∈ context.reviewedDecisions, decision.decision = "do_not_merge" →
    ∀ x ∈ planned, ∀ y ∈ planned, ∀ a b, keys[x.1]? = some a → keys[y.1]? = some b →
      matchesReference context decision.left a = true →
        matchesReference context decision.right b = true → x.2.goid ≠ y.2.goid

/-- No two classes are identified alike. -/
def Unclashing (context : MappingContext) (lib : KeyLibrary) (keys : List IdentityKey) : Prop :=
  ∀ k k' found, Identifies context lib keys k found → Identifies context lib keys k' found →
    Connected context keys k k'

theorem Identifies.lt {k : Nat} (h : Identifies context lib keys k found) : k < keys.length := by
  have hlt : ∀ i a, LeastOf context keys k i a → k < keys.length := by
    intro i a hleast
    have hi := (List.getElem?_eq_some_iff.mp hleast.2.1).1
    have hrange : ∀ j l, Connected context keys j l → (j < keys.length ↔ l < keys.length) := by
      intro j l hjl
      induction hjl with
      | rel j l hedge => exact iff_of_true hedge.lt.1 hedge.lt.2
      | refl j => rfl
      | symm j l _ ih => exact ih.symm
      | trans j l m _ _ ih ih' => exact ih.trans ih'
    exact (hrange k i hleast.1).mpr hi
  cases h with
  | automatic least _ | merged least _ _ | anchored least _ _ => exact hlt _ _ least

variable {named : List (List (Nat × PlannedIdentity Goid))} {i j : Nat} {a b : IdentityKey}

section

variable (h : Planned goids context lib keys reviewed named)
include h

theorem not_connected_of_declared {constraint : String × String}
    (hc : constraint ∈ context.doNotMerge) (ha : keys[i]? = some a) (hb : keys[j]? = some b)
    (hleft : constraint.1 ∈ a.aliases) (hright : constraint.2 ∈ b.aliases) :
      ¬ Connected context keys i j := by
  intro hij
  have hi := (List.getElem?_eq_some_iff.mp ha).1
  have hj := (List.getElem?_eq_some_iff.mp hb).1
  have hcheck := checkAll_eq_ok_iff.mp h.apart _ (mem_components.mpr ⟨i, hi, rfl⟩)
  refine of_rejectIf (checkAll_eq_ok_iff.mp hcheck constraint hc) ⟨?_, ?_⟩
  · exact mem_flatMap.mpr ⟨a, mem_keysAt.mpr ⟨i,
      (mem_class h.accepted).mpr ⟨hi, .refl i⟩, ha⟩, hleft⟩
  · exact mem_flatMap.mpr ⟨b, mem_keysAt.mpr ⟨j,
      (mem_class h.accepted).mpr ⟨hj, hij⟩, hb⟩, hright⟩

theorem not_connected_of_reviewed {decision : MapReviewedDecision}
    (hd : decision ∈ context.reviewedDecisions) (hkind : decision.decision = "do_not_merge")
    (ha : keys[i]? = some a) (hb : keys[j]? = some b)
    (hleft : matchesReference context decision.left a = true)
    (hright : matchesReference context decision.right b = true) : ¬ Connected context keys i j := by
  intro hij
  have hcheck := checkAll_eq_ok_iff.mp h.reviewedApart _
    ((mem_doNotMerge h.accepted).mpr ⟨decision, hd, hkind, rfl⟩)
  have hcheck := checkAll_eq_ok_iff.mp hcheck i (mem_matchedIndexes.mpr ⟨a, ha, hleft⟩)
  exact of_rejectIf (checkAll_eq_ok_iff.mp hcheck j (mem_matchedIndexes.mpr ⟨b, hb, hright⟩))
    ((joined_identityForest h.accepted).mpr hij)

theorem goid_eq_of_connected {x y : Nat × PlannedIdentity Goid} (hx : x ∈ named.flatten)
    (hy : y ∈ named.flatten) (hxy : Connected context keys x.1 y.1) : x.2.goid = y.2.goid := by
  obtain ⟨a, name, -, hname, hp⟩ := (mem_planned h).mp hx
  obtain ⟨b, name', -, hname', hq⟩ := (mem_planned h).mp hy
  have hroot := (joined_identityForest h.accepted).mpr hxy
  rw [componentOf, hroot] at hname
  rw [hp, hq]
  exact congrArg (ComponentName.goid goids context) (Except.ok.inj (hname.symm.trans hname'))

end

theorem goidsSeparate_iff (hinj : Function.Injective goids.goid16Parts)
    (h : Planned goids context lib keys reviewed named) :
    GoidsSeparate context keys named.flatten ↔ Unclashing context lib keys := by
  constructor
  · intro hsep k k' found hk hk'
    have hplanned : ∀ i, i < keys.length → Identifies context lib keys i found →
        ∃ p, (i, p) ∈ named.flatten ∧ ∃ name, parts name = found ∧ p.goid = name.goid goids context := by
      intro i hi hfound
      obtain ⟨identities, hidentities, name, hname, rfl⟩ :=
        forall₂_mem_left h.named (mem_components.mpr ⟨i, hi, rfl⟩)
      refine ⟨_, (mem_planned h).mpr ⟨_, name, List.getElem?_eq_getElem hi, hname, rfl⟩, name, ?_, rfl⟩
      exact (identifies_unique h.accepted hname hfound).symm
    obtain ⟨p, hp, name, hname, hgoid⟩ := hplanned k hk.lt hk
    obtain ⟨q, hq, name', hname', hgoid'⟩ := hplanned k' hk'.lt hk'
    apply (hsep.identify _ hp _ hq).mp
    rw [hgoid, hgoid', goid_eq_iff hinj, hname, hname']
  · intro hclash
    have hidentify : ∀ x ∈ named.flatten, ∀ y ∈ named.flatten,
        x.2.goid = y.2.goid ↔ Connected context keys x.1 y.1 := by
      intro x hx y hy
      refine ⟨fun hgoid => ?_, goid_eq_of_connected h hx hy⟩
      obtain ⟨a, name, -, hname, hp⟩ := (mem_planned h).mp hx
      obtain ⟨b, name', -, hname', hq⟩ := (mem_planned h).mp hy
      rw [hp, hq] at hgoid
      have hparts := (goid_eq_iff hinj).mp hgoid
      exact hclash _ _ _ (name_identifies h.accepted hname)
        (hparts ▸ name_identifies h.accepted hname')
    refine ⟨hidentify, ?_, ?_⟩
    · intro constraint hc x hx y hy a b ha hb hleft hright hgoid
      exact not_connected_of_declared h hc ha hb hleft hright ((hidentify x hx y hy).mp hgoid)
    · intro decision hd hkind x hx y hy a b ha hb hleft hright hgoid
      exact not_connected_of_reviewed h hd hkind ha hb hleft hright ((hidentify x hx y hy).mp hgoid)

variable [LinearOrder Goid]

/-- The global object ids of a plan identify exactly the classes of its identities if and
only if no two classes are identified alike. -/
theorem goids_identify_classes_iff (hinj : Function.Injective goids.goid16Parts)
    {rows : List SourceRow} {plan : IdentityPlan Goid}
    (h : planIdentities goids context lib rows = .ok plan) :
    ∃ outputs planned, rowOutputs context lib rows = .ok outputs ∧
      planKeys goids context lib (outputs.filterMap (·.key?)) = .ok planned ∧
      plan.canonical = sortByKey (·.sortKey) (planned.map (·.2)) ∧
      (GoidsSeparate context (outputs.filterMap (·.key?)) planned ↔
        Unclashing context lib (outputs.filterMap (·.key?))) := by
  simp only [planIdentities, andThen_eq_ok_iff] at h
  obtain ⟨outputs, houtputs, planned, hplanned, h⟩ := h
  cases h
  refine ⟨outputs, planned, houtputs, hplanned, rfl, ?_⟩
  obtain ⟨reviewed, named, hrun, rfl⟩ := planKeys_eq_ok_iff.mp hplanned
  exact goidsSeparate_iff hinj hrun

end

def accountRule : MapIdentityRule where
  ruleId := "account"
  objectType := "Account"
  confidenceClass := "source_scoped"
  autoMerge := none
  candidateOnly := false
  allowReviewedEquivalence := true
  functionIds := ["identity"]
  joinKeys := [⟨"id", "id", "utf8", "none", "reject", none⟩]

def rowReference (rowIdentity : String) : MapTypedIdentityReference where
  kind := "identity_alias"
  objectType := "Account"
  identityAlias := some rowIdentity

/-- Each source has one pair of accounts that a review has declared the same; a third
review keeps the first accounts of the sources apart. -/
def accountMapping : MappingContext where
  mappingId := replicate 16 0
  mappingVersion := "1"
  identityRules := [accountRule]
  sources := [⟨"crm", none⟩, ⟨"erp", none⟩]
  rowRules := [⟨"crm.accounts", "crm", "account"⟩, ⟨"erp.accounts", "erp", "account"⟩]
  doNotMerge := []
  reviewedDecisions := [
    ⟨"same-crm", "same_object", rowReference "crm:0", rowReference "crm:1", none⟩,
    ⟨"same-erp", "same_object", rowReference "erp:0", rowReference "erp:1", none⟩,
    ⟨"apart", "do_not_merge", rowReference "crm:0", rowReference "erp:0", none⟩]
  objectTypes := [("Account", 1)]
  identityRules_nodup := by decide
  sources_nodup := by decide

def accountRow (sourceId : String) (rowIndex : Nat) (id : String) : SourceRow :=
  ⟨sourceId, rowIndex, [("id", .string id)]⟩

def accountRows : List SourceRow :=
  [accountRow "crm" 0 "a", accountRow "crm" 1 "b", accountRow "erp" 0 "a", accountRow "erp" 1 "b"]

def shortTexts : KeyLibrary where
  resolveJoinKeyComponent _ _ _ := .error "MAP_RESOLUTION_CATALOG_MISSING"
  applyCanonicalization value _ _ := .ok value
  canonicalComponentBytes _ value :=
    match value with
    | .string text => .ok (UInt8.ofNat (asBytes text).length :: asBytes text)
    | _ => .error "utf8 join key value must be JSON string"
  reviewedAnchorComponentValue _ resolvedValue := .ok (.string resolvedValue)
  rowJson values := ",".intercalate (values.map fun field =>
    match field.2 with
    | .string text => s!"{field.1}:{text}"
    | _ => field.1)
  sha256Hex bytes := String.ofList (bytes.map fun b => Char.ofNat b.toNat)

def unhashed : GoidLibrary (List Bytes) := ⟨id, fun _ => ""⟩

def keyParts (a : IdentityKey) : GoidParts :=
  ⟨leBytes 4 a.objectTypeId, a.identityRuleId, a.joinKeyTuple, a.goidSourceScope.getD ""⟩

theorem unclashing_of_distinct {keys : List IdentityKey} (hreviews : context.reviewedDecisions = [])
    (hdistinct : (keys.map keyParts).Nodup) : Unclashing context lib keys := by
  have hleast : ∀ k found, Identifies context lib keys k found →
      ∃ i a, LeastOf context keys k i a ∧ found = keyParts a := by
    intro k found hfound
    cases hfound with
    | automatic least _ => exact ⟨_, _, least, rfl⟩
    | merged _ reviewed _ | anchored _ reviewed _ =>
      obtain ⟨hmem, -⟩ := reviewed
      rw [hreviews] at hmem
      cases hmem
  intro k k' found hk hk'
  obtain ⟨i, a, hi, rfl⟩ := hleast k found hk
  obtain ⟨j, b, hj, hparts⟩ := hleast k' _ hk'
  have hget : (keys.map keyParts)[i]? = (keys.map keyParts)[j]? := by
    rw [List.getElem?_map, List.getElem?_map, hi.2.1, hj.2.1, Option.map_some, Option.map_some,
      hparts]
  have hlt : i < (keys.map keyParts).length := by
    rw [length_map]
    exact (List.getElem?_eq_some_iff.mp hi.2.1).1
  obtain rfl := (List.getElem?_inj hlt hdistinct).mp hget
  exact hi.1.trans _ _ _ (hj.1.symm _ _)

def unreviewed : MappingContext := { accountMapping with reviewedDecisions := [] }

/-- Four accounts of two sources that no review connects have four ids. -/
theorem goids_identify_classes_iff_accounts :
    ∃ outputs planned, rowOutputs unreviewed shortTexts accountRows = .ok outputs ∧
      planKeys unhashed unreviewed shortTexts (outputs.filterMap (·.key?)) = .ok planned ∧
      (outputs.filterMap (·.key?)).length = 4 ∧
      GoidsSeparate unreviewed (outputs.filterMap (·.key?)) planned := by
  have hok : (planIdentities unhashed unreviewed shortTexts accountRows).toOption.isSome := by
    decide +kernel
  have hkeys : (rowOutputs unreviewed shortTexts accountRows).toOption.any fun outputs =>
      decide ((outputs.filterMap (·.key?)).length = 4 ∧
        ((outputs.filterMap (·.key?)).map keyParts).Nodup) := by
    decide +kernel
  obtain ⟨plan, hplan⟩ := Option.isSome_iff_exists.mp hok
  obtain ⟨outputs, planned, houtputs, hplanned, -, hiff⟩ :=
    goids_identify_classes_iff Function.injective_id (toOption_eq_some_iff.mp hplan)
  rw [houtputs] at hkeys
  obtain ⟨hlength, hdistinct⟩ := of_decide_eq_true hkeys
  exact ⟨outputs, planned, houtputs, hplanned, hlength,
    hiff.mpr (unclashing_of_distinct rfl hdistinct)⟩

def shareGoid (outputs : List RowOutput) (planned : List (Nat × PlannedIdentity (List Bytes))) :
    Bool :=
  let keys := outputs.filterMap (·.key?)
  planned.any fun x => planned.any fun y => decide (x.2.goid = y.2.goid) &&
    (keys[x.1]?).any (matchesReference accountMapping (rowReference "crm:0")) &&
    (keys[y.1]?).any (matchesReference accountMapping (rowReference "erp:0"))

theorem reviewed_sources_share_goid :
    ∃ outputs planned plan, rowOutputs accountMapping shortTexts accountRows = .ok outputs ∧
      planKeys unhashed accountMapping shortTexts (outputs.filterMap (·.key?)) = .ok planned ∧
      planIdentities unhashed accountMapping shortTexts accountRows = .ok plan ∧
      plan.canonical = sortByKey (·.sortKey) (planned.map (·.2)) ∧
      ¬ GoidsSeparate accountMapping (outputs.filterMap (·.key?)) planned := by
  have hrun : ((rowOutputs accountMapping shortTexts accountRows).toOption.any fun outputs =>
      (planKeys unhashed accountMapping shortTexts (outputs.filterMap (·.key?))).toOption.any
        fun planned => shareGoid outputs planned) = true := by
    decide +kernel
  obtain ⟨outputs, houtputs, hrun⟩ := (Option.any_eq_true _ _).mp hrun
  obtain ⟨planned, hplanned, hshare⟩ := (Option.any_eq_true _ _).mp hrun
  have houtputs := toOption_eq_some_iff.mp houtputs
  have hplanned := toOption_eq_some_iff.mp hplanned
  refine ⟨outputs, planned, ⟨sortByKey (·.sortKey) (planned.map (·.2)),
    sortByKey candidateSortKey (outputs.filterMap (·.candidate?))⟩, houtputs, hplanned, ?_, rfl,
      fun hsep => ?_⟩
  · rw [planIdentities, houtputs]
    change (planKeys unhashed accountMapping shortTexts _ >>= _) = _
    rw [hplanned]
    rfl
  · obtain ⟨x, hx, hshare⟩ := any_eq_true.mp hshare
    obtain ⟨y, hy, hshare⟩ := any_eq_true.mp hshare
    simp only [Bool.and_eq_true, decide_eq_true_eq, Option.any_eq_true] at hshare
    obtain ⟨⟨hgoid, a, ha, hleft⟩, b, hb, hright⟩ := hshare
    have hmem : ∃ decision ∈ accountMapping.reviewedDecisions, decision.decision = "do_not_merge" ∧
        decision.left = rowReference "crm:0" ∧ decision.right = rowReference "erp:0" :=
      ⟨_, mem_of_getElem? (i := 2) rfl, rfl, rfl, rfl⟩
    obtain ⟨decision, hd, hkind, hl, hr⟩ := hmem
    exact hsep.reviewed decision hd hkind x hx y hy a b ha hb (hl ▸ hleft) (hr ▸ hright) hgoid

end CoveFormat.GoidSeparation
