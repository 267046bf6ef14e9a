import CoveFormat.ExprEval
import CoveFormat.OrderedMaps
import Mathlib.Data.String.Basic

namespace CoveFormat.AssociationEdges

open ExprEval Function JsonValue List OrderedSets

section

variable {α κ : Type} [DecidableEq κ] {items : List α}

/-- A map of `Vec` entries, empty where there is none. -/
def pushIndex (indexes : κ → List Nat) (key : κ) (index : Nat) : κ → List Nat :=
  update indexes key (indexes key ++ [index])

def indexBy (key : α → κ) (items : List α) : κ → List Nat :=
  items.zipIdx.foldl (fun indexes item => pushIndex indexes (key item.1) item.2) fun _ => []

/-- The indexes of the items with a property. -/
def indexesOf (test : α → Bool) (items : List α) : List Nat :=
  (items.zipIdx.filter fun item => test item.1).map Prod.snd

theorem indexBy_apply (key : α → κ) (k : κ) :
    indexBy key items k = indexesOf (fun item => key item = k) items := by
  have hfold (pairs : List (α × Nat)) (start : κ → List Nat) :
      pairs.foldl (fun indexes item => pushIndex indexes (key item.1) item.2) start k =
        start k ++ (pairs.filter fun item => key item.1 = k).map Prod.snd := by
    induction pairs generalizing start with
    | nil => simp
    | cons pair pairs ih =>
      rw [foldl_cons, ih, pushIndex]
      by_cases hk : key pair.1 = k
      · simp [hk]
      · simp [hk, update_of_ne (Ne.symm hk)]
  exact (hfold _ _).trans (nil_append _)

theorem mem_indexesOf {test : α → Bool} {index : Nat} :
    index ∈ indexesOf test items ↔ ∃ item, items[index]? = some item ∧ test item := by
  simp [indexesOf, mem_zipIdx_iff_getElem?]

theorem indexesOf_sorted (test : α → Bool) : (indexesOf test items).Pairwise (· < ·) := by
  have hsnd : (items.zipIdx.map Prod.snd).Pairwise (· < ·) := by
    rw [zipIdx_map_snd]
    exact pairwise_lt_range'
  exact hsnd.sublist (filter_sublist.map _)

theorem filterMap_indexesOf (test : α → Bool) :
    (indexesOf test items).filterMap (items[·]?) = items.filter test := by
  have hget : ∀ item ∈ items.zipIdx.filter fun item => test item.1,
      items[item.2]? = some item.1 := fun item hitem =>
    mem_zipIdx_iff_getElem?.mp (mem_of_mem_filter hitem)
  calc (indexesOf test items).filterMap (items[·]?)
      = (items.zipIdx.filter fun item => test item.1).filterMap fun item => some item.1 := by
        rw [indexesOf, filterMap_map]
        exact filterMap_congr hget
    _ = (items.zipIdx.filter (test ∘ Prod.fst)).map Prod.fst := by
        rw [← filterMap_eq_map]
        rfl
    _ = items.filter test := by rw [← filter_map, zipIdx_map_fst]

/-- The indexes of two lists in one ordered set. -/
theorem filterMap_extend (first second : α → Bool) :
    ((OrderedSet.empty.extend (indexesOf first items)).extend
        (indexesOf second items)).elems.filterMap (items[·]?) =
      items.filter fun item => first item || second item := by
  let both : OrderedSet Nat :=
    (OrderedSet.empty.extend (indexesOf first items)).extend (indexesOf second items)
  have hmem (index : Nat) : index ∈ both.elems ↔
      index ∈ indexesOf (fun item => first item || second item) items := by
    have hempty : index ∉ (OrderedSet.empty : OrderedSet Nat) := not_mem_nil
    have hboth : index ∈ both ↔ _ := OrderedSet.mem_extend
    rw [← OrderedSet.mem_def, hboth, OrderedSet.mem_extend, mem_indexesOf, mem_indexesOf,
      mem_indexesOf]
    grind
  have hsorted : (indexesOf (fun item => first item || second item) items).Pairwise (· < ·) :=
    indexesOf_sorted _
  have hperm := (perm_ext_iff_of_nodup both.nodup (hsorted.imp ne_of_lt)).mpr hmem
  have heq : both.elems = _ := List.Perm.eq_of_pairwise
    (fun _ _ _ _ hab hba => absurd hba (lt_asymm hab)) both.sorted hsorted hperm
  exact (congrArg (List.filterMap _) heq).trans (filterMap_indexesOf _)

end

inductive AssociationEndpointRole
  | source
  | target
  | either
  | unknown

/-- What an edge look-up reads of an association expression. -/
structure ResolvedAssociationRoot where
  objectTypeId : Nat
  validFromPropertyId : Option Nat
  validToPropertyId : Option Nat
  endpointRole : AssociationEndpointRole
  targetNodeObjectTypeId : Option Nat

/-- The arguments of a look-up. -/
structure EdgeLookup where
  datasetFileOrdinal : Option Nat
  currentGoid : String
  association : ResolvedAssociationRoot
  visibleObjectKeys : List (Option Nat × Nat × String)

/-- What an edge look-up reads of an association row, its maps as the functions of what they
hold. -/
structure MaterializedAssociationRow where
  datasetFileOrdinal : Option Nat
  objectTypeId : Nat
  sourceGoid : Option String
  targetGoid : Option String
  properties : String → Option Value
  propertyIds : Nat → Option String

structure AssociationEdge where
  datasetFileOrdinal : Option Nat
  associationTypeId : Nat
  sourceGoid : String
  targetGoid : String
  propertiesById : Nat → Option Value

def AssociationEdge.fromRow (row : MaterializedAssociationRow) : Option AssociationEdge :=
  row.sourceGoid.bind fun source => row.targetGoid.map fun target =>
    { datasetFileOrdinal := row.datasetFileOrdinal
      associationTypeId := row.objectTypeId
      sourceGoid := source
      targetGoid := target
      propertiesById := fun id => (row.propertyIds id).bind row.properties }

/-- The instant of a table, and the seconds and microseconds of a timestamp text. -/
structure EdgeTimes where
  associationValidAt : Option Int
  parseRfc3339 : String → Option (Int × Nat)

section

variable (times : EdgeTimes) (q : EdgeLookup)

def checkedI64 (value : Int) : Option Int :=
  if -2 ^ 63 ≤ value ∧ value < 2 ^ 63 then some value else none

def timestampMicrosFromValue (value : Value) : Option Int :=
  value.asI64.or <| (value.asU64.bind fun n => checkedI64 n).or <|
    value.asStr.bind fun text => (parseI64 text).or <| (times.parseRfc3339 text).bind fun timestamp =>
      (checkedI64 (timestamp.1 * 1000000)).bind fun micros => checkedI64 (micros + timestamp.2)

def associationValidIntervalContains (validAt : Int) (validFrom validTo : Option Value) : Bool :=
  ((validFrom.bind (timestampMicrosFromValue times)).all fun start => start ≤ validAt) &&
    (validTo.bind (timestampMicrosFromValue times)).all fun stop => validAt < stop

def associationEndpointMatches (source target currentGoid : String) :
    AssociationEndpointRole → Bool
  | .source => source = currentGoid
  | .target => target = currentGoid
  | .either => source = currentGoid || target = currentGoid
  | .unknown => false

namespace AssociationEdge

variable (edge : AssociationEdge)

def validAt : Bool :=
  times.associationValidAt.all fun instant => associationValidIntervalContains times instant
    (q.association.validFromPropertyId.bind edge.propertiesById)
    (q.association.validToPropertyId.bind edge.propertiesById)

def isMatch : Bool :=
  edge.datasetFileOrdinal = q.datasetFileOrdinal &&
    edge.associationTypeId = q.association.objectTypeId &&
    edge.validAt times q &&
    associationEndpointMatches edge.sourceGoid edge.targetGoid q.currentGoid
      q.association.endpointRole

def oppositeEndpoint : Option String :=
  if edge.isMatch times q then
    match q.association.endpointRole with
    | .source => some edge.targetGoid
    | .target => some edge.sourceGoid
    | .either =>
      if edge.sourceGoid = q.currentGoid then some edge.targetGoid
      else if edge.targetGoid = q.currentGoid then some edge.sourceGoid
      else none
    | .unknown => none
  else none

def oppositeEndpointKey : Option String :=
  (edge.oppositeEndpoint times q).map fun endpoint =>
    edge.datasetFileOrdinal.elim endpoint fun ordinal => toString ordinal ++ ":" ++ endpoint

def targetNodeMatches : Bool :=
  q.association.targetNodeObjectTypeId.all fun typeId =>
    (edge.oppositeEndpoint times q).any fun endpoint =>
      q.visibleObjectKeys.contains (q.datasetFileOrdinal, typeId, endpoint)

def sourceKey : Nat × Option Nat × String :=
  (edge.associationTypeId, edge.datasetFileOrdinal, edge.sourceGoid)

def targetKey : Nat × Option Nat × String :=
  (edge.associationTypeId, edge.datasetFileOrdinal, edge.targetGoid)

end AssociationEdge

structure AssociationEdgeTable where
  edges : List AssociationEdge
  bySource : Nat × Option Nat × String → List Nat
  byTarget : Nat × Option Nat × String → List Nat
  times : EdgeTimes

namespace AssociationEdgeTable

def fromRows (rows : List MaterializedAssociationRow) : AssociationEdgeTable :=
  let edges := rows.filterMap AssociationEdge.fromRow
  { edges := edges
    bySource := indexBy AssociationEdge.sourceKey edges
    byTarget := indexBy AssociationEdge.targetKey edges
    times := times }

variable (table : AssociationEdgeTable)

def candidateEdges : List AssociationEdge :=
  let key := (q.association.objectTypeId, q.datasetFileOrdinal, q.currentGoid)
  match q.association.endpointRole with
  | .source => (table.bySource key).filterMap (table.edges[·]?)
  | .target => (table.byTarget key).filterMap (table.edges[·]?)
  | .either => ((OrderedSet.empty.extend (table.bySource key)).extend
      (table.byTarget key)).elems.filterMap (table.edges[·]?)
  | .unknown => []

/-- What the look-ups test of a candidate. -/
def isFound (edge : AssociationEdge) : Bool :=
  edge.isMatch table.times q &&
    edge.targetNodeMatches table.times q

def foundEdges : List AssociationEdge :=
  (table.candidateEdges q).filter (table.isFound q)

def existsForScoped : Bool := (table.candidateEdges q).any (table.isFound q)

def countForScoped : Nat := (table.foundEdges q).length

def oppositeEndpointsForScoped : OrderedSet String :=
  OrderedSet.empty.extend ((table.foundEdges q).filterMap
    (AssociationEdge.oppositeEndpointKey table.times q))

end AssociationEdgeTable

/-! The scan: a filter over the rows. -/

namespace MaterializedAssociationRow

variable (row : MaterializedAssociationRow)

def matchesCurrent : Bool :=
  match row.sourceGoid, row.targetGoid with
  | some source, some target => row.objectTypeId = q.association.objectTypeId &&
      associationEndpointMatches source target q.currentGoid q.association.endpointRole
  | _, _ => false

def matchesTemporal : Bool :=
  times.associationValidAt.all fun instant => associationValidIntervalContains times instant
    ((q.association.validFromPropertyId.bind row.propertyIds).bind row.properties)
    ((q.association.validToPropertyId.bind row.propertyIds).bind row.properties)

/-- The endpoint that is not the current object (a self-loop has only that one). -/
def opposite : Option String :=
  match q.association.endpointRole with
  | .source => row.targetGoid
  | .target => row.sourceGoid
  | .either => if row.sourceGoid = some q.currentGoid then row.targetGoid else row.sourceGoid
  | .unknown => none

def oppositeKey : Option String :=
  (row.opposite q).map fun endpoint =>
    row.datasetFileOrdinal.elim endpoint fun ordinal => toString ordinal ++ ":" ++ endpoint

def targetVisible : Bool :=
  q.association.targetNodeObjectTypeId.all fun typeId => (row.opposite q).any fun endpoint =>
    q.visibleObjectKeys.contains (q.datasetFileOrdinal, typeId, endpoint)

def isScanned : Bool :=
  row.datasetFileOrdinal = q.datasetFileOrdinal && row.matchesCurrent q &&
    row.matchesTemporal times q && row.targetVisible q

end MaterializedAssociationRow

open AssociationEdge AssociationEdgeTable MaterializedAssociationRow

variable {times q} {row : MaterializedAssociationRow}
  {edge : AssociationEdge} {rows : List MaterializedAssociationRow}

theorem isMatch_fromRow (h : fromRow row = some edge) :
    edge.isMatch times q =
      (row.datasetFileOrdinal = q.datasetFileOrdinal && row.matchesCurrent q &&
        row.matchesTemporal times q) := by
  obtain ⟨source, hsource, h⟩ := Option.bind_eq_some_iff.mp h
  obtain ⟨target, htarget, rfl⟩ := Option.map_eq_some_iff.mp h
  simp only [isMatch, validAt, matchesCurrent, matchesTemporal, hsource, htarget,
    Option.bind_assoc, ← Bool.and_assoc]
  grind

theorem oppositeEndpoint_fromRow (h : fromRow row = some edge)
    (hmatch : edge.isMatch times q) :
    edge.oppositeEndpoint times q = row.opposite q := by
  obtain ⟨source, hsource, h⟩ := Option.bind_eq_some_iff.mp h
  obtain ⟨target, htarget, rfl⟩ := Option.map_eq_some_iff.mp h
  rw [oppositeEndpoint, if_pos hmatch, opposite, hsource, htarget]
  simp only [isMatch, Bool.and_eq_true] at hmatch
  have hends := hmatch.2
  cases hrole : q.association.endpointRole with
  | source | target | unknown => rfl
  | either =>
    rw [hrole] at hends
    by_cases hcurrent : source = q.currentGoid
    · simp [hcurrent]
    · have htarget : target = q.currentGoid := by
        simpa [associationEndpointMatches, hcurrent] using hends
      simp [hcurrent, htarget]

theorem isFound_fromRow (h : fromRow row = some edge) :
    (fromRows times rows).isFound q edge =
      row.isScanned times q := by
  have hmatch : edge.isMatch times q = _ := isMatch_fromRow h
  rw [isFound, isScanned, ← hmatch]
  cases hfound : edge.isMatch times q with
  | false => simp [fromRows, hfound]
  | true =>
    simp only [fromRows, hfound, Bool.true_and]
    rw [targetNodeMatches, targetVisible, oppositeEndpoint_fromRow h hfound]

/-- A row with both ends becomes an edge, and only such a row is scanned. -/
theorem exists_fromRow (h : row.isScanned times q) :
    ∃ edge, fromRow row = some edge := by
  simp only [isScanned, matchesCurrent, Bool.and_eq_true] at h
  obtain ⟨⟨⟨-, h⟩, -⟩, -⟩ := h
  split at h
  · exact ⟨_, by simp only [fromRow, *]; rfl⟩
  · cases h

/-- The type, the file and the ends of an edge are those of the look-up. -/
def isCandidate (q : EdgeLookup) (edge : AssociationEdge) : Bool :=
  (edge.associationTypeId = q.association.objectTypeId &&
    edge.datasetFileOrdinal = q.datasetFileOrdinal) &&
    associationEndpointMatches edge.sourceGoid edge.targetGoid q.currentGoid
      q.association.endpointRole

theorem candidateEdges_fromRows :
    (fromRows times rows).candidateEdges q =
      (rows.filterMap fromRow).filter (isCandidate q) := by
  cases hrole : q.association.endpointRole with
  | source | target =>
    simp only [candidateEdges, hrole, fromRows, indexBy_apply, filterMap_indexesOf]
    refine filter_congr fun edge _ => ?_
    simp [isCandidate, hrole, sourceKey, targetKey, associationEndpointMatches, Bool.and_assoc]
  | either =>
    simp only [candidateEdges, hrole, fromRows, indexBy_apply, filterMap_extend]
    refine filter_congr fun edge _ => ?_
    simp [isCandidate, hrole, sourceKey, targetKey, associationEndpointMatches, Bool.and_assoc,
      Bool.and_or_distrib_left]
  | unknown =>
    simp [candidateEdges, isCandidate, hrole, associationEndpointMatches]

/-- What is found is among the candidates. -/
theorem foundEdges_fromRows :
    (fromRows times rows).foundEdges q =
      (rows.filterMap fromRow).filter
        ((fromRows times rows).isFound q) := by
  rw [foundEdges, candidateEdges_fromRows, filter_filter]
  refine filter_congr fun edge _ => ?_
  cases hfound : (fromRows times rows).isFound q edge with
  | false => rfl
  | true =>
    have hmatch := (Bool.and_eq_true_iff.mp hfound).1
    simp only [isMatch, Bool.and_eq_true] at hmatch
    simp [isCandidate, hmatch]

theorem oppositeEndpointKey_fromRow (h : fromRow row = some edge)
    (hscanned : row.isScanned times q) :
    edge.oppositeEndpointKey times q = row.oppositeKey q := by
  have hfile : edge.datasetFileOrdinal = row.datasetFileOrdinal := by
    obtain ⟨source, -, h⟩ := Option.bind_eq_some_iff.mp h
    obtain ⟨target, -, rfl⟩ := Option.map_eq_some_iff.mp h
    rfl
  have hmatch : edge.isMatch times q :=
    (isMatch_fromRow h).trans (Bool.and_eq_true_iff.mp hscanned).1
  rw [oppositeEndpointKey, oppositeKey, oppositeEndpoint_fromRow h hmatch, hfile]

/-- The look-ups of an edge table answer like a scan of the rows. -/
theorem lookups_scan (times : EdgeTimes) (q : EdgeLookup) (rows : List MaterializedAssociationRow) :
    let table := fromRows times rows
    let scanned := rows.filter fun row => row.isScanned times q
    table.foundEdges q = scanned.filterMap fromRow ∧
      table.countForScoped q = scanned.length ∧
      (table.existsForScoped q ↔ scanned ≠ []) ∧
      ∀ key, key ∈ table.oppositeEndpointsForScoped q ↔
        ∃ row ∈ scanned, row.oppositeKey q = some key := by
  intro table scanned
  have hscanned {row} (hrow : row ∈ scanned) : row.isScanned times q :=
    (mem_filter.mp hrow).2
  have hedges : table.foundEdges q = scanned.filterMap fromRow := by
    rw [foundEdges_fromRows, filter_filterMap, filterMap_filter]
    refine filterMap_congr fun row _ => ?_
    cases h : fromRow row with
    | none => simp
    | some edge => rw [Option.filter_some, isFound_fromRow h]
  have hcount : table.countForScoped q = scanned.length := by
    rw [countForScoped, hedges, filterMap_length_eq_length]
    intro row hrow
    exact Option.isSome_iff_exists.mpr (exists_fromRow (hscanned hrow))
  refine ⟨hedges, hcount, ?_, fun key => ?_⟩
  · rw [existsForScoped, any_eq_true, ← length_pos_iff, ← hcount, countForScoped,
      foundEdges, length_pos_iff_exists_mem]
    simp only [mem_filter]
  · have hempty : key ∉ (OrderedSet.empty : OrderedSet String) := not_mem_nil
    rw [oppositeEndpointsForScoped, OrderedSet.mem_extend, hedges]
    simp only [hempty, or_false, mem_filterMap]
    constructor
    · rintro ⟨edge, ⟨row, hrow, hedge⟩, hkey⟩
      exact ⟨row, hrow, oppositeEndpointKey_fromRow hedge (hscanned hrow) ▸ hkey⟩
    · rintro ⟨row, hrow, hkey⟩
      obtain ⟨edge, hedge⟩ := exists_fromRow (hscanned hrow)
      exact ⟨edge, ⟨row, hrow, hedge⟩,
        (oppositeEndpointKey_fromRow hedge (hscanned hrow)).trans hkey⟩

end

end CoveFormat.AssociationEdges
