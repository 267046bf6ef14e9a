import CoveFormat.BetweennessScores
import CoveFormat.ConnectedComponents
import CoveFormat.MinWeightForests
import CoveFormat.PageRanks
import CoveFormat.ReachableDistances
import CoveFormat.TriangleCounts

namespace CoveFormat.GraphAlgorithms

open BetweennessScores ExceptRules GraphAdjacencies MinWeightForests Option OrderedMaps
  OrderedSets PageRanks ReachableDistances Relation SearchForests TriangleCounts WhileLoops
open CoveFormat.ConnectedComponents

inductive GraphAlgorithmOutput
  | reachable (reachable : Bool) (reachableCount : ℕ)
  | shortestPath (shortestDistance : Option ℕ)
  | connectedComponent (componentId : ℕ)
  | degree (outDegree inDegree degree : ℕ)
  | pageRank (pagerank : ℚ)
  | hits (authority hub : ℚ)
  | centrality (centrality : ℚ)
  | triangleCount (triangleCount : ℕ)
  | clusteringCoefficient (clusteringCoefficient : ℚ)
  | community (communityId : ℕ)
  | spanningTree (treeParent : Option String) (treeDepth : ℕ)
  deriving DecidableEq

def epsilon : ℚ := 1 / 2 ^ 52

section

variable {α : Type} [LinearOrder α]

def outDegree (adjacency : GraphAdjacency α) (node : α) : ℕ :=
  ((adjacency.outgoing.get node).map List.length).getD 0

def inDegree (adjacency : GraphAdjacency α) (node : α) : ℕ :=
  ((adjacency.incoming.get node).map List.length).getD 0

/-- The square root of the doubles is a parameter. -/
def normalizeScores (sqrt : ℚ → ℚ) (scores : OrderedMap α ℚ) : OrderedMap α ℚ :=
  let norm := sqrt (scores.values.map fun value => value * value).sum
  if norm ≤ epsilon then scores else scores.mapValues (· / norm)

def collectScores (nodes : OrderedSet α) (neighbours : α → List α) (scores : OrderedMap α ℚ) :
    OrderedMap α ℚ :=
  .fill nodes fun node => (((neighbours node).filter (· ∈ nodes)).map (PageRanks.scoreOf scores)).sum

def hitsIterations (sqrt : ℚ → ℚ) (adjacency : GraphAdjacency α) (nodes : OrderedSet α) (tolerance : ℚ) :
    ℕ → OrderedMap α ℚ × OrderedMap α ℚ → OrderedMap α ℚ × OrderedMap α ℚ
  | 0, scores => scores
  | iterations + 1, (authority, hub) =>
    let nextAuthority := normalizeScores sqrt (collectScores nodes adjacency.sources hub)
    let nextHub := normalizeScores sqrt (collectScores nodes adjacency.targets nextAuthority)
    let delta := (nodes.elems.map fun node =>
      |PageRanks.scoreOf nextAuthority node - PageRanks.scoreOf authority node| +
        |PageRanks.scoreOf nextHub node - PageRanks.scoreOf hub node|).sum
    if delta ≤ tolerance then (nextAuthority, nextHub)
    else hitsIterations sqrt adjacency nodes tolerance iterations (nextAuthority, nextHub)

def graphHitsScores (sqrt : ℚ → ℚ) (adjacency : GraphAdjacency α) (nodes : OrderedSet α)
    (spec : GraphAlgorithmSpec) : OrderedMap α (ℚ × ℚ) :=
  let (authority, hub) := hitsIterations sqrt adjacency nodes spec.tolerance spec.maxIterations
    (.fill nodes fun _ => 1, .fill nodes fun _ => 1)
  .fill nodes fun node => (PageRanks.scoreOf authority node, PageRanks.scoreOf hub node)

def graphDegreeCentrality (adjacency : GraphAdjacency α) (node : α) (nodeCount : ℕ) : ℚ :=
  if nodeCount ≤ 1 then 0
  else (outDegree adjacency node + inDegree adjacency node : ℕ) / (nodeCount - 1 : ℕ)

def graphClosenessCentrality (adjacency : GraphAdjacency α) (start : α) (nodeCount : ℕ)
    (spec : GraphAlgorithmSpec) (budget : GraphExecutionBudget) (clock : ℕ) :
    Except (Option GraphExecutionError) (ℚ × ℕ) :=
  if nodeCount ≤ 1 then .ok (0, clock)
  else do
    let (reachable, clock) ← graphReachableDistances adjacency start spec.maxDepth spec.maxPaths budget clock
    let distanceSum := (reachable.values.map fun distance => (distance : ℚ)).sum
    if distanceSum ≤ epsilon then .ok (0, clock)
    else .ok (reachable.entries.length / distanceSum, clock)

def commonestLabel (counts : OrderedMap ℕ ℕ) : Option ℕ :=
  (counts.entries.foldl (fun (best : Option (ℕ × ℕ)) entry =>
    match best with
    | none => some entry
    | some best => if entry.2 < best.2 ∨ entry.2 = best.2 ∧ best.1 < entry.1 then some best else some entry)
    none).map Prod.fst

def countLabels (labels : OrderedMap α ℕ) (neighbours : List α) : OrderedMap ℕ ℕ :=
  neighbours.foldl (fun counts neighbour =>
    match labels.get neighbour with
    | none => counts
    | some label => counts.entryOr label 0 (· + 1)) .empty

def relabel (adjacency : GraphAdjacency α) (labels : OrderedMap α ℕ) (s : OrderedMap α ℕ × Bool) (node : α) :
    OrderedMap α ℕ × Bool :=
  match commonestLabel (countLabels labels (adjacency.targets node ++ adjacency.sources node)) with
  | none => s
  | some label => if s.1.get node ≠ some label then (s.1.insert node label, true) else s

def propagateLabels (adjacency : GraphAdjacency α) (nodes : OrderedSet α) :
    ℕ → OrderedMap α ℕ → OrderedMap α ℕ
  | 0, labels => labels
  | iterations + 1, labels =>
    let (next, changed) := nodes.elems.foldl (relabel adjacency labels) (labels, false)
    if changed then propagateLabels adjacency nodes iterations next else next

def graphLabelPropagationCommunities (adjacency : GraphAdjacency α) (nodes : OrderedSet α)
    (maxIterations : ℕ) : OrderedMap α ℕ :=
  propagateLabels adjacency nodes (max maxIterations 1)
    (.fill nodes fun node => nodes.elems.idxOf node + 1)

def graphSpanningForest (adjacency : GraphAdjacency α) (nodes : OrderedSet α) (variant : String)
    (weightedEdges : List (GraphWeightedEdge α ℚ)) (budget : GraphExecutionBudget) (clock : ℕ) :
    Except (Option GraphExecutionError) (Forest α × ℕ) :=
  if variant = "min_weight" then graphMinWeightSpanningForest nodes weightedEdges budget clock
  else (orOutOfFuel (graphSearchSpanningForest adjacency nodes (variant = "dfs"))).map (·, clock)

end

def communityIdFor (goid : String) : ℕ :=
  goid.toUTF8.toList.foldl (fun acc byte => (acc * 31 % 2 ^ 64 + byte.toNat) % 2 ^ 64) 0

/-- What is computed once for all start nodes, each for the algorithms that need it. -/
structure Prepared where
  graphNodes : OrderedSet String
  componentIds : Option (OrderedMap String ℕ)
  betweennessScores : Option (OrderedMap String ℚ)
  communityIds : Option (OrderedMap String ℕ)
  spanningForest : Option (Forest String)
  pagerankScores : Option (OrderedMap String ℚ)
  hitsScores : Option (OrderedMap String (ℚ × ℚ))

def whereNeeded {ε σ : Type} (needed : Bool) (step : Except ε σ) : Except ε (Option σ) :=
  if needed then step.map some else .ok none

def prepare (sqrt : ℚ → ℚ) (adjacency : GraphAdjacency String) (startNodes : OrderedSet String)
    (spec : GraphAlgorithmSpec) (weightedEdges : List (GraphWeightedEdge String ℚ))
    (budget : GraphExecutionBudget) : Except (Option GraphExecutionError) (Prepared × ℕ) := do
  let graphNodes := graphAlgorithmNodes adjacency startNodes
  let componentIds ← whereNeeded (spec.kind = .connectedComponents ∨ spec.kind = .community)
    (orOutOfFuel (graphComponentIds adjacency spec.variant))
  let betweennessScores ← whereNeeded (spec.kind = .centrality ∧ spec.variant = "betweenness")
    (orOutOfFuel (graphBetweennessCentralityScores adjacency graphNodes))
  let communityIds :=
    if spec.kind = .community ∧ spec.variant = "label_propagation" then
      some (graphLabelPropagationCommunities adjacency graphNodes spec.maxIterations)
    else none
  let spanningForest ← whereNeeded (spec.kind = .spanningTree)
    (graphSpanningForest adjacency graphNodes spec.variant weightedEdges budget 0)
  let pagerankScores :=
    if spec.kind = .pageRank then some (graphPagerankScores adjacency graphNodes spec) else none
  let hitsScores :=
    if spec.kind = .hits then some (graphHitsScores sqrt adjacency graphNodes spec) else none
  .ok (⟨graphNodes, componentIds, betweennessScores, communityIds, spanningForest.map Prod.fst,
    pagerankScores, hitsScores⟩, (spanningForest.map Prod.snd).getD 0)

def lookUp {ν : Type} (scores : Option (OrderedMap String ν)) (node : String) : Option ν :=
  scores.bind fun scores => scores.get node

def centralityOf (adjacency : GraphAdjacency String) (spec : GraphAlgorithmSpec) (prepared : Prepared)
    (budget : GraphExecutionBudget) (start : String) (clock : ℕ) :
    Except (Option GraphExecutionError) (ℚ × ℕ) :=
  let nodeCount := prepared.graphNodes.elems.length
  if spec.variant = "degree" then .ok (graphDegreeCentrality adjacency start nodeCount, clock)
  else if spec.variant = "betweenness" then .ok ((lookUp prepared.betweennessScores start).getD 0, clock)
  else graphClosenessCentrality adjacency start nodeCount spec budget clock

def outputFor (adjacency : GraphAdjacency String) (spec : GraphAlgorithmSpec)
    (targetNodes : Option (Finset String)) (prepared : Prepared) (budget : GraphExecutionBudget)
    (start : String) (clock : ℕ) :
    Except (Option GraphExecutionError) (Option GraphAlgorithmOutput × ℕ) := do
  (budget.checkTime clock).mapError some
  let (reachable, clock) ←
    graphReachableDistances adjacency start spec.maxDepth spec.maxPaths budget (clock + 1)
  match spec.kind with
  | .reachable =>
    .ok (some (.reachable (!reachable.entries.isEmpty) reachable.entries.length), clock)
  | .shortestPath => .ok (some (.shortestPath (shortestTargetDistance reachable targetNodes)), clock)
  | .connectedComponents =>
    .ok (some (.connectedComponent ((lookUp prepared.componentIds start).getD 0)), clock)
  | .degree =>
    let outDegree := outDegree adjacency start
    let inDegree := inDegree adjacency start
    let degree :=
      if spec.variant = "in" then inDegree
      else if spec.variant = "total" then outDegree + inDegree
      else outDegree
    .ok (some (.degree outDegree inDegree degree), clock)
  | .pageRank => .ok (some (.pageRank ((lookUp prepared.pagerankScores start).getD 0)), clock)
  | .hits =>
    let (authority, hub) := (lookUp prepared.hitsScores start).getD (0, 0)
    .ok (some (.hits authority hub), clock)
  | .centrality => do
      let (centrality, clock) ← centralityOf adjacency spec prepared budget start clock
      .ok (some (.centrality centrality), clock)
  | .triangleCount => .ok (some (.triangleCount (triangleCountFor adjacency start)), clock)
  | .clusteringCoefficient =>
    .ok (some (.clusteringCoefficient (clusteringCoefficientFor adjacency start)), clock)
  | .community =>
    .ok (some (.community (((lookUp prepared.communityIds start).or
      (lookUp prepared.componentIds start)).getD (communityIdFor start))), clock)
  | .spanningTree =>
    let (treeParent, treeDepth) := (lookUp prepared.spanningForest start).getD (none, 0)
    .ok (some (.spanningTree treeParent treeDepth), clock)
  | .allPaths | .kShortestPaths => .ok (none, clock)

def outputsFor (adjacency : GraphAdjacency String) (spec : GraphAlgorithmSpec)
    (targetNodes : Option (Finset String)) (prepared : Prepared) (budget : GraphExecutionBudget) :
    List String → OrderedMap String GraphAlgorithmOutput → ℕ →
      Except (Option GraphExecutionError) (OrderedMap String GraphAlgorithmOutput)
  | [], out, _ => .ok out
  | start :: starts, out, clock => do
      let (output, clock) ← outputFor adjacency spec targetNodes prepared budget start clock
      outputsFor adjacency spec targetNodes prepared budget starts
        (output.elim out fun output => out.insert start output) clock

def runGraphAlgorithm (sqrt : ℚ → ℚ) (adjacency : GraphAdjacency String)
    (startNodes : OrderedSet String) (spec : GraphAlgorithmSpec) (targetNodes : Option (Finset String))
    (weightedEdges : List (GraphWeightedEdge String ℚ)) (budget : GraphExecutionBudget) :
    Except (Option GraphExecutionError) (OrderedMap String GraphAlgorithmOutput) := do
  let (prepared, clock) ← prepare sqrt adjacency startNodes spec weightedEdges budget
  outputsFor adjacency spec targetNodes prepared budget startNodes.elems .empty clock

section

variable {sqrt : ℚ → ℚ} {adjacency : GraphAdjacency String} {startNodes : OrderedSet String}
  {spec : GraphAlgorithmSpec} {targetNodes : Option (Finset String)} {prepared : Prepared}
  {budget : GraphExecutionBudget} {clock : ℕ} {start : String} {starts : List String}
  {out out' : OrderedMap String GraphAlgorithmOutput} {f : String → GraphAlgorithmOutput}

theorem outputsFor_get (hout : ∀ start clock r,
      outputFor adjacency spec targetNodes prepared budget start clock = .ok r → r.1 = some (f start))
    (h : outputsFor adjacency spec targetNodes prepared budget starts out clock = .ok out') (a : String) :
    out'.get a = if a ∈ starts then some (f a) else out.get a := by
  induction starts generalizing out clock with
  | nil =>
    cases h
    simp
  | cons start starts ih =>
    obtain ⟨⟨output, clock'⟩, hone, hrest⟩ := bind_eq_ok_iff.mp h
    obtain rfl : output = some (f start) := hout start clock _ hone
    rw [ih hrest, elim_some, OrderedMap.get_insert]
    by_cases ha : a ∈ starts
    · simp [ha]
    · by_cases heq : start = a
      · simp [ha, heq]
      · simp [ha, heq, Ne.symm heq]

theorem outputsFor_ends (hends : ∀ start clock,
      outputFor adjacency spec targetNodes prepared budget start clock ≠ .error none) :
    outputsFor adjacency spec targetNodes prepared budget starts out clock ≠ .error none := by
  induction starts generalizing out clock with
  | nil => exact nofun
  | cons start starts ih =>
    intro h
    rcases andThen_eq_error h with hone | ⟨⟨output, clock'⟩, -, h⟩
    · exact hends start clock hone
    · exact ih h

theorem checkTime_ne (budget : GraphExecutionBudget) (clock : ℕ) :
    (budget.checkTime clock).mapError some ≠ .error none := by
  intro h
  cases hcheck : budget.checkTime clock with
  | error e | ok u =>
    rw [hcheck] at h
    cases h

section

variable (hkind : spec.kind = .connectedComponents)
include hkind

theorem outputFor_component {start : String} {clock : ℕ} {r : Option GraphAlgorithmOutput × ℕ}
    (h : outputFor adjacency spec targetNodes prepared budget start clock = .ok r) :
    r.1 = some (.connectedComponent ((lookUp prepared.componentIds start).getD 0)) := by
  obtain ⟨-, -, h⟩ := bind_eq_ok_iff.mp h
  obtain ⟨⟨reachable, clock'⟩, -, h⟩ := bind_eq_ok_iff.mp h
  rw [hkind] at h
  cases h
  rfl

theorem outputFor_ends (start : String) (clock : ℕ) :
    outputFor adjacency spec targetNodes prepared budget start clock ≠ .error none := by
  intro h
  rcases andThen_eq_error h with hcheck | ⟨-, -, h⟩
  · exact checkTime_ne budget clock hcheck
  · rcases andThen_eq_error h with hreach | ⟨⟨reachable, clock'⟩, -, h⟩
    · exact graphReachableDistances_ends _ _ _ _ _ _ hreach
    · dsimp only at h
      rw [hkind] at h
      cases h

end

theorem prepare_component (sqrt : ℚ → ℚ) (startNodes : OrderedSet String)
    (budget : GraphExecutionBudget) (h : adjacency.Normalized) (hkind : spec.kind = .connectedComponents)
    (weightedEdges : List (GraphWeightedEdge String ℚ)) : ∃ components,
      graphComponentIds adjacency spec.variant = some components ∧
      prepare sqrt adjacency startNodes spec weightedEdges budget =
        .ok (⟨graphAlgorithmNodes adjacency startNodes, some components, none, none, none, none,
          none⟩, 0) := by
  obtain ⟨components, hcomponents, -⟩ := graphComponentIds_spec h spec.variant
  refine ⟨components, hcomponents, ?_⟩
  rw [prepare, hcomponents]
  simp only [hkind]
  rfl

theorem getD_lookUp {components : OrderedMap String ℕ}
    (hsome : ∀ a, (components.get a).isSome ↔ ¬ Isolated adjacency a)
    (hpositive : ∀ a n, components.get a = some n → 0 < n) (a : String) :
    (components.get a).getD 0 = 0 ↔ Isolated adjacency a := by
  have ha := hsome a
  cases hget : components.get a with
  | none => simpa [hget] using ha
  | some n =>
    have hn := hpositive a n hget
    rw [hget] at ha
    exact iff_of_false (Nat.pos_iff_ne_zero.mp hn) (ha.mp rfl)

/-- The finish-order search and the whole run end on every graph. Two start nodes get one number
where they are connected; the nodes without an edge all get zero, which no other node gets. -/
theorem runGraphAlgorithm_component (h : adjacency.Normalized)
    (hkind : spec.kind = .connectedComponents) (sqrt : ℚ → ℚ) (startNodes : OrderedSet String)
    (targetNodes : Option (Finset String)) (weightedEdges : List (GraphWeightedEdge String ℚ))
    (budget : GraphExecutionBudget) :
    (∃ marks, FinishOrders.visitAll
        (graphSccFinishOrder adjacency ((graphAlgorithmNodes adjacency .empty).elems.length + 1))
        (graphAlgorithmNodes adjacency .empty).elems ⟨∅, []⟩ = some marks) ∧
      runGraphAlgorithm sqrt adjacency startNodes spec targetNodes weightedEdges budget ≠ .error none ∧
      ∀ out, runGraphAlgorithm sqrt adjacency startNodes spec targetNodes weightedEdges budget = .ok out →
        ∀ a ∈ startNodes, ∀ b ∈ startNodes, ∃ m n,
          out.get a = some (.connectedComponent m) ∧ out.get b = some (.connectedComponent n) ∧
          (m = n ↔ SameComponent adjacency spec.variant a b ∨
            Isolated adjacency a ∧ Isolated adjacency b) := by
  obtain ⟨marks, hmarks, -⟩ := finish_order h
  obtain ⟨components, hcomponents, hprepare⟩ :=
    prepare_component sqrt startNodes budget h hkind weightedEdges
  have hrun : runGraphAlgorithm sqrt adjacency startNodes spec targetNodes weightedEdges budget =
      outputsFor adjacency spec targetNodes
        ⟨graphAlgorithmNodes adjacency startNodes, some components, none, none, none, none, none⟩ budget
        startNodes.elems .empty 0 := by
    rw [runGraphAlgorithm, hprepare]
    rfl
  refine ⟨⟨marks, hmarks⟩, hrun ▸ outputsFor_ends (outputFor_ends hkind), fun out hout a ha b hb => ?_⟩
  rw [hrun] at hout
  have hget := outputsFor_get (fun _ _ _ => outputFor_component hkind) hout
  refine ⟨(components.get a).getD 0, (components.get b).getD 0, (hget a).trans (if_pos ha),
    (hget b).trans (if_pos hb), ?_⟩
  obtain ⟨components', hcomponents', hsome, hpositive, hsame⟩ := graphComponentIds_spec h spec.variant
  obtain rfl := some.inj (hcomponents'.symm.trans hcomponents)
  have hzero := getD_lookUp hsome hpositive
  by_cases hia : Isolated adjacency a
  · rw [(hzero a).mpr hia, eq_comm, hzero]
    refine ⟨fun hib => .inr ⟨hia, hib⟩, ?_⟩
    rintro (heq | ⟨-, hib⟩)
    · exact eq_of_isolated hia heq ▸ hia
    · exact hib
  · rw [or_iff_left fun hboth => hia hboth.1]
    by_cases hib : Isolated adjacency b
    · rw [(hzero b).mpr hib, hzero]
      refine iff_of_false hia fun heq => hia ?_
      exact eq_of_isolated hib ((sameComponent_equivalence adjacency spec.variant).symm heq) ▸ hib
    · obtain ⟨m, hm⟩ := isSome_iff_exists.mp ((hsome a).mpr hia)
      obtain ⟨n, hn⟩ := isSome_iff_exists.mp ((hsome b).mpr hib)
      have := hsame a b hia hib
      rw [hm, hn, some.injEq] at this
      rw [hm, hn, getD_some, getD_some]
      exact this

/-- Two start nodes get one component id exactly where they are connected. -/
def DecidesConnectivity (adjacency : GraphAdjacency String) (variant : String)
    (startNodes : OrderedSet String) (out : OrderedMap String GraphAlgorithmOutput) : Prop :=
  ∀ a ∈ startNodes, ∀ b ∈ startNodes, ∃ m n,
    out.get a = some (.connectedComponent m) ∧ out.get b = some (.connectedComponent n) ∧
      (m = n ↔ SameComponent adjacency variant a b)

/-- The finish-order search and the run end on every graph, and the ids decide connectivity exactly
of start nodes of which at most one has no edge. -/
theorem decidesConnectivity_iff (h : adjacency.Normalized) (hkind : spec.kind = .connectedComponents)
    (sqrt : ℚ → ℚ) (startNodes : OrderedSet String) (targetNodes : Option (Finset String))
    (weightedEdges : List (GraphWeightedEdge String ℚ)) (budget : GraphExecutionBudget) :
    (∃ marks, FinishOrders.visitAll
        (graphSccFinishOrder adjacency ((graphAlgorithmNodes adjacency .empty).elems.length + 1))
        (graphAlgorithmNodes adjacency .empty).elems ⟨∅, []⟩ = some marks) ∧
      runGraphAlgorithm sqrt adjacency startNodes spec targetNodes weightedEdges budget ≠ .error none ∧
      ∀ out, runGraphAlgorithm sqrt adjacency startNodes spec targetNodes weightedEdges budget = .ok out →
        (DecidesConnectivity adjacency spec.variant startNodes out ↔
          ∀ a ∈ startNodes, ∀ b ∈ startNodes, Isolated adjacency a → Isolated adjacency b → a = b) := by
  obtain ⟨hmarks, hends, hids⟩ :=
    runGraphAlgorithm_component h hkind sqrt startNodes targetNodes weightedEdges budget
  refine ⟨hmarks, hends, fun out hout => ?_⟩
  constructor
  · intro hdecides a ha b hb hia hib
    obtain ⟨m, n, hm, hn, hsame⟩ := hids out hout a ha b hb
    obtain ⟨m', n', hm', hn', hconnected⟩ := hdecides a ha b hb
    cases hm.symm.trans hm'
    cases hn.symm.trans hn'
    exact eq_of_isolated hia (hconnected.mp (hsame.mpr (.inr ⟨hia, hib⟩)))
  · intro hone a ha b hb
    obtain ⟨m, n, hm, hn, hsame⟩ := hids out hout a ha b hb
    refine ⟨m, n, hm, hn, hsame.trans (or_iff_left_of_imp ?_)⟩
    rintro ⟨hia, hib⟩
    exact hone a ha b hb hia hib ▸ (sameComponent_equivalence adjacency spec.variant).refl a

def componentSpec (variant : String) : GraphAlgorithmSpec :=
  ⟨.connectedComponents, variant, 8, 100, 20, 0⟩

def oneEdge : List (GraphEdge String) := [⟨"ab", "a", "b"⟩]

def fourNodes : OrderedSet String := ⟨["a", "b", "x", "y"], by decide +kernel⟩

theorem oneEdge_isolated {a : String} (ha : a ≠ "a") (hb : a ≠ "b") :
    Isolated (GraphAdjacency.fromEdges oneEdge) a := by
  intro b
  constructor
  · rw [edge_fromEdges]
    rintro ⟨edge, hedge, rfl, -⟩
    obtain rfl := List.mem_singleton.mp hedge
    exact ha rfl
  · rw [edge_fromEdges]
    rintro ⟨edge, hedge, -, rfl⟩
    obtain rfl := List.mem_singleton.mp hedge
    exact hb rfl

def threeNodes : OrderedSet String := ⟨["a", "b", "x"], by decide +kernel⟩

theorem decidesConnectivity_iff_oneEdge : ∃ out,
    runGraphAlgorithm id (GraphAdjacency.fromEdges oneEdge) threeNodes (componentSpec "weak") none []
        idleBudget = .ok out ∧
      DecidesConnectivity (GraphAdjacency.fromEdges oneEdge) "weak" threeNodes out := by
  have hcode : (runGraphAlgorithm id (GraphAdjacency.fromEdges oneEdge) threeNodes (componentSpec "weak")
      none [] idleBudget).toOption.isSome := by decide +kernel
  obtain ⟨out, hout⟩ := isSome_iff_exists.mp hcode
  have hrun := toOption_eq_some_iff.mp hout
  obtain ⟨-, -, hiff⟩ := decidesConnectivity_iff (fromEdges_normalized oneEdge)
    (rfl : (componentSpec "weak").kind = .connectedComponents) id threeNodes none [] idleBudget
  have hab : (GraphAdjacency.fromEdges oneEdge).Edge "a" "b" :=
    edge_fromEdges.mpr ⟨_, List.mem_singleton.mpr rfl, rfl, rfl⟩
  have hx : ∀ a ∈ threeNodes, Isolated (GraphAdjacency.fromEdges oneEdge) a → a = "x" := by
    intro a ha hisolated
    have hmem : a ∈ ["a", "b", "x"] := ha
    simp only [List.mem_cons, List.not_mem_nil, or_false] at hmem
    rcases hmem with rfl | rfl | rfl
    · exact absurd hab (hisolated "b").1
    · exact absurd hab (hisolated "a").2
    · rfl
  exact ⟨out, hrun, (hiff out hrun).mpr fun a ha b hb hia hib => (hx a ha hia).trans (hx b hb hib).symm⟩

/-- The two nodes without an edge get the same number, and are not connected. -/
theorem isolated_same_number : ∃ out,
    runGraphAlgorithm id (GraphAdjacency.fromEdges oneEdge) fourNodes (componentSpec "weak") none []
        idleBudget = .ok out ∧
      out.get "x" = some (.connectedComponent 0) ∧ out.get "y" = some (.connectedComponent 0) ∧
      ¬ SameComponent (GraphAdjacency.fromEdges oneEdge) "weak" "x" "y" := by
  have hcode : (runGraphAlgorithm id (GraphAdjacency.fromEdges oneEdge) fourNodes (componentSpec "weak")
      none [] idleBudget).toOption.map (fun out => (out.get "x", out.get "y")) =
        some (some (.connectedComponent 0), some (.connectedComponent 0)) := by decide +kernel
  obtain ⟨out, hout, hget⟩ := map_eq_some_iff.mp hcode
  obtain ⟨hx, hy⟩ := Prod.mk.inj hget
  refine ⟨out, toOption_eq_some_iff.mp hout, hx, hy, fun hsame => ?_⟩
  exact absurd (eq_of_isolated (oneEdge_isolated (by decide) (by decide)) hsame) (by decide)

end

end CoveFormat.GraphAlgorithms
