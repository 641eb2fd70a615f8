import CommonSubgraph.Proofs.Graph.Incidence
import CommonSubgraph.Proofs.Graph.Vertices
import CommonSubgraph.Search.Level

/-!
# Searches that see the same counts

A search never looks at an edge: it counts the edges between two vertices and hands their names to
the predicate. Graphs that have the same values at their vertices and the same counts
(`Graph.SameCounts`) may differ in the numbers of their edges, in what these carry, in the order in
which vertices list them and in what was erased before. With a caller whose answers on the two pairs
of graphs are the same, whatever edges it is shown (`Problem.SameAnswers`), the two searches are one
program (`Problem.SameAnswers.search_eq`).
-/

namespace CommonSubgraph

variable {ν ε ε' σ : Type}

/-! ## Graphs with the same counts -/

namespace Graph

/-- The vertices carry the same values, and there are as many edges from one to another. -/
structure SameCounts (g : Graph ν ε) (h : Graph ν ε') : Prop where
  values_eq : h.vertices.map Vertex.value = g.vertices.map Vertex.value
  countBetween_eq : ∀ s ∈ g.vertexIds, ∀ t ∈ g.vertexIds, h.countBetween s t = g.countBetween s t

variable {g : Graph ν ε} {h : Graph ν ε'} {s t : VertexId}

/-- Looking up the edges of something that is no vertex fails. -/
theorem edgesBetween_of_not_contains (g : Graph ν ε) (hs : ¬ g.containsVertex s = true)
    (t : VertexId) : g.edgesBetween s t = .error .indexOutOfRange := by
  have hnone : g.findVertex s = none :=
    Array.getElem?_eq_none (Nat.le_of_not_lt (mt containsVertex_iff.mpr hs))
  rw [edgesBetween, vertex, hnone]
  rfl

/-- No edge leads to a vertex that is missing. -/
theorem WellFormed.joining_of_not_contains (hg : g.WellFormed) (s : VertexId)
    (ht : ¬ g.containsVertex t = true) : g.joining s t = [] := by
  refine List.filter_eq_nil_iff.mpr fun e he htarget => ht (containsVertex_iff.mpr ?_)
  obtain ⟨x, hx, -⟩ := hg.mem_outEdges_iff.mp he
  rw [decide_eq_true_iff, target?, hx] at htarget
  exact Option.some.inj htarget ▸ hg.target_lt_of_findEdge hx

/-- Two look-ups of edges fail alike or find equally many. -/
inductive FoundAlike : Except Fault (List EdgeId) → Except Fault (List EdgeId) → Prop where
  | error (f : Fault) : FoundAlike (.error f) (.error f)
  | ok {es es' : List EdgeId} (h : es'.length = es.length) : FoundAlike (.ok es) (.ok es')

/-- Look-ups that count equally many edges find alike. -/
theorem foundAlike_of_countBetween_eq (heq : h.countBetween s t = g.countBetween s t) :
    FoundAlike (g.edgesBetween s t) (h.edgesBetween s t) := by
  simp only [countBetween] at heq
  cases hg : g.edgesBetween s t with
  | error f =>
    cases hh : h.edgesBetween s t with
    | error f' =>
      rw [hg, hh] at heq
      cases heq
      exact .error f
    | ok es' =>
      rw [hg, hh] at heq
      cases heq
  | ok es =>
    cases hh : h.edgesBetween s t with
    | error f' =>
      rw [hg, hh] at heq
      cases heq
    | ok es' =>
      rw [hg, hh] at heq
      exact .ok (Except.ok.inj heq)

namespace SameCounts

/-- Graphs with the same counts have as many vertices as each other. -/
theorem vertexCount_eq (hs : g.SameCounts h) : h.vertexCount = g.vertexCount := by
  simpa [vertexCount] using congrArg Array.size hs.values_eq

/-- Graphs with the same counts have the same vertices. -/
theorem containsVertex_eq (hs : g.SameCounts h) (v : VertexId) :
    h.containsVertex v = g.containsVertex v := by
  rw [containsVertex, containsVertex, hs.vertexCount_eq]

/-- Edges are found alike between any two vertices, missing ones included. -/
theorem foundAlike (hs : g.SameCounts h) (hg : g.WellFormed) (hh : h.WellFormed) (s t : VertexId) :
    FoundAlike (g.edgesBetween s t) (h.edgesBetween s t) := by
  by_cases hsource : g.containsVertex s = true
  · by_cases htarget : g.containsVertex t = true
    · exact foundAlike_of_countBetween_eq <| hs.countBetween_eq s
        ((mem_vertexIds_iff hg).mpr hsource) t ((mem_vertexIds_iff hg).mpr htarget)
    · rw [edgesBetween_eq_joining hg hsource, hg.joining_of_not_contains s htarget,
        edgesBetween_eq_joining hh ((hs.containsVertex_eq s).trans hsource),
        hh.joining_of_not_contains s (hs.containsVertex_eq t ▸ htarget)]
      exact .ok rfl
  · rw [edgesBetween_of_not_contains g hsource,
      edgesBetween_of_not_contains h (hs.containsVertex_eq s ▸ hsource)]
    exact .error _

/-- Graphs with the same counts have the same values at their vertices. -/
theorem map_value_findVertex (hs : g.SameCounts h) (v : VertexId) :
    (h.findVertex v).map Vertex.value = (g.findVertex v).map Vertex.value := by
  rw [findVertex, findVertex, ← Array.getElem?_map, hs.values_eq, Array.getElem?_map]

end SameCounts

end Graph

/-! ## Searches with the same answers -/

namespace Problem

open SearchM

/-- The graphs have the same counts of edges, the settings are the same, and the callers are one as
far as these graphs go, whatever edges they are asked about. -/
structure SameAnswers (P : Problem ν ε σ) (P' : Problem ν ε' σ) : Prop where
  first_count : P'.first.vertexCount = P.first.vertexCount
  second_count : P'.second.vertexCount = P.second.vertexCount
  first : ∀ s t, Graph.FoundAlike (P.first.edgesBetween s t) (P'.first.edgesBetween s t)
  second : ∀ s t, Graph.FoundAlike (P.second.edgesBetween s t) (P'.second.edgesBetween s t)
  config_eq : P'.config = P.config
  vertices : ∀ i j,
    P'.predicate.vertices P'.first i P'.second j = P.predicate.vertices P.first i P.second j
  edges : ∀ i₁ i₂ es₁ es₁' j₁ j₂ es₂ es₂',
    P'.predicate.edges P'.first i₁ i₂ es₁' P'.second j₁ j₂ es₂' =
      P.predicate.edges P.first i₁ i₂ es₁ P.second j₁ j₂ es₂
  progress : ∀ level, P'.predicate.progress level = P.predicate.progress level
  process : ∀ xs ys,
    P'.processor.process P'.first xs P'.second ys = P.processor.process P.first xs P.second ys

namespace SameAnswers

variable {P : Problem ν ε σ} {P' : Problem ν ε' σ} (h : P.SameAnswers P')

/-- What depends on the number of edges found only is the same after two look-ups that find edges
alike. -/
theorem check_bind_eq {α : Type} {r r' : Except Fault (List EdgeId)} (hr : Graph.FoundAlike r r')
    {k k' : List EdgeId → SearchM σ α}
    (hk : ∀ es es', es'.length = es.length → k' es' = k es) :
    (check r' >>= k') = (check r >>= k) := by
  cases hr with
  | error f => rfl
  | ok hlength => exact hk _ _ hlength

include h

/-- Whether two vertices are suitable is found out in the same way. -/
theorem suitable_eq : P'.suitable = P.suitable := by
  funext i j
  refine check_bind_eq (h.first i i) fun loops₁ loops₁' h₁ => ?_
  refine check_bind_eq (h.second j j) fun loops₂ loops₂' h₂ => ?_
  rw [h₁, h₂, h.vertices, h.edges i i loops₁ loops₁' j j loops₂ loops₂']

/-- Whether two vertices are compatible with a pair is found out in the same way. -/
theorem compatible_eq : P'.compatible = P.compatible := by
  funext i j iu ju
  refine check_bind_eq (h.first i iu) fun there₁ there₁' h₁ => ?_
  refine check_bind_eq (h.second j ju) fun there₂ there₂' h₂ => ?_
  rw [h₁, h₂]
  refine congrArg (ite _ _) ?_
  refine check_bind_eq (h.first iu i) fun back₁ back₁' h₃ => ?_
  refine check_bind_eq (h.second ju j) fun back₂ back₂' h₄ => ?_
  have hlength : (there₁' ++ back₁').length = (there₁ ++ back₁).length := by
    rw [List.length_append, List.length_append, h₁, h₃]
  have hlength' : (there₂' ++ back₂').length = (there₂ ++ back₂).length := by
    rw [List.length_append, List.length_append, h₂, h₄]
  have hempty : (there₁' ++ back₁').isEmpty = (there₁ ++ back₁).isEmpty := by
    rw [Bool.eq_iff_iff, List.isEmpty_iff_length_eq_zero, List.isEmpty_iff_length_eq_zero, hlength]
  rw [hlength, hlength', hempty,
    h.edges i iu (there₁ ++ back₁) (there₁' ++ back₁') j ju (there₂ ++ back₂) (there₂' ++ back₂')]

/-- The same sizes are acceptable. -/
theorem acceptable_eq : P'.acceptable = P.acceptable := by
  funext w
  rw [acceptable, acceptable, h.config_eq, h.first_count]

/-- The two searches take the same steps. -/
theorem steps_eq : P'.steps = P.steps := by
  have hfeasible : P'.feasible = P.feasible := by
    funext w map
    rw [feasible, feasible, needed, needed, h.config_eq, h.first_count]
  have hover : P'.handedOver = P.handedOver := by
    funext w
    rw [handedOver, handedOver, h.config_eq]
  simp only [steps, hfeasible, hover, h.progress]

section

variable {μ : Type} (S : Steps σ μ)

/-- The initial map is built in the same way. -/
theorem initialMap_eq : S.initialMap P' = S.initialMap P := by
  have hadd : S.addInitial P' = S.addInitial P := by
    funext i map j
    rw [Steps.addInitial, Steps.addInitial, h.suitable_eq]
  have hrow : S.addInitialRow P' = S.addInitialRow P := by
    funext map i
    rw [Steps.addInitialRow, Steps.addInitialRow, hadd]
  rw [Steps.initialMap, Steps.initialMap, hrow]

/-- Maps are refined in the same way. -/
theorem refine_eq : S.refine P' = S.refine P := by
  have hadd : S.addRefined P' = S.addRefined P := by
    funext i j iu map position
    rw [Steps.addRefined, Steps.addRefined, h.compatible_eq]
  have hrow : S.addRefinedRow P' = S.addRefinedRow P := by
    funext parent i j map iu
    rw [Steps.addRefinedRow, Steps.addRefinedRow, hadd]
  funext parent i j
  rw [Steps.refine, Steps.refine, hrow]

/-- Candidates are tried in the same way. -/
theorem tryCandidate_eq : S.tryCandidate P' = S.tryCandidate P := by
  funext map i deeper position
  simp only [Steps.tryCandidate, Steps.withRefined, h.refine_eq]

/-- Solutions are delivered in the same way. -/
theorem deliver_eq : S.deliver P' = S.deliver P := by
  simp only [Steps.deliver, h.acceptable_eq, h.process]

/-- Levels are searched in the same way. -/
theorem explore_eq (n : Nat) : S.explore P' n = S.explore P n := by
  induction n with
  | zero =>
    funext m level
    rw [Steps.explore, Steps.explore, h.deliver_eq]
  | succ n ih =>
    funext m level
    simp only [Steps.explore, Steps.level, h.tryCandidate_eq, h.deliver_eq, h.config_eq, ih]

end

/-- The searches are one program. -/
theorem search_eq : P'.search = P.search := by
  rw [search, search, h.steps_eq]
  simp only [Steps.search, h.initialMap_eq, h.explore_eq]

end SameAnswers

end Problem

end CommonSubgraph
