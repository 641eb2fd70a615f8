import CommonSubgraph.Proofs.Search.Answered
import CommonSubgraph.Proofs.Solver.Gathering

/-!
# Everything delivered is sound

Whatever the settings, whatever stops a run and whatever ran before, the processor is handed
nothing but isomorphisms between parts of the two graphs, of a size that is wanted
(`Solver.Reachable.deliveries_sound`). A level compares the newest pair only; that *every* two
pairs of a solution agree is what `IsPartialIso` carries from one level to the next.
-/

namespace CommonSubgraph

variable {ν ε σ : Type} {g₁ g₂ : Graph ν ε} {T : Tests} {c : Config}

/-- The solution pairs different vertices of the graphs, with as many edges between any two on one
side as on the other, as far as the tests accept it, and is of a size that is wanted. -/
structure Solution.Sound (g₁ g₂ : Graph ν ε) (T : Tests) (c : Config) (s : Solution) : Prop where
  length_eq : s.xs.length = s.ys.length
  nodup_xs : s.xs.Nodup
  nodup_ys : s.ys.Nodup
  mem_xs : ∀ i ∈ s.xs, g₁.containsVertex i = true
  mem_ys : ∀ j ∈ s.ys, g₂.containsVertex j = true
  count_eq : ∀ p ∈ s.pairs, ∀ q ∈ s.pairs,
    ∃ n, g₁.countBetween p.1 q.1 = .ok n ∧ g₂.countBetween p.2 q.2 = .ok n
  vertices : ∀ p ∈ s.pairs, T.vertices p.1 p.2 = true
  loops : ∀ p ∈ s.pairs,
    T.edges p.1 p.1 (g₁.touching p.1 p.1) p.2 p.2 (g₂.touching p.2 p.2) = true
  edges : s.pairs.Pairwise fun p q => g₁.touching p.1 q.1 ≠ [] →
    T.edges p.1 q.1 (g₁.touching p.1 q.1) p.2 q.2 (g₂.touching p.2 q.2) = true
  size_common : c.common = true → c.minimum ≤ s.size ∧ s.size ≤ c.maximum
  size_exact : c.common = false → s.size = g₁.vertexCount

/-- The edges counted between two vertices are those that join them. -/
theorem Graph.countBetween_eq_joining {g : Graph ν ε} (hg : g.WellFormed) {s : VertexId}
    (hs : g.containsVertex s = true) (t : VertexId) :
    g.countBetween s t = .ok (g.joining s t).length := by
  rw [countBetween, edgesBetween_eq_joining hg hs]
  rfl

/-- Partial isomorphisms of an acceptable size are sound. -/
theorem IsPartialIso.sound {pairs : List (VertexId × VertexId)} (h : IsPartialIso g₁ g₂ T pairs)
    (hg₁ : g₁.WellFormed) (hg₂ : g₂.WellFormed)
    (ha : c.Accepts g₁.vertexCount c.minimum pairs.length) :
    (Solution.ofPairs pairs).Sound g₁ g₂ T c where
  length_eq := by rw [Solution.ofPairs, List.length_map, List.length_map]
  nodup_xs := h.nodup_first
  nodup_ys := h.nodup_second
  mem_xs := List.forall_mem_map.mpr h.mem_first
  mem_ys := List.forall_mem_map.mpr h.mem_second
  count_eq := by
    rw [Solution.pairs_ofPairs]
    intro p hp q hq
    refine ⟨_, Graph.countBetween_eq_joining hg₁ (h.mem_first p hp) q.1, ?_⟩
    rw [h.length_joining_eq hp hq]
    exact Graph.countBetween_eq_joining hg₂ (h.mem_second p hp) q.2
  vertices := by
    rw [Solution.pairs_ofPairs]
    exact fun p hp => (h.suits p hp).2.1
  loops := by
    rw [Solution.pairs_ofPairs]
    intro p hp
    rw [Graph.touching_self, Graph.touching_self]
    exact (h.suits p hp).2.2
  edges := by
    rw [Solution.pairs_ofPairs]
    exact h.agree.imp fun ha => ha.2.2
  size_common hc := by
    rw [Solution.size_ofPairs]
    exact (Config.accepts_iff_of_common hc).mp ha
  size_exact hc := by
    rw [Solution.size_ofPairs]
    exact (Config.accepts_iff_of_exact hc).mp ha

/-- Everything that a run hands to its processor is sound. -/
theorem Solver.Reachable.deliveries_sound {s : Solver ν ε σ} (hs : s.Reachable)
    (hg₁ : s.problem.first.WellFormed) (hg₂ : s.problem.second.WellFormed)
    (hT : s.problem.predicate.Answers s.problem.first s.problem.second T) :
    ∀ sol ∈ s.deliveries, sol.Sound s.problem.first s.problem.second T s.config := by
  intro sol hsol
  rcases (hs.coherent hg₁ hg₂).deliveries_of_script hg₁ hg₂ hT.within with
    ⟨hnil, -⟩ | ⟨a, E, v', E₁, h, hE, hfirst, hdel, -⟩
  · rw [hnil] at hsol
    exact absurd hsol List.not_mem_nil
  · have hmem : sol ∈ delivered E := by
      rw [hdel] at hsol
      exact (hfirst.filterMap _).subset hsol
    obtain ⟨heq, hiso, ha⟩ := h.sound hg₁ hg₂ (fun st hst => (hE st hst).2) hmem
    rw [heq, Solution.size_ofPairs] at ha
    rw [heq]
    exact hiso.sound hg₁ hg₂ ha

/-- The whole of the looped graph lies in the longer one, and that is sound. -/
theorem Solver.sound_looped_longer :
    .ofPairs [(.ofNat 2, .ofNat 3), (.ofNat 1, .ofNat 2), (.ofNat 0, .ofNat 1)] ∈
        (byStructure .looped .longer .exact).deliveries ∧
      ∀ sol ∈ (byStructure .looped .longer .exact).deliveries,
        sol.Sound .looped .longer .structural .exact :=
  ⟨by decide +kernel, (reachable_byStructure Graph.wellFormed_longer rfl).deliveries_sound
    Graph.wellFormed_looped Graph.wellFormed_longer (answers_byStructure _ _ _)⟩

end CommonSubgraph
