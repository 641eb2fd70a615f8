import CommonSubgraph.Proofs.Search.Alike
import CommonSubgraph.Proofs.Search.Answered
import CommonSubgraph.Proofs.Solver.Gathering

/-!
# Everything there is is delivered once

With tests that do not care which of two pairs came first, and nothing that stops it, a run delivers
every partial isomorphism of a wanted size exactly once, in whatever order it pairs the vertices. In
common mode these are the common subgraphs between the two bounds
(`Solver.Reachable.delivers_common`), in exact mode the embeddings of the whole first graph
(`Solver.Reachable.delivers_exact`).
-/

namespace CommonSubgraph

variable {ν ε σ : Type} {T : Tests}

namespace Solver

/-- The next run visits everything, and delivers the sets of pairs that are wanted, each once. -/
structure DeliversOnce (s : Solver ν ε σ) (wanted : Finset (VertexId × VertexId) → Prop) :
    Prop where
  run_eq : s.run.1 = .ok ()
  status_eq : s.run.2.status = .exhausted
  length_eq : ∀ sol ∈ s.deliveries, sol.xs.length = sol.ys.length
  card_eq : ∀ sol ∈ s.deliveries, sol.pairSet.card = sol.size
  nodup : (s.deliveries.map Solution.pairSet).Nodup
  mem_iff : ∀ F, F ∈ s.deliveries.map Solution.pairSet ↔ wanted F

variable {s : Solver ν ε σ}

/-- If nothing is wanted, nothing is delivered. -/
theorem DeliversOnce.eq_nil {wanted : Finset (VertexId × VertexId) → Prop}
    (h : s.DeliversOnce wanted) (hw : ∀ F, ¬ wanted F) : s.deliveries = [] := by
  apply List.eq_nil_iff_forall_not_mem.mpr
  intro sol hsol
  exact hw sol.pairSet ((h.mem_iff _).mp (List.mem_map_of_mem hsol))

/-- If just the empty set is wanted, the empty solution is delivered once. -/
theorem DeliversOnce.eq_singleton {wanted : Finset (VertexId × VertexId) → Prop}
    (h : s.DeliversOnce wanted) (hw : ∀ F, wanted F ↔ F = ∅) :
    s.deliveries = [Solution.empty] := by
  have hempty : ∀ sol ∈ s.deliveries, sol = Solution.empty := by
    intro sol hsol
    have hset := (hw _).mp ((h.mem_iff _).mp (List.mem_map_of_mem hsol))
    have hsize : sol.xs.length = 0 := by
      rw [← Solution.size, ← h.card_eq sol hsol, hset, Finset.card_empty]
    have hxs := List.eq_nil_of_length_eq_zero hsize
    have hys := List.eq_nil_of_length_eq_zero ((h.length_eq sol hsol).symm.trans hsize)
    cases sol
    simp_all [Solution.empty]
  have hlength : s.deliveries.length ≤ 1 := by
    have hreplicate := List.eq_replicate_of_mem hempty
    have hnodup := List.Nodup.of_map _ h.nodup
    rw [hreplicate] at hnodup
    exact List.nodup_replicate.mp hnodup
  have hmem : ∅ ∈ s.deliveries.map Solution.pairSet := (h.mem_iff ∅).mpr ((hw ∅).mpr rfl)
  obtain ⟨sol, hsol, -⟩ := List.mem_map.mp hmem
  obtain ⟨x, hx⟩ := List.length_eq_one_iff.mp
    (Nat.le_antisymm hlength (List.length_pos_of_mem hsol))
  rw [hx, hempty x (by simp [hx])]

/-- What is wanted can be replaced by what is equivalent to it. -/
theorem DeliversOnce.congr {wanted wanted' : Finset (VertexId × VertexId) → Prop}
    (h : s.DeliversOnce wanted) (hw : ∀ F, wanted F ↔ wanted' F) : s.DeliversOnce wanted' :=
  { h with mem_iff := fun F => (h.mem_iff F).trans (hw F) }

section

variable (hs : s.Coherent) (hg₁ : s.problem.first.WellFormed)
  (hg₂ : s.problem.second.WellFormed)
  (hT : s.problem.predicate.Answers s.problem.first s.problem.second T)
  (hc : s.problem.Continues) (hlimit : s.config.arenaLimit = none) (ha : s.HasArena)

include hs hg₁ hg₂ hT hc hlimit ha

/-- Unless solutions raise the minimum, the partial isomorphisms of an acceptable size are
delivered. -/
theorem Coherent.deliversOnce (hsym : T.Symmetric s.problem.first s.problem.second)
    (hm : s.config.common = true → s.config.monotonic = false) :
    s.DeliversOnce fun F => IsPartialIsoSet s.problem.first s.problem.second T F ∧
      s.config.Accepts s.problem.first.vertexCount s.config.minimum F.card := by
  obtain ⟨hok, hstatus, a, E, v', h, hE, hdel⟩ := hs.deliveries_eq hg₁ hg₂ hT hc hlimit ha
  obtain ⟨hnodup, hmem⟩ := h.pairSets hg₁ hg₂ hE hsym hm
  refine ⟨hok, hstatus, ?_, ?_, ?_, ?_⟩
  · rw [hdel]
    exact fun sol hsol => Solution.length_eq_of_ofPairs (h.sound hg₁ hg₂ hE hsol).1
  · rw [hdel]
    exact fun sol hsol => (h.isPartialIsoSet hg₁ hg₂ hE hsym hsol).2
  · rwa [hdel]
  · rwa [hdel]

/-- Settings that make searches go alike make no difference to what is delivered. -/
theorem Coherent.deliveries_setConfig {c : Config}
    (hsettings : c.arenaSettings = s.config.arenaSettings)
    (halike : s.config.Alike c) (hmin : s.config.common = true → c.minimum = s.config.minimum) :
    (s.setConfig c).deliveries = s.deliveries := by
  have hlimit' : c.arenaLimit = none := (Prod.mk.inj hsettings).2.trans hlimit
  have ha' : (s.setConfig c).HasArena := by
    obtain ⟨a, ha⟩ := ha
    exact ⟨a, (newArena_congr hsettings).trans ha⟩
  obtain ⟨-, -, a, E, v', h, hE, hdel⟩ := hs.deliveries_eq hg₁ hg₂ hT hc hlimit ha
  obtain ⟨-, -, b, E', u', h', hE', hdel'⟩ :=
    (hs.setConfig c).deliveries_eq hg₁ hg₂ hT ⟨hc.progress, hc.process⟩ hlimit' ha'
  rw [hdel, hdel']
  exact delivered_eq_of_acts (h.alike h' hg₁ hg₂ halike hmin hE hE').symm

/-- In exact mode the partial isomorphisms with all vertices of the first graph are delivered. -/
theorem Coherent.deliversOnce_of_exact (hsym : T.Symmetric s.problem.first s.problem.second)
    (hexact : s.config.common = false) :
    s.DeliversOnce fun F => IsPartialIsoSet s.problem.first s.problem.second T F ∧
      F.card = s.problem.first.vertexCount := by
  have honce := hs.deliversOnce hg₁ hg₂ hT hc hlimit ha hsym fun hcommon =>
    absurd (hexact.symm.trans hcommon) Bool.false_ne_true
  exact honce.congr fun F => and_congr_right fun _ => Config.accepts_iff_of_exact hexact

end

/-- In common mode, and if solutions do not raise the minimum, a run that nothing stops delivers
each partial isomorphism of a size between the bounds once. -/
theorem Reachable.delivers_common (hs : s.Reachable) (hg₁ : s.problem.first.WellFormed)
    (hg₂ : s.problem.second.WellFormed)
    (hT : s.problem.predicate.Answers s.problem.first s.problem.second T)
    (hsym : T.Symmetric s.problem.first s.problem.second) (hc : s.problem.Continues)
    (hcommon : s.config.common = true) (hm : s.config.monotonic = false)
    (hlimit : s.config.arenaLimit = none) (ha : s.HasArena) :
    s.DeliversOnce fun F => IsPartialIsoSet s.problem.first s.problem.second T F ∧
      s.config.minimum ≤ F.card ∧ F.card ≤ s.config.maximum := by
  have honce := (hs.coherent hg₁ hg₂).deliversOnce hg₁ hg₂ hT hc hlimit ha hsym fun _ => hm
  exact honce.congr fun F => and_congr_right fun _ => Config.accepts_iff_of_common hcommon

theorem delivers_common_looped_longer :
    (byStructure .looped .longer .default).DeliversOnce fun F =>
      IsPartialIsoSet .looped .longer .structural F ∧ 1 ≤ F.card ∧ F.card ≤ Size.largest :=
  (reachable_byStructure Graph.wellFormed_longer rfl).delivers_common Graph.wellFormed_looped
    Graph.wellFormed_longer (answers_byStructure _ _ _) (Tests.symmetric_structural _ _)
    (continues_byStructure _ _ _) rfl rfl rfl (hasArena_byStructure Graph.wellFormed_longer rfl)

/-- In exact mode a run that nothing stops delivers each embedding of the whole first graph once.
The bounds on the size, and whether solutions raise the minimum, make no difference. -/
theorem Reachable.delivers_exact (hs : s.Reachable) (hg₁ : s.problem.first.WellFormed)
    (hg₂ : s.problem.second.WellFormed)
    (hT : s.problem.predicate.Answers s.problem.first s.problem.second T)
    (hsym : T.Symmetric s.problem.first s.problem.second) (hc : s.problem.Continues)
    (hexact : s.config.common = false) (hlimit : s.config.arenaLimit = none) (ha : s.HasArena) :
    (s.DeliversOnce fun F => IsPartialIsoSet s.problem.first s.problem.second T F ∧
      ∀ i, s.problem.first.containsVertex i = true → ∃ j, (i, j) ∈ F) ∧
    (∀ minimum maximum monotonic,
      (s.setConfig { s.config with minimum, maximum, monotonic }).deliveries = s.deliveries) ∧
    (s.problem.first.vertexCount = 0 → s.deliveries = [Solution.empty]) ∧
    (s.problem.second.vertexCount < s.problem.first.vertexCount → s.deliveries = []) := by
  have hcoherent := hs.coherent hg₁ hg₂
  have honce := hcoherent.deliversOnce_of_exact hg₁ hg₂ hT hc hlimit ha hsym hexact
  refine ⟨?_, ?_, ?_, ?_⟩
  · exact honce.congr fun F => and_congr_right fun hF => hF.card_eq_iff hg₁
  · intro minimum maximum monotonic
    -- the settings in question are read in common mode only
    have hexact {b : Prop} (hcommon : s.config.common = true) : b :=
      absurd (hexact.symm.trans hcommon) Bool.false_ne_true
    exact hcoherent.deliveries_setConfig hg₁ hg₂ hT hc hlimit ha rfl ⟨rfl, hexact, hexact⟩ hexact
  · intro hempty
    apply honce.eq_singleton
    intro F
    rw [hempty, Finset.card_eq_zero]
    constructor
    · intro h
      exact h.2
    · rintro rfl
      exact ⟨isPartialIsoSet_empty _ _ T, rfl⟩
  · intro hlt
    apply honce.eq_nil
    rintro F ⟨hF, hcard⟩
    have hle := hF.card_le_second hg₂
    omega

/-- Embeddings of the looped graph, of no vertices, and of a graph with too many. -/
theorem delivers_exact_looped_longer :
    ((byStructure .looped .longer .exact).DeliversOnce fun F =>
      IsPartialIsoSet .looped .longer .structural F ∧
        ∀ i, Graph.looped.containsVertex i = true → ∃ j, (i, j) ∈ F) ∧
    (byStructure .empty .longer .exact).deliveries = [Solution.empty] ∧
    (byStructure .longer .looped .exact).deliveries = [] := by
  have hlonger := Graph.wellFormed_longer
  have hlooped := Graph.wellFormed_looped
  refine ⟨?_, ?_, ?_⟩
  · exact ((reachable_byStructure hlonger rfl).delivers_exact hlooped hlonger
      (answers_byStructure _ _ _) (Tests.symmetric_structural _ _) (continues_byStructure _ _ _)
      rfl rfl (hasArena_byStructure hlonger rfl)).1
  · exact ((reachable_byStructure hlonger rfl).delivers_exact Graph.wellFormed_empty hlonger
      (answers_byStructure _ _ _) (Tests.symmetric_structural _ _) (continues_byStructure _ _ _)
      rfl rfl (hasArena_byStructure hlonger rfl)).2.2.1 rfl
  · exact ((reachable_byStructure hlooped rfl).delivers_exact hlonger hlooped
      (answers_byStructure _ _ _) (Tests.symmetric_structural _ _) (continues_byStructure _ _ _)
      rfl rfl (hasArena_byStructure hlooped rfl)).2.2.2 (by decide)

end Solver

end CommonSubgraph
