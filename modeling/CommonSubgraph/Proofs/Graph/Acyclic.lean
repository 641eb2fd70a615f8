import CommonSubgraph.Proofs.Graph.CursorStack
import CommonSubgraph.Proofs.Graph.FinishingOrder
import CommonSubgraph.Proofs.Graph.Insertion

/-!
# Cycle detection is exact

What an observer gathers it gathers from the back edges, and a graph has a cycle exactly if there is
one. So the first of them settles the question, and that the search then stops makes no difference.
-/

namespace CommonSubgraph

namespace Graph

variable {ν ε : Type} {g : Graph ν ε}

/-- An observer that stops at the first edge has seen one unless there is none. -/
theorem seeAll_first (es : List EdgeId) :
    (seeAll (fun _ _ => (true, false)) es false).1 = !es.isEmpty := by
  cases es <;> rfl

/-- An observer that is never satisfied has seen an edge in the end unless there is none. -/
theorem seeAll_every (es : List EdgeId) (b : Bool) :
    (seeAll (fun _ _ => (true, true)) es b).1 = (b || !es.isEmpty) := by
  induction es generalizing b with
  | nil => simp [seeAll]
  | cons e rest ih => simpa [seeAll] using ih true

/-- A cycle is found just if there is one; the search comes to its end, whatever its observer; and
an observer that did not stop it at the first back edge would learn the same. -/
theorem WellFormed.containsCycle_exact (hg : g.WellFormed) :
    (g.containsCycle = true ↔ g.Cyclic) ∧
      (∀ {β : Type} (observe : Observer β) (b : β), ∃ c, Scan.Reaches g observe (.start g b) c ∧
        c.next g observe = none ∧ c.trail.gathered = g.gatherBackEdges observe b) ∧
      g.containsCycle = g.gatherBackEdges (fun _ _ => (true, true)) false := by
  have hcycle : g.containsCycle = !g.backEdges.isEmpty := by
    rw [containsCycle, hg.gatherBackEdges_eq, seeAll_first]
  refine ⟨?_, fun observe b => ?_, ?_⟩
  · rw [hg.cyclic_iff, hcycle]
    simp
  · obtain ⟨s, hreach, hs⟩ := hg.exists_scan_end observe b
    exact ⟨⟨[], [], s⟩, hreach, rfl, hs⟩
  · rw [hcycle, hg.gatherBackEdges_eq, seeAll_every, Bool.false_or]

/-- Two routes from one vertex to another are no cycle, but with an edge back they are. -/
theorem containsCycle_exact_routes :
    (plain 4 [(0, 1), (0, 2), (0, 2), (1, 3), (2, 3)]).WellFormed ∧
      ¬ (plain 4 [(0, 1), (0, 2), (0, 2), (1, 3), (2, 3)]).Cyclic ∧
      (plain 4 [(0, 1), (0, 2), (0, 2), (1, 3), (2, 3), (3, 0)]).WellFormed ∧
      (plain 4 [(0, 1), (0, 2), (0, 2), (1, 3), (2, 3), (3, 0)]).Cyclic := by
  have hg : (plain 4 [(0, 1), (0, 2), (0, 2), (1, 3), (2, 3)]).WellFormed :=
    wellFormed_plain (by decide) (by decide)
  have hg' : (plain 4 [(0, 1), (0, 2), (0, 2), (1, 3), (2, 3), (3, 0)]).WellFormed :=
    wellFormed_plain (by decide) (by decide)
  refine ⟨hg, fun hc => ?_, hg', hg'.containsCycle_exact.1.mp (by decide +kernel)⟩
  exact absurd (hg.containsCycle_exact.1.mpr hc) (by decide +kernel)

end Graph

end CommonSubgraph
