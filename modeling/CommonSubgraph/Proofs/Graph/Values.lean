import CommonSubgraph.Proofs.Graph.Incidence

/-!
# Replacing values

Two graphs have one shape if they name the same vertices, join them by the same edges and list
these in the same order, whatever values they carry. Replacing a value keeps the shape, and
being well-formed is a matter of the shape alone.
-/

namespace CommonSubgraph

/-- The name of an edge with its source and its target. -/
def Edge.ends {ε : Type} (x : Edge ε) : EdgeId × VertexId × VertexId := (x.id, x.source, x.target)

namespace Graph

variable {ν ε ν' ε' : Type} {g : Graph ν ε} {g' : Graph ν' ε'} {v : VertexId} {e : EdgeId}

/-- The graphs differ in values only. -/
structure SameShape (g : Graph ν ε) (g' : Graph ν' ε') : Prop where
  ids_eq : g'.vertices.map Vertex.id = g.vertices.map Vertex.id
  ends_eq : g'.edges.map Edge.ends = g.edges.map Edge.ends
  outEdges_eq : ∀ v, g'.outEdges v = g.outEdges v
  inEdges_eq : ∀ v, g'.inEdges v = g.inEdges v

namespace SameShape

variable (h : SameShape g g')

include h

/-- Graphs of one shape have as many vertices as each other. -/
theorem vertexCount_eq : g'.vertexCount = g.vertexCount := by
  simpa [vertexCount] using congrArg Array.size h.ids_eq

/-- Graphs of one shape have as many edges as each other. -/
theorem edgeCount_eq : g'.edgeCount = g.edgeCount := by
  simpa [edgeCount] using congrArg Array.size h.ends_eq

/-- In graphs of one shape an edge leads from the same vertex to the same vertex. -/
theorem map_ends_findEdge (e : EdgeId) :
    (g'.findEdge e).map Edge.ends = (g.findEdge e).map Edge.ends := by
  rw [findEdge, findEdge, ← Array.getElem?_map, h.ends_eq, Array.getElem?_map]

/-- An edge of one graph is an edge of the other with the same ends. -/
theorem exists_findEdge {x' : Edge ε'} (hx : g'.findEdge e = some x') :
    ∃ x, g.findEdge e = some x ∧ x.id = x'.id ∧ x.source = x'.source ∧ x.target = x'.target := by
  have hm := h.map_ends_findEdge e
  rw [hx, Option.map_some, eq_comm, Option.map_eq_some_iff] at hm
  obtain ⟨x, hf, he⟩ := hm
  simp only [Edge.ends, Prod.mk.injEq] at he
  exact ⟨x, hf, he⟩

/-- A graph of the same shape as a well-formed one is well-formed. -/
theorem wellFormed (hg : g.WellFormed) : g'.WellFormed := by
  apply WellFormed.of_findEdge
  case hv => exact h.vertexCount_eq ▸ hg.vertexCount_le
  case he => exact h.edgeCount_eq ▸ hg.edgeCount_le
  case hids => exact hg.vertex_id_of_map_eq h.ids_eq
  case hedge =>
    intro e x' hx'
    obtain ⟨x, hx, hid, hs, ht⟩ := h.exists_findEdge hx'
    rw [← hid, ← hs, ← ht, h.vertexCount_eq]
    refine ⟨hg.id_of_findEdge hx, hg.source_lt_of_findEdge hx, hg.target_lt_of_findEdge hx, ?_, ?_⟩
    · exact fun v => h.outEdges_eq v ▸ hg.count_outEdges_of_findEdge hx v
    · exact fun v => h.inEdges_eq v ▸ hg.count_inEdges_of_findEdge hx v
  case hout => exact fun v e he => h.edgeCount_eq ▸ hg.outEdges_lt v e (h.outEdges_eq v ▸ he)
  case hin => exact fun v e he => h.edgeCount_eq ▸ hg.inEdges_lt v e (h.inEdges_eq v ▸ he)

end SameShape

/-- Replacing an entry by one that looks the same through `f` leaves all that is seen through
`f`. -/
theorem map_setIfInBounds_of_eq {α β : Type} {table : Array α} {k : Nat} {x y : α} {f : α → β}
    (hx : table[k]? = some x) (hf : f y = f x) :
    (table.setIfInBounds k y).map f = table.map f := by
  refine Array.ext_getElem? fun n => ?_
  simp only [Array.getElem?_map, Array.getElem?_setIfInBounds]
  split
  · next hk =>
    obtain ⟨hlt, -⟩ := Array.getElem?_eq_some_iff.mp hx
    subst hk
    rw [if_pos hlt, hx, Option.map_some, Option.map_some, hf]
  · rfl

/-- Another value at a vertex leaves the shape of the graph. -/
theorem sameShape_setVertexValue {g g' : Graph ν ε} {a b : ν}
    (h : g.setVertexValue v a = some (g', b)) : SameShape g g' := by
  obtain ⟨x, hx, hg⟩ := Option.map_eq_some_iff.mp h
  obtain ⟨rfl, -⟩ := Prod.mk.inj hg
  have hlt := (Array.getElem?_eq_some_iff.mp hx).1
  have hlists (w : VertexId) :
      (g.vertices.setIfInBounds v.index { x with value := a })[w.index]? =
        if v = w then some { x with value := a } else g.findVertex w := by
    rw [Array.getElem?_setIfInBounds]
    simp only [VertexId.index_inj, if_pos hlt]
    rfl
  refine ⟨map_setIfInBounds_of_eq hx rfl, rfl, fun w => ?_, fun w => ?_⟩
  · rw [outEdges, outEdges, findVertex, hlists]
    by_cases hw : v = w
    · rw [if_pos hw, ← hw, hx]
    · rw [if_neg hw]
  · rw [inEdges, inEdges, findVertex, hlists]
    by_cases hw : v = w
    · rw [if_pos hw, ← hw, hx]
    · rw [if_neg hw]

/-- Another value at an edge leaves the shape of the graph. -/
theorem sameShape_setEdgeValue {g g' : Graph ν ε} {a b : ε}
    (h : g.setEdgeValue e a = some (g', b)) : SameShape g g' := by
  obtain ⟨x, hx, hg⟩ := Option.map_eq_some_iff.mp h
  obtain ⟨rfl, -⟩ := Prod.mk.inj hg
  exact ⟨rfl, map_setIfInBounds_of_eq hx rfl, fun _ => rfl, fun _ => rfl⟩

end Graph

end CommonSubgraph
