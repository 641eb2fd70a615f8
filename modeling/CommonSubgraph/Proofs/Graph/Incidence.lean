import CommonSubgraph.Graph.Basic
import Mathlib.Data.List.Count
import Mathlib.Data.List.Nodup

/-!
# The lists at the vertices of a well-formed graph

A well-formed graph is described here by the names of its edges and not by positions: a vertex lists
just the edges that leave it, respectively enter it, each of them once. Conversely a table that
holds under every name an edge of that name, listed in this way, is well-formed
(`WellFormed.of_findEdge`).
-/

namespace CommonSubgraph

namespace Graph

variable {ν ε ν' ε' : Type} {g : Graph ν ε} {g' : Graph ν' ε'} {v : VertexId} {e : EdgeId}
  {x : Edge ε}

/-- An edge that is found has one of the numbers of the graph. -/
theorem lt_edgeCount_of_findEdge (hx : g.findEdge e = some x) : e.index < g.edgeCount :=
  (Array.getElem?_eq_some_iff.mp hx).1

/-- An edge with one of the numbers of the graph is found. -/
theorem exists_findEdge (he : e.index < g.edgeCount) : ∃ x, g.findEdge e = some x :=
  ⟨_, Array.getElem?_eq_getElem he⟩

/-- The entry of an edge holds its own name. -/
theorem WellFormed.id_of_findEdge (h : g.WellFormed) (hx : g.findEdge e = some x) : x.id = e := by
  obtain ⟨hk, rfl⟩ := Array.getElem?_eq_some_iff.mp hx
  rw [h.edge_id _ hk, EdgeId.ofNat_index]

/-- The source of an edge is a vertex of the graph. -/
theorem WellFormed.source_lt_of_findEdge (h : g.WellFormed) (hx : g.findEdge e = some x) :
    x.source.index < g.vertexCount := by
  obtain ⟨hk, rfl⟩ := Array.getElem?_eq_some_iff.mp hx
  exact h.source_lt _ hk

/-- The target of an edge is a vertex of the graph. -/
theorem WellFormed.target_lt_of_findEdge (h : g.WellFormed) (hx : g.findEdge e = some x) :
    x.target.index < g.vertexCount := by
  obtain ⟨hk, rfl⟩ := Array.getElem?_eq_some_iff.mp hx
  exact h.target_lt _ hk

/-- An edge is listed once among the outgoing edges of its source, and not among those of others. -/
theorem WellFormed.count_outEdges_of_findEdge (h : g.WellFormed) (hx : g.findEdge e = some x)
    (v : VertexId) : (g.outEdges v).count e = if x.source = v then 1 else 0 := by
  obtain ⟨hk, rfl⟩ := Array.getElem?_eq_some_iff.mp hx
  have := h.count_outEdges e.index hk v
  rwa [EdgeId.ofNat_index] at this

/-- An edge is listed once among the incoming edges of its target, and not among those of others. -/
theorem WellFormed.count_inEdges_of_findEdge (h : g.WellFormed) (hx : g.findEdge e = some x)
    (v : VertexId) : (g.inEdges v).count e = if x.target = v then 1 else 0 := by
  obtain ⟨hk, rfl⟩ := Array.getElem?_eq_some_iff.mp hx
  have := h.count_inEdges e.index hk v
  rwa [EdgeId.ofNat_index] at this

/-- The outgoing edges of a vertex are those whose source it is. -/
theorem WellFormed.mem_outEdges_iff (h : g.WellFormed) :
    e ∈ g.outEdges v ↔ ∃ x, g.findEdge e = some x ∧ x.source = v := by
  constructor
  · intro he
    obtain ⟨x, hx⟩ := exists_findEdge (h.outEdges_lt v e he)
    have hc := h.count_outEdges_of_findEdge hx v
    refine ⟨x, hx, by_contra fun hne => ?_⟩
    rw [if_neg hne] at hc
    exact List.count_eq_zero.mp hc he
  · rintro ⟨x, hx, hv⟩
    have hc := h.count_outEdges_of_findEdge hx v
    rw [if_pos hv] at hc
    exact List.count_pos_iff.mp (by omega)

/-- An outgoing edge has the vertex as its source. -/
theorem WellFormed.source?_of_mem_outEdges (h : g.WellFormed) (he : e ∈ g.outEdges v) :
    g.source? e = some v := by
  obtain ⟨x, hx, rfl⟩ := h.mem_outEdges_iff.mp he
  rw [source?, hx, Option.map_some]

/-- The incoming edges of a vertex are those whose target it is. -/
theorem WellFormed.mem_inEdges_iff (h : g.WellFormed) :
    e ∈ g.inEdges v ↔ ∃ x, g.findEdge e = some x ∧ x.target = v := by
  constructor
  · intro he
    obtain ⟨x, hx⟩ := exists_findEdge (h.inEdges_lt v e he)
    have hc := h.count_inEdges_of_findEdge hx v
    refine ⟨x, hx, by_contra fun hne => ?_⟩
    rw [if_neg hne] at hc
    exact List.count_eq_zero.mp hc he
  · rintro ⟨x, hx, hv⟩
    have hc := h.count_inEdges_of_findEdge hx v
    rw [if_pos hv] at hc
    exact List.count_pos_iff.mp (by omega)

/-- No outgoing edge is listed twice. -/
theorem WellFormed.nodup_outEdges (h : g.WellFormed) (v : VertexId) : (g.outEdges v).Nodup := by
  refine List.nodup_iff_count_le_one.mpr fun e => ?_
  by_cases he : e ∈ g.outEdges v
  · obtain ⟨x, hx, -⟩ := h.mem_outEdges_iff.mp he
    rw [h.count_outEdges_of_findEdge hx]
    split <;> omega
  · rw [List.count_eq_zero.mpr he]
    omega

/-- Vertices whose names are those of a well-formed graph are numbered without gaps. -/
theorem WellFormed.vertex_id_of_map_eq (h : g.WellFormed)
    (hm : g'.vertices.map Vertex.id = g.vertices.map Vertex.id) :
    ∀ k (hk : k < g'.vertices.size), g'.vertices[k].id = VertexId.ofNat k := by
  intro k hk
  have hk' : k < g.vertices.size := by
    have := congrArg Array.size hm
    simp only [Array.size_map] at this
    omega
  rw [← h.vertex_id k hk', ← Array.getElem_map Vertex.id (by simpa using hk)]
  simp only [hm, Array.getElem_map]

/-- A table is well-formed if what it holds under the name `e` is an edge of that name, listed once
at its source, once at its target and nowhere else. -/
theorem WellFormed.of_findEdge (hv : g.vertexCount ≤ UInt32.size) (he : g.edgeCount ≤ UInt32.size)
    (hids : ∀ k (h : k < g.vertices.size), g.vertices[k].id = VertexId.ofNat k)
    (hedge : ∀ e x, g.findEdge e = some x →
      x.id = e ∧ x.source.index < g.vertexCount ∧ x.target.index < g.vertexCount ∧
      (∀ v, (g.outEdges v).count e = if x.source = v then 1 else 0) ∧
      ∀ v, (g.inEdges v).count e = if x.target = v then 1 else 0)
    (hout : ∀ v, ∀ e ∈ g.outEdges v, e.index < g.edgeCount)
    (hin : ∀ v, ∀ e ∈ g.inEdges v, e.index < g.edgeCount) : g.WellFormed := by
  have hfind (k : Nat) (hk : k < g.edges.size) : g.findEdge (EdgeId.ofNat k) = some g.edges[k] := by
    rw [findEdge, EdgeId.index_ofNat (Nat.lt_of_lt_of_le hk he)]
    exact Array.getElem?_eq_getElem hk
  constructor
  case vertexCount_le => exact hv
  case edgeCount_le => exact he
  case vertex_id => exact hids
  case edge_id => exact fun k hk => (hedge _ _ (hfind k hk)).1
  case source_lt => exact fun k hk => (hedge _ _ (hfind k hk)).2.1
  case target_lt => exact fun k hk => (hedge _ _ (hfind k hk)).2.2.1
  case outEdges_lt => exact hout
  case inEdges_lt => exact hin
  case count_outEdges => exact fun k hk => (hedge _ _ (hfind k hk)).2.2.2.1
  case count_inEdges => exact fun k hk => (hedge _ _ (hfind k hk)).2.2.2.2

end Graph

end CommonSubgraph
