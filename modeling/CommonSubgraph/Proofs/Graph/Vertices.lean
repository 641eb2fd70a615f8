import CommonSubgraph.Isomorphism
import Mathlib.Data.List.Nodup

/-!
# Vertices and edges of well-formed graphs

The names of the vertices of a well-formed graph are different and are just those the graph
contains, and the edges that touch two vertices are those that join them in one direction followed
by those in the other.
-/

namespace CommonSubgraph

namespace Graph

variable {ν ε : Type} {g : Graph ν ε} {v : VertexId}

/-- A vertex is one of the graph if its number is below the number of vertices. -/
theorem containsVertex_iff : g.containsVertex v = true ↔ v.index < g.vertexCount :=
  decide_eq_true_iff

/-- Below the number of vertices, numbers and names are the same. -/
theorem WellFormed.index_ofNat (hg : g.WellFormed) {k : Nat} (hk : k < g.vertexCount) :
    (VertexId.ofNat k).index = k :=
  VertexId.index_ofNat (Nat.lt_of_lt_of_le hk hg.vertexCount_le)

/-- No vertex is listed twice. -/
theorem nodup_vertexIds (hg : g.WellFormed) : g.vertexIds.Nodup := by
  apply List.nodup_range.map_on
  intro m hm n hn h
  rw [← hg.index_ofNat (List.mem_range.mp hm), h, hg.index_ofNat (List.mem_range.mp hn)]

/-- The vertices are listed in ascending order. -/
theorem pairwise_vertexIds (hg : g.WellFormed) :
    g.vertexIds.Pairwise fun v v' => v.index < v'.index := by
  refine List.pairwise_map.mpr (List.pairwise_lt_range.imp_of_mem fun hm hn hlt => ?_)
  rw [hg.index_ofNat (List.mem_range.mp hm), hg.index_ofNat (List.mem_range.mp hn)]
  exact hlt

/-- The vertices listed are those of the graph. -/
theorem mem_vertexIds_iff (hg : g.WellFormed) : v ∈ g.vertexIds ↔ g.containsVertex v = true := by
  rw [vertexIds, List.mem_map, containsVertex_iff]
  refine ⟨?_, fun h => ⟨v.index, List.mem_range.mpr h, VertexId.ofNat_index v⟩⟩
  rintro ⟨k, hk, rfl⟩
  rw [hg.index_ofNat (List.mem_range.mp hk)]
  exact List.mem_range.mp hk

/-- As many vertices are listed as there are. -/
theorem length_vertexIds (g : Graph ν ε) : g.vertexIds.length = g.vertexCount := by
  rw [vertexIds, List.length_map, List.length_range]

/-- A vertex is listed at the position of its number. -/
theorem getElem?_vertexIds (hv : v.index < g.vertexCount) : g.vertexIds[v.index]? = some v := by
  rw [vertexIds, List.getElem?_map, List.getElem?_range hv, Option.map_some, VertexId.ofNat_index]

/-- What touches a vertex and itself are its self-loops. -/
theorem touching_self (g : Graph ν ε) (s : VertexId) : g.touching s s = g.joining s s := if_pos rfl

/-- What touches two different vertices are the edges in both directions. -/
theorem touching_of_ne (g : Graph ν ε) {s t : VertexId} (h : s ≠ t) :
    g.touching s t = g.joining s t ++ g.joining t s := if_neg h

end Graph

end CommonSubgraph
