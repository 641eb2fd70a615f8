import CommonSubgraph.Graph.Basic

/-!
# Induced subgraphs

The copy of a graph on a list of its vertices: the vertex listed at position `k` becomes vertex `k`,
and every edge between listed vertices is copied. Copies are made vertex by vertex in the order of
the list, and at each vertex in the order of its outgoing edges.
-/

namespace CommonSubgraph

namespace Graph

variable {ν ε : Type}

/-- The values at the listed vertices, unless some entry is not in the graph or was listed before;
the first such entry decides. The vertices listed so far are `seen`. -/
def listedValues (g : Graph ν ε) (seen : List VertexId) :
    List VertexId → Except GraphError (List ν)
  | [] => .ok []
  | v :: rest =>
    match g.findVertex v with
    | none => .error (.unknownVertex v)
    | some x =>
      if v ∈ seen then .error (.duplicateVertex v)
      else do return x.value :: (← g.listedValues (v :: seen) rest)

/-- The edges out of `v` that stay within the list `ids`, with ends given by position in it. -/
def edgesWithin (g : Graph ν ε) (ids : List VertexId) (v : VertexId) :
    List (VertexId × VertexId × ε) :=
  (g.outEdges v).filterMap fun e => do
    let x ← g.findEdge e
    let t ← ids.idxOf? x.target
    return (VertexId.ofNat (ids.idxOf v), VertexId.ofNat t, x.value)

/-- The subgraph on the listed vertices, in the order of the list. -/
def induced (g : Graph ν ε) (ids : List VertexId) : Except GraphError (Graph ν ε) := do
  let values ← g.listedValues [] ids
  (ofVertexValues values).insertEdges (ids.flatMap (g.edgesWithin ids))

end Graph

end CommonSubgraph
