import CommonSubgraph.Fault
import CommonSubgraph.Graph.Error

/-!
# Directed multigraphs

Vertices and edges carry values and are numbered without gaps: the vertex at position `k` is number
`k`, and so is the edge at position `k`. Parallel edges and self-loops are allowed. Every vertex
lists its outgoing and its incoming edges in the order of insertion.

Vertices are never erased. Erasing an edge hands its number to the last edge, which keeps the
numbers without gaps. `Graph.WellFormed` says that the lists of the vertices and the table of edges
tell the same story.

Look-ups that name a vertex or an edge either answer `none` or fault when there is no such number;
the faulting ones are for callers that know it.
-/

namespace CommonSubgraph

/-- A vertex with its value and the edges at it. -/
structure Vertex (ν : Type) where
  id : VertexId
  value : ν
  /-- Edges whose source is this vertex, in the order of insertion. -/
  outEdges : Array EdgeId
  /-- Edges whose target is this vertex, in the order of insertion. -/
  inEdges : Array EdgeId
deriving DecidableEq

/-- A directed edge with its value. -/
structure Edge (ε : Type) where
  id : EdgeId
  source : VertexId
  target : VertexId
  value : ε
deriving DecidableEq

/-- Whether the edge leads from a vertex to itself. -/
def Edge.isSelfLoop {ε : Type} (e : Edge ε) : Bool := e.source == e.target

/-- A directed multigraph with values `ν` at vertices and `ε` at edges. -/
structure Graph (ν ε : Type) where
  vertices : Array (Vertex ν)
  edges : Array (Edge ε)
deriving DecidableEq

namespace Graph

variable {ν ε : Type}

/-- The graph without vertices. -/
def empty : Graph ν ε := ⟨#[], #[]⟩

instance : Inhabited (Graph ν ε) := ⟨empty⟩

/-! ## Looking things up -/

/-- The number of vertices. -/
def vertexCount (g : Graph ν ε) : Nat := g.vertices.size

/-- The number of edges. -/
def edgeCount (g : Graph ν ε) : Nat := g.edges.size

/-- Whether there are no vertices. -/
def isEmpty (g : Graph ν ε) : Bool := g.vertexCount == 0

/-- Whether `v` is a vertex of the graph. -/
def containsVertex (g : Graph ν ε) (v : VertexId) : Bool := v.index < g.vertexCount

/-- Whether `e` is an edge of the graph. -/
def containsEdge (g : Graph ν ε) (e : EdgeId) : Bool := e.index < g.edgeCount

/-- The names of the vertices, ascending. -/
def vertexIds (g : Graph ν ε) : List VertexId := (List.range g.vertexCount).map VertexId.ofNat

/-- The names of the edges, ascending. -/
def edgeIds (g : Graph ν ε) : List EdgeId := (List.range g.edgeCount).map EdgeId.ofNat

/-- The vertex `v`, if it is in the graph. -/
def findVertex (g : Graph ν ε) (v : VertexId) : Option (Vertex ν) := g.vertices[v.index]?

/-- The edge `e`, if it is in the graph. -/
def findEdge (g : Graph ν ε) (e : EdgeId) : Option (Edge ε) := g.edges[e.index]?

/-- The vertex `v`, which has to be in the graph. -/
def vertex (g : Graph ν ε) (v : VertexId) : Except Fault (Vertex ν) :=
  match g.findVertex v with
  | some x => .ok x
  | none => .error .indexOutOfRange

/-- The edge `e`, which has to be in the graph. -/
def edge (g : Graph ν ε) (e : EdgeId) : Except Fault (Edge ε) :=
  match g.findEdge e with
  | some x => .ok x
  | none => .error .indexOutOfRange

/-- The edges out of `v` in the order of insertion, none if there is no such vertex. -/
def outEdges (g : Graph ν ε) (v : VertexId) : List EdgeId :=
  match g.findVertex v with
  | some x => x.outEdges.toList
  | none => []

/-- The edges into `v` in the order of insertion, none if there is no such vertex. -/
def inEdges (g : Graph ν ε) (v : VertexId) : List EdgeId :=
  match g.findVertex v with
  | some x => x.inEdges.toList
  | none => []

/-- The source of `e`, if there is such an edge. -/
def source? (g : Graph ν ε) (e : EdgeId) : Option VertexId := (g.findEdge e).map Edge.source

/-- The target of `e`, if there is such an edge. -/
def target? (g : Graph ν ε) (e : EdgeId) : Option VertexId := (g.findEdge e).map Edge.target

/-- Those edges of a list that lead to `t`, in the order of the list. -/
def selectInto (g : Graph ν ε) (t : VertexId) : List EdgeId → Except Fault (List EdgeId)
  | [] => .ok []
  | e :: rest => do
    let x ← g.edge e
    let kept ← g.selectInto t rest
    return if x.target = t then e :: kept else kept

/-- The edges from `s` to `t` in the order of insertion; there are several if the graph has parallel
edges. -/
def edgesBetween (g : Graph ν ε) (s t : VertexId) : Except Fault (List EdgeId) := do
  let x ← g.vertex s
  g.selectInto t x.outEdges.toList

/-- The number of edges from `s` to `t`. -/
def countBetween (g : Graph ν ε) (s t : VertexId) : Except Fault Nat := do
  return (← g.edgesBetween s t).length

/-! ## Editing -/

/-- Add a vertex; its number is the former number of vertices. -/
def insertVertex (g : Graph ν ε) (value : ν) : Graph ν ε × VertexId :=
  let id := VertexId.ofNat g.vertexCount
  ({ g with vertices := g.vertices.push ⟨id, value, #[], #[]⟩ }, id)

/-- Add an edge from `s` to `t`; its number is the former number of edges. The source is looked up
before the target. -/
def insertEdge (g : Graph ν ε) (s t : VertexId) (value : ε) :
    Except GraphError (Graph ν ε × EdgeId) :=
  if !g.containsVertex s then .error (.unknownVertex s)
  else if !g.containsVertex t then .error (.unknownVertex t)
  else
    let id := EdgeId.ofNat g.edgeCount
    let vertices := g.vertices.modify s.index fun x => { x with outEdges := x.outEdges.push id }
    let vertices := vertices.modify t.index fun x => { x with inEdges := x.inEdges.push id }
    .ok ({ vertices, edges := g.edges.push ⟨id, s, t, value⟩ }, id)

/-- Take `e` out of the lists of its source `s` and its target `t`. -/
def detach (vertices : Array (Vertex ν)) (e : EdgeId) (s t : VertexId) : Array (Vertex ν) :=
  let vertices := vertices.modify s.index fun x =>
    { x with outEdges := x.outEdges.filter fun f => f ≠ e }
  vertices.modify t.index fun x => { x with inEdges := x.inEdges.filter fun f => f ≠ e }

/-- Let the edge called `old` be called `new` in the lists of its source `s` and its target `t`. -/
def rename (vertices : Array (Vertex ν)) (old new : EdgeId) (s t : VertexId) : Array (Vertex ν) :=
  let vertices := vertices.modify s.index fun x =>
    { x with outEdges := x.outEdges.map fun f => if f = old then new else f }
  vertices.modify t.index fun x =>
    { x with inEdges := x.inEdges.map fun f => if f = old then new else f }

/-- Remove the edge `e`, answering its value. The last edge takes over the number of `e`. -/
def eraseEdge (g : Graph ν ε) (e : EdgeId) : Except GraphError (Graph ν ε × ε) :=
  match g.edges[e.index]?, g.edges.back? with
  | some removed, some last =>
    let vertices := detach g.vertices e removed.source removed.target
    -- the last edge needs no other number if it is the one removed
    let vertices := if e.index + 1 = g.edgeCount then vertices
      else rename vertices last.id e last.source last.target
    .ok ({ vertices, edges := (g.edges.setIfInBounds e.index { last with id := e }).pop },
      removed.value)
  | _, _ => .error (.unknownEdge e)

/-- Replace the value of the vertex `v`, answering the former one. -/
def setVertexValue (g : Graph ν ε) (v : VertexId) (value : ν) : Option (Graph ν ε × ν) :=
  (g.findVertex v).map fun x =>
    ({ g with vertices := g.vertices.setIfInBounds v.index { x with value } }, x.value)

/-- Replace the value of the edge `e`, answering the former one. -/
def setEdgeValue (g : Graph ν ε) (e : EdgeId) (value : ε) : Option (Graph ν ε × ε) :=
  (g.findEdge e).map fun x =>
    ({ g with edges := g.edges.setIfInBounds e.index { x with value } }, x.value)

/-! ## Building -/

/-- Add a list of edges in order, stopping at the first whose ends are not both vertices. -/
def insertEdges (g : Graph ν ε) :
    List (VertexId × VertexId × ε) → Except GraphError (Graph ν ε)
  | [] => .ok g
  | (s, t, value) :: rest =>
    match g.insertEdge s t value with
    | .ok (g, _) => g.insertEdges rest
    | .error e => .error e

/-- The graph with the given values at its vertices, in order, and no edges. -/
def ofVertexValues (values : List ν) : Graph ν ε :=
  values.foldl (fun g x => (g.insertVertex x).1) empty

/-- The graph with `n` vertices of value `a` and the listed edges, each of value `b`. Ends are
numbers of which the low 32 bits count. -/
def ofEdges (a : ν) (b : ε) (n : Nat) (pairs : List (Nat × Nat)) : Except GraphError (Graph ν ε) :=
  (ofVertexValues (List.replicate n a)).insertEdges
    (pairs.map fun p => (VertexId.ofNat p.1, VertexId.ofNat p.2, b))

/-! ## Well-formed graphs -/

/-- The numbers of a graph have no gaps and fit their names, and every edge is listed once at its
source, once at its target and nowhere else. -/
structure WellFormed (g : Graph ν ε) : Prop where
  vertexCount_le : g.vertexCount ≤ UInt32.size
  edgeCount_le : g.edgeCount ≤ UInt32.size
  vertex_id : ∀ k (h : k < g.vertices.size), g.vertices[k].id = VertexId.ofNat k
  edge_id : ∀ k (h : k < g.edges.size), g.edges[k].id = EdgeId.ofNat k
  source_lt : ∀ k (h : k < g.edges.size), g.edges[k].source.index < g.vertexCount
  target_lt : ∀ k (h : k < g.edges.size), g.edges[k].target.index < g.vertexCount
  outEdges_lt : ∀ v, ∀ e ∈ g.outEdges v, e.index < g.edgeCount
  inEdges_lt : ∀ v, ∀ e ∈ g.inEdges v, e.index < g.edgeCount
  count_outEdges : ∀ k (h : k < g.edges.size) (v : VertexId),
    (g.outEdges v).count (EdgeId.ofNat k) = if g.edges[k].source = v then 1 else 0
  count_inEdges : ∀ k (h : k < g.edges.size) (v : VertexId),
    (g.inEdges v).count (EdgeId.ofNat k) = if g.edges[k].target = v then 1 else 0

/-- The graph without vertices is well-formed. -/
theorem wellFormed_empty : (empty : Graph ν ε).WellFormed where
  vertexCount_le := by simp [empty, vertexCount]
  edgeCount_le := by simp [empty, edgeCount]
  vertex_id k h := by simp [empty] at h
  edge_id k h := by simp [empty] at h
  source_lt k h := by simp [empty] at h
  target_lt k h := by simp [empty] at h
  outEdges_lt v e h := by simp [empty, outEdges, findVertex] at h
  inEdges_lt v e h := by simp [empty, inEdges, findVertex] at h
  count_outEdges k h := by simp [empty] at h
  count_inEdges k h := by simp [empty] at h

end Graph

end CommonSubgraph
