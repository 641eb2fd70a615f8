import CommonSubgraph.OrderedSet
import CommonSubgraph.Graph.Basic

/-!
# Weak connectivity

Two vertices belong together if a path joins them that may use edges against their direction
(`Graph.Joined`). A flood from a vertex numbers everything that belongs to it, taking vertices from
a worklist in the order in which they were found; components are numbered by their lowest vertex.
A graph is connected if one such flood, from its lowest vertex, leaves nothing without a number.
-/

namespace CommonSubgraph

namespace Graph

variable {ν ε : Type}

/-- A path of edges, each in either direction, joins two vertices. -/
inductive Joined (g : Graph ν ε) : VertexId → VertexId → Prop
  | refl (v : VertexId) : Joined g v v
  | forward {e : EdgeId} {x : Edge ε} {v : VertexId} (h : g.findEdge e = some x)
      (rest : Joined g x.target v) : Joined g x.source v
  | backward {e : EdgeId} {x : Edge ε} {v : VertexId} (h : g.findEdge e = some x)
      (rest : Joined g x.source v) : Joined g x.target v

/-- The vertices at the other ends of the edges at `v`, outgoing edges first. -/
def neighbours (g : Graph ν ε) (v : VertexId) : List VertexId :=
  (g.outEdges v).filterMap g.target? ++ (g.inEdges v).filterMap g.source?

/-! ## Flooding -/

/-- A flood under way: what is still to be looked at, and the number given to each vertex so far. -/
structure Flood where
  worklist : OrderedSet
  labels : Array (Option Nat)

namespace Flood

/-- Whether the vertex at position `v` has a number. -/
def seen (s : Flood) (v : Nat) : Bool := (s.labels[v]?.join).isSome

/-- Put `v` on the worklist unless it has a number. -/
def enqueue : Flood → Nat → Flood
  | ⟨worklist, labels⟩, v =>
    if (labels[v]?.join).isSome then ⟨worklist, labels⟩
    else if h : v < worklist.domain then ⟨worklist.put ⟨v, h⟩, labels⟩
    else ⟨worklist, labels⟩

/-- Give the vertex at position `v` the number `label`. -/
def setLabel : Flood → Nat → Nat → Flood
  | ⟨worklist, labels⟩, v, label => ⟨worklist, labels.setIfInBounds v (some label)⟩

/-- Take `v` off the worklist. -/
def dequeue : Flood → Nat → Flood
  | ⟨worklist, labels⟩, v => ⟨(worklist.erase v).1, labels⟩

end Flood

/-- Number with `label` everything that the worklist leads to, in at most `n` steps. A step takes
the first vertex off the worklist and puts its neighbours on. -/
def flood (g : Graph ν ε) (label : Nat) : Nat → Flood → Flood
  | 0, s => s
  | n + 1, s =>
    match s.worklist.first? with
    | none => s
    | some v =>
      let s := s.dequeue v
      if s.seen v then g.flood label n s
      else
        let near := (g.neighbours (VertexId.ofNat v)).map VertexId.index
        g.flood label n (near.foldl Flood.enqueue (s.setLabel v label))

/-- The empty flood. -/
def noFlood (g : Graph ν ε) : Flood :=
  ⟨OrderedSet.empty g.vertexCount, Array.replicate g.vertexCount none⟩

/-- Whether every vertex is joined to every other. The graph without vertices is connected. -/
def isConnected (g : Graph ν ε) : Bool :=
  g.isEmpty ||
    ((g.flood 0 g.vertexCount (g.noFlood.enqueue 0)).labels.all Option.isSome)

/-! ## Components -/

/-- The weak components of a graph, numbered from zero. -/
structure Components where
  /-- The number of components. -/
  count : Nat
  /-- The number of the component of each vertex. -/
  componentOf : Array Nat
deriving DecidableEq

/-- The vertices of component `c`, ascending. -/
def Components.members (cs : Components) (c : Nat) : List VertexId :=
  ((List.range cs.componentOf.size).filter fun v => cs.componentOf[v]? = some c).map VertexId.ofNat

/-- Flood from the vertex at position `root` with the number `count`, unless it has one. -/
def floodFrom (g : Graph ν ε) : Flood × Nat → Nat → Flood × Nat
  | (s, count), root =>
    if s.seen root then (s, count)
    else (g.flood count g.vertexCount (s.enqueue root), count + 1)

/-- The weak components, numbered in the order of their lowest vertex. -/
def components (g : Graph ν ε) : Components :=
  let (s, count) := (List.range g.vertexCount).foldl g.floodFrom (g.noFlood, 0)
  ⟨count, s.labels.map fun label => label.getD count⟩

end Graph

end CommonSubgraph
