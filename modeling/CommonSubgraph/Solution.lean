import CommonSubgraph.Fault

/-!
# Solutions

A solution pairs vertices of a first graph with vertices of a second one: the vertex at each
position of one side belongs to the vertex at that position of the other. Solutions are ordered by
their first sides, and by their second sides where those agree, each as in a dictionary.
-/

namespace CommonSubgraph

/-- Vertices of a first graph and the vertices of a second graph paired with them. -/
structure Solution where
  xs : List VertexId
  ys : List VertexId
deriving DecidableEq

namespace Solution

/-- The solution without pairs. -/
def empty : Solution := ⟨[], []⟩

instance : Inhabited Solution := ⟨empty⟩

/-- Pair two lists of the same length. -/
def ofSides (xs ys : List VertexId) : Except Fault Solution :=
  if xs.length = ys.length then .ok ⟨xs, ys⟩ else .error .sidesDiffer

/-- Pair two lists of vertex numbers of the same length. -/
def ofNumbers (xs ys : List Nat) : Except Fault Solution :=
  ofSides (xs.map VertexId.ofNat) (ys.map VertexId.ofNat)

/-- The number of pairs. -/
def size (s : Solution) : Nat := s.xs.length

/-- Whether there are no pairs. -/
def isEmpty (s : Solution) : Bool := s.xs.isEmpty

/-- The pairs in order. -/
def pairs (s : Solution) : List (VertexId × VertexId) := s.xs.zip s.ys

instance : Ord Solution :=
  ⟨fun s t => (compare s.xs t.xs).then (compare s.ys t.ys)⟩

end Solution

end CommonSubgraph
