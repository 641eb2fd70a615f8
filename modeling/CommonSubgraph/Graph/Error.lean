import CommonSubgraph.Id

/-!
# Why a graph cannot be built

Errors of building, editing or reading a graph, by cause, and the words in which each is reported.
-/

namespace CommonSubgraph

/-- What is wrong with a line of an edge list. -/
inductive LineError where
  /-- A field that is no numeral. -/
  | notANumber (field : String)
  /-- A number above what is allowed in its place. -/
  | tooLarge (number limit : Nat)
  /-- A line that is neither a pair of vertices nor a declaration. -/
  | unrecognised (line : String)
deriving DecidableEq

/-- The words in which a faulty line is reported. -/
def LineError.message : LineError → String
  | notANumber field => s!"`{field}` is not a vertex number"
  | tooLarge number limit => s!"{number} exceeds the limit of {limit}"
  | unrecognised line => s!"expected `source target` or `vertices N`, found `{line}`"

/-- Why a graph cannot be built or edited. -/
inductive GraphError where
  /-- The vertex is not in the graph. -/
  | unknownVertex (v : VertexId)
  /-- The edge is not in the graph. -/
  | unknownEdge (e : EdgeId)
  /-- The vertex is listed a second time where each may be listed once. -/
  | duplicateVertex (v : VertexId)
  /-- The line with this number, counted from one, is faulty. -/
  | malformedLine (number : Nat) (cause : LineError)
deriving DecidableEq

/-- The words in which an error of a graph is reported. -/
def GraphError.message : GraphError → String
  | unknownVertex v => s!"unknown vertex {v}"
  | unknownEdge e => s!"unknown edge {e}"
  | duplicateVertex v => s!"vertex {v} listed more than once"
  | malformedLine number cause => s!"line {number}: {cause.message}"

/-- The words in which a search reports that a graph it needs could not be built. -/
def GraphError.report (e : GraphError) : String := "graph error: " ++ e.message

end CommonSubgraph
