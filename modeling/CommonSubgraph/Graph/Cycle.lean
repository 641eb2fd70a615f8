import CommonSubgraph.Graph.Basic

/-!
# Cycles

A depth-first search along outgoing edges meets a *back edge* when an edge leads to a vertex on the
path of the search itself. A graph has a cycle exactly when the search meets one
(`Graph.containsCycle` stops at the first), and erasing all of them leaves no cycle
(`Graph.breakCycles`). `Graph.Walk` says what a directed walk is, and `Graph.Cyclic` what a cycle.
-/

namespace CommonSubgraph

namespace Graph

variable {ν ε β : Type}

/-! ## Walks -/

/-- A non-empty directed walk from one vertex to another along edges of the graph. -/
inductive Walk (g : Graph ν ε) : VertexId → VertexId → Prop
  | single {e : EdgeId} {x : Edge ε} (h : g.findEdge e = some x) : Walk g x.source x.target
  | step {e : EdgeId} {x : Edge ε} {t : VertexId} (h : g.findEdge e = some x)
      (rest : Walk g x.target t) : Walk g x.source t

/-- Some non-empty directed walk returns to where it started. -/
def Cyclic (g : Graph ν ε) : Prop := ∃ v, g.Walk v v

/-! ## Depth-first search -/

/-- How far the search is done with a vertex. -/
inductive Mark where
  | unvisited
  | onPath
  | done
deriving DecidableEq

/-- The marks of a search, with what its observer has gathered from the back edges so far. -/
structure Trail (β : Type) where
  marks : Array Mark
  gathered : β

namespace Trail

/-- The mark of `v`; what is not in the graph counts as done. -/
def mark (s : Trail β) (v : VertexId) : Mark := s.marks[v.index]?.getD .done

/-- Mark `v` with `m`. -/
def setMark (s : Trail β) (v : VertexId) (m : Mark) : Trail β :=
  { s with marks := s.marks.setIfInBounds v.index m }

end Trail

/-- A step of a search, ended early once the observer has seen enough. -/
abbrev Tracking (β : Type) : Type → Type := EStateM Unit (Trail β)

/-- What is gathered from a back edge, and whether the search goes on. -/
abbrev Observer (β : Type) : Type := EdgeId → β → β × Bool

/-- Show the back edge `e` to the observer. -/
def report (observe : Observer β) (e : EdgeId) : Tracking β Unit := fun s =>
  let (gathered, goOn) := observe e s.gathered
  let s := { s with gathered }
  if goOn then .ok () s else .error () s

/-- Follow the edge `e`: report it if it leads back to the path, and descend to its target if that
is new. -/
def follow (g : Graph ν ε) (observe : Observer β) (descend : VertexId → Tracking β Unit)
    (e : EdgeId) : Tracking β Unit := do
  match g.target? e with
  | none => pure ()
  | some t =>
    match (← get).mark t with
    | .onPath => report observe e
    | .unvisited => descend t
    | .done => pure ()

/-- Search from `v`, with `n` bounding how many vertices the path can still take on. -/
def visit (g : Graph ν ε) (observe : Observer β) : Nat → VertexId → Tracking β Unit
  | 0, _ => pure ()
  | n + 1, v => do
    modify fun s => s.setMark v .onPath
    (g.outEdges v).forM (g.follow observe (g.visit observe n))
    modify fun s => s.setMark v .done

/-- Search from every vertex in turn that no earlier search has reached. -/
def visitAll (g : Graph ν ε) (observe : Observer β) : Tracking β Unit :=
  g.vertexIds.forM fun root => do
    if (← get).mark root = .unvisited then g.visit observe g.vertexCount root

/-- What the observer gathers from the back edges of the graph, starting from `b`. -/
def gatherBackEdges (g : Graph ν ε) (observe : Observer β) (b : β) : β :=
  match g.visitAll observe ⟨Array.replicate g.vertexCount .unvisited, b⟩ with
  | .ok _ s => s.gathered
  | .error _ s => s.gathered

/-! ## Answers -/

/-- Whether edges of the graph form a cycle; a self-loop is one. The first back edge decides. -/
def containsCycle (g : Graph ν ε) : Bool := g.gatherBackEdges (fun _ _ => (true, false)) false

/-- All back edges in the order in which the search meets them. -/
def backEdges (g : Graph ν ε) : List EdgeId :=
  (g.gatherBackEdges (fun e met => (e :: met, true)) []).reverse

/-- Erase a list of edges that are all in the graph when their turn comes. -/
def eraseEdges (g : Graph ν ε) : List EdgeId → Except Fault (Graph ν ε)
  | [] => .ok g
  | e :: rest =>
    match g.eraseEdge e with
    | .ok (g, _) => g.eraseEdges rest
    | .error _ => .error (.edgeVanished e)

/-- Erase the back edges, answering how many there were. The highest number goes first: erasing
hands the number of the erased edge to the last one, and every edge still due has a smaller one. -/
def breakCycles (g : Graph ν ε) : Except Fault (Graph ν ε × Nat) := do
  let due := g.backEdges.mergeSort fun e f => f.index ≤ e.index
  return (← g.eraseEdges due, due.length)

end Graph

end CommonSubgraph
