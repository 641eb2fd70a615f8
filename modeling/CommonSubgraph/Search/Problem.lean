import CommonSubgraph.Callback
import CommonSubgraph.CandidateMap
import CommonSubgraph.Config
import CommonSubgraph.OrderedSet

/-!
# Search problems and the state of a search

A problem is what a search is given and cannot change: two graphs, what to ask and tell the caller,
and the settings. Its working state is a partial solution, the vertices that are still open, and the
arena of the candidate maps. The caller's own state is carried beside it and is out of reach of the
search, as the working state is out of reach of the caller.

A search is ended early by the caller, by the limit of the arena, or by a fault (`Halt`), and keeps
the state it had reached.
-/

namespace CommonSubgraph

variable {ν ε σ α : Type}

/-- What a search is given. -/
structure Problem (ν ε σ : Type) where
  first : Graph ν ε
  second : Graph ν ε
  predicate : Predicate ν ε σ
  processor : Processor ν ε σ
  config : Config

/-- The working state of a search. -/
structure Work where
  /-- The smallest size in force, raised by a monotonic search. -/
  minimum : Nat
  /-- Vertices of the first graph that are not left out. -/
  considered : OrderedSet
  /-- Vertices of the second graph. -/
  targets : OrderedSet
  /-- Vertices of the first graph that are neither left out nor paired. -/
  unpaired : OrderedSet
  /-- Paired vertices of the first graph. -/
  xs : Array VertexId
  /-- Their partners in the second graph. -/
  ys : Array VertexId
  /-- Where the candidate maps are stored. -/
  arena : Arena VertexId
  /-- Solutions handed to the processor. -/
  found : Nat
deriving DecidableEq

/-- Why a search ended early. -/
inductive Halt where
  /-- The caller asked for it. -/
  | aborted
  /-- The arena was exhausted, or there was a fault. -/
  | failed (f : Failure)
deriving DecidableEq

/-- A step of a search, on its working state and the caller's state. -/
abbrev SearchM (σ α : Type) : Type := EStateM Halt (Work × σ) α

namespace SearchM

/-- The working state. -/
def work : SearchM σ Work := do return (← get).1

/-- Change the working state. -/
def modifyWork (f : Work → Work) : SearchM σ Unit := modify fun (w, s) => (f w, s)

/-- Change the working state unless that is a fault, which changes nothing. -/
def update (f : Work → Except Fault Work) : SearchM σ Unit := fun (w, s) =>
  match f w with
  | .ok w => .ok () (w, s)
  | .error x => .error (.failed (.fault x)) (w, s)

/-- Take over the outcome of a check. -/
def check (r : Except Fault α) : SearchM σ α := fun s =>
  match r with
  | .ok a => .ok a s
  | .error f => .error (.failed (.fault f)) s

/-- Ask the caller. -/
def ask (m : Callback σ α) : SearchM σ α := fun (w, s) =>
  match m s with
  | .ok a s => .ok a (w, s)
  | .error f s => .error (.failed (.fault f)) (w, s)

/-- Ask the caller whether to go on, and end the search if not. -/
def heed (m : Callback σ Action) : SearchM σ Unit := do
  match ← ask m with
  | .proceed => return
  | .abort => throw .aborted

/-! ## Candidate maps in the arena of the search -/

/-- The content of an arena slot. -/
def slot (position : Nat) : SearchM σ VertexId := do
  check ((← work).arena.get position)

/-- A map without rows at the top of the arena, with a table for the vertices below `n`. -/
def newMap (n : Nat) : SearchM σ CandidateMap := do
  return (CandidateMap.new (← work).arena).reserveRows n

/-- Start the row of `i` with room for `capacity` candidates. -/
def startRow (map : CandidateMap) (i : VertexId) (capacity : Nat) : SearchM σ CandidateMap := do
  match map.start (← work).arena i capacity with
  | .ok map => return map
  | .error f => throw (.failed f)

/-- Add the candidate `j` to the row of `i`. -/
def pushCandidate (map : CandidateMap) (i j : VertexId) : SearchM σ CandidateMap := do
  let map ← check (map.grow i (← work).arena.size)
  modifyWork fun w => { w with arena := w.arena.push j }
  return map

/-- Take the arena back to `position`. -/
def revertTo (position : Nat) : SearchM σ Unit := do
  let size := (← work).arena.size
  if position ≤ size then
    modifyWork fun w => { w with arena := w.arena.truncate position }
  else
    throw (.failed (.fault (.revertAboveTop position size)))

end SearchM

end CommonSubgraph
