import CommonSubgraph.Callback
import CommonSubgraph.Solution

/-!
# Ready-made processors

Processors that collect solutions, keep the first, keep the largest, or print every one. Each is a
state together with the step that a solution makes on it.
-/

namespace CommonSubgraph

variable {ν ε : Type}

/-! ## Collecting -/

/-- Solutions collected, with the number at which to stop. -/
structure Collection where
  solutions : Array Solution
  limit : Option Nat
deriving DecidableEq

namespace Collection

/-- Nothing collected yet. -/
def empty (limit : Option Nat) : Collection := ⟨#[], limit⟩

instance : Inhabited Collection := ⟨empty none⟩

/-- Collect a solution and stop once there are as many as wanted. -/
def processor : Processor ν ε Collection where
  process _ xs _ ys := do
    let s ← Callback.ofExcept (Solution.ofSides xs ys)
    modify fun c => { c with solutions := c.solutions.push s }
    let c ← get
    match c.limit with
    | some limit => return if limit ≤ c.solutions.size then .abort else .proceed
    | none => return .proceed

end Collection

/-! ## The first solution -/

/-- The first solution, if one was found. -/
structure FirstFound where
  solution : Option Solution
deriving DecidableEq

namespace FirstFound

/-- Nothing found yet. -/
def empty : FirstFound := ⟨none⟩

instance : Inhabited FirstFound := ⟨empty⟩

/-- Keep the solution and stop. -/
def processor : Processor ν ε FirstFound where
  process _ xs _ ys := do
    let s ← Callback.ofExcept (Solution.ofSides xs ys)
    set (⟨some s⟩ : FirstFound)
    return .abort

/-- The solution kept, or the empty one. -/
def result (f : FirstFound) : Solution := f.solution.getD Solution.empty

end FirstFound

/-! ## The largest solutions -/

/-- Solutions as large as the first of them. -/
structure Largest where
  solutions : Array Solution
deriving DecidableEq

namespace Largest

/-- Nothing found yet. -/
def empty : Largest := ⟨#[]⟩

instance : Inhabited Largest := ⟨empty⟩

/-- Drop what is kept if a solution of `n` pairs is larger than the first one kept. -/
def outgrow (kept : Largest) (n : Nat) : Largest :=
  match kept.solutions[0]? with
  | some s => if s.size < n then empty else kept
  | none => kept

/-- Keep the solution, alone if it is larger than the first one kept. Sizes are meant not to shrink
from one solution to the next. -/
def processor : Processor ν ε Largest where
  process _ xs _ ys := do
    modify fun kept => kept.outgrow xs.length
    let s ← Callback.ofExcept (Solution.ofSides xs ys)
    modify fun kept => ⟨kept.solutions.push s⟩
    return .proceed

end Largest

/-! ## Printing -/

/-- Text printed so far, with the number of solutions in it. -/
structure Printout where
  count : Nat
  text : String
deriving DecidableEq

namespace Printout

/-- Nothing printed yet. -/
def empty : Printout := ⟨0, ""⟩

instance : Inhabited Printout := ⟨empty⟩

/-- Vertex numbers between brackets, each after a blank. -/
def bracketed (vs : List VertexId) : String :=
  vs.foldl (fun text v => text ++ " " ++ toString v.index) "[" ++ " ]"

/-- How solution number `n` is printed. -/
def block (n : Nat) (xs ys : List VertexId) : String :=
  s!"Common subgraph isomorphism solution #{n} found:\n" ++ "  x = " ++ bracketed xs ++ "\n"
    ++ "  y = " ++ bracketed ys ++ "\n"

/-- Print one more solution. -/
def add (p : Printout) (xs ys : List VertexId) : Printout :=
  ⟨p.count + 1, p.text ++ block p.count xs ys⟩

/-- Print every solution. -/
def processor : Processor ν ε Printout where
  process _ xs _ ys := do
    modify fun p => p.add xs ys
    return .proceed

end Printout

end CommonSubgraph
