import CommonSubgraph.Callback

/-!
# Traces of callbacks

The callbacks of a search with their answers, in order. Each is noted when it returns, so one that
gives up is not noted.
-/

namespace CommonSubgraph

variable {ν ε σ : Type}

/-- A callback that returned, with its arguments and its answer. -/
inductive Call where
  | vertices (v₁ v₂ : VertexId) (answer : Bool)
  | edges (i₁ i₂ : VertexId) (edges₁ : List EdgeId) (j₁ j₂ : VertexId) (edges₂ : List EdgeId)
    (answer : Bool)
  | progress (level : Nat) (answer : Action)
  | solution (xs ys : List VertexId) (answer : Action)
deriving DecidableEq

/-- The callback, noted with its answer when it returns. -/
def Callback.traced {α : Type} (m : Callback σ α) (call : α → Call) :
    Callback (σ × Array Call) α := fun (s, calls) =>
  match m s with
  | .ok a s => .ok a (s, calls.push (call a))
  | .error f s => .error f (s, calls)

/-- The predicate with its answers noted. -/
def Predicate.traced (p : Predicate ν ε σ) : Predicate ν ε (σ × Array Call) where
  vertices g₁ v₁ g₂ v₂ := (p.vertices g₁ v₁ g₂ v₂).traced (Call.vertices v₁ v₂)
  edges g₁ i₁ i₂ es₁ g₂ j₁ j₂ es₂ :=
    (p.edges g₁ i₁ i₂ es₁ g₂ j₁ j₂ es₂).traced (Call.edges i₁ i₂ es₁ j₁ j₂ es₂)
  progress level := (p.progress level).traced (Call.progress level)

/-- The processor with the solutions given to it noted. -/
def Processor.traced (p : Processor ν ε σ) : Processor ν ε (σ × Array Call) where
  process g₁ xs g₂ ys := (p.process g₁ xs g₂ ys).traced (Call.solution xs ys)

end CommonSubgraph
