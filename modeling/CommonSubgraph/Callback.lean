import CommonSubgraph.Graph.Basic

/-!
# What a search asks its caller

A search asks its caller which vertices and edges may correspond, tells it at every level how deep
it is, and hands it every solution. A caller's answers may depend on a state of its own, and a
caller may give up, which is a fault: the state is then as the failed call left it.

States of two callers live side by side in a pair (`Callback.onFst`, `Callback.onSnd`).
-/

namespace CommonSubgraph

variable {ν ε σ τ α : Type}

/-- Whether a search goes on after a callback. -/
inductive Action where
  /-- Keep searching. -/
  | proceed
  /-- Stop the whole search. -/
  | abort
deriving DecidableEq

instance : Inhabited Action := ⟨.proceed⟩

/-- A callback with a state `σ` of its own. -/
abbrev Callback (σ α : Type) : Type := EStateM Fault σ α

namespace Callback

/-- Take over the outcome of a check. -/
def ofExcept (r : Except Fault α) : Callback σ α := fun s =>
  match r with
  | .ok a => .ok a s
  | .error f => .error f s

/-- Give up with a message. -/
def giveUp (text : String) : Callback σ α := throw (.raised text)

/-- A callback on the first of two states. -/
def onFst (m : Callback σ α) : Callback (σ × τ) α := fun (s, t) =>
  match m s with
  | .ok a s => .ok a (s, t)
  | .error f s => .error f (s, t)

/-- A callback on the second of two states. -/
def onSnd (m : Callback τ α) : Callback (σ × τ) α := fun (s, t) =>
  match m t with
  | .ok a t => .ok a (s, t)
  | .error f t => .error f (s, t)

end Callback

/-! ## Predicates -/

/-- Which vertices and edges may correspond, and whether the search is to go on. -/
structure Predicate (ν ε σ : Type) where
  /-- May the vertex `v₁` of the first graph be paired with the vertex `v₂` of the second? -/
  vertices : (g₁ : Graph ν ε) → (v₁ : VertexId) → (g₂ : Graph ν ε) → (v₂ : VertexId) →
    Callback σ Bool
  /-- Given the accepted pair of `i₁` and `j₁`, may `i₂` and `j₂` be paired too? The edges are those
  from `i₁` to `i₂` followed by those from `i₂` to `i₁`, and likewise for the second graph. A vertex
  is compared with itself by its self-loops. -/
  edges : (g₁ : Graph ν ε) → (i₁ i₂ : VertexId) → (edges₁ : List EdgeId) →
    (g₂ : Graph ν ε) → (j₁ j₂ : VertexId) → (edges₂ : List EdgeId) → Callback σ Bool
  /-- Called on entry to every level of the search. -/
  progress : (level : Nat) → Callback σ Action

namespace Predicate

/-- Everything may correspond, so that only the structure of the graphs counts. -/
def structural : Predicate ν ε σ where
  vertices _ _ _ _ := pure true
  edges _ _ _ _ _ _ _ _ := pure true
  progress _ := pure .proceed

/-- Vertices correspond if their values are equal. -/
def equalValues [DecidableEq ν] : Predicate ν ε σ :=
  { structural with
    vertices := fun g₁ v₁ g₂ v₂ => do
      let x ← Callback.ofExcept (g₁.vertex v₁)
      let y ← Callback.ofExcept (g₂.vertex v₂)
      return decide (x.value = y.value) }

/-- The predicate with its state in the first place of a pair. -/
def onFst (p : Predicate ν ε σ) : Predicate ν ε (σ × τ) where
  vertices g₁ v₁ g₂ v₂ := (p.vertices g₁ v₁ g₂ v₂).onFst
  edges g₁ i₁ i₂ es₁ g₂ j₁ j₂ es₂ := (p.edges g₁ i₁ i₂ es₁ g₂ j₁ j₂ es₂).onFst
  progress level := (p.progress level).onFst

end Predicate

/-! ## Processors -/

/-- What is done with each solution. -/
structure Processor (ν ε σ : Type) where
  /-- Handle the solution that pairs `xs` of the first graph with `ys` of the second. -/
  process : (g₁ : Graph ν ε) → (xs : List VertexId) → (g₂ : Graph ν ε) → (ys : List VertexId) →
    Callback σ Action

namespace Processor

/-- The processor with its state in the first place of a pair. -/
def onFst (p : Processor ν ε σ) : Processor ν ε (σ × τ) where
  process g₁ xs g₂ ys := (p.process g₁ xs g₂ ys).onFst

/-- The processor with its state in the second place of a pair. -/
def onSnd (p : Processor ν ε τ) : Processor ν ε (σ × τ) where
  process g₁ xs g₂ ys := (p.process g₁ xs g₂ ys).onSnd

end Processor

end CommonSubgraph
