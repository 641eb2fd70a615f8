import CommonSubgraph.Processor
import CommonSubgraph.Solver

/-!
# Common ways of searching

One call for each common kind of search, as an action on the caller's state: it succeeds, or it
fails and the caller's state is as the failure left it. Where the kind of search brings its own
processor, the caller's state is the predicate's alone.
-/

namespace CommonSubgraph

variable {ν ε σ : Type}

/-- Run one search from the caller's state. -/
def Problem.runOnce (P : Problem ν ε σ) : EStateM Failure σ Unit := fun env =>
  match Solver.new P env with
  | .error f => .error (.fault f) env
  | .ok s =>
    match s.run with
    | (.ok _, s) => .ok () s.env
    | (.error f, s) => .error f s.env

/-- Run one search with a processor of its own, and answer what became of the processor's state,
which starts as `start`. -/
def Problem.runWith {τ : Type} (g₁ g₂ : Graph ν ε) (p : Predicate ν ε σ)
    (processor : Processor ν ε τ) (c : Config) (start : τ) : EStateM Failure σ τ := fun env =>
  let P : Problem ν ε (σ × τ) := ⟨g₁, g₂, p.onFst, processor.onSnd, c⟩
  match P.runOnce (env, start) with
  | .ok _ (env, result) => .ok result env
  | .error f (env, _) => .error f env

/-- Every common subgraph of two graphs. -/
def findCommon (g₁ g₂ : Graph ν ε) (p : Predicate ν ε σ) (processor : Processor ν ε σ) :
    EStateM Failure σ Unit :=
  Problem.runOnce ⟨g₁, g₂, p, processor, Config.default⟩

/-- Every embedding of all of the first graph into the second. -/
def findEmbeddings (g₁ g₂ : Graph ν ε) (p : Predicate ν ε σ) (processor : Processor ν ε σ) :
    EStateM Failure σ Unit :=
  Problem.runOnce ⟨g₁, g₂, p, processor, Config.exact⟩

/-- The first common subgraph of `size` vertices; the empty solution if there is none. -/
def findFirst (g₁ g₂ : Graph ν ε) (size : Nat) (p : Predicate ν ε σ) : EStateM Failure σ Solution :=
  FirstFound.result <$>
    Problem.runWith g₁ g₂ p FirstFound.processor (Config.fixedSize size) FirstFound.empty

/-- All common subgraphs of the largest size. -/
def findMaximum (g₁ g₂ : Graph ν ε) (p : Predicate ν ε σ) : EStateM Failure σ (List Solution) :=
  (fun kept => kept.solutions.toList) <$>
    Problem.runWith g₁ g₂ p Largest.processor { Config.default with monotonic := true }
      Largest.empty

/-- All common subgraphs of the largest size by structure alone. -/
def maximumCommon (g₁ g₂ : Graph ν ε) : Except Failure (List Solution) :=
  match findMaximum g₁ g₂ Predicate.structural () with
  | .ok solutions _ => .ok solutions
  | .error f _ => .error f

/-- The largest common subgraphs of each of several pairs of graphs, in order. -/
def maximumCommonEach (pairs : List (Graph ν ε × Graph ν ε)) :
    List (Except Failure (List Solution)) :=
  pairs.map fun (g₁, g₂) => maximumCommon g₁ g₂

end CommonSubgraph
