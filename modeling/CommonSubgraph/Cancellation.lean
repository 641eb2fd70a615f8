import CommonSubgraph.Callback

/-!
# Cancellation and step budgets

A search has no time limit of its own. A watched predicate counts the levels entered and the deepest
of them, and stops the search once a token is cancelled or more levels were entered than a budget
allows; until then it passes every question on.

The token is shared: the predicate that is watched, and the processor beside it, see the token and
may cancel it, but they do not see the counters. So both are callbacks on `Token × σ`, and watched
ones are callbacks on `Watch × σ`.
-/

namespace CommonSubgraph

variable {ν ε σ α : Type}

/-- A request to stop, once made never taken back by the search. -/
structure Token where
  cancelled : Bool
deriving DecidableEq

instance : Inhabited Token := ⟨⟨false⟩⟩

/-- A token with the counters of the levels entered under it. -/
structure Watch where
  token : Token
  /-- Levels entered so far. -/
  steps : Nat
  /-- Deepest level reached. -/
  deepest : Nat
deriving DecidableEq

namespace Watch

/-- Counters at zero beside the token. -/
def start (token : Token) : Watch := ⟨token, 0, 0⟩

/-- Count the entry to a level. Neither the counter nor a budget is bounded; a counter of 64 bits
and a budget of 64 bits show the same as long as fewer than `2 ^ 64` levels are entered. -/
def record (w : Watch) (level : Nat) : Watch :=
  { w with steps := w.steps + 1, deepest := max w.deepest level }

/-- The watch with its token cancelled. -/
def cancel (w : Watch) : Watch := { w with token := ⟨true⟩ }

/-- Whether more levels were entered than the budget allows. -/
def overBudget (w : Watch) (budget : Option Nat) : Bool := budget.any fun n => n < w.steps

end Watch

/-- A callback that sees the token, beside counters that it does not see. -/
def Callback.watched (m : Callback (Token × σ) α) : Callback (Watch × σ) α := fun (w, s) =>
  match m (w.token, s) with
  | .ok a (token, s) => .ok a ({ w with token }, s)
  | .error f (token, s) => .error f ({ w with token }, s)

/-- The predicate beside counters that it neither sees nor changes. -/
def Predicate.watched (p : Predicate ν ε (Token × σ)) : Predicate ν ε (Watch × σ) where
  vertices g₁ v₁ g₂ v₂ := (p.vertices g₁ v₁ g₂ v₂).watched
  edges g₁ i₁ i₂ es₁ g₂ j₁ j₂ es₂ := (p.edges g₁ i₁ i₂ es₁ g₂ j₁ j₂ es₂).watched
  progress level := (p.progress level).watched

/-- The predicate stopped by the token and the budget. Every entry to a level is counted first, and
the predicate's own hook is asked only while the search may go on. -/
def Predicate.cancellable (p : Predicate ν ε (Token × σ)) (budget : Option Nat) :
    Predicate ν ε (Watch × σ) :=
  { p.watched with
    progress := fun level => do
      modify fun (w, s) => (w.record level, s)
      let (w, _) ← get
      if w.token.cancelled || w.overBudget budget then return .abort
      (p.progress level).watched }

/-- The processor beside counters that it neither sees nor changes. -/
def Processor.watched (p : Processor ν ε (Token × σ)) : Processor ν ε (Watch × σ) where
  process g₁ xs g₂ ys := (p.process g₁ xs g₂ ys).watched

end CommonSubgraph
