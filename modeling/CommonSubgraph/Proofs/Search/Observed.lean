import CommonSubgraph.Search.Level
import Mathlib.Tactic.Simps.Basic

/-!
# Searches that are looked at

An observer sees a search at two points: where a level is entered, with all that is in force there
(`Entry`), and where the row of a candidate map is started. The observed search is the text of the
search with other steps at these points (`Observer.steps`). The observer that only does what a
search does there makes it the search itself (`Problem.searchBy_plain`).

Of a candidate map, a level keeps in mind the arena as it was when the map had just been built
(`Frame`), and the maps of the levels above it (`Scope`). A level that leaves a vertex out goes on
with the map of the level above.
-/

namespace CommonSubgraph

variable {ν ε σ : Type}

/-- A candidate map, with the arena as it was when the map had just been built. -/
structure Frame where
  map : CandidateMap
  built : Arena VertexId
deriving DecidableEq

/-- The candidate maps that are in force on a level. -/
structure Scope where
  /-- The candidates of this level. -/
  active : Frame
  /-- Those of the levels above, the nearest first. -/
  enclosing : List Frame

/-- What is in force on the next level if its candidates are those of `active`. -/
def Scope.below (scope : Scope) (active : Frame) : Scope :=
  ⟨active, scope.active :: scope.enclosing⟩

/-- What is in force where a level is entered. -/
structure Entry where
  level : Nat
  /-- The candidates of this level. -/
  active : Frame
  /-- Those of the levels above, the nearest first. -/
  enclosing : List Frame
  work : Work
deriving DecidableEq

/-- What is done where a row is started and where a level is entered. -/
structure Observer (σ : Type) where
  /-- Start a row in a map, for a vertex, with room for so many candidates. -/
  start : CandidateMap → VertexId → Nat → SearchM σ CandidateMap
  enter : Entry → SearchM σ Unit

/-- A search starts its rows and asks whether to go on. -/
def Observer.plain (p : Predicate ν ε σ) : Observer σ where
  start := SearchM.startRow
  enter e := SearchM.heed (p.progress e.level)

/-- The steps of a search with an observer: those of the search but where the observer looks, and
with all candidate maps that are in force at hand on each level. -/
@[simps] def Observer.steps (o : Observer σ) (P : Problem ν ε σ) : Steps σ Scope :=
  { P.steps with
    startRow := o.start
    map := fun scope => scope.active.map
    first := fun map => do return ⟨⟨map, (← SearchM.work).arena⟩, []⟩
    refined := fun scope map => do return scope.below ⟨map, (← SearchM.work).arena⟩
    unrefined := fun scope => scope.below scope.active
    enter := fun scope level => do
      o.enter ⟨level, scope.active, scope.enclosing, ← SearchM.work⟩ }

namespace Problem

open SearchM

/-- The search with an observer. -/
def searchBy (P : Problem ν ε σ) (o : Observer σ) : SearchM σ Unit := (o.steps P).search P

variable {P : Problem ν ε σ}

/-- A level with an observer that does what a search does is the level of the search if those below
it are. -/
theorem level_plain {deeper : Scope → Nat → SearchM σ Unit}
    {below : CandidateMap → Nat → SearchM σ Unit}
    (h : ∀ scope number, deeper scope number = below scope.active.map number) (scope : Scope)
    (number : Nat) :
    ((Observer.plain P.predicate).steps P).level P deeper scope number =
      P.steps.level P below scope.active.map number := by
  simp only [Steps.level, h]
  rfl

/-- Levels that are looked at by the plain observer are those of the search. -/
theorem exploreBy_plain (n : Nat) (scope : Scope) (level : Nat) :
    ((Observer.plain P.predicate).steps P).explore P n scope level =
      P.explore n scope.active.map level := by
  induction n generalizing scope level with
  | zero => rfl
  | succ n ih => exact level_plain ih scope level

/-- A search that is looked at by the plain observer is the search. -/
theorem searchBy_plain (P : Problem ν ε σ) : P.searchBy (.plain P.predicate) = P.search := by
  simp only [searchBy, Steps.search, exploreBy_plain]
  rfl

end Problem

end CommonSubgraph
