import CommonSubgraph.Search.Level

/-!
# Solvers

A solver runs a search, any number of times, and keeps what the last run left: how it ended, how
many solutions it found, and how much of the arena it used. Every run starts from a reset, which
discards whatever an earlier run left behind, be it finished, stopped or broken off by a fault.

Settings may be changed between runs. The arena is rebuilt when the settings it was built for are no
longer those in force; the minimum in force starts again from the one that is set. Settings that ask
for more slots than there can be storage for are a fault. A reset that meets it changes nothing else
but takes the arena as built for these settings, so the next one goes on with the arena it has.
-/

namespace CommonSubgraph

variable {ν ε σ : Type}

/-- Where a solver is in its life. -/
inductive Status where
  /-- Built or reset, not yet run. -/
  | initial
  /-- A search was begun and has not ended, as after a fault. -/
  | searching
  /-- The last search visited everything. -/
  | exhausted
  /-- The last search was stopped by the caller. -/
  | aborted
  /-- The last search ran out of arena slots. -/
  | failed
deriving DecidableEq

/-- A search problem with the state of its last run. -/
structure Solver (ν ε σ : Type) where
  problem : Problem ν ε σ
  work : Work
  /-- The settings the arena was built for. -/
  builtFor : Nat × Option Nat
  status : Status
  /-- The caller's state. -/
  env : σ

namespace Solver

/-- A new arena for the problem. -/
def newArena (P : Problem ν ε σ) : Except Fault (Arena VertexId) :=
  Arena.newChecked VertexId.bytes (P.config.arenaCapacity P.second.vertexCount) P.config.arenaLimit

/-- A solver with the arena `a` that has not been run. -/
def ofArena (P : Problem ν ε σ) (env : σ) (a : Arena VertexId) : Solver ν ε σ where
  problem := P
  work :=
    { minimum := P.config.minimum
      considered := OrderedSet.empty P.first.vertexCount
      targets := OrderedSet.empty P.second.vertexCount
      unpaired := OrderedSet.empty P.first.vertexCount
      xs := #[]
      ys := #[]
      arena := a
      found := 0 }
  builtFor := P.config.arenaSettings
  status := .initial
  env := env

/-- A solver that has not been run. -/
def new (P : Problem ν ε σ) (env : σ) : Except Fault (Solver ν ε σ) :=
  ofArena P env <$> newArena P

/-! ## Settings -/

/-- The settings in force from the next run on. -/
def config (s : Solver ν ε σ) : Config := s.problem.config

/-- Replace the settings; nothing else changes before the next run or reset. -/
def setConfig (s : Solver ν ε σ) (c : Config) : Solver ν ε σ :=
  { s with problem := { s.problem with config := c } }

/-- Replace the arena by one that was built for the settings in force. -/
def setArena (s : Solver ν ε σ) (a : Arena VertexId) : Solver ν ε σ :=
  { s with builtFor := s.config.arenaSettings, work := { s.work with arena := a } }

/-- Replace the settings, the minimum in force and the arena with them. -/
def withConfig (s : Solver ν ε σ) (c : Config) : Except Fault (Solver ν ε σ) := do
  let s := s.setConfig c
  let s := s.setArena (← newArena s.problem)
  return { s with work := { s.work with minimum := c.minimum } }

/-- Set the smallest size to report. -/
def setMinimum (s : Solver ν ε σ) (n : Nat) : Solver ν ε σ :=
  let s := s.setConfig { s.config with minimum := n }
  { s with work := { s.work with minimum := n } }

/-- Set the largest size to report. -/
def setMaximum (s : Solver ν ε σ) (n : Nat) : Solver ν ε σ :=
  s.setConfig { s.config with maximum := n }

/-- Say whether each solution raises the minimum to its own size. -/
def setMonotonic (s : Solver ν ε σ) (b : Bool) : Solver ν ε σ :=
  s.setConfig { s.config with monotonic := b }

/-- Choose between common subgraphs and embeddings of the whole first graph. -/
def setCommon (s : Solver ν ε σ) (b : Bool) : Solver ν ε σ :=
  s.setConfig { s.config with common := b }

/-! ## What a run left -/

/-- Solutions handed to the processor in the last run. -/
def found (s : Solver ν ε σ) : Nat := s.work.found

/-- The most arena slots in use at once in the last run. -/
def highWater (s : Solver ν ε σ) : Nat := s.work.arena.highWater

/-! ## Running -/

/-- Build a new arena if the settings in force are not those the arena was built for. After a fault
the old arena stays and is taken as built for them. -/
def renewArena (s : Solver ν ε σ) : Except Fault Unit × Solver ν ε σ :=
  -- the limit of an arena is fixed when it is built
  if s.builtFor = s.config.arenaSettings then (.ok (), s)
  else match newArena s.problem with
    | .ok a => (.ok (), s.setArena a)
    | .error f => (.error f, s.setArena s.work.arena)

/-- Discard what earlier runs left, the caller's state and the arena itself apart. -/
def discard (s : Solver ν ε σ) : Solver ν ε σ :=
  { s with
    work :=
      { minimum := s.config.minimum
        considered := s.work.considered.insertAll
        targets := s.work.targets.insertAll
        unpaired := s.work.unpaired.insertAll
        xs := #[]
        ys := #[]
        arena := s.work.arena.clear
        found := 0 }
    status := .initial }

/-- Discard what earlier runs left, the caller's state apart. -/
def reset (s : Solver ν ε σ) : Except Fault Unit × Solver ν ε σ :=
  match s.renewArena with
  | (.ok _, s) => (.ok (), s.discard)
  | (.error f, s) => (.error f, s)

/-- Search from scratch. A search that was stopped by the caller is no failure; the status tells it
from one that visited everything. After a fault of the search the status still says that it is under
way; a fault of the reset before it leaves the status as it was. -/
def run (s : Solver ν ε σ) : Except Failure Unit × Solver ν ε σ :=
  match s.reset with
  | (.error f, s) => (.error (.fault f), s)
  | (.ok _, s) =>
    match s.problem.search (s.work, s.env) with
    | .ok _ (work, env) => (.ok (), { s with work, env, status := .exhausted })
    | .error .aborted (work, env) => (.ok (), { s with work, env, status := .aborted })
    | .error (.failed (.exhausted e)) (work, env) =>
      (.error (.exhausted e), { s with work, env, status := .failed })
    | .error (.failed (.fault f)) (work, env) =>
      (.error (.fault f), { s with work, env, status := .searching })

end Solver

end CommonSubgraph
