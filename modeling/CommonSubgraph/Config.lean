import CommonSubgraph.Size

/-!
# Settings of a search

Bounds on the size of solutions, the mode of the search, and the size of its scratch arena. Sizes
are counts of one machine word.
-/

namespace CommonSubgraph

/-- How a search is to be run. -/
structure Config where
  /-- The smallest solution to report; branches that cannot reach it are cut. -/
  minimum : Nat
  /-- The largest solution to report; branches stop growing there. -/
  maximum : Nat
  /-- Whether each reported solution raises the minimum to its own size. -/
  monotonic : Bool
  /-- Whether common subgraphs are wanted, or only embeddings of the whole first graph. -/
  common : Bool
  /-- Arena slots set aside for a start, per vertex of the second graph. -/
  arenaMultiplier : Nat
  /-- The most arena slots that may be reserved; no bound if absent. -/
  arenaLimit : Option Nat
deriving DecidableEq

namespace Config

/-- Arena slots set aside per vertex of the second graph unless told otherwise. -/
def defaultArenaMultiplier : Nat := 2

/-- Every common subgraph of at least one vertex, in an arena without a limit. -/
def default : Config where
  minimum := 1
  maximum := Size.largest
  monotonic := false
  common := true
  arenaMultiplier := defaultArenaMultiplier
  arenaLimit := none

instance : Inhabited Config := ⟨default⟩

/-- Embeddings of the whole first graph. -/
def exact : Config := { default with common := false }

/-- Common subgraphs of one size. -/
def fixedSize (size : Nat) : Config := { default with minimum := size, maximum := size }

/-- Whether no common subgraph can meet both bounds. This is no error: nothing will be reported. -/
def hasEmptySizeRange (c : Config) : Bool := c.common && c.maximum < c.minimum

/-- The number of arena slots to set aside for a second graph of `n` vertices. -/
def arenaCapacity (c : Config) (n : Nat) : Nat :=
  let wanted := Size.saturatingMul c.arenaMultiplier n
  match c.arenaLimit with
  | some limit => min limit wanted
  | none => wanted

/-- The settings an arena is built for. -/
def arenaSettings (c : Config) : Nat × Option Nat := (c.arenaMultiplier, c.arenaLimit)

end Config

end CommonSubgraph
