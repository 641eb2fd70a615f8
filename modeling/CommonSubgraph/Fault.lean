import CommonSubgraph.Id

/-!
# Faults

A fault is the failure of a check that correct use never meets: a broken promise of a caller, or a
caller's own callback giving up. It is not an answer of the search. What was done before a fault
stays done, and nothing is tidied up after it.
-/

namespace CommonSubgraph

/-- A failed check, or a callback that gave up. -/
inductive Fault where
  /-- A position outside the table that was asked for it. -/
  | indexOutOfRange
  /-- A sum of two counts beyond the largest machine word. -/
  | sumTooLarge
  /-- More slots asked for than a block of storage can have. -/
  | capacityOverflow
  /-- A value put into a set whose domain does not hold it. -/
  | valueOutsideDomain
  /-- A second row started for one vertex. -/
  | rowStartedTwice
  /-- A candidate pushed to a row other than the one started last. -/
  | rowNotNewest
  /-- A row that was started and has no entry. -/
  | rowMissing (row : VertexId)
  /-- A candidate pushed to a row that already holds as many as were announced. -/
  | rowFull (row : VertexId)
  /-- A candidate pushed to a row above which slots are in use. -/
  | rowNotAtTop (row : VertexId)
  /-- An arena taken back to a position above its top. -/
  | revertAboveTop (position inUse : Nat)
  /-- A solution whose two sides have different lengths. -/
  | sidesDiffer
  /-- A vertex of the first graph paired a second time. -/
  | firstPairedTwice
  /-- A vertex of the second graph paired a second time. -/
  | secondPairedTwice
  /-- A vertex paired although it is not up for pairing. -/
  | notUnpaired
  /-- A pair taken back although there is none. -/
  | nothingPaired
  /-- A level judged feasible although every row is empty. -/
  | noOpenRow
  /-- An edge due for erasure that is no longer there. -/
  | edgeVanished (e : EdgeId)
  /-- A callback gave up with a message of its own. -/
  | raised (text : String)
deriving DecidableEq

/-- The words in which a fault is reported. -/
def Fault.message : Fault → String
  | indexOutOfRange => "index out of range"
  | sumTooLarge => "attempt to add with overflow"
  | capacityOverflow => "capacity overflow"
  | valueOutsideDomain =>
    "Pre-condition of insert violated: value outside the set's domain: value < self.domain()"
  | rowStartedTwice =>
    "Pre-condition of start_new_row violated: row started twice: ! self.has_row(i)"
  | rowNotNewest =>
    "Pre-condition of push violated: push to a row that is not the newest: "
      ++ "self.last_row_started == Some(i)"
  | rowMissing row => s!"row {row} was started but has no entry"
  | rowFull row => s!"row {row} is full"
  | rowNotAtTop row => s!"row {row} is no longer at the top of the arena"
  | revertAboveTop position inUse =>
    s!"arena reverted to {position} but only {inUse} slots are in use"
  | sidesDiffer => "solution sides differ in length"
  | firstPairedTwice => "vertex of the first graph paired twice"
  | secondPairedTwice => "vertex of the second graph paired twice"
  | notUnpaired => "vertex is not up for pairing"
  | nothingPaired => "no pair to take back"
  | noOpenRow => "a feasible level always has a non-empty row"
  | edgeVanished e => s!"back edge {e} vanished before erasure"
  | raised text => text

end CommonSubgraph
