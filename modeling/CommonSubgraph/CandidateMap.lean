import CommonSubgraph.Arena

/-!
# Candidate maps

A candidate map lists, for vertices of a first graph, the vertices of a second graph they may still
be paired with. The candidates of one vertex form a row, and rows live in an arena that several maps
share; a map itself holds where its rows are and the position its storage begins at.

Rows are filled one at a time: a row is started with the most candidates it may get, its candidates
are pushed, and then the next row is started. Only the row started last takes candidates, and only
while it ends at the top of the arena, which keeps every row contiguous.
-/

namespace CommonSubgraph

/-- Where the candidates of one vertex are. -/
structure Row where
  /-- Position of the first candidate. -/
  start : Nat
  /-- Number of candidates. -/
  length : Nat
  /-- The most candidates the row may get. -/
  capacity : Nat
deriving DecidableEq

/-- The number of bytes a row takes in the table of a map. -/
def Row.bytes : Nat := 32

/-- The candidates of the vertices of a first graph. -/
structure CandidateMap where
  /-- The row of each vertex that has one, by number of the vertex. -/
  rows : Array (Option Row)
  /-- Position of the arena at which the rows begin. -/
  base : Nat
  /-- The vertex whose row was started last. -/
  newest : Option VertexId
deriving DecidableEq

namespace CandidateMap

/-- A map without rows, to be stored from the top of the arena `a`. -/
def new (a : Arena VertexId) : CandidateMap := ⟨#[], a.size, none⟩

/-- Make room in the table for the rows of the vertices numbered below `n`. -/
def reserveRows : CandidateMap → (n : Nat) → CandidateMap
  | ⟨rows, base, newest⟩, n => ⟨rows ++ Array.replicate (n - rows.size) none, base, newest⟩

/-- Make room in the table as `reserveRows` does, unless the table would be too large. -/
def reserveRowsChecked (m : CandidateMap) (n : Nat) : Except Fault CandidateMap := do
  Storage.check Row.bytes n
  return m.reserveRows n

/-- The row of `i`, if it was started. -/
def row? (m : CandidateMap) (i : VertexId) : Option Row := m.rows[i.index]?.join

/-- Whether the row of `i` was started, be it empty or not. -/
def hasRow (m : CandidateMap) (i : VertexId) : Bool := (m.row? i).isSome

/-- The number of candidates of `i`, zero if it has no row. -/
def size (m : CandidateMap) (i : VertexId) : Nat := ((m.row? i).map Row.length).getD 0

/-- The first position of the row of `i` and the one behind it, both zero if there is no row. -/
def bounds (m : CandidateMap) (i : VertexId) : Nat × Nat :=
  match m.row? i with
  | some r => (r.start, r.start + r.length)
  | none => (0, 0)

/-- The positions of the candidates of `i`, lowest first. -/
def span (m : CandidateMap) (i : VertexId) : List Nat :=
  match m.row? i with
  | some r => List.range' r.start r.length
  | none => []

/-- The candidates of `i` in the order in which they were pushed. -/
def candidates (m : CandidateMap) (a : Arena VertexId) (i : VertexId) :
    Except Fault (List VertexId) :=
  match m.row? i with
  | some r => a.slice r.start r.length
  | none => .ok []

/-- Enter `r` as the row of `i`, which has a place in the table, and as the newest row. -/
def enter : CandidateMap → (i : VertexId) → (r : Row) → CandidateMap
  | ⟨rows, base, _⟩, i, r => ⟨rows.setIfInBounds i.index (some r), base, some i⟩

/-- Start the row of `i` with room for `capacity` candidates, reserved in the arena `a`. -/
def start (m : CandidateMap) (a : Arena VertexId) (i : VertexId) (capacity : Nat) :
    Except Failure CandidateMap :=
  if m.hasRow i then .error (.fault .rowStartedTwice)
  else match a.reserve capacity with
    | .error e => .error (.exhausted e)
    | .ok top => .ok ((m.reserveRows (i.index + 1)).enter i ⟨top, 0, capacity⟩)

/-- Start the row of `i` as `start` does, unless its candidates would make the arena too large. -/
def startChecked (m : CandidateMap) (a : Arena VertexId) (i : VertexId) (capacity : Nat) :
    Except Failure CandidateMap := do
  let m ← m.start a i capacity
  let _ ← a.reserveChecked VertexId.bytes capacity
  return m

/-- The map with one more candidate in the row of `i`, which has to be the one started last and to
end at `top`, the top of the arena. -/
def grow (m : CandidateMap) (i : VertexId) (top : Nat) : Except Fault CandidateMap :=
  if m.newest ≠ some i then .error .rowNotNewest
  else match m.row? i with
    | none => .error (.rowMissing i)
    | some r =>
      if r.capacity ≤ r.length then .error (.rowFull i)
      else if top ≠ r.start + r.length then .error (.rowNotAtTop i)
      else .ok (m.enter i { r with length := r.length + 1 })

/-- Add the candidate `j` to the row of `i`. -/
def push (m : CandidateMap) (a : Arena VertexId) (i j : VertexId) :
    Except Fault (CandidateMap × Arena VertexId) := do
  return (← m.grow i a.size, a.push j)

/-- Give back the rows of the map and everything above them. -/
def release (m : CandidateMap) (a : Arena VertexId) : Except Fault (Arena VertexId) :=
  a.revert m.base

/-! ## Rows that were never started -/

@[simp] theorem row?_new (a : Arena VertexId) (i : VertexId) : (new a).row? i = none := by
  simp [new, row?]

@[simp] theorem size_new (a : Arena VertexId) (i : VertexId) : (new a).size i = 0 := by
  simp [size]

/-- The span of a vertex has a position for each of its candidates. -/
theorem length_span (m : CandidateMap) (i : VertexId) : (m.span i).length = m.size i := by
  unfold span size
  cases m.row? i <;> simp

/-- A larger table has the same rows. -/
theorem row?_reserveRows (m : CandidateMap) (n : Nat) (i : VertexId) :
    (m.reserveRows n).row? i = m.row? i := by
  unfold reserveRows row?
  by_cases h : i.index < m.rows.size
  · rw [Array.getElem?_append_left h]
  · rw [Array.getElem?_append_right (by omega), Array.getElem?_eq_none (by omega : m.rows.size ≤ _)]
    by_cases h' : i.index - m.rows.size < n - m.rows.size
    · simp [h']
    · simp [h']

end CandidateMap

end CommonSubgraph
