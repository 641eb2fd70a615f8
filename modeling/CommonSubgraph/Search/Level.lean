import CommonSubgraph.Search.Problem

/-!
# Backtracking over pairings

A level of the search holds a partial solution and a candidate map with the partners that every
unpaired vertex can still have. If a solution of acceptable size is still possible, the level picks
the unpaired vertex with the fewest candidates, tries every candidate one level deeper, and in
common mode also tries leaving the vertex out. Otherwise the partial solution is delivered if its
size is acceptable.

Pairing `i` with `j` refines the map: every other unpaired vertex keeps those of its candidates
other than `j` whose edges to `j` match its own edges to `i`. The edges between two vertices are
listed anew for every question, and no list of them outlives the question it is asked with.

Every level deeper decides one more vertex of the first graph, so the number of undecided vertices
bounds the depth.

The text of the search is written over the steps that it is made of (`Steps`). The search of a
problem takes the steps of this module (`Problem.steps`). With others the same text is a search that
is looked at while it goes on, or one whose sums are checked.
-/

namespace CommonSubgraph

variable {ν ε σ : Type}

/-! ## Partial solutions -/

namespace Work

/-- Pair `i` with `j`. Neither may be paired yet, and `i` may not be left out either. -/
def extend (w : Work) (i j : VertexId) : Except Fault Work :=
  if w.xs.size ≠ w.ys.size then .error .sidesDiffer
  else if w.xs.contains i then .error .firstPairedTwice
  else if w.ys.contains j then .error .secondPairedTwice
  else if !w.unpaired.contains i.index then .error .notUnpaired
  else .ok { w with
    xs := w.xs.push i
    ys := w.ys.push j
    unpaired := (w.unpaired.erase i.index).1 }

/-- Take the newest pair back; its vertex becomes the last of the unpaired ones. -/
def retract (w : Work) : Except Fault Work :=
  match w.xs.back? with
  | none => .error .nothingPaired
  | some i =>
    if w.xs.size ≠ w.ys.size then .error .sidesDiffer
    else do
      let (unpaired, _) ← w.unpaired.insert i.index
      return { w with xs := w.xs.pop, ys := w.ys.pop, unpaired }

/-- Leave `i` out of the solution. -/
def leaveOut (w : Work) (i : VertexId) : Work :=
  { w with
    considered := (w.considered.erase i.index).1
    unpaired := (w.unpaired.erase i.index).1 }

/-- Consider `i` again; it becomes the last of the unpaired vertices. -/
def takeBack (w : Work) (i : VertexId) : Except Fault Work := do
  let (considered, _) ← w.considered.insert i.index
  let (unpaired, _) ← w.unpaired.insert i.index
  return { w with considered, unpaired }

/-- The unpaired vertices that have a candidate. -/
def openVertices (w : Work) (map : CandidateMap) : List VertexId :=
  w.unpaired.vertices.filter fun i => 0 < map.size i

end Work

/-- The first vertex of a list with the smallest size. -/
def firstSmallest (size : VertexId → Nat) : List VertexId → Option VertexId
  | [] => none
  | i :: rest =>
    match firstSmallest size rest with
    | none => some i
    | some k => if size k < size i then some k else some i

/-- The unpaired vertex with the shortest non-empty row, of several the one that comes first. -/
def Work.pick (w : Work) (map : CandidateMap) : Option VertexId :=
  firstSmallest map.size (w.openVertices map)

namespace Problem

open SearchM

variable (P : Problem ν ε σ)

/-! ## Sizes -/

/-- How many pairs a solution has to have. -/
def needed (w : Work) : Nat := if P.config.common then w.minimum else P.first.vertexCount

/-- Whether the partial solution can still grow to an acceptable size, counting one more pair for
every unpaired vertex with a candidate. -/
def feasible (w : Work) (map : CandidateMap) : Bool :=
  let free := (w.openVertices map).length
  !(P.config.common && P.config.maximum ≤ w.xs.size) && 0 < free && P.needed w ≤ w.xs.size + free

/-- Whether the partial solution has an acceptable size. -/
def acceptable (w : Work) : Bool :=
  if P.config.common then w.minimum ≤ w.xs.size && w.xs.size ≤ P.config.maximum
  else w.xs.size == P.first.vertexCount

/-! ## Which pairs are suitable -/

/-- Can `i` be paired with `j` as far as the two and their self-loops go? -/
def suitable (i j : VertexId) : SearchM σ Bool := do
  let loops₁ ← check (P.first.edgesBetween i i)
  let loops₂ ← check (P.second.edgesBetween j j)
  if loops₁.length ≠ loops₂.length then return false
  if !(← ask (P.predicate.vertices P.first i P.second j)) then return false
  ask (P.predicate.edges P.first i i loops₁ P.second j j loops₂)

/-- With `i` and `j` paired, can `iu` be paired with `ju`? Edge counts have to agree in each
direction, and the caller is asked only if there is an edge to compare. -/
def compatible (i j iu ju : VertexId) : SearchM σ Bool := do
  let there₁ ← check (P.first.edgesBetween i iu)
  let there₂ ← check (P.second.edgesBetween j ju)
  if there₁.length ≠ there₂.length then return false
  let back₁ ← check (P.first.edgesBetween iu i)
  let back₂ ← check (P.second.edgesBetween ju j)
  if (there₁ ++ back₁).length ≠ (there₂ ++ back₂).length then return false
  if (there₁ ++ back₁).isEmpty then return true
  ask (P.predicate.edges P.first i iu (there₁ ++ back₁) P.second j ju (there₂ ++ back₂))

end Problem

/-! ## Steps -/

/-- The steps that a search is made of. A level is given something of type `μ`, which tells its
candidate map and may tell more. -/
structure Steps (σ μ : Type) where
  /-- A map without rows at the top of the arena, with a table for the vertices below a number. -/
  newMap : Nat → SearchM σ CandidateMap
  /-- Start the row of a vertex with room for so many candidates. -/
  startRow : CandidateMap → VertexId → Nat → SearchM σ CandidateMap
  /-- Add a candidate to the row of a vertex. -/
  pushCandidate : CandidateMap → VertexId → VertexId → SearchM σ CandidateMap
  /-- Where the candidates of a vertex are in the arena. -/
  span : CandidateMap → VertexId → SearchM σ (List Nat)
  /-- Pair two vertices. -/
  extend : VertexId → VertexId → SearchM σ Unit
  /-- Take the newest pair back. -/
  retract : SearchM σ Unit
  /-- Leave a vertex out of the solution. -/
  leaveOut : VertexId → SearchM σ Unit
  /-- Consider a vertex again that was left out. -/
  takeBack : VertexId → SearchM σ Unit
  /-- Whether the partial solution can still grow to an acceptable size. -/
  feasible : Work → CandidateMap → SearchM σ Bool
  /-- Count the partial solution among those handed to the processor. -/
  record : SearchM σ Unit
  /-- The candidates of a level. -/
  map : μ → CandidateMap
  /-- What the first level is given, with the initial map. -/
  first : CandidateMap → SearchM σ μ
  /-- What the next level is given, with a refined map. -/
  refined : μ → CandidateMap → SearchM σ μ
  /-- What the next level is given if a vertex was left out and the map is still the same. -/
  unrefined : μ → μ
  /-- Tell the caller of a level with this number. -/
  enter : μ → Nat → SearchM σ Unit

/-- Run a step and take the arena back to `position` afterwards, also if the search was aborted or
the arena exhausted in it. A fault leaves everything as it is. -/
def SearchM.releasing {α : Type} (position : Nat) (m : SearchM σ α) : SearchM σ α := fun s =>
  match m s with
  | .ok a s => (do SearchM.revertTo position; return a : SearchM σ α) s
  -- nothing is tidied up after a fault
  | .error (.failed (.fault f)) s => .error (.failed (.fault f)) s
  | .error halt s => (do SearchM.revertTo position; throw halt : SearchM σ α) s

namespace Steps

open SearchM

variable {μ : Type} (S : Steps σ μ) (P : Problem ν ε σ)

/-! ## Candidate maps -/

/-- Add `j` to the row of `i` if the two can be paired at all. -/
def addInitial (i : VertexId) (map : CandidateMap) (j : VertexId) : SearchM σ CandidateMap := do
  if ← P.suitable i j then S.pushCandidate map i j else return map

/-- Add the row of `i` to the initial map. -/
def addInitialRow (map : CandidateMap) (i : VertexId) : SearchM σ CandidateMap := do
  let w ← work
  let map ← S.startRow map i w.targets.size
  w.targets.vertices.foldlM (S.addInitial P i) map

/-- The candidates while nothing is paired. -/
def initialMap : SearchM σ CandidateMap := do
  let considered := (← work).considered
  let map ← S.newMap considered.maxPlusOneOrZero
  considered.vertices.foldlM (S.addInitialRow P) map

/-- Keep the candidate at `position` in the row of `iu` if it goes with the pair of `i` and `j`. -/
def addRefined (i j iu : VertexId) (map : CandidateMap) (position : Nat) :
    SearchM σ CandidateMap := do
  let ju ← slot position
  if ju = j then return map
  if ← P.compatible i j iu ju then S.pushCandidate map iu ju else return map

/-- Add the row of `iu` to the map that refines `parent` by the pair of `i` and `j`. -/
def addRefinedRow (parent : CandidateMap) (i j : VertexId) (map : CandidateMap) (iu : VertexId) :
    SearchM σ CandidateMap := do
  let span ← S.span parent iu
  let map ← S.startRow map iu span.length
  span.foldlM (S.addRefined P i j iu) map

/-- The candidates after `i` was paired with `j`. -/
def refine (parent : CandidateMap) (i j : VertexId) : SearchM σ CandidateMap := do
  let unpaired := (← work).unpaired
  let map ← S.newMap unpaired.maxPlusOneOrZero
  unpaired.vertices.foldlM (S.addRefinedRow P parent i j) map

/-- Run `body` with the map refined by the pair of `i` and `j`. Its slots are given back however the
two end, a fault apart. -/
def withRefined (map : CandidateMap) (i j : VertexId) (body : CandidateMap → SearchM σ Unit) :
    SearchM σ Unit := do
  let position := (← work).arena.size
  releasing position do body (← S.refine P map i j)

/-! ## Levels -/

/-- Hand the partial solution to the processor if its size is acceptable. -/
def deliver : SearchM σ Unit := do
  let w ← work
  if P.acceptable w then
    S.record
    heed (P.processor.process P.first w.xs.toList P.second w.ys.toList)

/-- Try the candidate at `position` as the partner of `i`, with `deeper` being the next level. -/
def tryCandidate (map : CandidateMap) (i : VertexId) (deeper : CandidateMap → SearchM σ Unit)
    (position : Nat) : SearchM σ Unit := do
  let j ← slot position
  S.extend i j
  S.withRefined P map i j deeper
  S.retract

/-- Search from a level on, with `deeper` for the levels below it. -/
def level (deeper : μ → Nat → SearchM σ Unit) (m : μ) (number : Nat) : SearchM σ Unit := do
  S.enter m number
  let w ← work
  if ← S.feasible w (S.map m) then
    match w.pick (S.map m) with
    | none => throw (.failed (.fault .noOpenRow))
    | some i =>
      let span ← S.span (S.map m) i
      span.forM (S.tryCandidate P (S.map m) i fun refined => do
        deeper (← S.refined m refined) (number + 1))
      -- the candidates are used up; what is left are the solutions without `i`
      if P.config.common then
        S.leaveOut i
        deeper (S.unrefined m) (number + 1)
        S.takeBack i
  else S.deliver P

/-- Search from a level with `n` undecided vertices on. -/
def explore : (n : Nat) → μ → (level : Nat) → SearchM σ Unit
  | 0, m, level => do
    S.enter m level
    S.deliver P
  | n + 1, m, level => S.level P (explore n) m level

/-- Search from nothing paired. The slots of the initial map are given back at the end; if it cannot
even be built, its rows stay. -/
def search : SearchM σ Unit := do
  let map ← S.initialMap P
  let m ← S.first map
  releasing map.base (S.explore P (← work).unpaired.size m 0)

end Steps

/-! ## The search of a problem -/

namespace Problem

open SearchM

variable (P : Problem ν ε σ)

/-- The working state with the partial solution counted as handed over. In monotonic mode its size
becomes the minimum. -/
def handedOver (w : Work) : Work :=
  { w with
    minimum := if P.config.monotonic then w.xs.size else w.minimum
    found := w.found + 1 }

/-- The steps of the search of a problem. A level is given its candidate map and nothing more. -/
def steps : Steps σ CandidateMap where
  newMap := newMap
  startRow := startRow
  pushCandidate := pushCandidate
  span map i := return map.span i
  extend i j := update fun w => w.extend i j
  retract := update Work.retract
  leaveOut i := modifyWork fun w => w.leaveOut i
  takeBack i := update fun w => w.takeBack i
  feasible w map := return P.feasible w map
  record := modifyWork P.handedOver
  map map := map
  first map := return map
  refined _ map := return map
  unrefined map := map
  enter _ level := heed (P.predicate.progress level)

section

variable {P : Problem ν ε σ}

@[simp] theorem steps_span (map : CandidateMap) (i : VertexId) :
    P.steps.span map i = pure (map.span i) := rfl

@[simp] theorem steps_extend (i j : VertexId) :
    P.steps.extend i j = update fun w => w.extend i j := rfl

@[simp] theorem steps_retract : P.steps.retract = update Work.retract := rfl

@[simp] theorem steps_leaveOut (i : VertexId) :
    P.steps.leaveOut i = modifyWork fun w => w.leaveOut i := rfl

@[simp] theorem steps_takeBack (i : VertexId) :
    P.steps.takeBack i = update fun w => w.takeBack i := rfl

@[simp] theorem steps_feasible (w : Work) (map : CandidateMap) :
    P.steps.feasible w map = pure (P.feasible w map) := rfl

@[simp] theorem steps_record : P.steps.record = modifyWork P.handedOver := rfl

@[simp] theorem steps_map (map : CandidateMap) : P.steps.map map = map := rfl

@[simp] theorem steps_first (map : CandidateMap) : P.steps.first map = pure map := rfl

@[simp] theorem steps_refined (map refined : CandidateMap) :
    P.steps.refined map refined = pure refined := rfl

@[simp] theorem steps_unrefined (map : CandidateMap) : P.steps.unrefined map = map := rfl

end

/-- The candidates while nothing is paired. -/
def initialMap : SearchM σ CandidateMap := P.steps.initialMap P

/-- The candidates after `i` was paired with `j`. -/
def refine (parent : CandidateMap) (i j : VertexId) : SearchM σ CandidateMap :=
  P.steps.refine P parent i j

/-- Hand the partial solution to the processor if its size is acceptable. -/
def deliver : SearchM σ Unit := P.steps.deliver P

/-- Try the candidate at `position` as the partner of `i`, with `deeper` being the next level. -/
def tryCandidate (map : CandidateMap) (i : VertexId) (deeper : CandidateMap → SearchM σ Unit)
    (position : Nat) : SearchM σ Unit :=
  P.steps.tryCandidate P map i deeper position

/-- Search from a level with `n` undecided vertices on. -/
def explore (n : Nat) (map : CandidateMap) (level : Nat) : SearchM σ Unit :=
  P.steps.explore P n map level

/-- Search from nothing paired. -/
def search : SearchM σ Unit := P.steps.search P

theorem search_eq : P.search = (do
    let map ← P.initialMap
    releasing map.base (P.explore (← work).unpaired.size map 0)) := rfl

end Problem

end CommonSubgraph
