import CommonSubgraph.Proofs.OrderedSet.Strict
import CommonSubgraph.Proofs.Search.InStep

/-!
# The strict search

A search counts in natural numbers, and it enters rows in tables that it has just made large enough.
The strict search (`Problem.searchStrict`) is the text of the search with steps that make the checks
which are left out there (`Problem.strictSteps`): every sum and every difference has to be a count
of one machine word, and the place of a row has to be in its table. All other checks are made by the
search itself.

Most of these checks are met whatever the search is doing. Sets have no more members than there are
vertices and the pairs are as many as the level says (`Work.Sized`), names of vertices have 32
bits, and rows end where the arena has once reached (`CandidateMap.EndsBy`). What nothing bounds
beforehand are the solutions and the slots of the arena.
-/

namespace CommonSubgraph

variable {ν ε σ : Type}

/-! ## Candidate maps -/

namespace CandidateMap

/-- `span` in one-word counts. -/
def spanStrict (m : CandidateMap) (i : VertexId) : Except Fault (List Nat) := do
  Size.hold (m.bounds i).2
  return m.span i

/-- `start` in one-word counts, into a place of the table that is there. -/
def startStrict (m : CandidateMap) (a : Arena VertexId) (i : VertexId) (capacity : Nat) :
    Except Failure CandidateMap := do
  let started ← m.start a i capacity
  (Size.hold (i.index + 1)).mapError .fault
  if started.rows.size ≤ i.index then throw (.fault .indexOutOfRange)
  return started

/-- `grow` in one-word counts. -/
def growStrict (m : CandidateMap) (i : VertexId) (top : Nat) : Except Fault CandidateMap := do
  Size.hold (m.bounds i).2
  let grown ← m.grow i top
  Size.hold (m.size i + 1)
  return grown

end CandidateMap

/-! ## Partial solutions -/

namespace Work

/-- `extend` in one-word counts. -/
def extendStrict (w : Work) (i j : VertexId) : Except Fault Work := do
  let extended ← w.extend i j
  let (unpaired, _) ← w.unpaired.eraseStrict i.index
  return { extended with unpaired }

/-- `retract` in one-word counts. -/
def retractStrict (w : Work) : Except Fault Work :=
  match w.xs.back? with
  | none => .error .nothingPaired
  | some i =>
    if w.xs.size ≠ w.ys.size then .error .sidesDiffer
    else do
      let (unpaired, _) ← w.unpaired.insertStrict i.index
      return { w with xs := w.xs.pop, ys := w.ys.pop, unpaired }

/-- `leaveOut` in one-word counts. -/
def leaveOutStrict (w : Work) (i : VertexId) : Except Fault Work := do
  let (considered, _) ← w.considered.eraseStrict i.index
  let (unpaired, _) ← w.unpaired.eraseStrict i.index
  return { w with considered, unpaired }

/-- `takeBack` in one-word counts. -/
def takeBackStrict (w : Work) (i : VertexId) : Except Fault Work := do
  let (considered, _) ← w.considered.insertStrict i.index
  let (unpaired, _) ← w.unpaired.insertStrict i.index
  return { w with considered, unpaired }

end Work

/-! ## Steps that check their sums -/

namespace SearchM

/-- End the search with a fault if `n` is not a count of one machine word. -/
def hold (n : Int) : SearchM σ Unit := check (Size.hold n)

/-- `startRow`, strictly. -/
def startRowStrict (map : CandidateMap) (i : VertexId) (capacity : Nat) :
    SearchM σ CandidateMap := do
  match map.startStrict (← work).arena i capacity with
  | .ok map => return map
  | .error f => throw (.failed f)

/-- `pushCandidate`, strictly. -/
def pushCandidateStrict (map : CandidateMap) (i j : VertexId) : SearchM σ CandidateMap := do
  let size := (← work).arena.size
  let map ← check (map.growStrict i size)
  hold (size + 1)
  modifyWork fun w => { w with arena := w.arena.push j }
  return map

end SearchM

namespace Problem

open SearchM

variable (P : Problem ν ε σ)

/-- The steps of the search, with every sum and every difference checked. -/
def strictSteps : Steps σ CandidateMap :=
  { P.steps with
    newMap := fun n => do
      hold n
      newMap n
    startRow := startRowStrict
    pushCandidate := pushCandidateStrict
    span := fun map i => check (map.spanStrict i)
    extend := fun i j => update fun w => w.extendStrict i j
    retract := update Work.retractStrict
    leaveOut := fun i => update fun w => w.leaveOutStrict i
    takeBack := fun i => update fun w => w.takeBackStrict i
    feasible := fun w map => do
      -- the largest sum that is made to see whether the level is feasible
      hold (w.xs.size + (w.openVertices map).length)
      P.steps.feasible w map
    record := do
      hold ((← work).found + 1)
      P.steps.record
    enter := fun map level => do
      hold level
      P.steps.enter map level }

variable {P : Problem ν ε σ}

@[simp] theorem strictSteps_map (map : CandidateMap) : P.strictSteps.map map = map := rfl

@[simp] theorem strictSteps_first (map : CandidateMap) :
    P.strictSteps.first map = pure map := rfl

@[simp] theorem strictSteps_refined (map refined : CandidateMap) :
    P.strictSteps.refined map refined = pure refined := rfl

@[simp] theorem strictSteps_unrefined (map : CandidateMap) :
    P.strictSteps.unrefined map = map := rfl

variable (P)

/-- `search`, strictly. -/
def searchStrict : SearchM σ Unit := P.strictSteps.search P

end Problem

/-! ## Where rows end -/

namespace CandidateMap

variable {m m' : CandidateMap} {a : Arena VertexId} {i : VertexId} {n n' k : Nat}

/-- No row of the map ends above `n`. -/
def EndsBy (m : CandidateMap) (n : Nat) : Prop :=
  ∀ i r, m.row? i = some r → r.start + r.length ≤ n

namespace EndsBy

/-- Rows that end by a position end by a higher one. -/
theorem mono (h : m.EndsBy n) (hn : n ≤ n') : m.EndsBy n' :=
  fun i r hr => Nat.le_trans (h i r hr) hn

/-- The row of a vertex ends by the position. -/
theorem bounds_le (h : m.EndsBy n) (i : VertexId) : (m.bounds i).2 ≤ n := by
  rw [bounds]
  cases hr : m.row? i with
  | none => exact Nat.zero_le n
  | some r => exact h i r hr

/-- A new map has no rows that could end too high. -/
theorem new (a : Arena VertexId) (k n : Nat) : ((CandidateMap.new a).reserveRows k).EndsBy n := by
  intro i r hr
  rw [row?_reserveRows, row?_new] at hr
  cases hr

/-- A row that is started ends at the top of the arena. -/
theorem start (h : m.EndsBy n) (ha : a.size ≤ n) (hs : m.start a i k = .ok m') : m'.EndsBy n := by
  obtain ⟨-, rfl⟩ := of_start hs
  intro k' r hr
  rw [row?_started] at hr
  split at hr
  · cases hr
    exact ha
  · exact h k' r hr

/-- A row that takes a candidate ends above the slot of it. -/
theorem grow (h : m.EndsBy n) (hk : k < n) (hg : m.grow i k = .ok m') : m'.EndsBy n := by
  obtain ⟨r, -, -, rfl, rfl⟩ := of_grow hg
  intro k' r' hr'
  rw [row?_enter] at hr'
  split at hr'
  · cases hr'
    exact hk
  · exact h k' r' hr'

end EndsBy

/-- The bounds of a counted row are counted. -/
theorem spanStrict_eq (h : m.EndsBy n) (hn : n ≤ Size.largest) (i : VertexId) :
    m.spanStrict i = .ok (m.span i) := by
  have hle := h.bounds_le i
  rw [spanStrict, Size.hold_of_le (by omega) (by omega)]
  rfl

/-- A row is always entered into a place of the table that is there. -/
theorem startStrict_eq (m : CandidateMap) (a : Arena VertexId) (i : VertexId) (n : Nat) :
    m.startStrict a i n = m.start a i n := by
  have hlt := i.index_lt
  have hlargest : UInt32.size ≤ Size.largest := by decide
  rw [startStrict]
  cases hs : m.start a i n with
  | error _ => rfl
  | ok m' =>
    obtain ⟨-, rfl⟩ := of_start hs
    have hplace : i.index < (m.started a i n).rows.size := by
      refine Nat.lt_of_lt_of_eq (m.lt_size_reserveRows i) ?_
      exact (Array.size_setIfInBounds ..).symm
    rw [Size.hold_of_le (by omega) (by omega)]
    exact if_neg (Nat.not_le_of_lt hplace)

/-- A candidate that is taken has its count in one word. -/
theorem growStrict_eq (h : m.EndsBy n) (hn : n ≤ Size.largest) (i : VertexId)
    (hk : ∀ m', m.grow i k = .ok m' → k < Size.largest) : m.growStrict i k = m.grow i k := by
  have hle := h.bounds_le i
  rw [growStrict, Size.hold_of_le (by omega) (by omega)]
  cases hg : m.grow i k with
  | error _ => rfl
  | ok m' =>
    have hlt := hk m' hg
    obtain ⟨r, hr, -, rfl, -⟩ := of_grow hg
    have hsize : m.size i = r.length := by rw [size, hr]; rfl
    have hhold : Size.hold (m.size i + 1) = .ok () := Size.hold_of_le (by omega) (by omega)
    rw [hhold]
    rfl

end CandidateMap

/-! ## Sizes of a working state -/

namespace Work

/-- The vertices are counted in sets over `0, …, n - 1`, there are `k` pairs, and the slots in use
are among those that were ever in use. -/
structure Sized (n k : Nat) (w : Work) : Prop where
  considered : w.considered.Linked n
  unpaired : w.unpaired.Linked n
  size_xs : w.xs.size = k
  size_le : w.arena.size ≤ w.arena.highWater

variable {w w' : Work} {n k : Nat} {i j : VertexId}

/-- What pairing does where it is no fault. -/
theorem eq_of_extend (h : w.extend i j = .ok w') : w' = { w with
    xs := w.xs.push i
    ys := w.ys.push j
    unpaired := (w.unpaired.erase i.index).1 } := by
  unfold extend at h
  split at h
  · cases h
  · split at h
    · cases h
    · split at h
      · cases h
      · split at h
        · cases h
        · exact (Except.ok.inj h).symm

/-- What taking a pair back does where it is no fault. -/
theorem of_retract (h : w.retract = .ok w') : ∃ (i : VertexId) (t : OrderedSet) (b : Bool),
    w.xs.back? = some i ∧ w.unpaired.insert i.index = .ok (t, b) ∧
      w' = { w with xs := w.xs.pop, ys := w.ys.pop, unpaired := t } := by
  unfold retract at h
  split at h
  · cases h
  · next i hi =>
    split at h
    · cases h
    · cases ht : w.unpaired.insert i.index with
      | error _ =>
        rw [ht] at h
        cases h
      | ok tb =>
        rw [ht] at h
        exact ⟨i, tb.1, tb.2, hi, ht, (Except.ok.inj h).symm⟩

/-- What considering a vertex again does where it is no fault. -/
theorem of_takeBack (h : w.takeBack i = .ok w') : ∃ (s t : OrderedSet) (b c : Bool),
    w.considered.insert i.index = .ok (s, b) ∧ w.unpaired.insert i.index = .ok (t, c) ∧
      w' = { w with considered := s, unpaired := t } := by
  unfold takeBack at h
  cases hs : w.considered.insert i.index with
  | error _ =>
    rw [hs] at h
    cases h
  | ok sb =>
    cases ht : w.unpaired.insert i.index with
    | error _ =>
      rw [hs, ht] at h
      cases h
    | ok tc =>
      rw [hs, ht] at h
      exact ⟨sb.1, tc.1, sb.2, tc.2, rfl, rfl, (Except.ok.inj h).symm⟩

namespace Sized

/-- Pairing makes one pair more. -/
theorem extend (h : w.Sized n k) (he : w.extend i j = .ok w') :
    w'.Sized n (k + 1) := by
  obtain rfl := eq_of_extend he
  have hxs : (w.xs.push i).size = k + 1 := by rw [Array.size_push, h.size_xs]
  exact ⟨h.considered, h.unpaired.erase i.index, hxs, h.size_le⟩

/-- Taking a pair back makes one pair less. -/
theorem retract (h : w.Sized n (k + 1)) (hr : w.retract = .ok w') : w'.Sized n k := by
  obtain ⟨i, t, b, -, ht, rfl⟩ := of_retract hr
  have hxs : w.xs.pop.size = k := by
    rw [Array.size_pop, h.size_xs]
    rfl
  exact ⟨h.considered, h.unpaired.insert ht, hxs, h.size_le⟩

/-- Leaving a vertex out makes as many pairs. -/
theorem leaveOut (h : w.Sized n k) (i : VertexId) : (w.leaveOut i).Sized n k :=
  ⟨h.considered.erase i.index, h.unpaired.erase i.index, h.size_xs, h.size_le⟩

/-- Considering a vertex again makes as many pairs. -/
theorem takeBack (h : w.Sized n k) (hb : w.takeBack i = .ok w') : w'.Sized n k := by
  obtain ⟨s, t, b, c, hs, ht, rfl⟩ := of_takeBack hb
  exact ⟨h.considered.insert hs, h.unpaired.insert ht, h.size_xs, h.size_le⟩

/-- Releasing slots leaves the sizes. -/
theorem truncate (h : w.Sized n k) (m : Nat) :
    Work.Sized n k { w with arena := w.arena.truncate m } := by
  refine ⟨h.considered, h.unpaired, h.size_xs, ?_⟩
  show (w.arena.truncate m).size ≤ w.arena.highWater
  rw [Arena.size_truncate]
  exact Nat.le_trans (Nat.min_le_right _ _) h.size_le

/-- A slot that is taken is counted by the mark. -/
theorem push (h : w.Sized n k) (j : VertexId) :
    Work.Sized n k { w with arena := w.arena.push j } := by
  refine ⟨h.considered, h.unpaired, h.size_xs, ?_⟩
  show (w.arena.push j).size ≤ max w.arena.highWater (w.arena.size + 1)
  rw [Arena.size_push]
  exact Nat.le_max_right _ _

/-- No more vertices are open than there are. -/
theorem length_openVertices_le (h : w.Sized n k) (map : CandidateMap) :
    (w.openVertices map).length ≤ n :=
  Nat.le_trans (List.length_filter_le _ _) h.unpaired.length_vertices_le

variable (hn : n ≤ Size.largest)

include hn

/-- Pairing passes its checks. -/
theorem extendStrict_eq (h : w.Sized n k) (i j : VertexId) :
    w.extendStrict i j = w.extend i j := by
  rw [extendStrict, h.unpaired.eraseStrict_eq hn]
  cases he : w.extend i j with
  | error _ => rfl
  | ok w' =>
    obtain rfl := eq_of_extend he
    rfl

/-- Taking a pair back passes its checks. -/
theorem retractStrict_eq (h : w.Sized n k) : w.retractStrict = w.retract := by
  unfold retractStrict Work.retract
  cases w.xs.back? with
  | none => rfl
  | some i =>
    dsimp only
    rw [h.unpaired.insertStrict_eq hn]

/-- Leaving a vertex out passes its checks. -/
theorem leaveOutStrict_eq (h : w.Sized n k) (i : VertexId) :
    w.leaveOutStrict i = .ok (w.leaveOut i) := by
  rw [leaveOutStrict, h.considered.eraseStrict_eq hn, h.unpaired.eraseStrict_eq hn]
  rfl

/-- Considering a vertex again passes its checks. -/
theorem takeBackStrict_eq (h : w.Sized n k) (i : VertexId) :
    w.takeBackStrict i = w.takeBack i := by
  rw [takeBackStrict, Work.takeBack, h.considered.insertStrict_eq hn,
    h.unpaired.insertStrict_eq hn]

end Sized

end Work

end CommonSubgraph
