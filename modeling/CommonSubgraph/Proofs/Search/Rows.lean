import CommonSubgraph.CandidateMap
import Mathlib.Data.List.Forall2
import Mathlib.Logic.Function.Basic

/-!
# Rows of candidate maps, read through the arena

`m.Reads a rows` says what the rows of a candidate map hold when their positions are looked up in an
arena. It outlives everything that happens above the map (`Reads.of_prefix`). While a row is being
filled (`Filling`), every candidate of the number announced can be pushed, and the row then reads
one longer (`Filling.grow`).
-/

namespace CommonSubgraph

/-- Vertices of the second graph for each vertex of the first. -/
abbrev Rows : Type := VertexId → List VertexId

namespace CandidateMap

variable {m : CandidateMap} {a b : Arena VertexId} {rows : Rows} {i j k : VertexId}

/-- The candidates at the positions of the rows are those of `rows`. -/
def Reads (m : CandidateMap) (a : Arena VertexId) (rows : Rows) : Prop :=
  ∀ i, List.Forall₂ (fun k j => a.slots[k]? = some j) (m.span i) (rows i)

/-- A row has as many candidates as it reads. -/
theorem Reads.size_eq (h : m.Reads a rows) (i : VertexId) : m.size i = (rows i).length := by
  rw [← length_span, (h i).length_eq]

/-- A map keeps its rows while its part of the arena stays as it is. -/
theorem Reads.of_prefix (h : m.Reads a rows) (hp : a.slots.toList <+: b.slots.toList) :
    m.Reads b rows := by
  intro i
  apply (h i).imp
  intro k j hk
  rw [← Array.getElem?_toList] at hk ⊢
  obtain ⟨hlt, -⟩ := List.getElem?_eq_some_iff.mp hk
  obtain ⟨t, ht⟩ := hp
  rwa [← ht, List.getElem?_append_left hlt]

/-- The candidates of `i`, read slot by slot. -/
def read (m : CandidateMap) (a : Arena VertexId) (i : VertexId) : Except Fault (List VertexId) :=
  (m.span i).mapM a.get

/-- Reading a row through the arena gives its candidates. -/
theorem Reads.read_eq (h : m.Reads a rows) (i : VertexId) : m.read a i = .ok (rows i) := by
  have hi := h i
  rw [read]
  generalize m.span i = ks at hi ⊢
  generalize rows i = js at hi ⊢
  induction hi with
  | nil => rfl
  | @cons k j ks js hk _ ih =>
    have hget : a.get k = .ok j := by rw [Arena.get, hk]
    rw [List.mapM_cons, hget, ih]
    rfl

/-- What a position in a row of the map stands for. -/
theorem Reads.exists_slot (h : m.Reads a rows) {k : Nat} (hk : k ∈ m.span i) :
    ∃ j ∈ rows i, a.slots[k]? = some j := by
  have hi := h i
  generalize m.span i = ks at hi hk
  generalize rows i = js at hi
  induction hi with
  | nil => cases hk
  | @cons k' j ks js hj _ ih =>
    rcases List.mem_cons.mp hk with rfl | hk
    · exact ⟨j, List.mem_cons_self, hj⟩
    · obtain ⟨j', hj', hslot⟩ := ih hk
      exact ⟨j', List.mem_cons_of_mem j hj', hslot⟩

/-- The span of a row is a stretch of its length. -/
theorem span_of_row? {r : Row} (h : m.row? i = some r) :
    m.span i = List.range' r.start r.length := by
  rw [span, h]

/-- A map without rows reads empty. -/
theorem reads_reserveRows_new (a : Arena VertexId) (n : Nat) :
    ((new a).reserveRows n).Reads a fun _ => [] := by
  intro i
  have hs : ((new a).reserveRows n).span i = [] := by
    rw [span, row?_reserveRows, row?_new]
  rw [hs]
  exact .nil

/-! ## Entering rows -/

/-- Entering a row changes that of no other vertex, and none if there is no place for it. -/
theorem row?_enter (m : CandidateMap) (i k : VertexId) (r : Row) :
    (m.enter i r).row? k = if k = i ∧ i.index < m.rows.size then some r else m.row? k := by
  obtain ⟨rows, base, newest⟩ := m
  simp only [enter, row?, Array.getElem?_setIfInBounds]
  by_cases hk : k = i
  · subst hk
    by_cases hlt : k.index < rows.size <;> simp [hlt]
  · have hne : i.index ≠ k.index := fun h => hk (VertexId.index_inj.mp h).symm
    simp [hk, hne]

/-- A row has its place in the table. -/
theorem lt_size_of_row? {r : Row} (h : m.row? i = some r) : i.index < m.rows.size := by
  by_contra hlt
  rw [row?, Array.getElem?_eq_none (Nat.le_of_not_lt hlt)] at h
  cases h

/-- A table that was made large enough has a place for the vertex. -/
theorem lt_size_reserveRows (m : CandidateMap) (i : VertexId) :
    i.index < (m.reserveRows (i.index + 1)).rows.size := by
  obtain ⟨rows, base, newest⟩ := m
  simp only [reserveRows, Array.size_append, Array.size_replicate]
  omega

/-- A row can be entered anew where there is one. -/
theorem row?_enter_of_row? {r : Row} (hr : m.row? i = some r) (r' : Row) (k : VertexId) :
    (m.enter i r').row? k = if k = i then some r' else m.row? k := by
  rw [row?_enter]
  simp [lt_size_of_row? hr]

/-- What a row that takes a candidate must have been like. -/
theorem of_grow {m m' : CandidateMap} {i : VertexId} {top : Nat} (h : m.grow i top = .ok m') :
    ∃ r, m.row? i = some r ∧ r.length < r.capacity ∧ top = r.start + r.length ∧
      m' = m.enter i { r with length := r.length + 1 } := by
  rw [grow] at h
  split at h
  · cases h
  cases hr : m.row? i with
  | none =>
    rw [hr] at h
    cases h
  | some r =>
    simp only [hr] at h
    split at h
    · cases h
    · rename_i hroom
      split at h
      · cases h
      · rename_i htop
        exact ⟨r, rfl, Nat.lt_of_not_le hroom, not_not.mp htop, (Except.ok.inj h).symm⟩

/-! ## Filling a row -/

/-- The row of `i` was started last, ends at the top of the arena, and takes `room` more
candidates. -/
structure Filling (m : CandidateMap) (a : Arena VertexId) (rows : Rows) (i : VertexId)
    (room : Nat) : Prop where
  reads : m.Reads a rows
  newest : m.newest = some i
  row : ∃ r, m.row? i = some r ∧ r.start + r.length = a.size ∧ r.length + room ≤ r.capacity

/-- A map in which the row of `i` has just been started. -/
def started (m : CandidateMap) (a : Arena VertexId) (i : VertexId) (n : Nat) : CandidateMap :=
  (m.reserveRows (i.index + 1)).enter i ⟨a.size, 0, n⟩

/-- Starting a row changes that of no other vertex. -/
theorem row?_started (m : CandidateMap) (a : Arena VertexId) (i k : VertexId) (n : Nat) :
    (m.started a i n).row? k = if k = i then some ⟨a.size, 0, n⟩ else m.row? k := by
  rw [started, row?_enter, row?_reserveRows]
  simp [lt_size_reserveRows]

/-- Starting a row adds its vertex to those with a row. -/
theorem hasRow_started (m : CandidateMap) (a : Arena VertexId) (i k : VertexId) (n : Nat) :
    (m.started a i n).hasRow k = (decide (k = i) || m.hasRow k) := by
  rw [hasRow, row?_started]
  by_cases hk : k = i <;> simp [hk, hasRow]

/-- A row that was just started takes as many candidates as were announced. -/
theorem filling_started (h : m.Reads a rows) (hi : m.hasRow i = false) (n : Nat) :
    (m.started a i n).Filling a rows i n := by
  have hrow : m.row? i = none := by simpa [hasRow] using hi
  refine ⟨fun k => ?_, rfl, ⟨a.size, 0, n⟩, ?_, ?_, ?_⟩
  · by_cases hk : k = i
    · -- the row of `i` was empty before, since there was none
      subst hk
      have hr := h k
      rw [span, hrow] at hr
      rw [span, row?_started, if_pos rfl]
      exact hr
    · have hs : (m.started a i n).span k = m.span k := by
        rw [span, span, row?_started, if_neg hk]
      rw [hs]
      exact h k
  · rw [row?_started, if_pos rfl]
  · exact Nat.add_zero _
  · exact Nat.le_of_eq (Nat.zero_add n)

/-- Room for one more candidate is room for none. -/
theorem Filling.skip {room : Nat} (h : m.Filling a rows i (room + 1)) :
    m.Filling a rows i room := by
  obtain ⟨r, hr, htop, hroom⟩ := h.row
  exact { h with row := ⟨r, hr, htop, by omega⟩ }

/-- A candidate pushed while there is room makes the row one longer. -/
theorem Filling.grow {room : Nat} (h : m.Filling a rows i (room + 1)) (j : VertexId) :
    ∃ m', m.grow i a.size = .ok m' ∧
      m'.Filling (a.push j) (Function.update rows i (rows i ++ [j])) i room ∧
      (∀ k, m'.hasRow k = m.hasRow k) ∧ m'.base = m.base := by
  obtain ⟨r, hr, htop, hroom⟩ := h.row
  -- there is room, and the row ends at the top of the arena, so neither check refuses
  have hgrow : m.grow i a.size = .ok (m.enter i { r with length := r.length + 1 }) := by
    rw [CandidateMap.grow, h.newest]
    simp only [ne_eq, not_true_eq_false, if_false, hr]
    rw [if_neg (by omega), if_neg (by omega)]
  have hrow := row?_enter_of_row? hr { r with length := r.length + 1 }
  have hpush : a.slots.toList <+: (a.push j).slots.toList := by
    simp [Arena.push]
  refine ⟨_, hgrow, ⟨fun k => ?_, rfl, _, (hrow i).trans (if_pos rfl), ?_, ?_⟩, fun k => ?_, rfl⟩
  · have hk := (h.reads.of_prefix hpush) k
    by_cases hki : k = i
    · subst hki
      rw [span_of_row? ((hrow k).trans (if_pos rfl)), Function.update_self, List.range'_concat]
      rw [span_of_row? hr] at hk
      refine List.rel_append hk (.cons ?_ .nil)
      have hsize : r.start + 1 * r.length = a.slots.size := by
        rw [Nat.one_mul]
        exact htop
      rw [hsize]
      exact Array.getElem?_push_size
    · have hspan : (m.enter i { r with length := r.length + 1 }).span k = m.span k := by
        rw [span, span, hrow, if_neg hki]
      rw [hspan, Function.update_of_ne hki]
      exact hk
  · rw [Arena.size_push, ← htop]
    rfl
  · show r.length + 1 + room ≤ r.capacity
    omega
  · rw [hasRow, hrow, hasRow]
    by_cases hki : k = i
    · rw [if_pos hki, hki, hr]
      rfl
    · rw [if_neg hki]

end CandidateMap

end CommonSubgraph
