import CommonSubgraph.Proofs.Search.Events

/-!
# What a search keeps

Between two looks at its candidate maps, a search does few things to its arena: it pushes a
candidate, takes slots back, and has an event noted. What is kept by each of these holds at the end
of every recorded search, however that ends (`Comparison.Kept.recorded`), since a search compared
with itself stays in step.

One thing so kept is that the mark of the arena counts all slots that were in use when a row was
started (`Comparison.kept_markedUp`).
-/

namespace CommonSubgraph

variable {ν ε σ α : Type}

namespace Comparison

/-- `K` is kept by all that a search under the limit does to its arena and its events, as long as
its candidate maps satisfy `rows`. -/
structure Kept (limit : Option Nat) (K : Arena VertexId → List Event → Prop)
    (rows : CandidateMap → Prop) : Prop where
  call : ∀ a events e, e.isCall = true → K a events → K a (events ++ [e])
  reservation : ∀ a events n, K a events → K a (events ++ [.reservation a.size n])
  truncate : ∀ a events n, K a events → K (a.truncate n) events
  push : ∀ a events map map' i j, rows map → map.grow i a.size = .ok map' → K a events →
    K (a.push j) events
  rows_new : ∀ a n, rows ((CandidateMap.new a).reserveRows n)
  rows_start : ∀ map map' a i n, rows map → a.limit = limit → map.start a i n = .ok map' →
    rows map'
  rows_grow : ∀ map map' i top, rows map → map.grow i top = .ok map' → rows map'

variable {limit : Option Nat} {K : Arena VertexId → List Event → Prop}
variable {rows : CandidateMap → Prop}

/-- A search beside itself, with `K` all along. -/
def steady (h : Kept limit K rows) : Comparison (σ × List Event) (σ × List Event) where
  limit₁ := limit
  limit₂ := limit
  inStep a _ x y := x = y ∧ K a x.2
  rows := rows
  before _ _ := True
  stopped _ _ _ _ := False
  before_refl _ := trivial
  before_trans _ _ _ _ _ := trivial
  stopped_before _ _ _ _ _ _ hs := hs
  inStep_truncate a _ x _ n hs := ⟨hs.1, h.truncate a x.2 n hs.2⟩
  rows_new := h.rows_new
  rows_start := h.rows_start
  rows_grow := h.rows_grow
  inStep_push a _ x _ map map' i j hmap hg hs := ⟨hs.1, h.push a x.2 map map' i j hmap hg hs.2⟩

namespace Kept

/-- A recorded callback ends like itself, and what was kept is kept. -/
theorem endAlike (h : Kept limit K rows) {e : Event} (he : e.isCall = true) (m : Callback σ α)
    (a : Arena VertexId) (found found' : Nat) (x y : σ × List Event)
    (hs : (steady h).inStep a found x y) :
    EndAlike ((steady h).inStep a found') (m.recording e x) (m.recording e y) := by
  obtain ⟨rfl, hx⟩ := hs
  obtain ⟨s, events⟩ := x
  have hK := h.call a events e he hx
  exact .onFst m s fun _ => ⟨rfl, hK⟩

/-- A recorded caller stays in step with itself while `K` is kept. -/
theorem callers (h : Kept limit K rows) (P : Problem ν ε σ) :
    (steady h).Callers P.recording (.recording P.predicate) P.predicate.recording
      P.processor.recording (.recording P.predicate) where
  vertices n i j := .ask (fun _ => trivial) fun a found => h.endAlike rfl _ a found found
  edges n i₁ i₂ es₁ j₁ j₂ es₂ :=
    .ask (fun _ => trivial) fun a found => h.endAlike rfl _ a found found
  enter n := by
    rintro ⟨level, active₁, enclosing₁, w₁⟩ ⟨_, active₂, enclosing₂, w₂⟩ rfl
    exact .heed (fun _ => trivial) fun a found x y hs =>
      .alike (h.endAlike rfl _ a found found x y hs)
  deliver n limit := .deliver (fun _ _ _ => trivial) fun a found x y xs ys hs =>
    .alike (h.endAlike rfl _ a found (found + 1) x y hs)
  start n map i k hmap := by
    have hnote : (steady h).Tracks n (fun _ => True)
        (SearchM.noteRow (σ := σ) map i k) (SearchM.noteRow map i k) := by
      refine ⟨fun _ _ hl => ⟨hl, trivial, fun _ _ _ => trivial⟩, ?_⟩
      rintro w ⟨x, events⟩ _ hl ⟨hn, rfl, hx⟩
      refine .ok ⟨hn, rfl, ?_⟩
      show K w.arena (if map.hasRow i then events else events ++ [_])
      split
      · exact hx
      · exact h.reservation w.arena events k hx
    exact hnote.bind fun _ _ => .startRow rfl hmap i k

/-- What is kept holds at the end of a recorded search. -/
theorem recorded (h : Kept limit K rows) (P : Problem ν ε σ) (env : σ) {w : Work}
    {events : List Event} (hw : w.arena.limit = limit) (hK : K w.arena events) :
    K (endState (P.recorded (w, (env, events)))).1.arena
      (endState (P.recorded (w, (env, events)))).2.2 := by
  have htracks := (h.callers P).searchBy 0 P.config.arenaLimit
  rcases htracks.exists_seen rfl hw (x := (env, events)) (y := (env, events))
    ⟨Nat.zero_le _, rfl, hK⟩ with ⟨r, hr, -, hm⟩ | ⟨_, _, _, _, hf⟩
  · have hrecorded : P.recorded (w, (env, events)) = seen (beside Prod.fst) r := hr
    rw [hrecorded]
    cases r with
    | ok _ _ => exact hm.inStep.2
    | error _ _ => exact hm.inStep.2
  · exact hf.elim

end Kept

/-! ## The mark of the arena -/

/-- The mark counts the slots in use, and those that were when a reservation was noted. -/
structure MarkedUp (a : Arena VertexId) (events : List Event) : Prop where
  size_le : a.size ≤ a.highWater
  inUse_le : ∀ inUse requested, .reservation inUse requested ∈ events → inUse ≤ a.highWater

/-- The mark counts whatever a search does. -/
theorem kept_markedUp (limit : Option Nat) : Kept limit MarkedUp fun _ => True where
  call a events e he h := by
    refine ⟨h.size_le, fun inUse requested hmem => ?_⟩
    rcases List.mem_append.mp hmem with hmem | hmem
    · exact h.inUse_le inUse requested hmem
    · obtain rfl := List.mem_singleton.mp hmem
      cases he
  reservation a events n h := by
    refine ⟨h.size_le, fun inUse requested hmem => ?_⟩
    rcases List.mem_append.mp hmem with hmem | hmem
    · exact h.inUse_le inUse requested hmem
    · cases List.mem_singleton.mp hmem
      exact h.size_le
  truncate a events n h := by
    refine ⟨?_, h.inUse_le⟩
    rw [Arena.size_truncate]
    exact Nat.le_trans (Nat.min_le_right _ _) h.size_le
  push a events map map' i j _ _ h := by
    refine ⟨?_, fun inUse requested hmem => ?_⟩
    · rw [Arena.size_push]
      exact Nat.le_max_right _ _
    · exact Nat.le_trans (h.inUse_le inUse requested hmem) (Nat.le_max_left _ _)
  rows_new _ _ := trivial
  rows_start _ _ _ _ _ _ _ _ := trivial
  rows_grow _ _ _ _ _ _ := trivial

end Comparison

end CommonSubgraph
