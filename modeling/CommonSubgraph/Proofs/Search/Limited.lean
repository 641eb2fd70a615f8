import CommonSubgraph.Proofs.Search.Kept
import CommonSubgraph.Proofs.Search.Rows

/-!
# Searches under a limit

Beside a search whose arena has no limit, the same search under a limit has the same events up to
the first reservation that does not fit, and is exhausted there (`Problem.recorded_limited`). The
limit is looked at only where a row is started. But a row takes no more candidates than it was
started for, and only at the top of the arena; so the slots in use never exceed the limit
(`Problem.recorded_keepsTo`).

A limit of the largest word is none, since no sum of counts exceeds it.
-/

namespace CommonSubgraph

variable {ν ε σ : Type}

/-! ## Reservations that fit -/

/-- What fits within a limit fits within a larger one. -/
theorem Event.Fits.mono {e : Event} {limit limit' : Nat} (h : e.Fits limit) (hl : limit ≤ limit') :
    e.Fits limit' := by
  cases e with
  | reservation inUse requested => exact Nat.le_trans h hl
  | vertices | edges | progress | solution => trivial

/-- A reservation that does not fit exceeds the limit with the slots in use, and the limit is not
the largest word. -/
theorem Event.lt_of_not_fits {limit inUse requested : Nat}
    (h : ¬ (reservation inUse requested).Fits limit) :
    limit < inUse + requested ∧ limit < Size.largest := by
  have hlt : limit < Size.saturatingAdd inUse requested := Nat.lt_of_not_le h
  rw [Size.saturatingAdd] at hlt
  exact ⟨Nat.lt_of_lt_of_le hlt (Nat.min_le_left _ _),
    Nat.lt_of_lt_of_le hlt (Nat.min_le_right _ _)⟩

/-- Starting a row notes its reservation first, unless the row was started before. -/
theorem Observer.recording_start_eq (p : Predicate ν ε σ) (map : CandidateMap) (i : VertexId)
    (k : Nat) (w : Work) (x : σ × List Event) :
    (Observer.recording p).start map i k (w, x) =
      SearchM.startRow map i k (w, x.1, if map.hasRow i then x.2
        else x.2 ++ [.reservation w.arena.size k]) := rfl

namespace SearchM

variable {map : CandidateMap} {i : VertexId} {k : Nat} {w : Work} {x : σ}

/-- A row that was started before is a fault. -/
theorem startRow_of_hasRow (h : map.hasRow i = true) :
    startRow map i k (w, x) = .error (.failed (.fault .rowStartedTwice)) (w, x) := by
  rw [startRow_eq, CandidateMap.start, h]
  rfl

/-- A row whose slots are granted is started. -/
theorem startRow_of_reserve (h : map.hasRow i = false)
    (hr : w.arena.reserve k = .ok w.arena.size) :
    startRow map i k (w, x) = .ok (map.started w.arena i k) (w, x) := by
  rw [startRow_eq, CandidateMap.start, h, hr]
  rfl

/-- A row whose slots are refused exhausts the arena. -/
theorem startRow_of_exhausted {e : ArenaExhausted} (h : map.hasRow i = false)
    (hr : w.arena.reserve k = .error e) :
    startRow map i k (w, x) = .error (.failed (.exhausted e)) (w, x) := by
  rw [startRow_eq, CandidateMap.start, h, hr]
  rfl

end SearchM

namespace Comparison

/-! ## Beside a search without a limit -/

/-- The callers are in one state, and all reservations so far fit. -/
def AllFit (limit : Nat) (_ : Nat) (events : List Event) (x y : σ) : Prop :=
  x = y ∧ ∀ e ∈ events, e.Fits limit

/-- The last event is the first reservation that does not fit, and it has exhausted the arena. -/
def Exhausts (limit : Nat) (halt : Halt) (_ : Nat) (events : List Event) (_ : σ) : Prop :=
  ∃ before inUse requested, events = before ++ [.reservation inUse requested] ∧
    (∀ e ∈ before, e.Fits limit) ∧ ¬ (Event.reservation inUse requested).Fits limit ∧
    halt = .failed (.exhausted ⟨requested, inUse, limit⟩)

/-- With one more event that fits, all fit. -/
theorem AllFit.concat {limit found : Nat} {events : List Event} {x y : σ}
    (h : AllFit limit found events x y) (e : Event) (he : e.Fits limit) (found' : Nat) (z : σ) :
    AllFit limit found' (events ++ [e]) z z :=
  ⟨rfl, List.forall_mem_append.mpr ⟨h.2, List.forall_mem_singleton.mpr he⟩⟩

/-- Callers that are the same go on alike, whatever the limit is. -/
theorem goOn_limited (P : Problem ν ε σ) (limit : Nat) :
    GoOn (AllFit limit) (Exhausts limit) P P.predicate P.processor where
  vertices := by
    rintro found events x _ i j h
    obtain rfl := h.1
    exact .refl (h.concat (.vertices i j) trivial found) _
  edges := by
    rintro found events x _ i₁ i₂ es₁ j₁ j₂ es₂ h
    obtain rfl := h.1
    exact .refl (h.concat (.edges i₁ i₂ es₁ j₁ j₂ es₂) trivial found) _
  progress := by
    rintro found events x _ level h
    obtain rfl := h.1
    exact .alike (.refl (h.concat (.progress level) trivial found) _)
  solution := by
    rintro found events x _ xs ys h
    obtain rfl := h.1
    exact .alike (.refl (h.concat (.solution xs ys) trivial (found + 1)) _)

/-- Under the limit, a row is started as without one if it fits. -/
theorem tracks_start_limited (p : Predicate ν ε σ) (limit n : Nat) (map : CandidateMap)
    (i : VertexId) (k : Nat) :
    (ofEvents none (some limit) (AllFit limit) (Exhausts limit)).Tracks n
      (fun map' => True ∧ map'.base = map.base) ((Observer.recording p).start map i k)
      ((Observer.recording p).start map i k) := by
  refine ⟨fun w x hl => ?_, ?_⟩
  -- alone, only the reservation is noted, if the row may be started at all
  · rw [Observer.recording_start_eq, SearchM.startRow_eq]
    have hprefix : x.2 <+: if map.hasRow i then x.2 else x.2 ++ [.reservation w.arena.size k] :=
      prefix_ite_concat _ _
    cases hs : map.start w.arena i k with
    | ok map' =>
      refine ⟨hl, hprefix, fun _ _ hr => ?_⟩
      cases hr
      exact ⟨trivial, CandidateMap.base_start hs⟩
    | error f => exact ⟨hl, hprefix, fun _ _ hr => by cases hr⟩
  rintro w ⟨x, events⟩ ⟨_, _⟩ hl ⟨hn, rfl, hfit⟩
  obtain rfl := hfit.1
  -- in step, the two part where the reservation goes over the limit
  rw [Observer.recording_start_eq, Observer.recording_start_eq]
  cases hrow : map.hasRow i with
  | true =>
    rw [SearchM.startRow_of_hasRow hrow, SearchM.startRow_of_hasRow hrow]
    exact .error ⟨hn, rfl, hfit⟩
  | false =>
    have hnone : w.arena.reserve k = .ok w.arena.size := by rw [Arena.reserve, hl]; rfl
    have hsome : (w.limited (some limit)).arena.reserve k =
        if limit < Size.saturatingAdd w.arena.size k then .error ⟨k, w.arena.size, limit⟩
        else .ok w.arena.size := rfl
    rw [SearchM.startRow_of_reserve hrow hnone]
    by_cases hlt : limit < Size.saturatingAdd w.arena.size k
    · rw [if_pos hlt] at hsome
      have hstart := SearchM.startRow_of_exhausted (x := (x, events ++
        [.reservation w.arena.size k])) hrow hsome
      refine (congrArg (Outcome _ n _) hstart).mpr (.stopped hn ⟨List.prefix_refl _, ?_⟩)
      exact ⟨events, w.arena.size, k, rfl, hfit.2, Nat.not_le_of_lt hlt, rfl⟩
    · rw [if_neg hlt] at hsome
      have hstart := SearchM.startRow_of_reserve (x := (x, events ++
        [.reservation w.arena.size k])) hrow hsome
      refine (congrArg (Outcome _ n _) hstart).mpr (.ok ⟨hn, rfl, ?_⟩)
      exact hfit.concat (.reservation w.arena.size k) (Nat.le_of_not_lt hlt) _ _

/-! ## Within a limit -/

/-- The slots in use are within the limit, and so were all that were ever in use, at the noted
reservations as well. -/
structure KeepsTo (limit : Nat) (a : Arena VertexId) (events : List Event) : Prop where
  size_le : a.size ≤ limit
  highWater_le : a.highWater ≤ limit
  inUse_le : ∀ inUse requested, .reservation inUse requested ∈ events → inUse ≤ limit

/-- One more event keeps to the limit if it is no reservation with more slots in use. -/
theorem KeepsTo.concat {limit : Nat} {a : Arena VertexId} {events : List Event} {e : Event}
    (h : KeepsTo limit a events)
    (he : ∀ inUse requested, .reservation inUse requested = e → inUse ≤ limit) :
    KeepsTo limit a (events ++ [e]) :=
  { h with
    inUse_le := fun inUse requested hmem => by
      rcases List.mem_append.mp hmem with hmem | hmem
      · exact h.inUse_le inUse requested hmem
      · exact he inUse requested (List.mem_singleton.mp hmem) }

/-- Releasing slots keeps to the limit. -/
theorem KeepsTo.truncate {limit : Nat} {a : Arena VertexId} {events : List Event}
    (h : KeepsTo limit a events) (n : Nat) : KeepsTo limit (a.truncate n) events where
  size_le := by
    rw [Arena.size_truncate]
    exact Nat.le_trans (Nat.min_le_right _ _) h.size_le
  highWater_le := h.highWater_le
  inUse_le := h.inUse_le

/-- A slot taken below the limit keeps to it. -/
theorem KeepsTo.push {limit : Nat} {a : Arena VertexId} {events : List Event}
    (h : KeepsTo limit a events) (hroom : a.size < limit) (j : VertexId) :
    KeepsTo limit (a.push j) events where
  size_le := by
    rw [Arena.size_push]
    exact hroom
  highWater_le := Nat.max_le.mpr ⟨h.highWater_le, hroom⟩
  inUse_le := h.inUse_le

/-- Every row has been given its slots within the limit. -/
def RowsWithin (limit : Nat) (map : CandidateMap) : Prop :=
  ∀ i r, map.row? i = some r → r.start + r.capacity ≤ limit

/-- A row that is started is within the limit that granted its slots. -/
theorem RowsWithin.start {limit n : Nat} {map map' : CandidateMap} {a : Arena VertexId}
    {i : VertexId} (h : RowsWithin limit map) (hl : a.limit = some limit)
    (hlimit : limit < Size.largest) (hs : map.start a i n = .ok map') : RowsWithin limit map' := by
  obtain ⟨hr, rfl⟩ := CandidateMap.of_start hs
  intro k r hk
  rw [CandidateMap.row?_started] at hk
  split at hk
  · obtain rfl := Option.some.inj hk
    exact Arena.size_add_le_of_reserve hl hlimit hr
  · exact h k r hk

/-- A row that takes a candidate keeps the slots it was given. -/
theorem RowsWithin.grow {limit top : Nat} {map map' : CandidateMap} {i : VertexId}
    (h : RowsWithin limit map) (hg : map.grow i top = .ok map') : RowsWithin limit map' := by
  obtain ⟨r, hr, -, -, rfl⟩ := CandidateMap.of_grow hg
  intro k r' hk
  rw [CandidateMap.row?_enter] at hk
  split at hk
  · obtain rfl := Option.some.inj hk
    exact h i r hr
  · exact h k r' hk

/-- A row that takes a candidate at the top of the arena has been given that slot. -/
theorem RowsWithin.lt_of_grow {limit top : Nat} {map map' : CandidateMap} {i : VertexId}
    (h : RowsWithin limit map) (hg : map.grow i top = .ok map') : top < limit := by
  obtain ⟨r, hr, hroom, rfl, -⟩ := CandidateMap.of_grow hg
  exact Nat.lt_of_lt_of_le (Nat.add_lt_add_left hroom _) (h i r hr)

/-- What a search under a limit keeps to is kept by each of its steps. -/
theorem kept_keepsTo {limit : Nat} (hlimit : limit < Size.largest) :
    Kept (some limit) (KeepsTo limit) (RowsWithin limit) where
  call _ _ _ he h := h.concat fun _ _ heq => by
    subst heq
    cases he
  reservation _ _ _ h := h.concat fun _ _ heq => by
    cases heq
    exact h.size_le
  truncate _ _ n h := h.truncate n
  push _ _ _ _ _ j hmap hg h := h.push (hmap.lt_of_grow hg) j
  rows_new a n i r hr := by
    rw [CandidateMap.row?_reserveRows, CandidateMap.row?_new] at hr
    cases hr
  rows_start _ _ _ _ _ h hl hs := h.start hl hlimit hs
  rows_grow _ _ _ _ h hg := h.grow hg

end Comparison

namespace Problem

open Comparison

/-- The search under a limit goes as the one without if all reservations fit. Otherwise it has the
same events up to the first reservation that does not, at which the arena is exhausted. -/
theorem recorded_limited (P : Problem ν ε σ) (limit : Nat) {w : Work} (hw : w.arena.limit = none)
    (env : σ) :
    (∃ r : EStateM.Result Halt (Work × ((σ × List Event) × (σ × List Event))) Unit,
      P.recorded (w, (env, [])) = seen (beside Prod.fst) r ∧
      (P.alter P.predicate P.processor (some limit)).recorded
          (w.limited (some limit), (env, [])) =
        seen (fun st => (st.1.limited (some limit), st.2.2)) r ∧
      (endState r).2.1 = (endState r).2.2 ∧ ∀ e ∈ (endState r).2.1.2, e.Fits limit) ∨
    ∃ halt w' env' events, (P.alter P.predicate P.processor (some limit)).recorded
          (w.limited (some limit), (env, [])) = .error halt (w', (env', events)) ∧
        events <+: (endState (P.recorded (w, (env, [])))).2.2 ∧
        Exhausts limit halt w'.found events env' := by
  have htracks := ((goOn_limited P limit).callers none (some limit) fun n map i k =>
    tracks_start_limited P.predicate limit n map i k).searchBy 0 (some limit)
  have ho := htracks.outcome w (env, []) (env, []) hw
    ⟨Nat.zero_le _, rfl, rfl, List.forall_mem_nil _⟩
  rcases ho.exists_seen with ⟨r, hr₁, hr₂, hm⟩ | ⟨halt, w', x, hr₂, hprefix, hstopped⟩
  · obtain ⟨hevents, henv, hfit⟩ := hm.inStep
    exact .inl ⟨r, hr₁, hr₂, Prod.ext henv hevents, hfit⟩
  · exact .inr ⟨halt, w', x.1, x.2, hr₂, hprefix, hstopped⟩

/-- A search under a limit keeps to it. -/
theorem recorded_keepsTo (P : Problem ν ε σ) {limit : Nat} (hlimit : limit < Size.largest)
    {w : Work} {env : σ} {events : List Event} (hw : w.arena.limit = some limit)
    (h : KeepsTo limit w.arena events) :
    KeepsTo limit (endState (P.recorded (w, (env, events)))).1.arena
      (endState (P.recorded (w, (env, events)))).2.2 :=
  (kept_keepsTo hlimit).recorded P _ hw h

end Problem

end CommonSubgraph
