import CommonSubgraph.Proofs.Search.Events
import CommonSubgraph.Proofs.Solver.Deliveries

/-!
# What happens in a run

`s.events` are the events of the next run of `s`, in order, `s.calls` those among them that are
calls of the caller, and `s.hooks` the calls that may end the run: the levels that are told and the
solutions that are handed over. A run is its recorded search with the events forgotten
(`Solver.run_eq_ended`).

A reset of a coherent solver gives the state that any other solver of the same problem begins in
(`Solver.begun`, `Solver.Coherent.reset_eq`).
-/

namespace CommonSubgraph

variable {ν ε σ σ₁ σ₂ τ : Type}

/-! ## Sets that hold everything -/

/-- A set with every value of its domain in order does not tell what was in it before. -/
theorem OrderedSet.Lists.insertAll_eq {s : OrderedSet} {n : Nat} {l : List VertexId}
    (h : s.Lists n l) : s.insertAll = (OrderedSet.empty n).insertAll := by
  obtain rfl := h.domain_eq
  obtain ⟨hd, hr⟩ := h.represents.insertAll
  obtain ⟨hd', hr'⟩ := (OrderedSet.represents_empty s.domain).insertAll
  exact hr.ext hr' (hd.trans hd'.symm)

namespace Solver

/-! ## Events -/

/-- The search of a solver that is ready for it, with the events noted from now on. -/
def recorded (s : Solver ν ε σ) : EStateM.Result Halt (Work × (σ × List Event)) Unit :=
  s.problem.recorded (s.work, (s.env, []))

/-- What happens in the next run. -/
def events (s : Solver ν ε σ) : List Event :=
  match s.reset with
  | (.ok _, s₁) => (endState s₁.recorded).2.2
  | (.error _, _) => []

/-- The calls of the next run that may end it. -/
def hooks (s : Solver ν ε σ) : List Event := s.events.filter Event.isHook

/-- All calls that the next run makes of the caller. -/
def calls (s : Solver ν ε σ) : List Event := s.events.filter Event.isCall

variable {s s₁ : Solver ν ε σ}

/-- The events of a run are those of the search that starts after the reset. -/
theorem events_of_ready {u : Unit} (h : s.reset = (.ok u, s₁)) :
    s.events = (endState s₁.recorded).2.2 := by
  rw [events, h]

/-- If the reset fails, there are no events. -/
theorem events_of_error {f : Fault} (h : s.reset = (.error f, s₁)) : s.events = [] := by
  rw [events, h]

/-- A run is its recorded search with the events forgotten. -/
theorem run_eq_ended {u : Unit} (h : s.reset = (.ok u, s₁)) :
    s.run = s₁.ended (seen (beside Prod.fst) s₁.recorded) := by
  rw [run_of_ready h, recorded, Problem.recorded_erases]

/-- A recorded search that is ended early says how the run ends. -/
theorem run_of_recorded_error {u : Unit} {halt : Halt} {w : Work} {env : σ} {events : List Event}
    (h : s.reset = (.ok u, s₁)) (hr : s₁.recorded = .error halt (w, (env, events))) :
    s.run = s₁.ended (.error halt (w, env)) := by
  rw [run_eq_ended h, hr]
  rfl

/-- A run leaves the work of the recorded search. -/
theorem work_run {u : Unit} (h : s.reset = (.ok u, s₁)) :
    s.run.2.work = (endState s₁.recorded).1 := by
  obtain ⟨st, hst⟩ := s₁.ended_snd (seen (beside Prod.fst) s₁.recorded)
  rw [run_eq_ended h, hst, endState_seen]
  rfl

/-! ## How runs end -/

/-- Seen through two maps, an outcome is seen through their composition. -/
theorem seen_seen {η α τ' τ'' : Type} (f : τ' → τ) (g : τ'' → τ')
    (r : EStateM.Result η τ'' α) : seen f (seen g r) = seen (f ∘ g) r := by
  cases r <;> rfl

/-- What a search has come to does not depend on the solver or on the way its state is seen. -/
theorem ended_seen {ν' ε' : Type} (s : Solver ν ε σ₁) (s' : Solver ν' ε' σ₂) (f : τ → Work × σ₁)
    (f' : τ → Work × σ₂) (r : EStateM.Result Halt τ Unit) :
    (s.ended (seen f r)).1 = (s'.ended (seen f' r)).1 ∧
      (s.ended (seen f r)).2.status = (s'.ended (seen f' r)).2.status := by
  match r with
  | .ok _ _ => exact ⟨rfl, rfl⟩
  | .error .aborted _ => exact ⟨rfl, rfl⟩
  | .error (.failed (.exhausted _)) _ => exact ⟨rfl, rfl⟩
  | .error (.failed (.fault _)) _ => exact ⟨rfl, rfl⟩

/-- The next runs make the same calls and reservations and come to the same end, with callers in
states that are related by `R`. -/
structure RunsAlike (R : σ₁ → σ₂ → Prop) (s : Solver ν ε σ₁) (s' : Solver ν ε σ₂) : Prop where
  events_eq : s.events = s'.events
  result_eq : s.run.1 = s'.run.1
  status_eq : s.run.2.status = s'.run.2.status
  found_eq : s.run.2.found = s'.run.2.found
  highWater_eq : s.run.2.highWater = s'.run.2.highWater
  env : R s.run.2.env s'.run.2.env

/-- If one run is like another, the other is like it. -/
theorem RunsAlike.symm {s s' : Solver ν ε σ} (h : RunsAlike Eq s s') : RunsAlike Eq s' s :=
  ⟨h.events_eq.symm, h.result_eq.symm, h.status_eq.symm, h.found_eq.symm, h.highWater_eq.symm,
    h.env.symm⟩

/-- Runs that are like one run in turn are like each other. -/
theorem RunsAlike.trans {s s' s'' : Solver ν ε σ} (h : RunsAlike Eq s s')
    (h' : RunsAlike Eq s' s'') : RunsAlike Eq s s'' :=
  ⟨h.events_eq.trans h'.events_eq, h.result_eq.trans h'.result_eq,
    h.status_eq.trans h'.status_eq, h.found_eq.trans h'.found_eq,
    h.highWater_eq.trans h'.highWater_eq, h.env.trans h'.env⟩

/-- A run by its recorded search, if that is seen through `f`. -/
theorem run_of_seen {u : Unit} (h : s.reset = (.ok u, s₁)) {f : τ → Work × (σ × List Event)}
    {r : EStateM.Result Halt τ Unit} (hr : s₁.recorded = seen f r) :
    s.events = (f (endState r)).2.2 ∧ s.run = s₁.ended (seen (beside Prod.fst ∘ f) r) ∧
      s.run.2.work = (f (endState r)).1 ∧ s.run.2.env = (f (endState r)).2.1 := by
  have hrun : s.run = s₁.ended (seen (beside Prod.fst ∘ f) r) := by
    rw [run_eq_ended h, hr, seen_seen]
  obtain ⟨st, hst⟩ := s₁.ended_snd (seen (beside Prod.fst ∘ f) r)
  refine ⟨?_, hrun, ?_, ?_⟩
  · rw [events_of_ready h, hr, endState_seen]
  · rw [work_run h, hr, endState_seen]
  · rw [hrun, hst, endState_seen]
    rfl

/-- Runs are alike if their recorded searches are views of one. -/
theorem RunsAlike.of_seen {s : Solver ν ε σ₁} {s' : Solver ν ε σ₂} {s₁ : Solver ν ε σ₁}
    {s₁' : Solver ν ε σ₂} {u u' : Unit} (h : s.reset = (.ok u, s₁)) (h' : s'.reset = (.ok u', s₁'))
    {f : τ → Work × (σ₁ × List Event)} {f' : τ → Work × (σ₂ × List Event)}
    {r : EStateM.Result Halt τ Unit} (hr : s₁.recorded = seen f r) (hr' : s₁'.recorded = seen f' r)
    {R : σ₁ → σ₂ → Prop} (hevents : (f (endState r)).2.2 = (f' (endState r)).2.2)
    (hfound : (f (endState r)).1.found = (f' (endState r)).1.found)
    (hhighWater : (f (endState r)).1.arena.highWater = (f' (endState r)).1.arena.highWater)
    (henv : R (f (endState r)).2.1 (f' (endState r)).2.1) : RunsAlike R s s' := by
  obtain ⟨he, hrun, hw, hs⟩ := run_of_seen h hr
  obtain ⟨he', hrun', hw', hs'⟩ := run_of_seen h' hr'
  obtain ⟨hresult, hstatus⟩ :=
    ended_seen s₁ s₁' (beside Prod.fst ∘ f) (beside Prod.fst ∘ f') r
  refine ⟨he.trans (hevents.trans he'.symm), ?_, ?_, ?_, ?_, ?_⟩
  · rw [hrun, hrun']
    exact hresult
  · rw [hrun, hrun']
    exact hstatus
  · rw [found, found, hw, hw']
    exact hfound
  · rw [highWater, highWater, hw, hw']
    exact hhighWater
  · rw [hs, hs']
    exact henv

/-! ## How runs begin -/

/-- A reset sets the count of solutions to zero. -/
theorem found_of_reset {u : Unit} (h : s.reset = (.ok u, s₁)) : s₁.work.found = 0 := by
  rw [Solver.reset] at h
  split at h
  · cases h
    rfl
  · cases h

/-- The solver of a problem that is ready for its search. -/
def begun (P : Problem ν ε σ) (env : σ) : Solver ν ε σ where
  problem := P
  work :=
    { minimum := P.config.minimum
      considered := (OrderedSet.empty P.first.vertexCount).insertAll
      targets := (OrderedSet.empty P.second.vertexCount).insertAll
      unpaired := (OrderedSet.empty P.first.vertexCount).insertAll
      xs := #[]
      ys := #[]
      arena := ⟨#[], P.config.arenaLimit, 0⟩
      found := 0 }
  builtFor := P.config.arenaSettings
  status := .initial
  env := env

/-- What a coherent solver is left with when its state is discarded is as if it were new. -/
theorem Coherent.discard_eq (hs : s.Coherent) (ha : s.HasArena)
    (hb : s.builtFor = s.config.arenaSettings) : s.discard = begun s.problem s.env := by
  obtain ⟨_, hc⟩ := hs.considered
  obtain ⟨_, ht⟩ := hs.targets
  obtain ⟨_, hu⟩ := hs.unpaired
  have hlimit : s.work.arena.limit = s.problem.config.arenaLimit :=
    hs.limit_eq s.config hb.symm ha
  have harena : s.work.arena.clear = ⟨#[], s.problem.config.arenaLimit, 0⟩ := by
    rw [Arena.clear, hlimit]
  rw [discard, hc.insertAll_eq, ht.insertAll_eq, hu.insertAll_eq, harena, begun, hb]
  rfl

/-- Nothing of the runs before is left after a reset. -/
theorem Coherent.reset_eq (hs : s.Coherent) (ha : s.HasArena) :
    s.reset = (.ok (), begun s.problem s.env) := by
  rw [Solver.reset, renewArena]
  by_cases hb : s.builtFor = s.config.arenaSettings
  · rw [if_pos hb]
    exact congrArg (Prod.mk _) (hs.discard_eq ha hb)
  · rw [if_neg hb]
    obtain ⟨a, hn⟩ := ha
    rw [hn]
    exact congrArg (Prod.mk _) ((hs.setArena hn).discard_eq ⟨a, hn⟩ rfl)

end Solver

end CommonSubgraph
