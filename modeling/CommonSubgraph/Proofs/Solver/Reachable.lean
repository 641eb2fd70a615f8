import CommonSubgraph.Proofs.Search.Caller
import CommonSubgraph.Proofs.Search.Exploring
import CommonSubgraph.Solver

/-!
# Solvers between runs

A solver is reached from a new one by changes of its settings and of the caller's state, by resets
and by runs, whatever those come to: faults are among them (`Solver.Reachable`). All that a run
needs of the solver it starts from holds in every such state (`Solver.Coherent`): the linked sets
are in order, and the arena has the limit of the settings it was built for. A reset then makes the
state that `View.initial` shows, and it faults only where the settings in force ask for too large
an arena (`Solver.Coherent.reset`).
-/

namespace CommonSubgraph

variable {ν ε σ : Type}

/-! ## How a search ends -/

namespace Problem

variable {P : Problem ν ε σ} {A : Act → Prop} {keep : Nat → Prop} {α : Type}

/-- However a program ends, it leaves a state that some view describes, with the limit that the
arena had all along. -/
theorem Follows.shows {m : SearchM σ α} {w w' : Work} {env : σ} {E : List Step} {a : α} {v' : View}
    {limit : Option Nat} (h : P.Follows keep m w env E a w') (hw' : P.Shows w' v')
    (hv' : v'.arena.limit = limit) (hE : ∀ st ∈ E, st.view.arena.limit = limit) :
    ∃ v, P.Shows (endState (m (w, env))).1 v ∧ v.arena.limit = limit := by
  cases h with
  | through _ eq =>
    rw [eq]
    exact ⟨v', hw', hv'⟩
  | @stopped E₁ E₂ st _ _ halt w'' n split _ _ eq _ shows =>
    rw [eq]
    have hst : st.view.arena.limit = limit := hE st (by simp [split])
    refine ⟨st.view.afterHalt n halt, shows, ?_⟩
    match halt with
    | .aborted | .failed (.exhausted _) | .failed (.fault _) => exact hst

/-- From the initial state, a search does what `Searched` says. -/
theorem exists_searched (hg₁ : P.first.WellFormed) (hg₂ : P.second.WellFormed) (hP : P.Within A)
    {w : Work} {a : Arena VertexId} (hw : P.Shows w (.initial P.first P.config a)) (env : σ) :
    ∃ E w' v', Searched P.first P.second P.config a E v' ∧ P.Shows w' (v'.rewind a.size) ∧
      (∀ st ∈ E, A st.act) ∧ P.Follows (a.size ≤ ·) P.search w env E () w' := by
  obtain ⟨E, _, w', ⟨v', hs, hw'⟩, hA, hf⟩ := runs_search hg₁ hg₂ hP hw env
  exact ⟨E, w', v', hs, hw', hA, hf⟩

end Problem

namespace Solver

/-! ## Reachable solvers -/

/-- The solvers that a caller can come to. The single setters are changes of the settings as well,
but for the one that also sets the minimum in force. -/
inductive Reachable : Solver ν ε σ → Prop where
  | new {P : Problem ν ε σ} {env : σ} {s : Solver ν ε σ} (h : Solver.new P env = .ok s) :
    Reachable s
  | withConfig {s s' : Solver ν ε σ} (hs : Reachable s) (c : Config)
    (h : s.withConfig c = .ok s') : Reachable s'
  | setConfig {s : Solver ν ε σ} (hs : Reachable s) (c : Config) : Reachable (s.setConfig c)
  | setMinimum {s : Solver ν ε σ} (hs : Reachable s) (n : Nat) : Reachable (s.setMinimum n)
  | setEnv {s : Solver ν ε σ} (hs : Reachable s) (env : σ) : Reachable { s with env }
  | reset {s : Solver ν ε σ} (hs : Reachable s) : Reachable s.reset.2
  | run {s : Solver ν ε σ} (hs : Reachable s) : Reachable s.run.2

/-- There can be an arena for the settings in force. -/
def HasArena (s : Solver ν ε σ) : Prop := ∃ a, newArena s.problem = .ok a

/-- The linked sets are in order, and the arena has the limit of the settings it was built for
unless there can be no arena for these. -/
structure Coherent (s : Solver ν ε σ) : Prop where
  considered : ∃ l, s.work.considered.Lists s.problem.first.vertexCount l
  targets : ∃ l, s.work.targets.Lists s.problem.second.vertexCount l
  unpaired : ∃ l, s.work.unpaired.Lists s.problem.first.vertexCount l
  limit_eq : ∀ c : Config, c.arenaSettings = s.builtFor → (s.setConfig c).HasArena →
    s.work.arena.limit = c.arenaLimit

/-- A new arena has the limit of its settings. -/
theorem limit_of_newArena {P : Problem ν ε σ} {a : Arena VertexId} (h : newArena P = .ok a) :
    a.limit = P.config.arenaLimit := by
  unfold newArena Arena.newChecked at h
  cases hc : Storage.check VertexId.bytes (P.config.arenaCapacity P.second.vertexCount) with
  | ok _ =>
    rw [hc] at h
    exact Except.ok.inj h ▸ rfl
  | error _ =>
    rw [hc] at h
    cases h

/-- Whether there can be an arena depends on the arena settings only. -/
theorem newArena_congr {P : Problem ν ε σ} {c : Config}
    (h : c.arenaSettings = P.config.arenaSettings) :
    newArena { P with config := c } = newArena P := by
  obtain ⟨hm, hl⟩ := Prod.mk.inj h
  simp only [newArena, Config.arenaCapacity, hm, hl]

/-- If the slots asked for fit into one block of memory, there is an arena for them. -/
theorem newArena_of_le {P : Problem ν ε σ} (h : VertexId.bytes *
    P.config.arenaCapacity P.second.vertexCount ≤ Storage.largestBlock) :
    newArena P =
      .ok (Arena.new (P.config.arenaCapacity P.second.vertexCount) P.config.arenaLimit) := by
  rw [newArena, Arena.newChecked, Storage.check_eq_ok_iff.mpr h]
  rfl

/-- There can be an arena for a well-formed second graph unless a caller asks for more slots. -/
theorem newArena_eq {P : Problem ν ε σ} (hg₂ : P.second.WellFormed)
    (hm : P.config.arenaMultiplier = Config.defaultArenaMultiplier) : newArena P =
      .ok (Arena.new (P.config.arenaCapacity P.second.vertexCount) P.config.arenaLimit) := by
  have hcapacity : P.config.arenaCapacity P.second.vertexCount ≤ 2 * P.second.vertexCount := by
    have hwanted : Size.saturatingMul P.config.arenaMultiplier P.second.vertexCount ≤
        2 * P.second.vertexCount := by
      rw [hm]
      exact Nat.min_le_left _ _
    rw [Config.arenaCapacity]
    split
    · exact Nat.le_trans (Nat.min_le_right _ _) hwanted
    · exact hwanted
  have hcount : P.second.vertexCount ≤ 2 ^ 32 := hg₂.vertexCount_le
  have hblock : Storage.largestBlock = 2 ^ 63 - 1 := rfl
  refine newArena_of_le ?_
  rw [VertexId.bytes, hblock]
  omega

variable {s s' s₁ : Solver ν ε σ}

/-- A solver is made if its arena is. -/
theorem new_of_newArena {P : Problem ν ε σ} {a : Arena VertexId} (h : newArena P = .ok a)
    (env : σ) : Solver.new P env = .ok (ofArena P env a) := by
  rw [Solver.new, h]
  rfl

/-- If a solver is made, its arena was. -/
theorem exists_newArena_of_new {P : Problem ν ε σ} {env : σ} (h : Solver.new P env = .ok s) :
    ∃ a, newArena P = .ok a ∧ s = ofArena P env a := by
  cases ha : newArena P with
  | ok a =>
    rw [Solver.new, ha] at h
    exact ⟨a, rfl, (Except.ok.inj h).symm⟩
  | error f =>
    rw [Solver.new, ha] at h
    cases h

/-- A solver is coherent when it is made. -/
theorem coherent_ofArena {P : Problem ν ε σ} {a : Arena VertexId} (h : newArena P = .ok a)
    (env : σ) : (ofArena P env a).Coherent where
  considered := ⟨[], .empty _⟩
  targets := ⟨[], .empty _⟩
  unpaired := ⟨[], .empty _⟩
  limit_eq _ hc _ := (limit_of_newArena h).trans (Prod.mk.inj hc).2.symm

/-- A solver whose arena was just built is coherent. -/
theorem Coherent.setArena (hs : s.Coherent) {a : Arena VertexId}
    (h : newArena s.problem = .ok a) : (s.setArena a).Coherent :=
  { hs with limit_eq := fun _ hc _ => (limit_of_newArena h).trans (Prod.mk.inj hc).2.symm }

/-- If there can be no arena for the settings in force, it does not matter which one is taken as
built for them. -/
theorem Coherent.setArena_of_error (hs : s.Coherent) {f : Fault} (a : Arena VertexId)
    (h : newArena s.problem = .error f) : (s.setArena a).Coherent :=
  { hs with
    limit_eq := fun c hc ⟨b, hb⟩ => by
      have hcongr : newArena { s.problem with config := c } = newArena s.problem :=
        newArena_congr hc
      have hb : newArena { s.problem with config := c } = .ok b := hb
      rw [hcongr, h] at hb
      cases hb }

/-- New settings leave a solver coherent. -/
theorem Coherent.setConfig (hs : s.Coherent) (c : Config) : (s.setConfig c).Coherent :=
  ⟨hs.considered, hs.targets, hs.unpaired, hs.limit_eq⟩

/-! ## Resets -/

/-- Discarding what earlier runs left makes the initial state. -/
theorem Coherent.shows_discard (hs : s.Coherent) (hg₁ : s.problem.first.WellFormed)
    (hg₂ : s.problem.second.WellFormed) :
    s.problem.Shows s.discard.work (.initial s.problem.first s.config s.work.arena.clear) := by
  obtain ⟨_, hc⟩ := hs.considered
  obtain ⟨_, ht⟩ := hs.targets
  obtain ⟨_, hu⟩ := hs.unpaired
  exact {
    xs_eq := rfl
    ys_eq := rfl
    considered := hc.insertAll hg₁.vertexCount_le
    unpaired := hu.insertAll hg₁.vertexCount_le
    targets := ht.insertAll hg₂.vertexCount_le
    minimum_eq := rfl
    found_eq := rfl
    arena_eq := rfl }

/-- Changes of the working state that leave it described by a view, and the limit as it is. -/
theorem Coherent.of_shows (hs : s.Coherent) {w : Work} {v : View} (hw : s.problem.Shows w v)
    (hl : v.arena.limit = s.work.arena.limit) (env : σ) (st : Status) :
    Coherent { s with work := w, env := env, status := st } where
  considered := ⟨_, hw.considered⟩
  targets := ⟨_, hw.targets⟩
  unpaired := ⟨_, hw.unpaired⟩
  limit_eq c hc ha := by
    show w.arena.limit = c.arenaLimit
    rw [hw.arena_eq, hl]
    exact hs.limit_eq c hc ha

/-- The solver `s₁` is `s`, ready to search in the empty arena `a`. -/
structure Ready (s s₁ : Solver ν ε σ) (a : Arena VertexId) : Prop where
  problem_eq : s₁.problem = s.problem
  env_eq : s₁.env = s.env
  shows : s.problem.Shows s₁.work (.initial s.problem.first s.config a)
  size_eq : a.size = 0
  limit_eq : s.HasArena → a.limit = s.config.arenaLimit
  coherent : s₁.Coherent

/-- A reset makes the solver ready unless there can be no arena for its settings. -/
theorem Coherent.reset (hs : s.Coherent) (hg₁ : s.problem.first.WellFormed)
    (hg₂ : s.problem.second.WellFormed) :
    (∃ s₁ a, s.reset = (.ok (), s₁) ∧ s.Ready s₁ a) ∨
      ∃ f s₁, s.reset = (.error f, s₁) ∧ newArena s.problem = .error f ∧ s₁.Coherent ∧
        s₁.env = s.env := by
  -- ready after the state was discarded, whether the arena is an old or a new one
  have ready (s₁ : Solver ν ε σ) (hs₁ : s₁.Coherent) (hp : s₁.problem = s.problem)
      (he : s₁.env = s.env) (hb : s₁.builtFor = s.config.arenaSettings) :
      s.Ready s₁.discard s₁.work.arena.clear := by
    have hshows := hs₁.shows_discard (hp ▸ hg₁) (hp ▸ hg₂)
    have hc : s₁.config = s.config := congrArg Problem.config hp
    refine ⟨hp, he, ?_, rfl, fun ha => ?_, ?_⟩
    · rw [← hp, ← hc]
      exact hshows
    · refine hs₁.limit_eq s.config hb.symm ?_
      rw [HasArena, Solver.setConfig, hp]
      exact ha
    · exact hs₁.of_shows hshows rfl s₁.env .initial
  rw [Solver.reset, renewArena]
  by_cases hb : s.builtFor = s.config.arenaSettings
  · rw [if_pos hb]
    exact .inl ⟨_, _, rfl, ready s hs rfl rfl hb⟩
  · rw [if_neg hb]
    cases hn : newArena s.problem with
    | ok a => exact .inl ⟨_, _, rfl, ready (s.setArena a) (hs.setArena hn) rfl rfl rfl⟩
    | error f => exact .inr ⟨f, _, rfl, rfl, hs.setArena_of_error _ hn, rfl⟩

/-! ## Runs -/

/-- What a run makes of the outcome of its search. -/
def ended (s : Solver ν ε σ) :
    EStateM.Result Halt (Work × σ) Unit → Except Failure Unit × Solver ν ε σ
  | .ok _ (work, env) => (.ok (), { s with work, env, status := .exhausted })
  | .error .aborted (work, env) => (.ok (), { s with work, env, status := .aborted })
  | .error (.failed (.exhausted e)) (work, env) =>
    (.error (.exhausted e), { s with work, env, status := .failed })
  | .error (.failed (.fault f)) (work, env) =>
    (.error (.fault f), { s with work, env, status := .searching })

/-- After a reset, a run is the search from there. -/
theorem run_of_ready {u : Unit} (h : s.reset = (.ok u, s₁)) :
    s.run = s₁.ended (s₁.problem.search (s₁.work, s₁.env)) := by
  rw [run, h]
  rfl

/-- If the solver is ready, a run is the search for its problem. -/
theorem Ready.run_eq {a : Arena VertexId} (hr : s.Ready s₁ a) (hreset : s.reset = (.ok (), s₁)) :
    s.run = s₁.ended (s.problem.search (s₁.work, s₁.env)) := by
  rw [run_of_ready hreset, hr.problem_eq]

/-- If the reset fails, so does the run. -/
theorem run_of_error {f : Fault} (h : s.reset = (.error f, s₁)) :
    s.run = (.error (.fault f), s₁) := by
  rw [run, h]

/-- However its search ends, a run only changes the working state, the caller's state and the
status. -/
theorem ended_snd (s : Solver ν ε σ) (r : EStateM.Result Halt (Work × σ) Unit) :
    ∃ st, (s.ended r).2 =
      { s with work := (endState r).1, env := (endState r).2, status := st } := by
  match r with
  | .ok _ _ => exact ⟨_, rfl⟩
  | .error .aborted _ => exact ⟨_, rfl⟩
  | .error (.failed (.exhausted _)) _ => exact ⟨_, rfl⟩
  | .error (.failed (.fault _)) _ => exact ⟨_, rfl⟩

/-- A run leaves a solver coherent. -/
theorem Coherent.run (hs : s.Coherent) (hg₁ : s.problem.first.WellFormed)
    (hg₂ : s.problem.second.WellFormed) : s.run.2.Coherent := by
  rcases hs.reset hg₁ hg₂ with ⟨s₁, a, hreset, hr⟩ | ⟨f, s₁, hreset, -, hs₁, -⟩
  · rw [hr.run_eq hreset]
    obtain ⟨E, w', v', hsearched, hw', -, hf⟩ :=
      Problem.exists_searched hg₁ hg₂ s.problem.within_proper hr.shows s₁.env
    obtain ⟨hend, hsteps⟩ := hsearched.grown hg₁ hg₂
    obtain ⟨v, hv, hl⟩ := hf.shows hw' hend.limit_eq fun st hst => (hsteps st hst).limit_eq
    obtain ⟨st, hst⟩ := s₁.ended_snd (s.problem.search (s₁.work, s₁.env))
    have hshows : s₁.problem.Shows (endState (s.problem.search (s₁.work, s₁.env))).1 v := by
      rw [hr.problem_eq]
      exact hv
    rw [hst]
    refine hr.coherent.of_shows hshows ?_ _ _
    rw [hl, hr.shows.arena_eq]
    rfl
  · rw [run_of_error hreset]
    exact hs₁

/-! ## Every reachable solver is coherent -/

/-- Renewing the arena keeps the problem and the caller's state. -/
theorem renewArena_keeps (s : Solver ν ε σ) :
    s.renewArena.2.problem = s.problem ∧ s.renewArena.2.env = s.env := by
  rw [renewArena]
  split
  · exact ⟨rfl, rfl⟩
  · cases newArena s.problem <;> exact ⟨rfl, rfl⟩

/-- A reset keeps the problem and the caller's state. -/
theorem reset_keeps (s : Solver ν ε σ) :
    s.reset.2.problem = s.problem ∧ s.reset.2.env = s.env := by
  have h := s.renewArena_keeps
  rw [reset]
  cases hr : s.renewArena with
  | mk r s₁ =>
    rw [hr] at h
    cases r <;> exact h

/-- A run keeps the problem. -/
theorem problem_run (s : Solver ν ε σ) : s.run.2.problem = s.problem := by
  have h := s.reset_keeps.1
  cases hr : s.reset with
  | mk r s₁ =>
    rw [hr] at h
    cases r with
    | ok _ =>
      obtain ⟨st, hst⟩ := s₁.ended_snd (s₁.problem.search (s₁.work, s₁.env))
      rw [run_of_ready hr, hst]
      exact h
    | error _ =>
      rw [run_of_error hr]
      exact h

/-- Every reachable solver of well-formed graphs is coherent. -/
theorem Reachable.coherent (hs : s.Reachable) (hg₁ : s.problem.first.WellFormed)
    (hg₂ : s.problem.second.WellFormed) : s.Coherent := by
  -- no operation changes the graphs, so they are well-formed in every state before
  induction hs with
  | new h =>
    obtain ⟨a, ha, rfl⟩ := exists_newArena_of_new h
    exact coherent_ofArena ha _
  | @withConfig s s' _ c h ih =>
    rw [Solver.withConfig] at h
    cases ha : newArena (s.setConfig c).problem with
    | ok a =>
      rw [ha] at h
      obtain rfl := Except.ok.inj h
      have hc := ((ih hg₁ hg₂).setConfig c).setArena ha
      exact ⟨hc.considered, hc.targets, hc.unpaired, hc.limit_eq⟩
    | error _ =>
      rw [ha] at h
      cases h
  | setConfig _ c ih => exact (ih hg₁ hg₂).setConfig c
  | setMinimum _ n ih =>
    have hc := ih hg₁ hg₂
    exact ⟨hc.considered, hc.targets, hc.unpaired, hc.limit_eq⟩
  | setEnv _ _ ih =>
    have hc := ih hg₁ hg₂
    exact ⟨hc.considered, hc.targets, hc.unpaired, hc.limit_eq⟩
  | @reset s _ ih =>
    rw [s.reset_keeps.1] at hg₁ hg₂
    rcases (ih hg₁ hg₂).reset hg₁ hg₂ with ⟨s₁, a, hr, hready⟩ | ⟨f, s₁, hr, -, hs₁, -⟩
    · rw [hr]
      exact hready.coherent
    · rw [hr]
      exact hs₁
  | @run s _ ih =>
    rw [problem_run] at hg₁ hg₂
    exact (ih hg₁ hg₂).run hg₁ hg₂

end Solver

end CommonSubgraph
