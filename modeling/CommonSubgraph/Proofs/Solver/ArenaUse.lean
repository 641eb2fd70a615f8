import CommonSubgraph.Proofs.Search.Kept
import CommonSubgraph.Proofs.Search.SlotBound
import CommonSubgraph.Proofs.Solver.Gathering
import CommonSubgraph.Proofs.Solver.Recorded

/-!
# How much of the arena runs use

However a solver was used and whatever its callers do, no run has more slots in use than the numbers
of vertices allow (`slotBound`), and none is exhausted that has this many and one more
(`Solver.Reachable.arena_bounded`). Of two graphs without edges every pair can be made, and a search
of them comes to the bound and needs the one slot more.

A run that cannot even begin leaves the arena as an earlier run left it. So the bound is shown for
every state that a solver can be in.
-/

namespace CommonSubgraph

variable {ν ε σ α : Type}

/-- A reservation within the limit is made at the end of the slots in use. -/
theorem Arena.reserve_eq_ok {a : Arena α} {n : Nat}
    (h : ∀ limit, a.limit = some limit → a.size + n ≤ limit) : a.reserve n = .ok a.size := by
  rw [reserve]
  cases hl : a.limit with
  | none => rfl
  | some limit =>
    have hle : Size.saturatingAdd a.size n ≤ a.size + n := Nat.min_le_left _ _
    exact if_neg (Nat.not_lt.mpr (Nat.le_trans hle (h limit hl)))

/-! ## Programs with a script within the bound -/

namespace Problem.Follows

variable {P : Problem ν ε σ} {keep : Nat → Prop} {m : SearchM σ α} {w w' : Work} {env : σ}
variable {E : List Step} {a : α} {v' : View} {S : Nat}

/-- However a program ends, the slots it leaves are within the bound. -/
theorem marked (h : P.Follows keep m w env E a w') (hw' : P.Shows w' v') (hv' : v'.arena.Marked S)
    (hE : ∀ st ∈ E, st.Modest S) : (endState (m (w, env))).1.arena.Marked S := by
  cases h with
  | through _ eq =>
    rw [eq]
    exact hw'.arena_eq ▸ hv'
  | @stopped E₁ E₂ st _ _ halt w'' n split _ _ eq _ shows =>
    rw [eq]
    have hst : st.view.arena.Marked S := (hE st (by simp [split])).marked
    show w''.arena.Marked S
    rw [shows.arena_eq]
    match halt with
    | .aborted | .failed (.exhausted _) => exact hst.truncate n
    | .failed (.fault _) => exact hst

/-- A program is not exhausted if every reservation of its script can be granted. -/
theorem ne_exhausted (h : P.Follows keep m w env E a w') (hE : ∀ st ∈ E, st.Modest S)
    (hlimit : ∀ st ∈ E, ∀ limit, st.view.arena.limit = some limit → S + 1 ≤ limit)
    (e : ArenaExhausted) (st' : Work × σ) : m (w, env) ≠ .error (.failed (.exhausted e)) st' := by
  intro hm
  cases h with
  | through _ eq => cases eq.symm.trans hm
  | @stopped E₁ E₂ st _ _ _ _ _ split _ stops eq _ _ =>
    cases eq.symm.trans hm
    have hst : st ∈ E := by simp [split]
    obtain ⟨n, hact, hr⟩ := stops.of_exhausted
    have hmodest := (hE st hst).reserved_le
    rw [hact] at hmodest
    have hgrant : st.view.arena.reserve n = .ok st.view.arena.size :=
      Arena.reserve_eq_ok fun limit hl => Nat.le_trans hmodest (hlimit _ hst limit hl)
    cases hgrant.symm.trans hr

end Problem.Follows

namespace Solver

variable {s s₁ : Solver ν ε σ}

/-! ## Runs -/

/-- The most slots that a search of the solver's graphs can use. -/
def slotBound (s : Solver ν ε σ) : Nat :=
  CommonSubgraph.slotBound s.problem.first.vertexCount s.problem.second.vertexCount

/-- A new arena has taken no slots, so it is within every bound. -/
theorem newArena_marked {P : Problem ν ε σ} {a : Arena VertexId} (h : newArena P = .ok a)
    (S : Nat) : a.Marked S := by
  unfold newArena Arena.newChecked at h
  cases hc : Storage.check VertexId.bytes (P.config.arenaCapacity P.second.vertexCount) with
  | ok _ =>
    rw [hc] at h
    exact Except.ok.inj h ▸ ⟨Nat.zero_le _, Nat.zero_le _⟩
  | error _ =>
    rw [hc] at h
    cases h

/-- After a reset nothing is in use and nothing was, or the arena is the old one. -/
theorem arena_reset (s : Solver ν ε σ) :
    (∃ s₁, s.reset = (.ok (), s₁) ∧ s₁.work.arena.size = 0 ∧ s₁.work.arena.highWater = 0) ∨
      ∃ f s₁, s.reset = (.error f, s₁) ∧ s₁.work.arena = s.work.arena := by
  rw [Solver.reset, renewArena]
  split_ifs with hb
  · exact .inl ⟨_, rfl, rfl, rfl⟩
  · cases newArena s.problem with
    | ok a => exact .inl ⟨_, rfl, rfl, rfl⟩
    | error f => exact .inr ⟨f, _, rfl, rfl⟩

/-- From a reset, a search follows a script within the bound. -/
theorem Coherent.exists_modest (hs : s.Coherent) (hg₁ : s.problem.first.WellFormed)
    (hg₂ : s.problem.second.WellFormed) (hreset : s.reset = (.ok (), s₁)) :
    ∃ E w' v', s.problem.Follows (s₁.work.arena.size ≤ ·) s₁.problem.search s₁.work s₁.env E () w' ∧
      s.problem.Shows w' v' ∧ v'.arena.Marked s.slotBound ∧ (∀ st ∈ E, st.Modest s.slotBound) ∧
      (s.HasArena → ∀ st ∈ E, st.view.arena.limit = s.config.arenaLimit) := by
  rcases hs.reset hg₁ hg₂ with ⟨s₂, a, hreset₂, hr⟩ | ⟨f, s₂, hreset₂, -⟩
  swap
  · cases hreset.symm.trans hreset₂
  obtain rfl : s₁ = s₂ := congrArg Prod.snd (hreset.symm.trans hreset₂)
  have harena : s₁.work.arena = a := hr.shows.arena_eq
  have hmark : a.highWater = 0 := by
    rcases s.arena_reset with ⟨s₂, hreset₂, -, hmark⟩ | ⟨f, s₂, hreset₂, -⟩
    · obtain rfl : s₁ = s₂ := congrArg Prod.snd (hreset.symm.trans hreset₂)
      exact harena ▸ hmark
    · cases hreset.symm.trans hreset₂
  obtain ⟨E, w', v', hsearched, hw', -, hf⟩ :=
    Problem.exists_searched hg₁ hg₂ s.problem.within_proper hr.shows s₁.env
  obtain ⟨hE, hv'⟩ := hsearched.modest hg₁ hg₂ hr.size_eq hmark
  have hlimits := (hsearched.grown hg₁ hg₂).2
  rw [harena, hr.problem_eq]
  exact ⟨E, w', _, hf, hw', hv'.truncate _, hE,
    fun ha st hst => (hlimits st hst).limit_eq.trans (hr.limit_eq ha)⟩

/-- A run leaves the arena of a coherent solver within its bound. -/
theorem Coherent.marked_run (hs : s.Coherent) (hg₁ : s.problem.first.WellFormed)
    (hg₂ : s.problem.second.WellFormed) (hm : s.work.arena.Marked s.slotBound) :
    s.run.2.work.arena.Marked s.slotBound := by
  rcases s.arena_reset with ⟨s₁, hreset, -⟩ | ⟨f, s₁, hreset, harena⟩
  · obtain ⟨E, w', v', hf, hw', hv', hE, -⟩ := hs.exists_modest hg₁ hg₂ hreset
    obtain ⟨st, hst⟩ := s₁.ended_snd (s₁.problem.search (s₁.work, s₁.env))
    rw [run_of_ready hreset, hst]
    exact hf.marked hw' hv' hE
  · rw [run_of_error hreset, harena]
    exact hm

/-- The arena of a reachable solver is within the bound of its graphs. -/
theorem Reachable.marked (hs : s.Reachable) (hg₁ : s.problem.first.WellFormed)
    (hg₂ : s.problem.second.WellFormed) : s.work.arena.Marked s.slotBound := by
  -- no operation changes the graphs, and with them the bound
  induction hs with
  | new h =>
    obtain ⟨a, ha, rfl⟩ := exists_newArena_of_new h
    exact newArena_marked ha _
  | @withConfig s s' _ c h ih =>
    rw [Solver.withConfig] at h
    cases ha : newArena (s.setConfig c).problem with
    | ok a =>
      rw [ha] at h
      obtain rfl := Except.ok.inj h
      exact newArena_marked ha _
    | error _ =>
      rw [ha] at h
      cases h
  | setConfig _ c ih => exact ih hg₁ hg₂
  | setMinimum _ n ih => exact ih hg₁ hg₂
  | setEnv _ _ ih => exact ih hg₁ hg₂
  | @reset s _ ih =>
    rw [slotBound, s.reset_keeps.1]
    rw [s.reset_keeps.1] at hg₁ hg₂
    rcases s.arena_reset with ⟨s₁, hreset, hsize, hmark⟩ | ⟨f, s₁, hreset, harena⟩
    · rw [hreset]
      exact ⟨hsize ▸ Nat.zero_le _, hmark ▸ Nat.zero_le _⟩
    · rw [hreset, harena]
      exact ih hg₁ hg₂
  | @run s hs ih =>
    rw [slotBound, problem_run]
    rw [problem_run] at hg₁ hg₂
    exact (hs.coherent hg₁ hg₂).marked_run hg₁ hg₂ (ih hg₁ hg₂)

/-- The mark counts all slots in use where a row was started in the run. -/
theorem inUse_le_highWater (s : Solver ν ε σ) {inUse requested : Nat}
    (h : .reservation inUse requested ∈ s.events) : inUse ≤ s.run.2.highWater := by
  rcases s.arena_reset with ⟨s₁, hreset, hsize, -⟩ | ⟨f, s₁, hreset, -⟩
  · have hbegun : Comparison.MarkedUp s₁.work.arena [] :=
      ⟨hsize ▸ Nat.zero_le _, fun _ _ h => absurd h List.not_mem_nil⟩
    have hend := (Comparison.kept_markedUp s₁.work.arena.limit).recorded s₁.problem s₁.env
      rfl hbegun
    rw [events_of_ready hreset] at h
    rw [highWater, work_run hreset]
    exact hend.inUse_le inUse requested h
  · rw [events_of_error hreset] at h
    cases h

/-- A run is exhausted only if its search was. -/
theorem exists_of_ended_exhausted {r : EStateM.Result Halt (Work × σ) Unit} {e : ArenaExhausted}
    (h : (s.ended r).1 = .error (.exhausted e)) :
    ∃ st, r = .error (.failed (.exhausted e)) st := by
  match r with
  | .ok _ _ => cases h
  | .error .aborted _ => cases h
  | .error (.failed (.exhausted _)) st =>
    cases h
    exact ⟨st, rfl⟩
  | .error (.failed (.fault _)) _ => cases h

/-- A reset that builds a new arena can do so. -/
theorem hasArena_of_reset {u : Unit} (h : s.reset = (.ok u, s₁))
    (hb : s.builtFor ≠ s.config.arenaSettings) : s.HasArena := by
  rw [Solver.reset, renewArena, if_neg hb] at h
  cases ha : newArena s.problem with
  | ok a => exact ⟨a, ha⟩
  | error f =>
    rw [ha] at h
    cases h

/-- Whatever was done to the solver before and whatever its callers do, a run has no more slots in
use than the bound, and with one slot more than that it is not exhausted. The mark rises with every
slot that is taken (`Arena.push`) and falls at a reset only, so it stands for every moment of the
run; it counts what is in use where rows are started and where the run is stopped or given up.

Only in one state may the limit be another than the one that is set: where an arena could not be
built for the settings in force, the old one stays and is taken as built for them
(`Solver.renewArena`). So an arena that is taken as built for the settings in force has to be one
that could be built for them. Any other is built anew before the search, or the run faults there;
and a solver that is just made has its own. -/
theorem Reachable.arena_bounded (hs : s.Reachable) (hg₁ : s.problem.first.WellFormed)
    (hg₂ : s.problem.second.WellFormed) :
    (s.run.2.work.arena.size ≤ s.run.2.highWater ∧
      (∀ inUse requested, .reservation inUse requested ∈ s.events → inUse ≤ s.run.2.highWater) ∧
      s.run.2.highWater ≤ s.slotBound) ∧
    ((s.builtFor = s.config.arenaSettings → s.HasArena) →
      (∀ limit, s.config.arenaLimit = some limit → s.slotBound + 1 ≤ limit) →
      ∀ e, s.run.1 ≠ .error (.exhausted e)) := by
  have hcoherent := hs.coherent hg₁ hg₂
  have hmarked := hcoherent.marked_run hg₁ hg₂ (hs.marked hg₁ hg₂)
  refine ⟨⟨hmarked.size_le, fun _ _ h => s.inUse_le_highWater h, hmarked.highWater_le⟩,
    fun hbuilt hlimit e herror => ?_⟩
  rcases s.arena_reset with ⟨s₁, hreset, -⟩ | ⟨f, s₁, hreset, -⟩
  -- either the arena is built anew for the search or it is taken as built
  · have ha : s.HasArena := by
      by_cases hb : s.builtFor = s.config.arenaSettings
      · exact hbuilt hb
      · exact hasArena_of_reset hreset hb
    obtain ⟨E, w', v', hf, -, -, hE, hlimits⟩ := hcoherent.exists_modest hg₁ hg₂ hreset
    rw [run_of_ready hreset] at herror
    obtain ⟨st, hst⟩ := exists_of_ended_exhausted herror
    exact hf.ne_exhausted hE
      (fun st hst limit hl => hlimit limit ((hlimits ha st hst).symm.trans hl)) e st hst
  · rw [run_of_error hreset] at herror
    cases herror

/-- Between two graphs of two vertices each and no edges, a search has five slots in use at some
time and asks for one more, which a limit of six grants and one of five does not. -/
theorem arena_bounded_edgeless :
    ((byStructure (Graph.plain 2 []) (Graph.plain 2 []) { Config.default with
        arenaLimit := some 5 }).run.1 = .error (.exhausted ⟨2, 4, 5⟩) ∧
      (byStructure (Graph.plain 2 []) (Graph.plain 2 []) .default).run.2.highWater = 5) ∧
    ((byStructure (Graph.plain 2 []) (Graph.plain 2 []) .default).run.2.highWater ≤
        CommonSubgraph.slotBound 2 2 ∧ CommonSubgraph.slotBound 2 2 = 5) ∧
    ∀ e, (byStructure (Graph.plain 2 []) (Graph.plain 2 []) { Config.default with
        arenaLimit := some 6 }).run.1 ≠ .error (.exhausted e) := by
  have hg : (Graph.plain 2 []).WellFormed := Graph.wellFormed_plain (by decide) (by decide)
  have hreachable (limit : Option Nat) : (byStructure (Graph.plain 2 []) (Graph.plain 2 [])
      { Config.default with arenaLimit := limit }).Reachable := reachable_byStructure hg rfl
  refine ⟨⟨by decide +kernel, by decide +kernel⟩,
    ⟨((hreachable none).arena_bounded hg hg).1.2.2, by decide⟩, ?_⟩
  refine ((hreachable (some 6)).arena_bounded hg hg).2 (fun _ => hasArena_byStructure hg rfl) ?_
  intro limit hl
  cases hl
  decide +kernel

end Solver

end CommonSubgraph
