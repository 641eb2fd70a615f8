import CommonSubgraph.Proofs.CandidateMap.Nested
import CommonSubgraph.Proofs.Search.BrokenOff
import CommonSubgraph.Proofs.Solver.Outcomes

/-!
# What a run leaves in the arena

A run that returns leaves the arena empty, whether it visited everything, was stopped by the caller
or ran out of slots, with one exception (`Solver.Reachable.run_releases`). A refined map is given
back however it ends, but an initial map only once it is finished. If its filling exhausts the
arena, the rows that were filled before are still in use when the run returns
(`Solver.run_keeps_first_row`).
-/

namespace CommonSubgraph

variable {ν ε σ : Type}

namespace Solver

/-- The initial map of a run exhausts the arena. -/
def InitialMapExhausts (s : Solver ν ε σ) (e : ArenaExhausted) : Prop :=
  ∃ s₁ st, s.reset = (.ok (), s₁) ∧
    s.problem.initialMap (s₁.work, s₁.env) = .error (.failed (.exhausted e)) st

/-- The run fails in the initial map, behind the vertices `before`, and their rows stay in use. -/
structure Unreleased (s : Solver ν ε σ) (before : List VertexId) (rows : Rows)
    (e : ArenaExhausted) : Prop where
  run_eq : s.run.1 = .error (.exhausted e)
  status_eq : s.run.2.status = .failed
  brokenOff : s.problem.BrokenOff before rows s.run.2.work.arena e

section Runs

variable {s s₁ : Solver ν ε σ} {a : Arena VertexId} {st : Work × σ}

/-- A run whose initial map was finished leaves the arena empty, unless it ends by a fault. -/
theorem Ready.slots_run (hr : s.Ready s₁ a) (hreset : s.reset = (.ok (), s₁))
    (hg₁ : s.problem.first.WellFormed) (hg₂ : s.problem.second.WellFormed) {map : CandidateMap}
    (hmap : s.problem.initialMap (s₁.work, s₁.env) = .ok map st)
    (hreturns : ∀ f, s.run.1 ≠ .error (.fault f)) : s.run.2.work.arena.slots = #[] := by
  have hrun := hr.run_eq hreset
  have hcleared := Problem.cleared_search hg₁ hg₂ hr.shows hr.size_eq hmap
  obtain ⟨status, hended⟩ := s₁.ended_snd (s.problem.search (s₁.work, s₁.env))
  rw [hrun, hended]
  show (endState (s.problem.search (s₁.work, s₁.env))).1.arena.slots = #[]
  rw [Ensures] at hcleared
  cases hsearch : s.problem.search (s₁.work, s₁.env) with
  | ok u st' =>
    rw [hsearch] at hcleared
    exact hcleared
  | error halt st' =>
    rw [hsearch] at hcleared hrun
    rcases hcleared with ⟨f, rfl⟩ | hslots
    · exact absurd (congrArg Prod.fst hrun) (hreturns f)
    · exact hslots

/-- If a reservation for the initial map is refused, the slots of the rows before it stay in use. -/
theorem Ready.unreleased (hr : s.Ready s₁ a) (hreset : s.reset = (.ok (), s₁))
    (hg₁ : s.problem.first.WellFormed) (hg₂ : s.problem.second.WellFormed) {e : ArenaExhausted}
    (hmap : s.problem.initialMap (s₁.work, s₁.env) = .error (.failed (.exhausted e)) st) :
    ∃ before rows, s.Unreleased before rows e := by
  obtain ⟨before, rows, hbroken⟩ := Problem.brokenOff_initialMap hg₁ hg₂ hr.shows hr.size_eq hmap
  have hrun : s.run = s₁.ended (.error (.failed (.exhausted e)) st) :=
    (hr.run_eq hreset).trans (congrArg s₁.ended (Problem.bind_error hmap))
  refine ⟨before, rows, ?_, ?_, ?_⟩ <;> rw [hrun]
  · rfl
  · rfl
  · exact hbroken

/-- A run from any reachable state that ends without a fault has given back all slots at its end,
unless its initial map exhausts the arena. Then all rows that were filled for it before stay in
use. -/
theorem Reachable.run_releases (hs : s.Reachable) (hg₁ : s.problem.first.WellFormed)
    (hg₂ : s.problem.second.WellFormed) (hreturns : ∀ f, s.run.1 ≠ .error (.fault f)) :
    ((∀ e, ¬ s.InitialMapExhausts e) ∧ s.run.2.work.arena.slots = #[]) ∨
      ∃ e before rows, s.InitialMapExhausts e ∧ s.Unreleased before rows e := by
  rcases (hs.coherent hg₁ hg₂).reset hg₁ hg₂ with ⟨s₁, a, hreset, hr⟩ | ⟨f, s₁, hreset, -⟩
  swap
  · exact absurd (congrArg Prod.fst (run_of_error hreset)) (hreturns f)
  cases hmap : s.problem.initialMap (s₁.work, s₁.env) with
  | ok map st =>
    refine .inl ⟨?_, hr.slots_run hreset hg₁ hg₂ hmap hreturns⟩
    rintro e ⟨s₂, st', hreset₂, hmap₂⟩
    obtain rfl : s₁ = s₂ := congrArg Prod.snd (hreset.symm.trans hreset₂)
    cases hmap.symm.trans hmap₂
  | error halt st =>
    have hbreaks := s.problem.fills_breaks.initialMap s₁.work s₁.env
    rw [Ensures, hmap] at hbreaks
    rcases halt with _ | e | f
    · exact hbreaks.elim
    · obtain ⟨before, rows, h⟩ := hr.unreleased hreset hg₁ hg₂ hmap
      exact .inr ⟨e, before, rows, ⟨s₁, st, hreset, hmap⟩, h⟩
    · have hrun : s.run = s₁.ended (.error (.failed (.fault f)) st) :=
        (hr.run_eq hreset).trans (congrArg s₁.ended (Problem.bind_error hmap))
      exact absurd (congrArg Prod.fst hrun) (hreturns f)

end Runs

/-- The search of the looped graph in the longer one with a limit of so many slots. -/
def loopedWithin (limit : Nat) : Solver Unit Unit (Unit × Largest) :=
  byStructure .looped .longer { Config.default with arenaLimit := some limit }

/-- With five slots the search is refused the second row of its initial map and keeps the first one.
With ten it is refused a row of a refined map and keeps nothing. -/
theorem run_releases_looped_longer :
    (∃ before rows, (loopedWithin 5).Unreleased before rows ⟨4, 3, 5⟩) ∧
      (loopedWithin 10).run.1 = .error (.exhausted ⟨3, 9, 10⟩) ∧
      (loopedWithin 10).run.2.work.arena.slots = #[] := by
  have hreleases {limit : Nat} {e : ArenaExhausted}
      (hrun : (loopedWithin limit).run.1 = .error (.exhausted e)) :=
    Reachable.run_releases (s := loopedWithin limit)
      (reachable_byStructure Graph.wellFormed_longer rfl) Graph.wellFormed_looped
      Graph.wellFormed_longer fun f hf => by cases hrun.symm.trans hf
  have hrun₅ : (loopedWithin 5).run.1 = .error (.exhausted ⟨4, 3, 5⟩) := by decide +kernel
  have hrun₁₀ : (loopedWithin 10).run.1 = .error (.exhausted ⟨3, 9, 10⟩) := by decide +kernel
  refine ⟨?_, hrun₁₀, ?_⟩
  · rcases hreleases hrun₅ with ⟨-, hempty⟩ | ⟨e, before, rows, -, h⟩
    · exact absurd hempty (by decide +kernel)
    · cases h.run_eq.symm.trans hrun₅
      exact ⟨before, rows, h⟩
  · rcases hreleases hrun₁₀ with ⟨-, hempty⟩ | ⟨e, before, rows, -, h⟩
    · exact hempty
    · cases h.run_eq.symm.trans hrun₁₀
      have hrequested : 3 = (loopedWithin 10).problem.second.vertexCount := h.brokenOff.requested_eq
      exact absurd hrequested (by decide)

/-- Two vertices on each side, no edges, and two slots. -/
def twoSlots : Solver Unit Unit (Unit × Largest) :=
  byStructure (Graph.plain 2 []) (Graph.plain 2 []) { Config.default with arenaLimit := some 2 }

/-- The row of the first vertex takes both slots and that of the second one is refused. The run
fails and returns with both slots in use: its arena is the one in which a map was created and the
row of the first vertex was filled, as it is when the second row is refused. -/
theorem run_keeps_first_row :
    (twoSlots.Reachable ∧ (Graph.plain 2 []).WellFormed ∧ twoSlots.HasArena ∧
      twoSlots.problem.NeverGivesUp fun _ => True) ∧
    (twoSlots.run.1 = .error (.exhausted ⟨2, 2, 2⟩) ∧ twoSlots.run.2.status = .failed ∧
      twoSlots.run.2.work.arena.slots = #[.ofNat 0, .ofNat 1]) ∧
    ∃ t : CandidateMap.Stack, t.arena = twoSlots.run.2.work.arena ∧
      [.create, .reserveRows 2, .start (.ofNat 0) 2, .push (.ofNat 0) (.ofNat 0),
        .push (.ofNat 0) (.ofNat 1)].forM CandidateMap.Stack.Op.exec ⟨.new 2 (some 2), []⟩ =
          .ok () t ∧
      (CandidateMap.Stack.Op.start (.ofNat 1) 2).exec t = .error (.exhausted ⟨2, 2, 2⟩) t := by
  have hg : (Graph.plain 2 []).WellFormed := Graph.wellFormed_plain (by decide) (by decide)
  refine ⟨⟨reachable_byStructure hg rfl, hg, hasArena_byStructure hg rfl, ?_⟩, ?_, ?_⟩
  · exact (continues_byStructure _ _ _).neverGivesUp (answers_byStructure _ _ _)
  · exact ⟨by decide +kernel, by decide +kernel, by decide +kernel⟩
  · exact ⟨_, by decide +kernel, rfl, rfl⟩

end Solver

end CommonSubgraph
