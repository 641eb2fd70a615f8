import CommonSubgraph.Proofs.Search.Entries
import CommonSubgraph.Proofs.Solver.Gathering
import CommonSubgraph.Proofs.Solver.Recorded

/-!
# The levels of a run

`s.entries` are the levels that the next run of `s` enters, with what is in force at each. The
caller may stop the run and the limit of its arena may fail it; at every level entered before, the
candidate map holds just the partners that the unpaired vertices can still have, and nothing that
was built for the levels above has been touched (`Solver.Reachable.entries_exact`). Noting the
levels makes no difference to the run (`Solver.run_eq_ended_visited`).
-/

namespace CommonSubgraph

variable {ν ε σ : Type}

namespace Solver

variable {s s₁ : Solver ν ε σ} {T : Tests}

/-- The levels that the next run enters, in order. -/
def entries (s : Solver ν ε σ) : List Entry :=
  match s.reset with
  | (.ok _, s₁) => (endState (s₁.problem.visited (s₁.work, (s₁.env, [])))).2.2
  | (.error _, _) => []

/-- The levels entered are those of the search that starts after the reset. -/
theorem entries_of_ready {u : Unit} (h : s.reset = (.ok u, s₁)) :
    s.entries = (endState (s₁.problem.visited (s₁.work, (s₁.env, [])))).2.2 := by
  rw [entries, h]

/-- If the reset fails, no level is entered. -/
theorem entries_of_error {f : Fault} (h : s.reset = (.error f, s₁)) : s.entries = [] := by
  rw [entries, h]

/-- The levels entered are those the caller is told of. -/
theorem map_level_entries (s : Solver ν ε σ) :
    s.entries.map Entry.level = s.events.filterMap Event.level? := by
  cases hr : s.reset with
  | mk r s₁ =>
    cases r with
    | error f =>
      rw [entries_of_error hr, events_of_error hr]
      rfl
    | ok u =>
      obtain ⟨r, hr₁, hr₂, hlevels⟩ := s₁.problem.visited_beside_recorded s₁.work s₁.env
      rw [entries_of_ready hr, events_of_ready hr, recorded, hr₁, hr₂, endState_seen,
        endState_seen]
      exact hlevels.2.symm

/-- A run is the search that notes its levels, with the notes forgotten. -/
theorem run_eq_ended_visited {u : Unit} (h : s.reset = (.ok u, s₁)) :
    s.run = s₁.ended (seen (beside Prod.fst) (s₁.problem.visited (s₁.work, (s₁.env, [])))) := by
  rw [run_of_ready h, Problem.visited_erases]

/-- With a caller that answers as pure tests do, at every level that a run enters, the row of each
unpaired vertex is the ascending list of the partners that it can still have, and the maps of this
level and of those above read as they did when they were built. The levels are those that the caller
is told of, and the search in which they are noted is the run: it comes to the same end in the same
state. -/
theorem Reachable.entries_exact (hs : s.Reachable) (hg₁ : s.problem.first.WellFormed)
    (hg₂ : s.problem.second.WellFormed)
    (hT : s.problem.predicate.Answers s.problem.first s.problem.second T) :
    s.entries.map Entry.level = s.events.filterMap Event.level? ∧
      (∀ e ∈ s.entries, e.Exact s.problem.first s.problem.second T) ∧
      ∀ s₁, s.reset = (.ok (), s₁) → s.run =
        s₁.ended (seen (beside Prod.fst) (s₁.problem.visited (s₁.work, (s₁.env, [])))) := by
  refine ⟨s.map_level_entries, ?_, fun s₁ => run_eq_ended_visited⟩
  rcases (hs.coherent hg₁ hg₂).reset hg₁ hg₂ with ⟨s₁, a, hreset, hready⟩ | ⟨f, s₁, hreset, -⟩
  · rw [entries_of_ready hreset, hready.problem_eq]
    have hvisiting : s.problem.visiting.Shows s₁.work
        (.initial s.problem.first s.problem.config a) :=
      Problem.shows_recast_iff.mpr hready.shows
    exact (Problem.notes_visited hg₁ hg₂ hT hvisiting (s₁.env, []) (List.forall_mem_nil _)).1
  · rw [entries_of_error hreset]
    exact List.forall_mem_nil _

/-- When the last vertex of the looped graph is paired and the middle one is left out, the first one
has the two partners left that it had beside that pair. -/
theorem entries_exact_looped_longer :
    ∃ e ∈ (byStructure .looped .longer .default).entries, e.level = 2 ∧ e.enclosing.length = 2 ∧
      e.pairs = [(.ofNat 2, .ofNat 3)] ∧ e.work.unpaired.vertices = [.ofNat 0] ∧
      (e.active.map.read e.work.arena (.ofNat 0)).toOption = some [.ofNat 0, .ofNat 1] ∧
      e.Exact .looped .longer .structural := by
  have hs : (byStructure .looped .longer .default).Reachable :=
    reachable_byStructure Graph.wellFormed_longer rfl
  have hexact := (hs.entries_exact Graph.wellFormed_looped Graph.wellFormed_longer
    (answers_byStructure .looped .longer .default)).2.1
  refine ⟨_, List.getElem_mem (show 5 < (byStructure .looped .longer .default).entries.length by
    decide +kernel), ?_, ?_, ?_, ?_, ?_, hexact _ (List.getElem_mem _)⟩
  · decide +kernel
  · decide +kernel
  · decide +kernel
  · decide +kernel
  · decide +kernel

end Solver

end CommonSubgraph
