import CommonSubgraph.Proofs.Search.Promises
import CommonSubgraph.Proofs.Solver.Gathering
import CommonSubgraph.Proofs.Solver.Levels
import CommonSubgraph.Proofs.Solver.Overheard

/-!
# What the caller of a run may rely on

`s.moment k` is what the next run of `s` has come to when it is about to make its call number `k`.
Whatever was done with the solver before, and whatever its caller answers, that call keeps all that
the caller may rely on (`Solver.Reachable.promises_kept`).
-/

namespace CommonSubgraph

variable {ν ε σ : Type}

/-! ## Noting the answers -/

/-- Noting the answer of a callback does not change it. -/
theorem Callback.mirrors_traced {α : Type} (m : Callback σ α) (c : α → Call) :
    Mirrors Prod.fst (m.traced c) m := by
  rintro ⟨s, calls⟩
  simp only [Callback.traced]
  cases m s <;> rfl

/-- A caller whose answers are noted is watched, which changes nothing in its own state. -/
theorem Problem.watched_traced (P : Problem ν ε σ) :
    P.Watched P.traced.predicate P.traced.processor Prod.fst where
  vertices g₁ i g₂ j := (P.predicate.vertices g₁ i g₂ j).mirrors_traced _
  edges g₁ i₁ i₂ es₁ g₂ j₁ j₂ es₂ :=
    (P.predicate.edges g₁ i₁ i₂ es₁ g₂ j₁ j₂ es₂).mirrors_traced _
  progress level := (P.predicate.progress level).mirrors_traced _
  process g₁ xs g₂ ys := (P.processor.process g₁ xs g₂ ys).mirrors_traced _

/-- The traced search makes the same calls. -/
theorem Problem.events_traced (P : Problem ν ε σ) (w : Work) (s : σ) :
    (endState (P.traced.recorded (w, ((s, #[]), [])))).2.2 =
      (endState (P.recorded (w, (s, [])))).2.2 := by
  have hsame : Prod.fst (s, (#[] : Array Call)) = s := rfl
  obtain ⟨r, hr₁, hr₂, hevents, -⟩ := P.watched_traced.alikeBy.recorded w hsame
  have hr₂ : P.traced.recorded (w, ((s, #[]), [])) = seen (beside Prod.snd) r := hr₂
  rw [hr₁, hr₂, Solver.endState_seen, Solver.endState_seen]
  exact hevents.symm

namespace Solver

variable {s s₁ : Solver ν ε σ}

/-- The solver with a caller that notes its answers. -/
def traced (s : Solver ν ε σ) : Solver ν ε (σ × Array Call) :=
  s.recast s.problem.traced.predicate s.problem.traced.processor (s.env, #[])

/-- The solver with a caller that notes its answers and gives up in place of call number `k`. -/
def interrupted (s : Solver ν ε σ) (k : Nat) : Solver ν ε ((σ × Array Call) × List Event) :=
  s.recast (s.problem.interrupted k).predicate (s.problem.interrupted k).processor
    ((s.env, #[]), [])

/-- The calls that are answered in the next run, with their answers. -/
def answers (s : Solver ν ε σ) : List Call := s.traced.run.2.env.2.toList

/-- The next run when it is about to make call number `k`. What it has come to is what a run leaves
behind whose caller gives up there, since a fault leaves everything as it is. -/
def moment (s : Solver ν ε σ) (k : Nat) : Moment where
  answered := s.answers.take k
  entries := (s.interrupted k).entries
  work := (s.interrupted k).run.2.work

/-- A run and the levels it enters, by the search that notes the levels. -/
theorem endState_visited {u : Unit} (h : s.reset = (.ok u, s₁)) :
    endState (s₁.problem.visited (s₁.work, (s₁.env, []))) =
      (s.run.2.work, (s.run.2.env, s.entries)) := by
  obtain ⟨r, hr₁, hr₂, henv, -⟩ := s₁.problem.visited_beside_recorded s₁.work s₁.env
  obtain ⟨-, -, hwork, hrun⟩ := run_of_seen h hr₁
  rw [entries_of_ready h, hwork, hrun, hr₂, endState_seen]
  exact congrArg (fun x => ((endState r).1, (x, (endState r).2.2.2))) henv.symm

/-- A run leaves its caller in the state that the recorded search does. -/
theorem env_run {u : Unit} (h : s.reset = (.ok u, s₁)) :
    s.run.2.env = (endState s₁.recorded).2.1 := by
  obtain ⟨st, hst⟩ := s₁.ended_snd (seen (beside Prod.fst) s₁.recorded)
  rw [run_eq_ended h, hst, endState_seen]
  rfl

theorem problem_interrupted (s : Solver ν ε σ) (k : Nat) :
    (s.interrupted k).problem = s.problem.interrupted k := rfl

/-- A reset asks the caller nothing, so it is the same for an interrupted one. -/
theorem reset_interrupted (s : Solver ν ε σ) (k : Nat) :
    (s.interrupted k).reset = (s.reset.1, s.reset.2.interrupted k) := by
  obtain ⟨hproblem, hsame⟩ := s.reset_keeps
  rw [interrupted, reset_recast, interrupted, hproblem, hsame]

/-- The interrupted solver makes the calls up to the one in place of which its caller gives up. -/
theorem calls_interrupted (s : Solver ν ε σ) (k : Nat) :
    (s.interrupted k).run.2.env.2 = s.calls.take (k + 1) := by
  have hreset := s.reset_interrupted k
  cases hr : s.reset with
  | mk r s₁ =>
    rw [hr] at hreset
    cases r with
    | error f =>
      rw [run_of_error hreset, calls, events_of_error hr]
      rfl
    | ok u =>
      rw [env_run hreset, calls, events_of_ready hr, recorded, recorded, ← Problem.events_traced]
      exact s₁.problem.traced.calls_upTo k s₁.work (s₁.env, #[])

/-- A reset asks the caller nothing, so it is the same for a traced one. -/
theorem reset_traced (s : Solver ν ε σ) : s.traced.reset = (s.reset.1, s.reset.2.traced) := by
  obtain ⟨hproblem, hsame⟩ := s.reset_keeps
  rw [traced, reset_recast, traced, hproblem, hsame]

/-- What the interrupted caller has answered is what a run begins with. -/
theorem answered_interrupted (s : Solver ν ε σ) (k : Nat) :
    (s.interrupted k).run.2.env.1.2.toList <+: s.answers := by
  have hreset := s.reset_interrupted k
  have htraced := s.reset_traced
  cases hr : s.reset with
  | mk r s₁ =>
    rw [hr] at hreset htraced
    cases r with
    | error f =>
      rw [run_of_error hreset, answers, run_of_error htraced]
      exact List.prefix_refl _
    | ok u =>
      obtain ⟨st, hst⟩ := (s₁.interrupted k).ended_snd _
      obtain ⟨st', hst'⟩ := s₁.traced.ended_snd _
      rw [run_of_ready hreset, answers, run_of_ready htraced, hst, hst']
      exact s₁.problem.answered_interrupted k s₁.work s₁.env

/-- At every call that a run makes, all calls before it were answered, and its caller may rely on
what it may rely on. -/
theorem Reachable.promises_kept (hs : s.Reachable) (hg₁ : s.problem.first.WellFormed)
    (hg₂ : s.problem.second.WellFormed) {k : Nat} {e : Event} (he : s.calls[k]? = some e) :
    (s.moment k).answered.map Call.event = s.calls.take k ∧
      (s.moment k).Promises s.problem.first s.problem.second e := by
  obtain ⟨hk, rfl⟩ := List.getElem?_eq_some_iff.mp he
  have hcalls := s.calls_interrupted k
  rw [List.take_add_one, he] at hcalls
  rcases (hs.coherent hg₁ hg₂).reset hg₁ hg₂ with ⟨s₁, a, hreset, hready⟩ | ⟨f, s₁, hreset, -⟩
  swap
  · rw [calls, events_of_error hreset] at hk
    cases hk
  have hreset' := s.reset_interrupted k
  rw [hreset] at hreset'
  have hend := endState_visited hreset'
  rw [problem_interrupted, hready.problem_eq] at hend
  have htaken : (s.calls.take k).length = k := List.length_take_of_le hk.le
  have hlength : k < (s.interrupted k).run.2.env.2.length := by
    rw [hcalls, List.length_append, htaken]
    exact Nat.lt_succ_self k
  obtain ⟨e, hmade, hpromises⟩ := Problem.promises_visited hg₁ hg₂ s₁.env hready.shows hend hlength
  obtain ⟨hanswered, he⟩ := List.append_inj' (hcalls.symm.trans hmade) rfl
  cases he
  -- what the interrupted caller has answered are the first `k` answers of the run
  have hnumber : (s.interrupted k).run.2.env.1.2.toList.length = k := by
    rw [hanswered, List.length_map] at htaken
    exact htaken
  have hfirst := List.prefix_iff_eq_take.mp (s.answered_interrupted k)
  rw [hnumber] at hfirst
  rw [moment, ← hfirst]
  exact ⟨hanswered.symm, hpromises⟩

/-- Call number 33 is about the edges of the second pair that is made for the first vertex of the
looped graph. Level 2 was entered with the first one in the meantime. -/
theorem promises_kept_looped_longer :
    let s := byStructure .looped .longer .default
    let e := Event.edges (.ofNat 0) (.ofNat 1) [.ofNat 0, .ofNat 1] (.ofNat 1) (.ofNat 2)
      [.ofNat 1, .ofNat 2]
    s.calls[33]? = some e ∧ (s.moment 33).pairs = [(.ofNat 0, .ofNat 1)] ∧
      (s.moment 33).entries.getLast?.map Entry.pairs = some [(.ofNat 0, .ofNat 0)] ∧
      (s.moment 33).answered.map Call.event = s.calls.take 33 ∧
      (s.moment 33).Promises .looped .longer e := by
  intro s e
  have hs : s.Reachable := reachable_byStructure Graph.wellFormed_longer rfl
  have he : s.calls[33]? = some e := by decide +kernel
  have hkept := hs.promises_kept Graph.wellFormed_looped Graph.wellFormed_longer he
  exact ⟨he, by decide +kernel, by decide +kernel, hkept⟩

end Solver

end CommonSubgraph
