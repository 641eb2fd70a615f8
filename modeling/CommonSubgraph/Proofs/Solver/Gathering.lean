import CommonSubgraph.Proofs.Graph.Insertion
import CommonSubgraph.Proofs.Largest
import CommonSubgraph.Proofs.Solver.Deliveries

/-!
# Processors with a state of their own

A processor that does nothing but change its state by each solution is described by that change
(`Processor.Updates`). Beside a predicate with another state it ends with the changes made by all
deliveries in order, whatever ends the run (`Solver.Coherent.gathered`).
-/

namespace CommonSubgraph

variable {ν ε σ τ : Type}

/-- The processor changes its state by each solution as `f` says. -/
def Processor.Updates (q : Processor ν ε τ) (g₁ g₂ : Graph ν ε) (f : τ → Solution → τ) : Prop :=
  ∀ xs ys t, xs.length = ys.length →
    ∃ action, q.process g₁ xs g₂ ys t = .ok action (f t ⟨xs, ys⟩)

/-- A callback that succeeds on its own state succeeds beside another one. -/
theorem Callback.onSnd_of_ok {α : Type} {m : Callback τ α} {t t' : τ} {a : α}
    (h : m t = .ok a t') (s : σ) : m.onSnd (s, t) = .ok a (s, t') := by
  simp only [onSnd, h]

/-- The state a callback ends in beside another one. -/
theorem Callback.endState_onSnd {α : Type} (m : Callback τ α) (env : σ × τ) :
    endState (m.onSnd env) = (env.1, endState (m env.2)) := by
  obtain ⟨s, t⟩ := env
  simp only [onSnd]
  cases m t <;> rfl

section

variable {g₁ g₂ : Graph ν ε} {p : Predicate ν ε σ} {q : Processor ν ε τ} {c : Config}
variable {f : τ → Solution → τ}

/-- A step leaves a processor with what it makes of the delivery of the step, if there is one. -/
theorem Processor.Updates.snd_after (hf : q.Updates g₁ g₂ f) {st : Step}
    (hst : st.act.Proper g₁ g₂) (env : σ × τ) :
    (Problem.after ⟨g₁, g₂, p.onFst, q.onSnd, c⟩ env st).2 =
      (delivered [st]).foldl f env.2 := by
  obtain ⟨v, act⟩ := st
  cases act with
  | vertices i j =>
    show (endState ((p.vertices g₁ i g₂ j).onFst env)).2 = env.2
    rw [Callback.endState_onFst]
  | edges i₁ i₂ es₁ j₁ j₂ es₂ =>
    show (endState ((p.edges g₁ i₁ i₂ es₁ g₂ j₁ j₂ es₂).onFst env)).2 = env.2
    rw [Callback.endState_onFst]
  | progress level =>
    show (endState ((p.progress level).onFst env)).2 = env.2
    rw [Callback.endState_onFst]
  | solution xs ys =>
    obtain ⟨action, hq⟩ := hf xs ys env.2 hst
    show (endState ((q.process g₁ xs g₂ ys).onSnd env)).2 = f env.2 ⟨xs, ys⟩
    rw [Callback.endState_onSnd, hq]
    rfl
  | reserve => rfl

/-- A list of steps leaves a processor with what it makes of their deliveries in turn. -/
theorem Processor.Updates.snd_foldl_after (hf : q.Updates g₁ g₂ f) {E : List Step}
    (hE : ∀ st ∈ E, st.act.Proper g₁ g₂) (env : σ × τ) :
    (E.foldl (Problem.after ⟨g₁, g₂, p.onFst, q.onSnd, c⟩) env).2 =
      (delivered E).foldl f env.2 := by
  induction E generalizing env with
  | nil => rfl
  | cons st E ih =>
    have hcons : delivered (st :: E) = delivered [st] ++ delivered E := delivered_append [st] E
    rw [List.foldl_cons, ih fun st' hst' => hE st' (List.mem_cons_of_mem st hst'),
      hf.snd_after (hE st List.mem_cons_self), hcons, List.foldl_append]

/-- Whatever ends a run, the processor's state has been changed by all deliveries in order. -/
theorem Solver.Coherent.gathered {s : Solver ν ε (σ × τ)} (hs : s.Coherent)
    (hp : s.problem = ⟨g₁, g₂, p.onFst, q.onSnd, c⟩) (hg₁ : g₁.WellFormed) (hg₂ : g₂.WellFormed)
    (hf : q.Updates g₁ g₂ f) : s.run.2.env.2 = s.deliveries.foldl f s.env.2 := by
  rcases hs.deliveries_of_script (hp ▸ hg₁) (hp ▸ hg₂) s.problem.within_proper with
    ⟨hnil, henv⟩ | ⟨a, E, v', E₁, -, hE, hfirst, hdel, henv⟩
  · rw [hnil, henv]
    rfl
  · rw [hp] at hE
    rw [henv, hdel, hp]
    exact hf.snd_foldl_after (fun st hst => hE st (hfirst.subset hst)) s.env

end

/-! ## The largest solutions -/

namespace Largest

/-- A processor for the largest solutions takes one by `keep`. -/
theorem updates (g₁ g₂ : Graph ν ε) : processor.Updates g₁ g₂ keep :=
  fun _ _ kept h => ⟨.proceed, process_eq g₁ g₂ kept h⟩

/-- Beside a predicate that never stops the search, neither does this processor. -/
theorem continues {p : Predicate ν ε σ} (hp : ∀ level env, ∃ env',
    p.progress level env = .ok .proceed env') (g₁ g₂ : Graph ν ε) (c : Config) :
    Problem.Continues ⟨g₁, g₂, p.onFst, processor.onSnd, c⟩ where
  progress level env := by
    obtain ⟨env', he⟩ := hp level env.1
    exact ⟨(env', env.2), Callback.onFst_of_ok he env.2⟩
  process _ _ env hl := ⟨_, Callback.onSnd_of_ok (process_eq g₁ g₂ env.2 hl) env.1⟩

end Largest

/-! ## Searches by structure alone -/

namespace Solver

variable {g₁ g₂ : Graph ν ε} {c : Config}

/-- A new solver that keeps the largest solutions and goes by the structure of the graphs alone. -/
def byStructure (g₁ g₂ : Graph ν ε) (c : Config) : Solver ν ε (Unit × Largest) :=
  ofArena ⟨g₁, g₂, Predicate.structural.onFst, Largest.processor.onSnd, c⟩ ((), .empty)
    (Arena.new (c.arenaCapacity g₂.vertexCount) c.arenaLimit)

theorem reachable_byStructure (hg₂ : g₂.WellFormed)
    (hm : c.arenaMultiplier = Config.defaultArenaMultiplier) : (byStructure g₁ g₂ c).Reachable :=
  .new (new_of_newArena (newArena_eq hg₂ hm) _)

theorem hasArena_byStructure (hg₂ : g₂.WellFormed)
    (hm : c.arenaMultiplier = Config.defaultArenaMultiplier) : (byStructure g₁ g₂ c).HasArena :=
  ⟨_, newArena_eq hg₂ hm⟩

theorem continues_byStructure (g₁ g₂ : Graph ν ε) (c : Config) :
    (byStructure g₁ g₂ c).problem.Continues :=
  Largest.continues (fun _ env => ⟨env, rfl⟩) g₁ g₂ c

theorem answers_byStructure (g₁ g₂ : Graph ν ε) (c : Config) :
    (byStructure g₁ g₂ c).problem.predicate.Answers g₁ g₂ Tests.structural :=
  (Predicate.answers_structural g₁ g₂).onFst

end Solver

/-- Two parallel edges, and an edge that leads from their target to a vertex with a loop. -/
def Graph.looped : Graph Unit Unit := plain 3 [(0, 1), (0, 1), (1, 2), (2, 2)]

/-- The same after one more edge. -/
def Graph.longer : Graph Unit Unit := plain 4 [(0, 1), (1, 2), (1, 2), (2, 3), (3, 3)]

theorem Graph.wellFormed_looped : looped.WellFormed := wellFormed_plain (by decide) (by decide)

theorem Graph.wellFormed_longer : longer.WellFormed := wellFormed_plain (by decide) (by decide)

end CommonSubgraph
