import CommonSubgraph.Proofs.Search.Candidates
import CommonSubgraph.Proofs.Search.Mirror
import CommonSubgraph.Proofs.Solver.Reachable

/-!
# What a run delivers

`s.deliveries` are the solutions that the next run of `s` hands to its processor, with one that the
processor stops at or gives up on: they are noted before they are passed on, which makes no other
difference to the run (`Solver.run_noting`).

They are the first ones of a script (`Solver.Coherent.deliveries_of_script`), and all of it if the
caller never stops and the arena has no limit; the run has then visited everything
(`Solver.Coherent.deliveries_eq`).
-/

namespace CommonSubgraph

variable {ν ε σ σ' τ : Type}

/-! ## Solvers with another caller -/

namespace Solver

/-- The solver with another caller. -/
def recast (s : Solver ν ε σ) (p : Predicate ν ε σ') (q : Processor ν ε σ') (env : σ') :
    Solver ν ε σ' where
  problem := s.problem.recast p q
  work := s.work
  builtFor := s.builtFor
  status := s.status
  env := env

variable {s : Solver ν ε σ} {p : Predicate ν ε σ'} {q : Processor ν ε σ'} {π : σ' → σ}

/-- A reset asks the caller nothing, so it is the same for another one. -/
theorem reset_recast (s : Solver ν ε σ) (p : Predicate ν ε σ') (q : Processor ν ε σ') (env : σ') :
    (s.recast p q env).reset = (s.reset.1, s.reset.2.recast p q env) := by
  have hn : newArena (s.recast p q env).problem = newArena s.problem := rfl
  rw [reset, reset, renewArena, renewArena, hn]
  by_cases hb : s.builtFor = s.config.arenaSettings
  · have hb' : (s.recast p q env).builtFor = (s.recast p q env).config.arenaSettings := hb
    rw [if_pos hb, if_pos hb']
    rfl
  · have hb' : (s.recast p q env).builtFor ≠ (s.recast p q env).config.arenaSettings := hb
    rw [if_neg hb, if_neg hb']
    cases newArena s.problem <;> rfl

/-- How a run ends depends on the answer and the state its search ended in, whoever the caller
is. -/
theorem ended_recast (s : Solver ν ε σ) (p : Predicate ν ε σ') (q : Processor ν ε σ') (env : σ')
    (π : σ' → σ) (r : EStateM.Result Halt (Work × σ') Unit) :
    (s.recast p q env).ended r = ((s.ended (seen (beside π) r)).1,
      (s.ended (seen (beside π) r)).2.recast p q (endState r).2) := by
  match r with
  | .ok _ _ => rfl
  | .error .aborted _ => rfl
  | .error (.failed (.exhausted _)) _ => rfl
  | .error (.failed (.fault _)) _ => rfl

/-- The state an outcome ends in, seen through `f`. -/
theorem endState_seen {η α : Type} (f : σ' → σ) (r : EStateM.Result η σ' α) :
    endState (seen f r) = f (endState r) := by
  cases r <;> rfl

/-- A run with a caller that only watches is the run with the caller that is watched. -/
theorem run_recast (h : s.problem.Watched p q π) {env : σ'} (he : π env = s.env) :
    ∃ env', (s.recast p q env).run = (s.run.1, s.run.2.recast p q env') ∧ π env' = s.run.2.env := by
  have hreset := s.reset_recast p q env
  cases hr : s.reset with
  | mk r s₁ =>
    rw [hr] at hreset
    have hkeeps := s.reset_keeps
    rw [hr] at hkeeps
    cases r with
    | error f =>
      rw [run_of_error hr, run_of_error hreset]
      exact ⟨env, rfl, he.trans hkeeps.2.symm⟩
    | ok u =>
      have hw : s₁.problem.Watched p q π := hkeeps.1 ▸ h
      have hsearch := Problem.mirrors_search hw (s₁.work, env)
      have hstart : beside π (s₁.work, env) = (s₁.work, s₁.env) := by
        rw [beside, he, hkeeps.2]
      rw [hstart] at hsearch
      rw [run_of_ready hr, run_of_ready hreset, ended_recast s₁ p q env π, ← hsearch]
      refine ⟨_, rfl, ?_⟩
      obtain ⟨st, hst⟩ := s₁.ended_snd
        (seen (beside π) ((s₁.problem.recast p q).search (s₁.work, env)))
      rw [hst, endState_seen]
      rfl

end Solver

/-! ## Noting solutions -/

/-- The processor, which notes each solution before it handles it. -/
def Processor.noting (q : Processor ν ε σ) : Processor ν ε (σ × List Solution) where
  process g₁ xs g₂ ys := fun (s, noted) =>
    (q.process g₁ xs g₂ ys).onFst (s, noted ++ [⟨xs, ys⟩])

/-- The solver with a processor that notes the solutions given to it. -/
def Solver.noting (s : Solver ν ε σ) : Solver ν ε (σ × List Solution) :=
  s.recast s.problem.predicate.onFst s.problem.processor.noting (s.env, [])

/-- The solutions that the next run hands to the processor, in order. -/
def Solver.deliveries (s : Solver ν ε σ) : List Solution := s.noting.run.2.env.2

/-- A callback beside which notes are kept answers as it does alone. -/
theorem Callback.mirrors_onFst {α : Type} (m : Callback σ α) :
    Mirrors Prod.fst (m.onFst : Callback (σ × τ) α) m := by
  rintro ⟨s, t⟩
  simp only [onFst]
  cases m s <;> rfl

namespace Problem

variable {P : Problem ν ε σ}

/-- The problem with a processor that notes the solutions given to it. -/
def noting (P : Problem ν ε σ) : Problem ν ε (σ × List Solution) :=
  P.recast P.predicate.onFst P.processor.noting

/-- A caller whose solutions are noted is watched, which changes nothing in its own state. -/
theorem watched_noting (P : Problem ν ε σ) :
    P.Watched P.predicate.onFst P.processor.noting Prod.fst where
  vertices g₁ i g₂ j := (P.predicate.vertices g₁ i g₂ j).mirrors_onFst
  edges g₁ i₁ i₂ es₁ g₂ j₁ j₂ es₂ := (P.predicate.edges g₁ i₁ i₂ es₁ g₂ j₁ j₂ es₂).mirrors_onFst
  progress level := (P.predicate.progress level).mirrors_onFst
  process g₁ xs g₂ ys := fun (s, noted) =>
    (P.processor.process g₁ xs g₂ ys).mirrors_onFst (s, noted ++ [⟨xs, ys⟩])

/-- A step that hands over a solution adds it to the notes, and no other step does. -/
theorem after_noting (P : Problem ν ε σ) (env : σ × List Solution) (st : Step) :
    P.noting.after env st = (P.after env.1 st, env.2 ++ delivered [st]) := by
  obtain ⟨v, act⟩ := st
  have hnone : env.2 ++ [] = env.2 := List.append_nil _
  cases act with
  | vertices => exact (Callback.endState_onFst _ env).trans (congrArg _ hnone.symm)
  | edges => exact (Callback.endState_onFst _ env).trans (congrArg _ hnone.symm)
  | progress => exact (Callback.endState_onFst _ env).trans (congrArg _ hnone.symm)
  | solution xs ys => exact Callback.endState_onFst _ (env.1, env.2 ++ [⟨xs, ys⟩])
  | reserve => exact congrArg (Prod.mk env.1) hnone.symm

/-- A list of steps leaves the caller as it does without notes, and notes what the steps deliver. -/
theorem foldl_after_noting (P : Problem ν ε σ) (E : List Step) (env : σ × List Solution) :
    E.foldl P.noting.after env = (E.foldl P.after env.1, env.2 ++ delivered E) := by
  induction E generalizing env with
  | nil => exact congrArg (Prod.mk env.1) (List.append_nil _).symm
  | cons st E ih =>
    have hcons : delivered (st :: E) = delivered [st] ++ delivered E := delivered_append [st] E
    rw [List.foldl_cons, ih, after_noting, List.foldl_cons, List.append_assoc, ← hcons]

/-- Noting the solutions changes no answers. -/
theorem Within.noting {A : Act → Prop} (h : P.Within A) : P.noting.Within A where
  exists_vertices := h.exists_vertices
  vertices i j b env env' hi hj he :=
    h.vertices i j b env.1 env'.1 hi hj (Callback.ok_of_onFst he)
  exists_edges := h.exists_edges
  edges i₁ i₂ j₁ j₂ b env env' hi₁ hi₂ hj₁ hj₂ he :=
    h.edges i₁ i₂ j₁ j₂ b env.1 env'.1 hi₁ hi₂ hj₁ hj₂ (Callback.ok_of_onFst he)
  progress := h.progress
  solution := h.solution
  reserve := h.reserve

end Problem

/-! ## Callers that never stop -/

/-- The caller lets the search go on at every level and after every solution. -/
structure Problem.Continues (P : Problem ν ε σ) : Prop where
  progress : ∀ level env, ∃ env', P.predicate.progress level env = .ok .proceed env'
  process : ∀ xs ys env, xs.length = ys.length →
    ∃ env', P.processor.process P.first xs P.second ys env = .ok .proceed env'

namespace Problem

variable {P : Problem ν ε σ} {T : Tests}

/-- A caller that never stops does not stop if its solutions are noted. -/
theorem Continues.noting (h : P.Continues) : P.noting.Continues where
  progress level env := by
    obtain ⟨env', he⟩ := h.progress level env.1
    exact ⟨(env', env.2), Callback.onFst_of_ok he env.2⟩
  process xs ys env hl := by
    obtain ⟨env', he⟩ := h.process xs ys env.1 hl
    have hon := Callback.onFst_of_ok he (env.2 ++ [(⟨xs, ys⟩ : Solution)])
    exact ⟨_, hon⟩

/-- Nothing but the limit of the arena can stop a search whose caller answers as tests do and never
stops. -/
theorem Continues.not_stops (hc : P.Continues) (hT : P.predicate.Answers P.first P.second T)
    {st : Step} (hst : st.act.Proper P.first P.second) (hl : st.view.arena.limit = none)
    {env env' : σ} {halt : Halt} : ¬ P.Stops st env halt env' := by
  intro h
  obtain ⟨v, act⟩ := st
  cases act with
  | vertices i j b =>
    obtain ⟨f, -, h⟩ := h
    rw [hT.vertices_eq i j env hst.1 hst.2] at h
    cases h
  | edges i₁ i₂ es₁ j₁ j₂ es₂ b =>
    obtain ⟨⟨hi₁, hi₂, rfl⟩, hj₁, hj₂, rfl⟩ := hst
    obtain ⟨f, -, h⟩ := h
    rw [hT.edges_eq i₁ i₂ j₁ j₂ env hi₁ hi₂ hj₁ hj₂] at h
    cases h
  | progress level =>
    obtain ⟨env₁, he⟩ := hc.progress level env
    rcases h with ⟨-, h⟩ | ⟨f, -, h⟩
    · cases he.symm.trans h
    · cases he.symm.trans h
  | solution xs ys =>
    obtain ⟨env₁, he⟩ := hc.process xs ys env hst
    rcases h with ⟨-, h⟩ | ⟨f, -, h⟩
    · cases he.symm.trans h
    · cases he.symm.trans h
  | reserve n =>
    obtain ⟨-, e, -, h⟩ := h
    rw [Arena.reserve, hl] at h
    cases h

end Problem

/-! ## Runs -/

namespace Solver

variable {s : Solver ν ε σ} {T : Tests}

/-- Noting the solutions makes no other difference to a run. -/
theorem run_noting (s : Solver ν ε σ) :
    ∃ env, s.noting.run = (s.run.1, s.run.2.recast s.problem.predicate.onFst
      s.problem.processor.noting env) ∧ env.1 = s.run.2.env :=
  run_recast s.problem.watched_noting rfl

/-- Noting the solutions leaves a solver coherent. -/
theorem Coherent.noting (hs : s.Coherent) : s.noting.Coherent :=
  ⟨hs.considered, hs.targets, hs.unpaired, hs.limit_eq⟩

/-- What a run delivers, and what becomes of the caller's state, is told by the first steps of a
script of the search, whatever stops the run. -/
theorem Coherent.deliveries_of_script (hs : s.Coherent) (hg₁ : s.problem.first.WellFormed)
    (hg₂ : s.problem.second.WellFormed) {A : Act → Prop} (hA : s.problem.Within A) :
    s.deliveries = [] ∧ s.run.2.env = s.env ∨ ∃ a E v' E₁,
      Searched s.problem.first s.problem.second s.config a E v' ∧ (∀ st ∈ E, A st.act) ∧
        E₁ <+: E ∧ s.deliveries = delivered E₁ ∧ s.run.2.env = E₁.foldl s.problem.after s.env := by
  obtain ⟨env, hrun, henv⟩ := s.run_noting
  have hnoted : s.noting.run.2.env = env := congrArg (fun r => r.2.env) hrun
  rw [← henv, ← hnoted, deliveries]
  rcases hs.noting.reset hg₁ hg₂ with ⟨s₁, a, hreset, hr⟩ | ⟨f, s₁, hreset, -, -, henv₁⟩
  · right
    obtain ⟨E, w', v', hsearched, -, hE, hf⟩ := Problem.exists_searched (P := s.problem.noting)
      hg₁ hg₂ hA.noting hr.shows s₁.env
    obtain ⟨E₁, hfirst, hend⟩ := hf.env_eq_foldl
    obtain ⟨st, hst⟩ := s₁.ended_snd (s₁.problem.search (s₁.work, s₁.env))
    have hfold : s.noting.run.2.env = (E₁.foldl s.problem.after s.env, delivered E₁) := by
      rw [run_of_ready hreset, hst, hr.problem_eq]
      refine hend.trans ?_
      rw [hr.env_eq]
      exact s.problem.foldl_after_noting E₁ (s.env, [])
    rw [hfold]
    exact ⟨a, E, v', E₁, hsearched, hE, hfirst, rfl, rfl⟩
  · left
    rw [run_of_error hreset, henv₁]
    exact ⟨rfl, rfl⟩

/-- A run that nothing stops visits everything and delivers all solutions of a script. -/
theorem Coherent.deliveries_eq (hs : s.Coherent) (hg₁ : s.problem.first.WellFormed)
    (hg₂ : s.problem.second.WellFormed)
    (hT : s.problem.predicate.Answers s.problem.first s.problem.second T)
    (hc : s.problem.Continues) (hlimit : s.config.arenaLimit = none) (ha : s.HasArena) :
    s.run.1 = .ok () ∧ s.run.2.status = .exhausted ∧ ∃ a E v',
      Searched s.problem.first s.problem.second s.config a E v' ∧ (∀ st ∈ E, T.Gives st.act) ∧
        s.deliveries = delivered E := by
  rcases hs.noting.reset hg₁ hg₂ with ⟨s₁, a, hreset, hr⟩ | ⟨f, s₁, hreset, hn, -, -⟩
  swap
  · obtain ⟨b, hb⟩ := ha
    cases hn.symm.trans hb
  -- the script of the run with its solutions noted; without a limit nothing can stop it
  have hT' : s.problem.noting.predicate.Answers s.problem.first s.problem.second T := hT.onFst
  obtain ⟨E, w', v', hsearched, -, hA, hf⟩ := Problem.exists_searched (P := s.problem.noting)
    hg₁ hg₂ hT'.within hr.shows s₁.env
  have hsteps := (hsearched.grown hg₁ hg₂).2
  have hnone : a.limit = none := (hr.limit_eq ha).trans hlimit
  cases hf with
  | stopped split heard stops =>
    refine absurd stops (hc.noting.not_stops hT' (hA _ (by simp [split])).1 ?_)
    exact ((hsteps _ (by simp [split])).limit_eq).trans hnone
  | @through env' heard eq =>
    have hrun : s.noting.run =
        (.ok (), { s₁ with work := w', env := env', status := .exhausted }) := by
      rw [run_of_ready hreset]
      refine congrArg s₁.ended (Eq.trans ?_ eq)
      rw [hr.problem_eq]
      rfl
    obtain ⟨env₁, hrun₁, -⟩ := s.run_noting
    rw [hrun] at hrun₁
    have hfst := (Prod.mk.inj hrun₁).1
    have hsnd := (Prod.mk.inj hrun₁).2
    refine ⟨hfst.symm, (congrArg Solver.status hsnd).symm, a, E, v', hsearched,
      fun st hst => (hA st hst).2, ?_⟩
    have henv : env' = E.foldl s.problem.noting.after (s.env, []) := by
      rw [heard.eq_foldl, hr.env_eq]
      rfl
    rw [deliveries, hrun, henv, Problem.foldl_after_noting]
    rfl

end Solver

end CommonSubgraph
