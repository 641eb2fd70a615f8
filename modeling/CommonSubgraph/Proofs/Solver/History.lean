import CommonSubgraph.Proofs.Solver.Gathering
import CommonSubgraph.Proofs.Solver.Recorded

/-!
# Runs do not depend on history

A solver may have been run before, with any settings and to any end, faults among them. Its next run
is the one of a new solver with the same graphs and settings, event by event, as long as the callers
answer alike (`Solver.Reachable.run_eq_new`). Two callers answer alike if some relation of their
states is kept by all the answers that they have in common (`Problem.AlikeBy`); so the state of a
caller may well tell how many runs there were, if only the answers do not.
-/

namespace CommonSubgraph

variable {ν ε σ σ' : Type}

/-- The problems have the same graphs and settings, and callers that answer alike from states
related by `R`, which leaves them in related states. -/
structure Problem.AlikeBy (P : Problem ν ε σ) (P' : Problem ν ε σ') (R : σ → σ' → Prop) :
    Prop where
  first_eq : P'.first = P.first
  second_eq : P'.second = P.second
  config_eq : P'.config = P.config
  vertices : ∀ i j x y, R x y → EndAlike R (P.predicate.vertices P.first i P.second j x)
    (P'.predicate.vertices P.first i P.second j y)
  edges : ∀ i₁ i₂ es₁ j₁ j₂ es₂ x y, R x y →
    EndAlike R (P.predicate.edges P.first i₁ i₂ es₁ P.second j₁ j₂ es₂ x)
      (P'.predicate.edges P.first i₁ i₂ es₁ P.second j₁ j₂ es₂ y)
  progress : ∀ level x y, R x y →
    EndAlike R (P.predicate.progress level x) (P'.predicate.progress level y)
  process : ∀ xs ys x y, R x y → EndAlike R (P.processor.process P.first xs P.second ys x)
    (P'.processor.process P.first xs P.second ys y)

namespace Problem.AlikeBy

variable {P : Problem ν ε σ} {P' : Problem ν ε σ'} {R : σ → σ' → Prop}

/-- Problems that are answered alike differ in their caller only. -/
theorem eq_alter (h : P.AlikeBy P' R) :
    P' = P.alter P'.predicate P'.processor P.config.arenaLimit := by
  obtain ⟨first, second, predicate, processor, config⟩ := P'
  obtain rfl := h.first_eq
  obtain rfl := h.second_eq
  obtain rfl := h.config_eq
  rfl

/-- Problems that are answered alike have one arena. -/
theorem newArena_eq (h : P.AlikeBy P' R) : Solver.newArena P' = Solver.newArena P := by
  simp only [Solver.newArena, h.second_eq, h.config_eq]

/-- Their searches begin with the same work. -/
theorem work_begun (h : P.AlikeBy P' R) (env : σ) (env' : σ') :
    (Solver.begun P' env').work = (Solver.begun P env).work := by
  simp only [Solver.begun, h.first_eq, h.second_eq, h.config_eq]

/-- Searches that are answered alike are in step. -/
theorem goOn (h : P.AlikeBy P' R) : Comparison.GoOn (fun _ _ => R) (fun _ _ _ _ => False) P
    P'.predicate P'.processor where
  vertices _ _ x y i j := h.vertices i j x y
  edges _ _ x y i₁ i₂ es₁ j₁ j₂ es₂ := h.edges i₁ i₂ es₁ j₁ j₂ es₂ x y
  progress _ _ x y level hR := .alike (h.progress level x y hR)
  solution _ _ x y xs ys hR := .alike (h.process xs ys x y hR)

/-- Recorded searches from related states come to the same end after the same events. -/
theorem recorded (h : P.AlikeBy P' R) (w : Work) {env : σ} {env' : σ'} (henv : R env env') :
    ∃ r : EStateM.Result Halt (Work × ((σ × List Event) × (σ' × List Event))) Unit,
      P.recorded (w, (env, [])) = seen (beside Prod.fst) r ∧
        P'.recorded (w, (env', [])) = seen (beside Prod.snd) r ∧
        (endState r).2.1.2 = (endState r).2.2.2 ∧ R (endState r).2.1.1 (endState r).2.2.1 := by
  have hcallers := h.goOn.callers w.arena.limit w.arena.limit fun _ map i k =>
    Comparison.tracks_start rfl (fun _ _ _ _ _ _ hR => hR) map i k
  have htracks := hcallers.searchBy 0 P.config.arenaLimit
  have hP' : P'.recorded = (P.alter P'.predicate P'.processor P.config.arenaLimit).recorded :=
    congrArg Problem.recorded h.eq_alter
  rw [hP']
  rcases htracks.exists_seen rfl rfl (x := (env, [])) (y := (env', []))
    ⟨Nat.zero_le _, rfl, henv⟩ with ⟨r, hr₁, hr₂, hm⟩ | ⟨_, _, _, _, -, hf⟩
  · exact ⟨r, hr₁, hr₂, hm.inStep⟩
  · exact hf.elim

/-- A problem is like itself, for callers in one state. -/
theorem refl (P : Problem ν ε σ) : P.AlikeBy P Eq := by
  have same {α : Type} (m : Callback σ α) (x y : σ) (h : x = y) : EndAlike Eq (m x) (m y) := by
    subst h
    exact .refl (fun _ => rfl) (m x)
  exact ⟨rfl, rfl, rfl, fun _ _ => same _, fun _ _ _ _ _ _ => same _, fun _ => same _,
    fun _ _ => same _⟩

end Problem.AlikeBy

namespace Solver

/-- However a solver was used before, its next run goes as the first run of a new solver with the
same graphs and settings, if the callers answer alike; and no run changes the settings. -/
theorem Reachable.run_eq_new {s : Solver ν ε σ} {P : Problem ν ε σ'} {env : σ'}
    {new : Solver ν ε σ'} {R : σ → σ' → Prop} (hs : s.Reachable)
    (hg₁ : s.problem.first.WellFormed) (hg₂ : s.problem.second.WellFormed)
    (hnew : Solver.new P env = .ok new) (hP : s.problem.AlikeBy P R) (henv : R s.env env) :
    s.RunsAlike R new ∧ s.run.2.config = s.config := by
  have hconfig : s.run.2.config = s.config := congrArg Problem.config s.problem_run
  -- a new solver has an arena, and by its settings so does a reset of the other
  obtain ⟨a, ha, rfl⟩ := exists_newArena_of_new hnew
  have hreset := (hs.coherent hg₁ hg₂).reset_eq ⟨a, hP.newArena_eq ▸ ha⟩
  have hreset' : (ofArena P env a).reset = (.ok (), begun P env) :=
    (coherent_ofArena ha env).reset_eq ⟨a, ha⟩
  obtain ⟨r, hr, hr', hevents, hR⟩ := hP.recorded (begun s.problem s.env).work henv
  rw [← hP.work_begun s.env env] at hr'
  exact ⟨.of_seen hreset hreset' hr hr' hevents rfl rfl hR, hconfig⟩

end Solver

/-- A processor that gives up if its state says so. -/
def Processor.quitting : Processor ν ε Bool where
  process _ _ _ _ := do
    if ← get then Callback.giveUp "quit" else return .proceed

/-- A new solver with this processor, which goes by the structure of the graphs alone. -/
def Solver.quitting (g₁ g₂ : Graph ν ε) (quit : Bool) : Solver ν ε Bool :=
  ofArena ⟨g₁, g₂, .structural, .quitting, .default⟩ quit
    (Arena.new (Config.default.arenaCapacity g₂.vertexCount) none)

/-- After a run that its processor gave up, the solver runs as a new one if the processor does not
give up again. -/
theorem Solver.run_eq_new_quitting :
    (quitting .looped .longer true).run.2.status = .searching ∧
      RunsAlike Eq { (quitting .looped .longer true).run.2 with env := false }
        (quitting .looped .longer false) := by
  have hnew (quit : Bool) : Solver.new _ quit = .ok (quitting Graph.looped Graph.longer quit) :=
    new_of_newArena (newArena_eq Graph.wellFormed_longer rfl) quit
  have hs := ((Reachable.new (hnew true)).run).setEnv false
  have hp : (quitting Graph.looped Graph.longer true).run.2.problem =
      (quitting Graph.looped Graph.longer false).problem := problem_run _
  exact ⟨by decide +kernel, (hs.run_eq_new (hp ▸ Graph.wellFormed_looped)
    (hp ▸ Graph.wellFormed_longer) (hnew false) (hp ▸ .refl _) rfl).1⟩

end CommonSubgraph
