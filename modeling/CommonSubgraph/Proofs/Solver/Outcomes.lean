import CommonSubgraph.Proofs.Search.Counts
import CommonSubgraph.Proofs.Solver.Gathering

/-!
# How runs end

Of all that can end a search early, only the caller and the arena ever do. A caller that never gives
up (`Problem.NeverGivesUp`) therefore sees a run of a reachable solver end in one of two ways: it
succeeds, or the arena is exhausted. No check of the search fails in it, and none of those fails
either that only the strict search makes: the run is the strict run (`Solver.runStrict`), provided
that a machine word can count its solutions and its arena slots
(`Solver.Reachable.run_ok_or_exhausted`).
-/

namespace CommonSubgraph

variable {ν ε σ : Type}

/-- A set that lists its members is linked up. -/
theorem OrderedSet.Lists.linked {s : OrderedSet} {n : Nat} {l : List VertexId}
    (h : s.Lists n l) : s.Linked n := ⟨h.domain_eq, _, h.represents⟩

/-! ## Callers that never give up -/

/-- From a safe state the callback answers, and leaves a safe state. -/
def Callback.Returns {α : Type} (m : Callback σ α) (safe : σ → Prop) : Prop :=
  ∀ s, safe s → ∃ a s', m s = .ok a s' ∧ safe s'

/-- A callback that returns leaves its caller in a safe state. -/
theorem Callback.Returns.safe_of_ok {α : Type} {m : Callback σ α} {safe : σ → Prop} {s s' : σ}
    {a : α} (h : m.Returns safe) (hs : safe s) (hm : m s = .ok a s') : safe s' := by
  obtain ⟨_, _, hok, hs'⟩ := h s hs
  cases hm.symm.trans hok
  exact hs'

/-- A callback that returns does not fail. -/
theorem Callback.Returns.ne_error {α : Type} {m : Callback σ α} {safe : σ → Prop} {s s' : σ}
    {f : Fault} (h : m.Returns safe) (hs : safe s) : m s ≠ .error f s' := by
  obtain ⟨_, _, hok, -⟩ := h s hs
  rw [hok]
  exact fun hm => by cases hm

namespace Problem

/-- Whatever a search can ask and tell it, the caller does not give up from a safe state. -/
structure NeverGivesUp (P : Problem ν ε σ) (safe : σ → Prop) : Prop where
  vertices : ∀ i j, P.first.containsVertex i = true → P.second.containsVertex j = true →
    (P.predicate.vertices P.first i P.second j).Returns safe
  edges : ∀ i₁ i₂ j₁ j₂, P.first.containsVertex i₁ = true → P.first.containsVertex i₂ = true →
    P.second.containsVertex j₁ = true → P.second.containsVertex j₂ = true →
    (P.predicate.edges P.first i₁ i₂ (P.first.touching i₁ i₂) P.second j₁ j₂
      (P.second.touching j₁ j₂)).Returns safe
  progress : ∀ level, (P.predicate.progress level).Returns safe
  process : ∀ xs ys, xs.length = ys.length →
    (P.processor.process P.first xs P.second ys).Returns safe

variable {P : Problem ν ε σ} {T : Tests} {safe : σ → Prop} {st : Step} {E : List Step}
variable {env env' : σ}

/-- A caller that answers as tests do and lets every search go on never gives up. -/
theorem Continues.neverGivesUp (hc : P.Continues)
    (hT : P.predicate.Answers P.first P.second T) : P.NeverGivesUp fun _ => True where
  vertices i j hi hj s _ := ⟨_, s, hT.vertices_eq i j s hi hj, trivial⟩
  edges i₁ i₂ j₁ j₂ hi₁ hi₂ hj₁ hj₂ s _ :=
    ⟨_, s, hT.edges_eq i₁ i₂ j₁ j₂ s hi₁ hi₂ hj₁ hj₂, trivial⟩
  progress level s _ := by
    obtain ⟨s', hs'⟩ := hc.progress level s
    exact ⟨_, s', hs', trivial⟩
  process xs ys hl s _ := by
    obtain ⟨s', hs'⟩ := hc.process xs ys s hl
    exact ⟨_, s', hs', trivial⟩

namespace NeverGivesUp

variable (hP : P.NeverGivesUp safe)

include hP

/-- A step that is passed leaves the caller in a safe state. -/
theorem safe_of_passes (hst : st.act.Proper P.first P.second) (h : P.Passes st env env')
    (henv : safe env) : safe env' := by
  obtain ⟨v, act⟩ := st
  cases act with
  | vertices i j b => exact (hP.vertices i j hst.1 hst.2).safe_of_ok henv h
  | edges i₁ i₂ es₁ j₁ j₂ es₂ b =>
    obtain ⟨⟨hi₁, hi₂, rfl⟩, hj₁, hj₂, rfl⟩ := hst
    exact (hP.edges i₁ i₂ j₁ j₂ hi₁ hi₂ hj₁ hj₂).safe_of_ok henv h
  | progress level => exact (hP.progress level).safe_of_ok henv h
  | solution xs ys => exact (hP.process xs ys hst).safe_of_ok henv h
  | reserve => exact h.1 ▸ henv

/-- Steps that are gone along with leave the caller in a safe state. -/
theorem safe_of_heard (hE : ∀ st ∈ E, st.act.Proper P.first P.second) (h : P.Heard E env env')
    (henv : safe env) : safe env' := by
  induction h with
  | nil => exact henv
  | cons head _ ih =>
    obtain ⟨hst, hE⟩ := List.forall_mem_cons.mp hE
    exact ih hE (hP.safe_of_passes hst head henv)

/-- A step ends the search by a fault only if the caller gave up. -/
theorem not_stops_fault (hst : st.act.Proper P.first P.second) (henv : safe env) (f : Fault) :
    ¬ P.Stops st env (.failed (.fault f)) env' := by
  obtain ⟨v, act⟩ := st
  intro h
  cases act with
  | vertices i j b =>
    obtain ⟨_, -, he⟩ := h
    exact (hP.vertices i j hst.1 hst.2).ne_error henv he
  | edges i₁ i₂ es₁ j₁ j₂ es₂ b =>
    obtain ⟨⟨hi₁, hi₂, rfl⟩, hj₁, hj₂, rfl⟩ := hst
    obtain ⟨_, -, he⟩ := h
    exact (hP.edges i₁ i₂ j₁ j₂ hi₁ hi₂ hj₁ hj₂).ne_error henv he
  | progress level =>
    rcases h with ⟨hh, -⟩ | ⟨_, -, he⟩
    · cases hh
    · exact (hP.progress level).ne_error henv he
  | solution xs ys =>
    rcases h with ⟨hh, -⟩ | ⟨_, -, he⟩
    · cases hh
    · exact (hP.process xs ys hst).ne_error henv he
  | reserve =>
    obtain ⟨-, _, hh, -⟩ := h
    cases hh

/-- A program with a script does not end by a fault. -/
theorem ne_fault {α : Type} {m : SearchM σ α} {keep : Nat → Prop} {w w' : Work} {a : α} {f : Fault}
    {st' : Work × σ} (h : P.Follows keep m w env E a w')
    (hE : ∀ st ∈ E, st.act.Proper P.first P.second) (henv : safe env) :
    m (w, env) ≠ .error (.failed (.fault f)) st' := by
  intro hm
  cases h with
  | through _ eq => cases eq.symm.trans hm
  | @stopped E₁ E₂ st _ _ _ _ _ split heard stops eq _ _ =>
    cases eq.symm.trans hm
    have hE₁ : ∀ st ∈ E₁, st.act.Proper P.first P.second :=
      fun st hst => hE st (by simp [split, hst])
    have hst : st.act.Proper P.first P.second := hE st (by simp [split])
    exact hP.not_stops_fault hst (hP.safe_of_heard hE₁ heard henv) f stops

end NeverGivesUp

end Problem

namespace Solver

variable {s s₁ : Solver ν ε σ}

/-! ## Strict runs -/

/-- `discard`, strictly. -/
def discardStrict (s : Solver ν ε σ) : Except Fault (Solver ν ε σ) := do
  let considered ← s.work.considered.insertAllStrict
  let targets ← s.work.targets.insertAllStrict
  let unpaired ← s.work.unpaired.insertAllStrict
  return { s.discard with work := { s.discard.work with considered, targets, unpaired } }

/-- `reset`, strictly. -/
def resetStrict (s : Solver ν ε σ) : Except Fault Unit × Solver ν ε σ :=
  match s.renewArena with
  | (.ok _, s) =>
    match s.discardStrict with
    | .ok s => (.ok (), s)
    | .error f => (.error f, s)
  | (.error f, s) => (.error f, s)

/-- `run`, strictly. -/
def runStrict (s : Solver ν ε σ) : Except Failure Unit × Solver ν ε σ :=
  match s.resetStrict with
  | (.error f, s) => (.error (.fault f), s)
  | (.ok _, s) => s.ended (s.problem.searchStrict (s.work, s.env))

/-- Nothing overflows and no index is out of bounds when the state of a solver is discarded. -/
theorem Coherent.discardStrict_eq (hs : s.Coherent) (hg₁ : s.problem.first.WellFormed)
    (hg₂ : s.problem.second.WellFormed) : s.discardStrict = .ok s.discard := by
  have hword : UInt32.size ≤ Size.largest := by decide
  have hn₁ : s.problem.first.vertexCount ≤ Size.largest := Nat.le_trans hg₁.vertexCount_le hword
  have hn₂ : s.problem.second.vertexCount ≤ Size.largest := Nat.le_trans hg₂.vertexCount_le hword
  obtain ⟨_, hc⟩ := hs.considered
  obtain ⟨_, ht⟩ := hs.targets
  obtain ⟨_, hu⟩ := hs.unpaired
  rw [discardStrict, hc.linked.insertAllStrict_eq hn₁, ht.linked.insertAllStrict_eq hn₂,
    hu.linked.insertAllStrict_eq hn₁]
  rfl

/-- Nothing overflows and no index is out of bounds in a reset. -/
theorem Coherent.resetStrict_eq (hs : s.Coherent) (hg₁ : s.problem.first.WellFormed)
    (hg₂ : s.problem.second.WellFormed) : s.resetStrict = s.reset := by
  rw [resetStrict, Solver.reset, renewArena]
  by_cases hb : s.builtFor = s.config.arenaSettings
  · simp only [if_pos hb, hs.discardStrict_eq hg₁ hg₂]
  · rw [if_neg hb]
    cases hn : newArena s.problem with
    | ok a => simp only [(hs.setArena hn).discardStrict_eq hg₁ hg₂]
    | error f => rfl

/-- A run is the strict run as long as a word can count its solutions and slots. -/
theorem Coherent.runStrict_eq (hs : s.Coherent) (hg₁ : s.problem.first.WellFormed)
    (hg₂ : s.problem.second.WellFormed) (hfound : s.run.2.found < UInt64.size)
    (hslots : s.run.2.highWater < UInt64.size) : s.runStrict = s.run := by
  rcases hs.reset hg₁ hg₂ with ⟨s₁, a, hreset, hr⟩ | ⟨f, s₁, hreset, -⟩
  · have hsized : s₁.work.Sized s.problem.first.vertexCount 0 := by
      refine ⟨hr.shows.considered.linked, hr.shows.unpaired.linked, hr.shows.size_xs, ?_⟩
      rw [hr.shows.arena_eq]
      exact Nat.le_trans (Nat.le_of_eq hr.size_eq) (Nat.zero_le _)
    have hagrees := Problem.agrees_search (P := s.problem) hg₁.vertexCount_le hsized s₁.env
    obtain ⟨st, hst⟩ := s₁.ended_snd (s.problem.search (s₁.work, s₁.env))
    have hrun := hr.run_eq hreset
    rw [hrun, hst] at hfound hslots
    have hcountable : (endState (s.problem.search (s₁.work, s₁.env))).1.Countable :=
      ⟨Nat.le_sub_one_of_lt hfound, Nat.le_sub_one_of_lt hslots⟩
    rw [runStrict, hs.resetStrict_eq hg₁ hg₂, hreset, hrun, ← hagrees.eq hcountable,
      ← hr.problem_eq]
  · rw [runStrict, hs.resetStrict_eq hg₁ hg₂, hreset, run_of_error hreset]

/-! ## Outcomes -/

/-- A run answers with a fault only if its search failed with it. -/
theorem of_ended_eq_fault (s : Solver ν ε σ) {r : EStateM.Result Halt (Work × σ) Unit} {f : Fault}
    (h : (s.ended r).1 = .error (.fault f)) : ∃ st, r = .error (.failed (.fault f)) st := by
  match r with
  | .ok _ _ => cases h
  | .error .aborted _ => cases h
  | .error (.failed (.exhausted _)) _ => cases h
  | .error (.failed (.fault _)) st =>
    cases h
    exact ⟨st, rfl⟩

/-- If there can be an arena and the caller does not give up, no check of a run fails. -/
theorem Coherent.run_ne_fault (hs : s.Coherent) (hg₁ : s.problem.first.WellFormed)
    (hg₂ : s.problem.second.WellFormed) (ha : s.HasArena) {safe : σ → Prop}
    (hP : s.problem.NeverGivesUp safe) (henv : safe s.env) (f : Fault) :
    s.run.1 ≠ .error (.fault f) := by
  intro hf
  rcases hs.reset hg₁ hg₂ with ⟨s₁, a, hreset, hr⟩ | ⟨_, s₁, -, hnone, -⟩
  · obtain ⟨E, w', v', -, -, hE, hfollows⟩ :=
      Problem.exists_searched hg₁ hg₂ s.problem.within_proper hr.shows s₁.env
    rw [hr.run_eq hreset] at hf
    obtain ⟨st, hsearch⟩ := s₁.of_ended_eq_fault hf
    exact hP.ne_fault hfollows hE (hr.env_eq ▸ henv) hsearch
  · obtain ⟨a, hsome⟩ := ha
    cases hsome.symm.trans hnone

/-- Run from any reachable state, the search of well-formed graphs with a caller that never gives up
ends well or exhausts the arena, and no sum or place in it is out of range. -/
theorem Reachable.run_ok_or_exhausted (hs : s.Reachable) (hg₁ : s.problem.first.WellFormed)
    (hg₂ : s.problem.second.WellFormed) (ha : s.HasArena) {safe : σ → Prop}
    (hP : s.problem.NeverGivesUp safe) (henv : safe s.env) :
    (s.run.1 = .ok () ∨ ∃ e, s.run.1 = .error (.exhausted e)) ∧
      (s.run.2.found < UInt64.size → s.run.2.highWater < UInt64.size → s.runStrict = s.run) := by
  have hc := hs.coherent hg₁ hg₂
  refine ⟨?_, hc.runStrict_eq hg₁ hg₂⟩
  match hr : s.run.1 with
  | .ok _ => exact .inl rfl
  | .error (.exhausted e) => exact .inr ⟨e, rfl⟩
  | .error (.fault f) => exact absurd hr (hc.run_ne_fault hg₁ hg₂ ha hP henv f)

/-- Both outcomes occur where the looped graph is searched for in the longer one: with slots for all
rows, and with too few for the second. -/
theorem outcomes_looped_longer :
    (byStructure .looped .longer .exact).run.1 = .ok () ∧
      (byStructure .looped .longer .exact).runStrict =
        (byStructure .looped .longer .exact).run ∧
      (byStructure .looped .longer { Config.exact with arenaLimit := some 5 }).run.1 =
        .error (.exhausted ⟨4, 3, 5⟩) ∧
      (byStructure .looped .longer { Config.exact with arenaLimit := some 5 }).runStrict =
        (byStructure .looped .longer { Config.exact with arenaLimit := some 5 }).run := by
  have hrun (c : Config) (hm : c.arenaMultiplier = Config.defaultArenaMultiplier) :=
    (reachable_byStructure Graph.wellFormed_longer hm).run_ok_or_exhausted
      Graph.wellFormed_looped Graph.wellFormed_longer
      (hasArena_byStructure Graph.wellFormed_longer hm)
      ((continues_byStructure _ _ c).neverGivesUp (answers_byStructure _ _ c)) trivial
  refine ⟨?_, (hrun .exact rfl).2 ?_ ?_, ?_, (hrun _ rfl).2 ?_ ?_⟩ <;> decide +kernel

end Solver

end CommonSubgraph
