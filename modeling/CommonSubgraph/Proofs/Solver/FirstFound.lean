import CommonSubgraph.Preset
import CommonSubgraph.Proofs.Solver.Completeness
import CommonSubgraph.Proofs.Solver.Maximum
import CommonSubgraph.Proofs.Solver.Recorded

/-!
# Searches for the first solution

A processor that keeps the first solution stops the search with it. Up to there the search goes as
it would beside any other processor, so what is kept is the first solution that is delivered to that
one (`Solver.Coherent.solution_eq_head?`). Beside a processor that never stops, and with both bounds
on the size at one number, the deliveries are the partial isomorphisms of this size
(`Solver.Coherent.deliversOnce`); the preset is then exact (`findFirst_exact`).
-/

namespace CommonSubgraph

variable {ν ε σ τ : Type} {g₁ g₂ : Graph ν ε} {T : Tests} {c : Config}
variable {p : Predicate ν ε σ} {q : Processor ν ε τ}

/-! ## What the processors keep -/

namespace Collection

/-- What is collected after one more solution. -/
def add (kept : Collection) (s : Solution) : Collection :=
  { kept with solutions := kept.solutions.push s }

/-- A collection takes a solution by adding it. -/
theorem updates (g₁ g₂ : Graph ν ε) : processor.Updates g₁ g₂ add := by
  rintro xs ys ⟨solutions, limit⟩ h
  have hsides : Solution.ofSides xs ys = .ok ⟨xs, ys⟩ := if_pos h
  simp only [processor, hsides]
  cases limit <;> exact ⟨_, rfl⟩

/-- Solutions are collected in the order they come in. -/
theorem toList_foldl_add (l : List Solution) (kept : Collection) :
    (l.foldl add kept).solutions.toList = kept.solutions.toList ++ l := by
  induction l generalizing kept with
  | nil => exact (List.append_nil _).symm
  | cons s l ih =>
    rw [List.foldl_cons, ih, add, Array.toList_push, List.append_assoc]
    rfl

end Collection

/-- The first solution is kept, and ends the search. -/
theorem FirstFound.process_eq (g₁ g₂ : Graph ν ε) {xs ys : List VertexId} (kept : FirstFound)
    (h : xs.length = ys.length) :
    processor.process g₁ xs g₂ ys kept = .ok .abort ⟨some ⟨xs, ys⟩⟩ := by
  have hsides : Solution.ofSides xs ys = .ok ⟨xs, ys⟩ := if_pos h
  simp only [processor, hsides]
  rfl

/-- Sides of two lengths are a fault, and nothing is kept. -/
theorem FirstFound.process_eq_error (g₁ g₂ : Graph ν ε) {xs ys : List VertexId} (kept : FirstFound)
    (h : xs.length ≠ ys.length) :
    processor.process g₁ xs g₂ ys kept = .error .sidesDiffer kept := by
  have hsides : Solution.ofSides xs ys = .error .sidesDiffer := if_neg h
  simp only [processor, hsides]
  rfl

/-- A callback that fails on its own state fails beside another one. -/
theorem Callback.onSnd_of_error {α : Type} {m : Callback τ α} {t t' : τ} {f : Fault}
    (h : m t = .error f t') (s : σ) : m.onSnd (s, t) = .error f (s, t') := by
  simp only [onSnd, h]

/-- The state a processor is left in if its solutions are noted. -/
theorem Processor.endState_noting (q : Processor ν ε σ) (xs ys : List VertexId)
    (env : σ) (noted : List Solution) : endState (q.noting.process g₁ xs g₂ ys (env, noted)) =
      (endState (q.process g₁ xs g₂ ys env), noted ++ [⟨xs, ys⟩]) :=
  Callback.endState_onFst (q.process g₁ xs g₂ ys) (env, noted ++ [(⟨xs, ys⟩ : Solution)])

/-! ## Beside another processor -/

namespace Comparison

/-- Until something is delivered, the states of the one predicate agree. The second search stops
with the first delivery, and it keeps that if it has two sides of one length. -/
def untilDelivered (limit : Option Nat) :
    Comparison ((σ × τ) × List Solution) (σ × FirstFound) where
  limit₁ := limit
  limit₂ := limit
  inStep _ _ x y := x.1.1 = y.1 ∧ x.2 = [] ∧ y.2 = .empty
  rows _ := True
  before x x' := x.2 <+: x'.2
  stopped x halt _ y := ∃ s, [s] <+: x.2 ∧
    (s.xs.length = s.ys.length → halt = .aborted ∧ y.2 = ⟨some s⟩)
  before_refl x := List.prefix_refl x.2
  before_trans _ _ _ h h' := h.trans h'
  stopped_before := by
    rintro x x' halt - y hx ⟨s, hfirst, hs⟩
    exact ⟨s, hfirst.trans hx, hs⟩
  inStep_truncate _ _ _ _ _ h := h
  rows_new _ _ := trivial
  rows_start _ _ _ _ _ _ _ _ := trivial
  rows_grow _ _ _ _ _ _ := trivial
  inStep_push _ _ _ _ _ _ _ _ _ _ h := h

variable {α : Type} {limit : Option Nat}

/-- A callback of the other caller delivers nothing. -/
theorem before_onFst (m : Callback (σ × τ) α) (x : (σ × τ) × List Solution) :
    (untilDelivered limit).before x (endState (m.onFst x)) := by
  rw [Callback.endState_onFst]
  exact List.prefix_refl x.2

/-- A processor whose solutions are noted takes back none of them. -/
theorem before_noting (q : Processor ν ε (σ × τ)) (xs ys : List VertexId)
    (x : (σ × τ) × List Solution) :
    (untilDelivered limit).before x (endState (q.noting.process g₁ xs g₂ ys x)) := by
  obtain ⟨env, noted⟩ := x
  rw [Processor.endState_noting]
  exact List.prefix_append noted [⟨xs, ys⟩]

/-- A callback of the predicate leaves the searches in step. -/
theorem endAlike_untilDelivered (m : Callback σ α) {a : Arena VertexId} {found : Nat}
    {x : (σ × τ) × List Solution} {y : σ × FirstFound}
    (h : (untilDelivered limit).inStep a found x y) :
    EndAlike ((untilDelivered limit).inStep a found) (m.onFst.onFst x) (m.onFst y) := by
  obtain ⟨⟨s, t⟩, noted⟩ := x
  obtain ⟨_, kept⟩ := y
  obtain ⟨rfl, hnone, hempty⟩ := h
  simp only [Callback.onFst]
  cases m s with
  | ok a s' => exact .ok ⟨rfl, hnone, hempty⟩
  | error f s' => exact .error ⟨rfl, hnone, hempty⟩

/-- The first delivery stops the second search. -/
theorem heeded_untilDelivered (q : Processor ν ε (σ × τ)) (xs ys : List VertexId)
    {a : Arena VertexId} {found : Nat} {x : (σ × τ) × List Solution} {y : σ × FirstFound}
    (h : (untilDelivered limit).inStep a found x y) :
    Heeded ((untilDelivered limit).inStep a (found + 1))
      (fun halt => (untilDelivered limit).stopped
        (endState (q.noting.process g₁ xs g₂ ys x)) halt (found + 1))
      (q.noting.process g₁ xs g₂ ys x)
      (FirstFound.processor.onSnd.process g₁ xs g₂ ys y) := by
  obtain ⟨env, noted⟩ := x
  obtain ⟨s, kept⟩ := y
  obtain ⟨-, rfl, rfl⟩ := h
  have hfirst : [(⟨xs, ys⟩ : Solution)] <+:
      (endState (q.noting.process g₁ xs g₂ ys (env, []))).2 := by
    rw [Processor.endState_noting]
    exact List.prefix_refl _
  -- with sides of two lengths the processor faults, and nothing is kept
  by_cases hl : xs.length = ys.length
  · have hkept : FirstFound.processor.onSnd.process g₁ xs g₂ ys (s, .empty) =
        .ok .abort (s, ⟨some ⟨xs, ys⟩⟩) :=
      Callback.onSnd_of_ok (FirstFound.process_eq g₁ g₂ .empty hl) s
    rw [hkept]
    exact .abort ⟨⟨xs, ys⟩, hfirst, fun _ => ⟨rfl, rfl⟩⟩
  · have hfault : FirstFound.processor.onSnd.process g₁ xs g₂ ys (s, .empty) =
        .error .sidesDiffer (s, .empty) :=
      Callback.onSnd_of_error (FirstFound.process_eq_error g₁ g₂ .empty hl) s
    rw [hfault]
    exact .fault ⟨⟨xs, ys⟩, hfirst, fun h => absurd h hl⟩

end Comparison

namespace Problem

/-- A search, and one that keeps the first solution, are in step until something is delivered. -/
theorem callers_untilDelivered (g₁ g₂ : Graph ν ε) (p : Predicate ν ε σ) (q : Processor ν ε τ)
    (c : Config) (limit : Option Nat) :
    (Comparison.untilDelivered limit).Callers (noting ⟨g₁, g₂, p.onFst, q.onSnd, c⟩)
      (.plain p.onFst.onFst) p.onFst FirstFound.processor.onSnd (.plain p.onFst) where
  vertices n i j := .ask (Comparison.before_onFst _) fun a found x y h =>
    Comparison.endAlike_untilDelivered _ h
  edges n i₁ i₂ es₁ j₁ j₂ es₂ := .ask (Comparison.before_onFst _) fun a found x y h =>
    Comparison.endAlike_untilDelivered _ h
  enter n := by
    rintro ⟨level, active₁, enclosing₁, w₁⟩ ⟨_, active₂, enclosing₂, w₂⟩ rfl
    exact .heed (Comparison.before_onFst _) fun a found x y h =>
      .alike (Comparison.endAlike_untilDelivered _ h)
  deliver n limit := .deliver (fun xs ys => Comparison.before_noting _ xs ys)
    fun a found x y xs ys h => Comparison.heeded_untilDelivered _ xs ys h
  start n map i k _ := .startRow rfl trivial i k

/-- The search for the first solution ends as the other one does that delivers nothing, or it is
stopped by the first delivery of the other one. -/
theorem search_untilDelivered (g₁ g₂ : Graph ν ε) (p : Predicate ν ε σ) (q : Processor ν ε τ)
    (c : Config) (w : Work) (env : σ × τ) {P : Problem ν ε (σ × τ)}
    {P' : Problem ν ε (σ × FirstFound)} (hP : P = ⟨g₁, g₂, p.onFst, q.onSnd, c⟩)
    (hP' : P' = ⟨g₁, g₂, p.onFst, FirstFound.processor.onSnd, c⟩) :
    (∃ r : EStateM.Result Halt (Work × (((σ × τ) × List Solution) × (σ × FirstFound))) Unit,
      P.noting.search (w, (env, [])) = seen (beside Prod.fst) r ∧
      P'.search (w, (env.1, .empty)) = seen (beside Prod.snd) r ∧
      (endState r).2.1.2 = [] ∧ (endState r).2.2.2 = .empty) ∨
    ∃ halt w' env' s, P'.search (w, (env.1, .empty)) = .error halt (w', env') ∧
      [s] <+: (endState (P.noting.search (w, (env, [])))).2.2 ∧
      (s.xs.length = s.ys.length → halt = .aborted ∧ env'.2 = ⟨some s⟩) := by
  subst hP hP'
  have htracks := (callers_untilDelivered g₁ g₂ p q c w.arena.limit).searchBy 0 c.arenaLimit
  rw [← searchBy_plain, ← searchBy_plain]
  rcases htracks.exists_seen rfl rfl (x := (env, [])) (y := (env.1, .empty))
    ⟨Nat.zero_le _, rfl, rfl, rfl⟩ with ⟨r, hr₁, hr₂, hm⟩ | ⟨halt, w', y, hr₂, s, hfirst, hs⟩
  · exact .inl ⟨r, hr₁, hr₂, hm.inStep.2⟩
  · exact .inr ⟨halt, w', y, s, hr₂, hfirst, hs⟩

end Problem

/-! ## Runs -/

namespace Solver

/-- Every solution delivered has two sides of one length. -/
theorem Coherent.length_eq_of_mem {s : Solver ν ε σ} (hs : s.Coherent)
    (hg₁ : s.problem.first.WellFormed) (hg₂ : s.problem.second.WellFormed) {sol : Solution}
    (hsol : sol ∈ s.deliveries) : sol.xs.length = sol.ys.length := by
  rcases hs.deliveries_of_script hg₁ hg₂ s.problem.within_proper with
    ⟨hnil, -⟩ | ⟨a, E, v', E₁, -, hE, hfirst, hdel, -⟩
  · rw [hnil] at hsol
    exact absurd hsol List.not_mem_nil
  · rw [hdel] at hsol
    obtain ⟨⟨v, act⟩, hst, hact⟩ := List.mem_filterMap.mp hsol
    have hproper := hE _ (hfirst.subset hst)
    cases act with
    | solution xs ys =>
      cases hact
      exact hproper
    | vertices | edges | progress | reserve => cases hact

section

variable {s : Solver ν ε (σ × τ)} {s' : Solver ν ε (σ × FirstFound)}

/-- A run for the first solution keeps the first delivery of a run with any other processor. It ends
as that one does unless it keeps something. -/
theorem Coherent.solution_eq_head? (hs : s.Coherent) (hs' : s'.Coherent)
    (hp : s.problem = ⟨g₁, g₂, p.onFst, q.onSnd, c⟩)
    (hp' : s'.problem = ⟨g₁, g₂, p.onFst, FirstFound.processor.onSnd, c⟩)
    (hg₁ : g₁.WellFormed) (hg₂ : g₂.WellFormed) (ha : s.HasArena)
    (henv : s'.env = (s.env.1, .empty)) :
    s'.run.2.env.2.solution = s.deliveries.head? ∧
      (s'.run.1 = .ok () ∨ s'.run.1 = s.run.1) := by
  have ha' : s'.HasArena := by
    rw [HasArena, hp] at ha
    rw [HasArena, hp']
    exact ha
  obtain ⟨env, hrun, -⟩ := s.run_noting
  -- both searches begin in one working state
  have hwork : (begun s'.problem s'.env).work = (begun s.noting.problem s.noting.env).work := by
    show _ = (begun s.problem.noting s.noting.env).work
    rw [hp, hp']
    rfl
  have hnoting : s.noting.run = (begun s.noting.problem s.noting.env).ended
      (s.problem.noting.search ((begun s'.problem s'.env).work, (s.env, []))) := by
    rw [run_of_ready (hs.noting.reset_eq ha), hwork]
    rfl
  have hfirst : s'.run = (begun s'.problem s'.env).ended
      (s'.problem.search ((begun s'.problem s'.env).work, (s.env.1, .empty))) := by
    rw [run_of_ready (hs'.reset_eq ha'), ← henv]
    rfl
  obtain ⟨st, hst⟩ := (begun s.noting.problem s.noting.env).ended_snd
    (s.problem.noting.search ((begun s'.problem s'.env).work, (s.env, [])))
  have hdel : s.deliveries = (endState (s.problem.noting.search
      ((begun s'.problem s'.env).work, (s.env, [])))).2.2 := by
    rw [deliveries, hnoting, hst]
  have hresult : s.noting.run.1 = s.run.1 := by rw [hrun]
  rcases Problem.search_untilDelivered g₁ g₂ p q c (begun s'.problem s'.env).work s.env hp hp' with
    ⟨r, hr, hr', hnone, hempty⟩ | ⟨halt, w', env', sol, hr', hprefix, hsol⟩
  · obtain ⟨st', hst'⟩ := (begun s'.problem s'.env).ended_snd (seen (beside Prod.snd) r)
    rw [hr, endState_seen] at hdel
    rw [hr'] at hfirst
    refine ⟨?_, .inr ?_⟩
    · rw [hdel, hfirst, hst', endState_seen]
      show (endState r).2.2.2.solution = (endState r).2.1.2.head?
      rw [hnone, hempty]
      rfl
    · rw [← hresult, hnoting, hfirst, hr]
      exact (ended_seen _ _ _ _ r).1
  · rw [← hdel] at hprefix
    obtain ⟨later, hlater⟩ := hprefix
    have hmem : sol ∈ s.deliveries := by simp [← hlater]
    obtain ⟨rfl, hkept⟩ := hsol (hs.length_eq_of_mem (hp ▸ hg₁) (hp ▸ hg₂) hmem)
    rw [hr'] at hfirst
    rw [hfirst, ← hlater]
    exact ⟨congrArg FirstFound.solution hkept, .inl rfl⟩

end

/-- What is delivered first does not depend on the processor. -/
theorem Coherent.head?_deliveries_eq {τ' : Type} {q' : Processor ν ε τ'}
    {s : Solver ν ε (σ × τ)} {s' : Solver ν ε (σ × τ')} (hs : s.Coherent) (hs' : s'.Coherent)
    (hp : s.problem = ⟨g₁, g₂, p.onFst, q.onSnd, c⟩)
    (hp' : s'.problem = ⟨g₁, g₂, p.onFst, q'.onSnd, c⟩)
    (hg₁ : g₁.WellFormed) (hg₂ : g₂.WellFormed) (ha : s.HasArena) (henv : s'.env.1 = s.env.1) :
    s'.deliveries.head? = s.deliveries.head? := by
  have hfirst : (s.recast p.onFst FirstFound.processor.onSnd (s.env.1, .empty)).Coherent :=
    ⟨hs.considered, hs.targets, hs.unpaired, hs.limit_eq⟩
  have hproblem : s.problem.recast p.onFst FirstFound.processor.onSnd =
      ⟨g₁, g₂, p.onFst, FirstFound.processor.onSnd, c⟩ := by
    rw [hp]
    rfl
  have ha' : s'.HasArena := by
    rw [HasArena, hp] at ha
    rw [HasArena, hp']
    exact ha
  rw [← (hs.solution_eq_head? hfirst hp hproblem hg₁ hg₂ ha rfl).1,
    ← (hs'.solution_eq_head? hfirst hp' hproblem hg₁ hg₂ ha' (by rw [henv]; rfl)).1]

/-- A processor that has collected nothing yet collects what is delivered. -/
theorem Coherent.collected {s : Solver ν ε (σ × Collection)} (hs : s.Coherent)
    (hp : s.problem = ⟨g₁, g₂, p.onFst, Collection.processor.onSnd, c⟩) (hg₁ : g₁.WellFormed)
    (hg₂ : g₂.WellFormed) {limit : Option Nat} (hempty : s.env.2 = .empty limit) :
    s.run.2.env.2.solutions.toList = s.deliveries := by
  rw [hs.gathered hp hg₁ hg₂ (Collection.updates g₁ g₂), Collection.toList_foldl_add, hempty]
  rfl

end Solver

/-! ## The preset -/

/-- With both bounds on the size at one number, a run beside a processor that never stops delivers
the partial isomorphisms of this size. -/
theorem Solver.Coherent.deliversOnce_fixedSize {s : Solver ν ε (σ × Largest)} {size : Nat}
    (hs : s.Coherent)
    (hp : s.problem = ⟨g₁, g₂, p.onFst, Largest.processor.onSnd, .fixedSize size⟩)
    (hg₁ : g₁.WellFormed) (hg₂ : g₂.WellFormed) (hT : p.Answers g₁ g₂ T)
    (hsym : T.Symmetric g₁ g₂)
    (hprogress : ∀ level env, ∃ env', p.progress level env = .ok .proceed env') (ha : s.HasArena) :
    s.DeliversOnce fun F => IsPartialIsoSet g₁ g₂ T F ∧ F.card = size := by
  have hconfig : s.config = .fixedSize size := congrArg Problem.config hp
  have honce := hs.deliversOnce (T := T) (hp ▸ hg₁) (hp ▸ hg₂) (hp ▸ hT.onFst)
    (hp ▸ Largest.continues hprogress g₁ g₂ _) (by rw [hconfig]; rfl) ha (hp ▸ hsym)
    fun _ => by rw [hconfig]; rfl
  refine honce.congr fun F => ?_
  rw [hp, hconfig]
  refine and_congr_right fun _ => (Config.accepts_iff_of_common rfl).trans ?_
  show size ≤ F.card ∧ F.card ≤ size ↔ F.card = size
  omega

/-- What is delivered first, if anything, is of the one size that is wanted. -/
theorem Solver.DeliversOnce.first {s : Solver ν ε σ} {size : Nat}
    {wanted : Finset (VertexId × VertexId) → Prop}
    (h : s.DeliversOnce fun F => wanted F ∧ F.card = size) :
    (∃ sol, s.deliveries.head? = some sol ∧ sol.xs.length = size ∧ sol.ys.length = size ∧
      wanted sol.pairSet ∧ sol.pairSet.card = size) ∨
    s.deliveries.head? = none ∧ ¬ ∃ F, wanted F ∧ F.card = size := by
  cases hdel : s.deliveries with
  | nil =>
    refine .inr ⟨rfl, ?_⟩
    rintro ⟨F, hF⟩
    have hmem := (h.mem_iff F).mpr hF
    rw [hdel] at hmem
    exact absurd hmem List.not_mem_nil
  | cons sol rest =>
    have hmem : sol ∈ s.deliveries := hdel ▸ List.mem_cons_self
    have hwanted := (h.mem_iff sol.pairSet).mp (List.mem_map_of_mem hmem)
    have hxs : sol.xs.length = size := (h.card_eq sol hmem).symm.trans hwanted.2
    exact .inl ⟨sol, rfl, hxs, (h.length_eq sol hmem).symm.trans hxs, hwanted⟩

/-- The preset answers what would be delivered first in a run with another processor that does not
fail. -/
theorem findFirst_eq_head? {s : Solver ν ε (σ × τ)} {size : Nat} (hs : s.Coherent)
    (hp : s.problem = ⟨g₁, g₂, p.onFst, q.onSnd, .fixedSize size⟩) (hg₁ : g₁.WellFormed)
    (hg₂ : g₂.WellFormed) (ha : s.HasArena) (hok : s.run.1 = .ok ()) :
    ∃ env', findFirst g₁ g₂ size p s.env.1 = .ok (s.deliveries.head?.getD .empty) env' := by
  have hnew := Solver.newArena_eq (P := ⟨g₁, g₂, p.onFst, FirstFound.processor.onSnd,
    .fixedSize size⟩) hg₂ rfl
  obtain ⟨hkept, hend⟩ := hs.solution_eq_head?
    (Solver.coherent_ofArena hnew (s.env.1, .empty)) hp rfl hg₁ hg₂ ha rfl
  have hrun := Problem.runWith_eq (Problem.runOnce_eq (Solver.new_of_newArena hnew _)
    (hend.elim id fun h => h.trans hok))
  rw [← hkept, findFirst]
  show ∃ env', EStateM.map _ _ s.env.1 = _
  rw [EStateM.map, hrun]
  exact ⟨_, rfl⟩

/-- The search for the first common subgraph of a size never fails. If there is a partial
isomorphism of this size, it answers one, the first that is delivered to a processor that collects
them; otherwise it answers the empty solution. -/
theorem findFirst_exact (hg₁ : g₁.WellFormed) (hg₂ : g₂.WellFormed) (hT : p.Answers g₁ g₂ T)
    (hsym : T.Symmetric g₁ g₂)
    (hprogress : ∀ level env, ∃ env', p.progress level env = .ok .proceed env') {size : Nat}
    (hsize : 1 ≤ size) (env : σ) :
    ∃ sol env', findFirst g₁ g₂ size p env = .ok sol env' ∧
      ((∃ F, IsPartialIsoSet g₁ g₂ T F ∧ F.card = size) →
        sol.xs.length = size ∧ sol.ys.length = size ∧
        (IsPartialIsoSet g₁ g₂ T sol.pairSet ∧ sol.pairSet.card = size) ∧
        ∀ (s : Solver ν ε (σ × Collection)) (limit : Option Nat), s.Reachable →
          s.problem = ⟨g₁, g₂, p.onFst, Collection.processor.onSnd, .fixedSize size⟩ →
          s.env = (env, .empty limit) → s.deliveries.head? = some sol ∧
            s.run.2.env.2.solutions.toList = s.deliveries) ∧
      (sol = .empty ↔ ¬ ∃ F, IsPartialIsoSet g₁ g₂ T F ∧ F.card = size) := by
  -- a processor that never stops shows all that is delivered; this one keeps the largest
  have ha := Solver.newArena_eq (P := ⟨g₁, g₂, p.onFst, Largest.processor.onSnd,
    .fixedSize size⟩) hg₂ rfl
  obtain ⟨s₀, hs₀, hp₀, rfl, ha₀⟩ : ∃ s₀ : Solver ν ε (σ × Largest), s₀.Coherent ∧
      s₀.problem = ⟨g₁, g₂, p.onFst, Largest.processor.onSnd, .fixedSize size⟩ ∧
      s₀.env.1 = env ∧ s₀.HasArena :=
    ⟨_, Solver.coherent_ofArena ha (env, .empty), rfl, rfl, _, ha⟩
  have honce := hs₀.deliversOnce_fixedSize hp₀ hg₁ hg₂ hT hsym hprogress ha₀
  obtain ⟨env', hfound⟩ := findFirst_eq_head? hs₀ hp₀ hg₁ hg₂ ha₀ honce.run_eq
  rcases honce.first with ⟨sol, hhead, hxs, hys, hiso⟩ | ⟨hhead, hnone⟩
  · rw [hhead] at hfound
    refine ⟨sol, env', hfound, fun _ => ⟨hxs, hys, hiso, fun s limit hs hp henv => ?_⟩, ?_⟩
    · have hcoherent := hs.coherent (hp ▸ hg₁) (hp ▸ hg₂)
      refine ⟨?_, hcoherent.collected hp hg₁ hg₂ (congrArg Prod.snd henv)⟩
      rw [← hhead]
      exact hs₀.head?_deliveries_eq hcoherent hp₀ hp hg₁ hg₂ ha₀ (congrArg Prod.fst henv)
    · constructor
      · intro hempty
        have hzero : sol.xs.length = 0 := congrArg Solution.size hempty
        omega
      · exact fun h => absurd ⟨sol.pairSet, hiso⟩ h
  · rw [hhead] at hfound
    exact ⟨.empty, env', hfound, fun hF => absurd hF hnone, fun _ => hnone, fun _ => rfl⟩

/-- Of two vertices there is a common subgraph of the looped graph and the longer one; of five there
is none. -/
theorem findFirst_exact_looped_longer :
    (∃ sol env, findFirst .looped .longer 2 Predicate.structural () = .ok sol env ∧
      sol.xs.length = 2 ∧ sol.ys.length = 2 ∧
      IsPartialIsoSet .looped .longer .structural sol.pairSet) ∧
    ∃ env, findFirst .looped .longer 5 Predicate.structural () = .ok .empty env := by
  have hexact (size : Nat) (hsize : 1 ≤ size) := findFirst_exact
    (p := (Predicate.structural : Predicate Unit Unit Unit)) Graph.wellFormed_looped
    Graph.wellFormed_longer (Predicate.answers_structural _ _) (Tests.symmetric_structural _ _)
    (fun _ env => ⟨env, rfl⟩) hsize ()
  constructor
  · obtain ⟨sol, env, hfound, hsome, -⟩ := hexact 2 (by decide)
    obtain ⟨hxs, hys, hiso, -⟩ := hsome ⟨{(.ofNat 2, .ofNat 3), (.ofNat 1, .ofNat 2)}, by decide⟩
    exact ⟨sol, env, hfound, hxs, hys, hiso.1⟩
  · obtain ⟨sol, env, hfound, -, hempty⟩ := hexact 5 (by decide)
    have hnone : ¬ ∃ F, IsPartialIsoSet .looped .longer .structural F ∧ F.card = 5 := by
      rintro ⟨F, hF, hcard⟩
      have hle : F.card ≤ 4 := hF.card_le_second Graph.wellFormed_longer
      omega
    obtain rfl := hempty.mpr hnone
    exact ⟨env, hfound⟩

end CommonSubgraph
