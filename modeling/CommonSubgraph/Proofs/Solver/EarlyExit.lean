import CommonSubgraph.Processor
import CommonSubgraph.Proofs.Solver.Gathering
import CommonSubgraph.Proofs.Solver.Recorded

/-!
# Runs that are stopped

A caller whose questions are answered by pure functions can still stop a run where it is told of a
level or given a solution. With such a caller a run makes the calls of the patient run, in which
nobody stops anything (`Solver.patient`), up to the first one that does not let it go on, and no
other (`Solver.hooks_of_stop`). By then it has counted the solutions among these calls.
-/

namespace CommonSubgraph

variable {ν ε σ : Type}

/-- Whether vertices and edges of the two graphs may correspond depends on nothing but the question,
and asking has no effect. A question may be one that the caller gives up on. -/
structure Predicate.Pure (p : Predicate ν ε σ) (g₁ g₂ : Graph ν ε) : Prop where
  vertices : ∀ i j, ∃ r : Except Fault Bool, p.vertices g₁ i g₂ j = Callback.ofExcept r
  edges : ∀ i₁ i₂ es₁ j₁ j₂ es₂, ∃ r : Except Fault Bool,
    p.edges g₁ i₁ i₂ es₁ g₂ j₁ j₂ es₂ = Callback.ofExcept r

namespace Problem

variable (P : Problem ν ε σ)

/-- What the caller makes of an event, as far as it could end the search there. -/
def answer : Event → Callback σ Action
  | .progress level => P.predicate.progress level
  | .solution xs ys => P.processor.process P.first xs P.second ys
  | _ => pure .proceed

/-- From the first state, the caller goes on at every event in turn, and is then in the second. -/
def Proceeds : List Event → σ → σ → Prop
  | [], env, env' => env' = env
  | e :: events, env, env' => ∃ env₁, P.answer e env = .ok .proceed env₁ ∧ Proceeds events env₁ env'

/-- The problem with a caller that never stops a search. -/
def patient : Problem ν ε σ :=
  P.recast { P.predicate with progress := fun _ => pure .proceed }
    ⟨fun _ _ _ _ => pure .proceed⟩

variable {P} {e c c' : Event} {events before before' after : List Event} {env env₁ env' : σ}

/-! ## Going on -/

/-- An event that asks the caller nothing is answered with going on. -/
theorem answer_of_not_isHook (h : e.isHook = false) (env : σ) :
    P.answer e env = .ok .proceed env := by
  cases e with
  | progress level => cases h
  | solution xs ys => cases h
  | vertices | edges | reservation => rfl

/-- A caller goes on with two lists of events in turn if it goes on with the one, and from there
with the other. -/
theorem proceeds_append {events' : List Event} : P.Proceeds (events ++ events') env env' ↔
    ∃ env₁, P.Proceeds events env env₁ ∧ P.Proceeds events' env₁ env' := by
  induction events generalizing env with
  | nil =>
    constructor
    · exact fun h => ⟨env, rfl, h⟩
    · rintro ⟨_, rfl, h⟩
      exact h
  | cons e events ih =>
    constructor
    · rintro ⟨env₂, he, h⟩
      obtain ⟨env₁, h, h'⟩ := ih.mp h
      exact ⟨env₁, ⟨env₂, he, h⟩, h'⟩
    · rintro ⟨env₁, ⟨env₂, he, h⟩, h'⟩
      exact ⟨env₂, he, ih.mpr ⟨env₁, h, h'⟩⟩

/-- Events leave a caller that goes on with them in one state. -/
theorem Proceeds.unique (h : P.Proceeds events env env₁) (h' : P.Proceeds events env env') :
    env₁ = env' := by
  induction events generalizing env with
  | nil => exact Eq.trans h h'.symm
  | cons e events ih =>
    obtain ⟨env₂, he, h⟩ := h
    obtain ⟨env₃, he', h'⟩ := h'
    cases he.symm.trans he'
    exact ih h h'

/-- Events that cannot stop a search do not matter. -/
theorem proceeds_hooks_iff :
    P.Proceeds (events.filter Event.isHook) env env' ↔ P.Proceeds events env env' := by
  induction events generalizing env with
  | nil => exact Iff.rfl
  | cons d events ih =>
    cases hd : d.isHook with
    | true =>
      rw [List.filter_cons_of_pos hd]
      exact exists_congr fun env₁ => and_congr_right fun _ => ih
    | false =>
      rw [List.filter_cons_of_neg (by simp [hd]), ih]
      constructor
      · exact fun h => ⟨env, answer_of_not_isHook hd env, h⟩
      · rintro ⟨env₁, h₁, h⟩
        cases (answer_of_not_isHook hd env).symm.trans h₁
        exact h

/-- A caller that goes on at all of some events does not stop within them. -/
theorem Proceeds.not_prefix (h : P.Proceeds events env env₁)
    (hbefore : P.Proceeds before env env') (hc : ∀ env₂, P.answer c env' ≠ .ok .proceed env₂) :
    ¬ before ++ [c] <+: events := by
  rintro ⟨after, rfl⟩
  obtain ⟨env₂, h, -⟩ := proceeds_append.mp h
  obtain ⟨env₃, h, env₄, hc', -⟩ := proceeds_append.mp h
  exact hc env₄ (h.unique hbefore ▸ hc')

/-- There is one first event at which a caller does not go on. -/
theorem Proceeds.eq_of_prefix (hbefore : P.Proceeds before env env₁)
    (hc : ∀ env₂, P.answer c env₁ ≠ .ok .proceed env₂) (hbefore' : P.Proceeds before' env env')
    (hc' : ∀ env₂, P.answer c' env' ≠ .ok .proceed env₂)
    (h : before' ++ [c'] <+: before ++ c :: after) : before' ++ [c'] = before ++ [c] := by
  rcases List.prefix_or_prefix_of_prefix h (concat_prefix_append_cons before c after)
    with h | h
  · rcases List.prefix_concat_iff.mp h with h | h
    · exact h
    · exact absurd h (hbefore.not_prefix hbefore' hc')
  · rcases List.prefix_concat_iff.mp h with h | h
    · exact h.symm
    · exact absurd h (hbefore'.not_prefix hbefore hc)

/-! ## Beside a patient caller -/

/-- The caller ends the search at the event, which leaves it in the second state. -/
def StopsAt (P : Problem ν ε σ) (e : Event) (env : σ) (halt : Halt) (env' : σ) : Prop :=
  halt = .aborted ∧ P.answer e env = .ok .abort env' ∨
    ∃ f, halt = .failed (.fault f) ∧ P.answer e env = .error f env'

/-- A caller does not go on with an event it stops at. -/
theorem StopsAt.ne_proceed {halt : Halt} (h : P.StopsAt e env halt env') :
    ∀ env₁, P.answer e env ≠ .ok .proceed env₁ := by
  intro env₁ he
  rcases h with ⟨-, h⟩ | ⟨f, -, h⟩
  · cases he.symm.trans h
  · cases he.symm.trans h

/-- From the first state, the caller goes on at all events but the last, at which it ends the search
in the second state. -/
def StopsAfter (P : Problem ν ε σ) (env : σ) (halt : Halt) (events : List Event) (env' : σ) :
    Prop :=
  ∃ before c env₁, events = before ++ [c] ∧ P.Proceeds before env env₁ ∧
    P.StopsAt c env₁ halt env'

/-- Only hooks stop a search. -/
theorem StopsAfter.hooks {halt : Halt} (h : P.StopsAfter env halt events env') :
    P.StopsAfter env halt (events.filter Event.isHook) env' := by
  obtain ⟨before, c, env₁, rfl, hbefore, hc⟩ := h
  have hhook : c.isHook = true := by
    by_contra hn
    exact hc.ne_proceed env₁ (answer_of_not_isHook (Bool.eq_false_iff.mpr hn) env₁)
  refine ⟨before.filter Event.isHook, c, env₁, ?_, proceeds_hooks_iff.mpr hbefore, hc⟩
  rw [List.filter_append, List.filter_cons_of_pos hhook]
  rfl

/-- At every event the caller goes on or stops. -/
theorem heeded_answer {α : Type} {found : Nat} {x : α} (e : Event)
    (hfound : found = (events ++ [e]).countP Event.isSolution) (h : P.Proceeds events env env₁) :
    Heeded (fun _ y => found = (events ++ [e]).countP Event.isSolution ∧
        P.Proceeds (events ++ [e]) env y)
      (fun halt y => found = (events ++ [e]).countP Event.isSolution ∧
        P.StopsAfter env halt (events ++ [e]) y)
      (.ok .proceed x) (P.answer e env₁) := by
  cases he : P.answer e env₁ with
  | ok action env₂ =>
    cases action with
    | proceed =>
      exact .alike (.ok ⟨hfound, proceeds_append.mpr ⟨env₁, h, env₂, he, rfl⟩⟩)
    | abort => exact .abort ⟨hfound, events, e, env₁, rfl, h, .inl ⟨rfl, he⟩⟩
  | error f env₂ => exact .fault ⟨hfound, events, e, env₁, rfl, h, .inr ⟨f, rfl, he⟩⟩

/-- A question with a pure answer is as good as none. -/
theorem endAlike_pure {R : σ → σ → Prop} {α : Type} {m : Callback σ α}
    (hm : ∃ r : Except Fault α, m = Callback.ofExcept r) {x y : σ} (h : R x y) :
    EndAlike R (m x) (m y) := by
  obtain ⟨r, rfl⟩ := hm
  cases r with
  | ok a => exact .ok h
  | error f => exact .error h

/-- Beside a patient caller, one with pure answers goes on until it stops. -/
theorem goOn_patient (hpure : P.predicate.Pure P.first P.second) (env : σ) :
    Comparison.GoOn
      (fun found events _ y => found = events.countP Event.isSolution ∧ P.Proceeds events env y)
      (fun halt found events y => found = events.countP Event.isSolution ∧
        P.StopsAfter env halt events y)
      P.patient P.predicate P.processor where
  vertices found events x y i j h := by
    refine endAlike_pure (hpure.vertices i j) ⟨?_, ?_⟩
    · rw [h.1, List.countP_append]
      rfl
    · exact proceeds_append.mpr ⟨y, h.2, y, rfl, rfl⟩
  edges found events x y i₁ i₂ es₁ j₁ j₂ es₂ h := by
    refine endAlike_pure (hpure.edges i₁ i₂ es₁ j₁ j₂ es₂) ⟨?_, ?_⟩
    · rw [h.1, List.countP_append]
      rfl
    · exact proceeds_append.mpr ⟨y, h.2, y, rfl, rfl⟩
  progress found events x y level h := by
    refine heeded_answer (.progress level) ?_ h.2
    rw [h.1, List.countP_append]
    rfl
  solution found events x y xs ys h := by
    refine heeded_answer (.solution xs ys) ?_ h.2
    rw [h.1, List.countP_append]
    rfl

/-- Beside the search with a patient caller, a recorded search has the same events, or the first of
them up to one at which its caller stops it. -/
theorem recorded_beside_patient (hpure : P.predicate.Pure P.first P.second) (w : Work)
    (hfound : w.found = 0) (env : σ) :
    ((endState (P.recorded (w, (env, [])))).2.2 =
        (endState (P.patient.recorded (w, (env, [])))).2.2 ∧
      ∃ env', P.Proceeds (endState (P.recorded (w, (env, [])))).2.2 env env') ∨
    ∃ halt w' env' events, P.recorded (w, (env, [])) = .error halt (w', (env', events)) ∧
      events <+: (endState (P.patient.recorded (w, (env, [])))).2.2 ∧
      w'.found = events.countP Event.isSolution ∧ P.StopsAfter env halt events env' := by
  have hcallers := (goOn_patient hpure env).callers w.arena.limit w.arena.limit
    fun _ map i k =>
      Comparison.tracks_start rfl (fun found events x y inUse requested h => by
        refine ⟨?_, proceeds_append.mpr ⟨y, h.2, y, rfl, rfl⟩⟩
        rw [h.1, List.countP_append]
        rfl) map i k
  have htracks := hcallers.searchBy 0 P.config.arenaLimit
  rcases htracks.exists_seen rfl rfl (x := (env, [])) (y := (env, []))
    ⟨Nat.zero_le _, rfl, hfound, rfl⟩ with ⟨r, hr₁, hr₂, hm⟩ | ⟨halt, w', y, hr₂, hprefix, hs⟩
  · have hpatient : P.patient.recorded (w, (env, [])) = seen (beside Prod.fst) r := hr₁
    have hown : P.recorded (w, (env, [])) = seen (beside Prod.snd) r := hr₂
    obtain ⟨heq, -, hgo⟩ := hm.inStep
    rw [hpatient, hown, Solver.endState_seen, Solver.endState_seen]
    exact .inl ⟨heq.symm, _, heq ▸ hgo⟩
  · exact .inr ⟨halt, w', y.1, y.2, hr₂, hprefix, hs⟩

end Problem

namespace Solver

variable {s : Solver ν ε σ}

/-- The solver with a caller that never stops a run. -/
def patient (s : Solver ν ε σ) : Solver ν ε σ :=
  s.recast s.problem.patient.predicate s.problem.patient.processor s.env

/-- Without a stop the calls are those of the patient run; otherwise they are the first of these,
and the last of them ends the search. -/
theorem hooks_cases (s : Solver ν ε σ)
    (hpure : s.problem.predicate.Pure s.problem.first s.problem.second) :
    (s.hooks = s.patient.hooks ∧ ∃ env', s.problem.Proceeds s.hooks s.env env') ∨
    ∃ halt env', s.hooks <+: s.patient.hooks ∧ s.problem.StopsAfter s.env halt s.hooks env' ∧
      ∃ s₁ w, s.run = ended s₁ (.error halt (w, env')) ∧
        w.found = s.hooks.countP Event.isSolution := by
  -- both runs start with the same reset; if it fails there is no call in either
  have hreset := s.reset_recast s.problem.patient.predicate s.problem.patient.processor s.env
  obtain ⟨hp, henv⟩ := s.reset_keeps
  cases hr : s.reset with
  | mk r s₁ =>
    rw [hr] at hreset hp henv
    cases r with
    | error f =>
      have hown : s.hooks = [] := congrArg (List.filter _) (events_of_error hr)
      have hpatient : s.patient.hooks = [] := congrArg (List.filter _) (events_of_error hreset)
      rw [hown, hpatient]
      exact .inl ⟨rfl, s.env, rfl⟩
    | ok u =>
      have hp : s₁.problem = s.problem := hp
      have henv : s₁.env = s.env := henv
      have hrecorded : s₁.recorded = s.problem.recorded (s₁.work, (s.env, [])) := by
        rw [recorded, hp, henv]
      have hown : s.events = (endState (s.problem.recorded (s₁.work, (s.env, [])))).2.2 := by
        rw [events_of_ready hr, hrecorded]
      have hpatient : s.patient.events =
          (endState (s.problem.patient.recorded (s₁.work, (s.env, [])))).2.2 := by
        rw [patient, events_of_ready hreset, recorded, recast, hp]
        rfl
      rcases Problem.recorded_beside_patient hpure s₁.work (found_of_reset hr) s.env with
        ⟨heq, env', hgo⟩ | ⟨halt, w, env', events, heq, hprefix, hcount, hstop⟩
      · rw [← hown] at heq hgo
        rw [← hpatient] at heq
        exact .inl ⟨congrArg (List.filter _) heq, env', Problem.proceeds_hooks_iff.mpr hgo⟩
      · rw [← hpatient] at hprefix
        have hevents : s.events = events := by rw [hown, heq]; rfl
        subst hevents
        refine .inr ⟨halt, env', hprefix.filter _, hstop.hooks, s₁, w, ?_, ?_⟩
        · rw [run_eq_ended hr, hrecorded, heq]
          rfl
        · rw [hcount, hooks, Event.countP_filter_of_imp Event.isHook_of_isSolution]

/-- With pure answers, let the patient run make the calls `before ++ c :: after`. If the caller goes
on at all of `before` and stops at `c`, the run makes the calls `before ++ [c]` and ends there; if
it never stops, the run makes all the calls. -/
theorem hooks_of_stop (s : Solver ν ε σ)
    (hpure : s.problem.predicate.Pure s.problem.first s.problem.second) :
    (∀ env', s.problem.Proceeds s.patient.hooks s.env env' → s.hooks = s.patient.hooks) ∧
    ∀ before c after env₁, s.patient.hooks = before ++ c :: after →
      s.problem.Proceeds before s.env env₁ →
      (∀ env₂, s.problem.answer c env₁ = .ok .abort env₂ →
        s.hooks = before ++ [c] ∧ s.run.1 = .ok () ∧ s.run.2.status = .aborted ∧
          s.run.2.found = (before ++ [c]).countP Event.isSolution) ∧
      ∀ f env₂, s.problem.answer c env₁ = .error f env₂ →
        s.hooks = before ++ [c] ∧ s.run.1 = .error (.fault f) ∧ s.run.2.status = .searching := by
  have hcases := s.hooks_cases hpure
  refine ⟨fun env' hgo => ?_, fun before c after env₁ hT hbefore => ?_⟩
  · rcases hcases with ⟨heq, -⟩ | ⟨halt, env₂, hprefix, ⟨before, c, env₁, heq, hbefore, hc⟩, -⟩
    · exact heq
    · exact absurd (heq ▸ hprefix) (hgo.not_prefix hbefore hc.ne_proceed)
  -- a caller that does not go on at `c` stops the run there, whatever it does
  have hstop (hc : ∀ env₂, s.problem.answer c env₁ ≠ .ok .proceed env₂) :
      ∃ halt env₂ s₁ w, s.hooks = before ++ [c] ∧ s.problem.StopsAt c env₁ halt env₂ ∧
        s.run = ended s₁ (.error halt (w, env₂)) ∧
        w.found = (before ++ [c]).countP Event.isSolution := by
    rcases hcases with ⟨heq, env', hgo⟩ |
      ⟨halt, env₂, hprefix, ⟨before', c', env', heq, hbefore', hc'⟩, s₁, w, hrun, hfound⟩
    · have hfirst : before ++ [c] <+: s.hooks := by
        rw [heq, hT]
        exact concat_prefix_append_cons before c after
      exact absurd hfirst (hgo.not_prefix hbefore hc)
    · rw [hT] at hprefix
      have hlast := hbefore.eq_of_prefix hc hbefore' hc'.ne_proceed (heq ▸ hprefix)
      obtain ⟨rfl, hcc⟩ := List.append_inj' hlast rfl
      obtain rfl := List.singleton_injective hcc
      obtain rfl := hbefore.unique hbefore'
      exact ⟨halt, env₂, s₁, w, heq, hc', hrun, heq ▸ hfound⟩
  refine ⟨fun env₂ hc => ?_, fun f env₂ hc => ?_⟩
  · obtain ⟨halt, env₃, s₁, w, hhooks, hat, hrun, hfound⟩ := hstop (by simp [hc])
    rcases hat with ⟨rfl, -⟩ | ⟨f, -, hf⟩
    · rw [hrun]
      exact ⟨hhooks, rfl, rfl, hfound⟩
    · cases hc.symm.trans hf
  · obtain ⟨halt, env₃, s₁, w, hhooks, hat, hrun, hfound⟩ := hstop (by simp [hc])
    rcases hat with ⟨-, ha⟩ | ⟨f', rfl, hf⟩
    · cases hc.symm.trans ha
    · cases hc.symm.trans hf
      rw [hrun]
      exact ⟨hhooks, rfl, rfl⟩

/-- A new solver that goes by the structure of the graphs alone and stops when it has collected so
many solutions. -/
def collecting (g₁ g₂ : Graph ν ε) (n : Nat) : Solver ν ε Collection :=
  ofArena ⟨g₁, g₂, .structural, Collection.processor, .default⟩ (.empty (some n))
    (Arena.new (Config.default.arenaCapacity g₂.vertexCount) none)

/-- Of all subgraphs that the looped graph has in common with the longer one, two are looked for. -/
theorem hooks_of_stop_collecting :
    (collecting .looped .longer 2).hooks =
        [.progress 0, .progress 1, .progress 2, .progress 3,
          .solution [.ofNat 2, .ofNat 1, .ofNat 0] [.ofNat 3, .ofNat 2, .ofNat 1], .progress 3,
          .solution [.ofNat 2, .ofNat 1] [.ofNat 3, .ofNat 2]] ∧
      (collecting .looped .longer 2).run.1 = .ok () ∧
      (collecting .looped .longer 2).run.2.status = .aborted ∧
      (collecting .looped .longer 2).run.2.found = 2 := by
  have hpure : (collecting .looped .longer 2).problem.predicate.Pure Graph.looped Graph.longer :=
    ⟨fun _ _ => ⟨.ok true, rfl⟩, fun _ _ _ _ _ _ => ⟨.ok true, rfl⟩⟩
  have hpatient : (collecting .looped .longer 2).patient.hooks =
      [.progress 0, .progress 1, .progress 2, .progress 3,
          .solution [.ofNat 2, .ofNat 1, .ofNat 0] [.ofNat 3, .ofNat 2, .ofNat 1], .progress 3] ++
        .solution [.ofNat 2, .ofNat 1] [.ofNat 3, .ofNat 2] ::
        (collecting .looped .longer 2).patient.hooks.drop 7 := by
    decide +kernel
  exact ((hooks_of_stop _ hpure).2 _ _ _ _ hpatient
    ⟨_, rfl, _, rfl, _, rfl, _, rfl, _, rfl, _, rfl, rfl⟩).1 _ rfl

end Solver

end CommonSubgraph
