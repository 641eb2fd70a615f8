import CommonSubgraph.Proofs.Search.Entries
import CommonSubgraph.Proofs.Solver.Gathering
import CommonSubgraph.Proofs.Solver.Overheard

/-!
# Budgets of steps

A budget stops a run where it enters one level more than the budget allows, and nowhere else. Beside
the run of the inner caller alone, the two go together call by call, with the counters at the number
of the levels and at the deepest of them (`WithinBudget`), up to the level at which the second one
is stopped (`CutOff`). Only a token that is cancelled could stop it earlier, and it would still be
cancelled at the end.
-/

namespace CommonSubgraph

variable {ν ε σ α : Type}

/-! ## Levels -/

/-- The deepest of some levels. -/
def deepest (levels : List Nat) : Nat := levels.foldl max 0

namespace Event

variable {events : List Event}

/-- One more level entered is the last of the levels. -/
@[simp] theorem levels_concat_progress (events : List Event) (level : Nat) :
    levels (events ++ [.progress level]) = levels events ++ [level] := List.filterMap_append

/-- An event of no level leaves the levels as they are. -/
theorem levels_concat {e : Event} (h : e.level? = none) :
    levels (events ++ [e]) = levels events := by
  rw [levels, List.filterMap_append, List.filterMap_cons_none h]
  exact List.append_nil _

end Event

/-- The deepest level after one more. -/
theorem deepest_concat (levels : List Nat) (level : Nat) :
    deepest (levels ++ [level]) = max (deepest levels) level := by
  rw [deepest, List.foldl_append]
  rfl

/-! ## Beside the inner caller -/

/-- A callback ends alike whether it is overheard or not. -/
theorem EndAlike.overheard {R : Token × σ → Watch × (σ × List Note) → Prop}
    (m : Callback (Token × σ) α) (e : Event) (w : Watch) (s : σ) (notes : List Note)
    (h : ∀ token s', R (token, s')
      ({ w with token }, s', notes ++ [.called e w.token.cancelled])) :
    EndAlike R (m (w.token, s)) ((m.overheard e).watched (w, s, notes)) := by
  rw [Callback.overheard_watched_eq]
  cases m (w.token, s) with
  | ok a st => exact .ok (h st.1 st.2)
  | error f st => exact .error (h st.1 st.2)

/-- After the same events, the inner caller alone and the cancellable one are in the same state, the
counters show what was entered, which is within the budget, and all calls were made. -/
structure WithinBudget (n found : Nat) (events : List Event) (x : Token × σ)
    (y : Watch × (σ × List Note)) : Prop where
  state_eq : (y.1.token, y.2.1) = x
  found_eq : found = events.countP Event.isSolution
  steps_eq : y.1.steps = (Event.levels events).length
  deepest_eq : y.1.deepest = deepest (Event.levels events)
  steps_le : y.1.steps ≤ n
  calls_eq : y.2.2.filterMap Note.call? = events.filter Event.isCall

/-- The last of the events is the entry to the first level that is beyond the budget; it was counted
and nothing more. -/
def CutOff (n : Nat) (halt : Halt) (found : Nat) (events : List Event)
    (y : Watch × (σ × List Note)) : Prop :=
  ∃ before level, events = before ++ [.progress level] ∧ halt = .aborted ∧
    found = before.countP Event.isSolution ∧ (Event.levels before).length = n ∧
    y.1.steps = n + 1 ∧ y.1.deepest = deepest (Event.levels events) ∧
    y.2.2.filterMap Note.call? = before.filter Event.isCall

namespace WithinBudget

variable {n found : Nat} {events : List Event} {x : Token × σ} {y : Watch × (σ × List Note)}

/-- A call is made on both sides. -/
theorem called (h : WithinBudget n found events x y) (m : Callback (Token × σ) α) {e : Event}
    (hcall : e.isCall = true) (hlevel : e.level? = none) {found' : Nat}
    (hfound : found' = (events ++ [e]).countP Event.isSolution) :
    EndAlike (WithinBudget n found' (events ++ [e])) (m x) ((m.overheard e).watched y) := by
  obtain ⟨w, s, notes⟩ := y
  obtain rfl := h.state_eq
  refine .overheard m e w s notes fun token s' =>
    ⟨rfl, hfound, ?_, ?_, h.steps_le, ?_⟩
  · rw [Event.levels_concat hlevel]
    exact h.steps_eq
  · rw [Event.levels_concat hlevel]
    exact h.deepest_eq
  · rw [List.filterMap_append, List.filter_append, ← h.calls_eq, List.filter_cons_of_pos hcall]
    rfl

/-- A reservation changes nothing about the budget. -/
theorem reserved (h : WithinBudget n found events x y) (inUse requested : Nat) :
    WithinBudget n found (events ++ [.reservation inUse requested]) x y := by
  refine ⟨h.state_eq, ?_, ?_, ?_, h.steps_le, ?_⟩
  · rw [List.countP_append, ← h.found_eq]
    rfl
  · rw [Event.levels_concat rfl]
    exact h.steps_eq
  · rw [Event.levels_concat rfl]
    exact h.deepest_eq
  · rw [List.filter_append, ← h.calls_eq]
    exact (List.append_nil _).symm

/-- An event that is no solution leaves the count of solutions. -/
theorem countP_concat {e : Event} (h : WithinBudget n found events x y)
    (he : e.isSolution = false) : found = (events ++ [e]).countP Event.isSolution := by
  rw [List.countP_append, ← h.found_eq, List.countP_singleton, he]
  rfl

/-- Where a level is entered the search is stopped if the token is cancelled or the level is one
more than the budget allows; otherwise the inner caller is told of it. -/
theorem entered (h : WithinBudget n found events x y) (p : Predicate ν ε (Token × σ))
    (level : Nat) :
    Heeded (WithinBudget n found (events ++ [.progress level]))
      (fun halt y => y.1.token.cancelled = true ∨
        CutOff n halt found (events ++ [.progress level]) y)
      (p.progress level x) ((p.overseen (some n)).progress level y) := by
  obtain ⟨w, s, notes⟩ := y
  obtain rfl := h.state_eq
  rw [Predicate.overseen_progress_eq, Predicate.cancellable_progress_eq]
  cases hcancelled : w.token.cancelled with
  | true => exact .abort (.inl hcancelled)
  | false =>
    have hfound := h.countP_concat (e := .progress level) rfl
    have hsteps : w.steps + 1 = (Event.levels (events ++ [.progress level])).length := by
      rw [Event.levels_concat_progress, List.length_append, ← h.steps_eq]
      rfl
    have hdeepest : max w.deepest level = deepest (Event.levels (events ++ [.progress level])) := by
      rw [Event.levels_concat_progress, deepest_concat, ← h.deepest_eq]
    have hunnoted : (notes ++ [Note.entered level false]).filterMap Note.call? =
        events.filter Event.isCall := by
      rw [List.filterMap_append, ← h.calls_eq]
      exact List.append_nil _
    -- one level more than the budget allows is the first at which the search is stopped
    by_cases hover : n < w.steps + 1
    · have hstop : (false || (w.record level).overBudget (some n)) = true := by
        simp only [Watch.overBudget, Watch.record, Option.any_some, hover, decide_true,
          Bool.or_true]
      have hle : w.steps ≤ n := h.steps_le
      have hlevels : (Event.levels events).length = n := by
        rw [← h.steps_eq]
        show w.steps = n
        omega
      rw [if_pos hstop]
      refine .abort (.inr ⟨events, level, rfl, rfl, h.found_eq, hlevels, ?_, hdeepest, hunnoted⟩)
      show w.steps + 1 = n + 1
      omega
    · have hgo : ¬ (false || (w.record level).overBudget (some n)) = true := by
        simp only [Watch.overBudget, Watch.record, Option.any_some, hover, decide_false,
          Bool.or_self, Bool.false_eq_true, not_false_eq_true]
      rw [if_neg hgo]
      refine .alike (.overheard _ (.progress level) (w.record level) s _ fun token s' =>
        ⟨rfl, hfound, hsteps, hdeepest, Nat.le_of_not_lt hover, ?_⟩)
      rw [List.filterMap_append, hunnoted, List.filter_append]
      rfl

end WithinBudget

/-- Beside the inner caller alone, the cancellable one goes on as long as it is within its budget.
-/
theorem Problem.goOn_overseen (P : Problem ν ε (Token × σ)) (n : Nat) :
    Comparison.GoOn (WithinBudget n)
      (fun halt found events y => y.1.token.cancelled = true ∨ CutOff n halt found events y) P
      (P.predicate.overseen (some n)) P.processor.overheard.watched where
  vertices found events x y i j h := h.called _ rfl rfl (h.countP_concat rfl)
  edges found events x y i₁ i₂ es₁ j₁ j₂ es₂ h := h.called _ rfl rfl (h.countP_concat rfl)
  progress found events x y level h := h.entered P.predicate level
  solution found events x y xs ys h := by
    refine .alike (h.called _ rfl rfl ?_)
    rw [List.countP_append, ← h.found_eq]
    rfl

/-- A recorded search with a cancellable caller goes beside the one with its inner caller, or it is
stopped after some of the events of that one. -/
theorem Problem.recorded_overseen (P : Problem ν ε (Token × σ)) (n : Nat) (w : Work)
    (hfound : w.found = 0) (env : Token × σ) :
    let overseen := P.recast (P.predicate.overseen (some n)) P.processor.overheard.watched
    let start : Watch × (σ × List Note) := (Watch.start env.1, env.2, [])
    (∃ r : EStateM.Result Halt (Work × (((Token × σ) × List Event) ×
        ((Watch × (σ × List Note)) × List Event))) Unit,
      P.recorded (w, (env, [])) = seen (beside Prod.fst) r ∧
      overseen.recorded (w, (start, [])) = seen (beside Prod.snd) r ∧
      (endState r).2.1.2 = (endState r).2.2.2 ∧
      WithinBudget n (endState r).1.found (endState r).2.1.2 (endState r).2.1.1
        (endState r).2.2.1) ∨
    ∃ halt w' y events, overseen.recorded (w, (start, [])) = .error halt (w', (y, events)) ∧
      events <+: (endState (P.recorded (w, (env, [])))).2.2 ∧
      (y.1.token.cancelled = true ∨ CutOff n halt w'.found events y) := by
  intro overseen start
  have hcallers := (P.goOn_overseen n).callers w.arena.limit w.arena.limit fun _ map i k =>
    Comparison.tracks_start rfl
      (fun found events x y inUse requested h => h.reserved inUse requested) map i k
  have htracks := hcallers.searchBy 0 P.config.arenaLimit
  have hstart : WithinBudget n w.found [] env start :=
    ⟨rfl, hfound, rfl, rfl, Nat.zero_le n, rfl⟩
  rcases htracks.exists_seen rfl rfl (x := (env, [])) (y := (start, []))
    ⟨Nat.zero_le _, rfl, hstart⟩ with ⟨r, hr₁, hr₂, hm⟩ | ⟨halt, w', y, hr₂, hprefix, hs⟩
  · exact .inl ⟨r, hr₁, hr₂, hm.inStep⟩
  · exact .inr ⟨halt, w', y.1, y.2, hr₂, hprefix, hs⟩

namespace Solver

/-- The levels that the next run enters, in order. -/
def levels (s : Solver ν ε σ) : List Nat := Event.levels s.events

/-- The calls that the next run makes of `p` and `q`, which its caller makes cancellable. -/
def innerCalls (t : Solver ν ε (Watch × σ)) (p : Predicate ν ε (Token × σ))
    (q : Processor ν ε (Token × σ)) (budget : Option Nat) : List Event :=
  (t.notes p q budget).filterMap Note.call?

/-- The solver with a cancellable caller that is overheard, which starts with no notes. -/
abbrev overseen (s : Solver ν ε (Token × σ)) (budget : Option Nat) :
    Solver ν ε (Watch × (σ × List Note)) :=
  (s.cancellable budget).overheard s.problem.predicate s.problem.processor budget

/-- The run with a cancellable caller goes as the one with its inner caller, or it is stopped after
some of the events of that one. -/
theorem overseen_cases (s : Solver ν ε (Token × σ)) (n : Nat) :
    s.RunsAlike (fun x y => ∃ found, WithinBudget n found s.events x y) (s.overseen (some n)) ∨
    ∃ halt s' w y events, (s.overseen (some n)).run = ended s' (.error halt (w, y)) ∧
      events <+: s.events ∧ (y.1.token.cancelled = true ∨ CutOff n halt w.found events y) := by
  have hreset := s.reset_recast (s.problem.predicate.overseen (some n))
    s.problem.processor.overheard.watched (Watch.start s.env.1, s.env.2, [])
  obtain ⟨hproblem, hsame⟩ := s.reset_keeps
  cases hr : s.reset with
  | mk r s₁ =>
    rw [hr] at hreset hproblem hsame
    -- a reset leaves problem and state of the caller, so both runs search from the same work
    obtain ⟨P, work, builtFor, status, env⟩ := s₁
    obtain rfl : P = s.problem := hproblem
    obtain rfl : env = s.env := hsame
    cases r with
    | error f =>
      refine .inl (.of_reset_error hr hreset ⟨0, ?_⟩)
      rw [events_of_error hr]
      exact ⟨rfl, rfl, rfl, rfl, Nat.zero_le n, rfl⟩
    | ok u =>
      rcases s.problem.recorded_overseen n work (found_of_reset hr) s.env with
        ⟨r, hr₁, hr₂, hevents, hwithin⟩ | ⟨halt, w', y, events, hr₂, hprefix, hs⟩
      · refine .inl (.of_seen hr hreset hr₁ hr₂ hevents rfl rfl ⟨(endState r).1.found, ?_⟩)
        rw [(run_of_seen hr hr₁).1]
        exact hwithin
      · refine .inr ⟨halt, _, w', y, events, run_of_recorded_error hreset hr₂, ?_, hs⟩
        rw [events_of_ready hr]
        exact hprefix

/-- Let the token not be cancelled by the end of a run with a fresh cancellable caller and a budget
of `n` levels. If the run with the inner caller alone enters `n` levels at most, the other makes the
same inner calls and comes to the same end, with the counters showing the levels. Otherwise it makes
the calls that come before the first level beyond the budget, which is counted, and stops there. -/
theorem step_budget_exact (s : Solver ν ε (Token × σ)) (n : Nat)
    (hcalm : (s.cancellable (some n)).run.2.env.1.token.cancelled = false) :
    (s.levels.length ≤ n →
      (s.cancellable (some n)).innerCalls s.problem.predicate s.problem.processor (some n) =
        s.calls ∧
      s.RunsAlike (fun x y => (y.1.token, y.2) = x ∧ y.1.steps = s.levels.length ∧
        y.1.deepest = deepest s.levels) (s.cancellable (some n))) ∧
    (n < s.levels.length → ∃ before level after,
      s.calls = before ++ .progress level :: after ∧ (Event.levels before).length = n ∧
      (s.cancellable (some n)).innerCalls s.problem.predicate s.problem.processor (some n) =
        before ∧
      (s.cancellable (some n)).run.1 = .ok () ∧
      (s.cancellable (some n)).run.2.status = .aborted ∧
      (s.cancellable (some n)).run.2.found = before.countP Event.isSolution ∧
      (s.cancellable (some n)).run.2.env.1.steps = n + 1 ∧
      (s.cancellable (some n)).run.2.env.1.deepest = deepest (s.levels.take (n + 1))) := by
  have hunder : (s.cancellable (some n)).Under s.problem.predicate s.problem.processor (some n) :=
    ⟨rfl, rfl⟩
  have hheard := hunder.run_overheard
  rw [← hheard.env] at hcalm ⊢
  rcases s.overseen_cases n with halike | ⟨halt, s', w, y, events, hrun, hprefix, hend⟩
  · obtain ⟨_, hwithin⟩ := halike.env
    have hle : s.levels.length ≤ n := hwithin.steps_eq ▸ hwithin.steps_le
    refine ⟨fun _ => ⟨hwithin.calls_eq, halike.common hheard ?_⟩,
      fun hlt => absurd hlt (Nat.not_lt.mpr hle)⟩
    rintro x y z ⟨_, hz⟩ rfl
    exact ⟨hz.state_eq, hz.steps_eq, hz.deepest_eq⟩
  · have henv : (s.overseen (some n)).run.2.env = y := by
      obtain ⟨st, hst⟩ := s'.ended_snd (.error halt (w, y))
      rw [hrun, hst]
      rfl
    rw [show (s.overseen (some n)).run.2.env = y from henv] at hcalm ⊢
    -- the token is calm at the end, so it was the budget that stopped the run
    rcases hend with
      hcancelled | ⟨before, level, rfl, rfl, hfound, hlength, hsteps, hdeepest, hcalls⟩
    · exact absurd (hcalm.symm.trans hcancelled) Bool.false_ne_true
    obtain ⟨after, hafter⟩ := hprefix
    have hlevels : s.levels = Event.levels (before ++ [.progress level]) ++ Event.levels after := by
      rw [levels, ← hafter, Event.levels, List.filterMap_append]
      rfl
    have hcut : (Event.levels (before ++ [.progress level])).length = n + 1 := by
      rw [Event.levels_concat_progress, List.length_append, hlength]
      rfl
    refine ⟨fun hle => absurd hle ?_, fun _ => ⟨before.filter Event.isCall, level,
      after.filter Event.isCall, ?_, ?_, ?_, ?_, ?_, ?_, hsteps, ?_⟩⟩
    · rw [hlevels, List.length_append, hcut]
      omega
    · rw [calls, ← hafter, List.filter_append, List.filter_append, List.append_assoc]
      rfl
    · rw [Event.levels, Event.filterMap_filter_of_imp Event.isCall_of_isSome_level?]
      exact hlength
    · exact (congrArg (List.filterMap Note.call?) (congrArg (·.2.2) henv)).trans hcalls
    · rw [hheard.result_eq, hrun]
      rfl
    · rw [hheard.status_eq, hrun]
      rfl
    · have hcall (e : Event) (he : e.isSolution = true) : e.isCall = true :=
        e.isCall_of_isHook (e.isHook_of_isSolution he)
      rw [hheard.found_eq, hrun, Event.countP_filter_of_imp hcall]
      exact hfound
    · rw [hlevels, ← hcut, List.take_left]
      exact hdeepest

/-- The search of the looped graph and the longer one enters twenty levels. A budget of as many does
not stop it, and a budget of five stops it at the sixth, which is no deeper than some before. -/
theorem step_budget_exact_looped_longer :
    let s := (byStructure .looped .longer .default).recast Predicate.structural
      Largest.processor.onSnd ((⟨false⟩ : Token), .empty)
    (s.levels.length = 20 ∧ s.run.1 = (s.cancellable (some 20)).run.1 ∧
      (s.cancellable (some 20)).run.2.env.1.steps = 20) ∧
    (s.cancellable (some 5)).run.2.status = .aborted ∧
      (s.cancellable (some 5)).run.2.env.1.steps = 6 ∧
      (s.cancellable (some 5)).run.2.env.1.deepest = 3 := by
  intro s
  have hlength : s.levels.length = 20 := by decide +kernel
  obtain ⟨-, hall⟩ := (s.step_budget_exact 20 (by decide +kernel)).1 hlength.le
  obtain ⟨-, -, -, -, -, -, -, hstatus, -, hsteps, hdeepest⟩ :=
    (s.step_budget_exact 5 (by decide +kernel)).2 (by omega)
  have hsteps' : (s.cancellable (some 20)).run.2.env.1.steps = 20 := hall.env.2.1.trans hlength
  have hdeepest' : deepest (s.levels.take 6) = 3 := by decide +kernel
  exact ⟨⟨hlength, hall.result_eq, hsteps'⟩, hstatus, hsteps, hdeepest.trans hdeepest'⟩

end Solver

end CommonSubgraph
