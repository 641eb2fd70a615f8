import CommonSubgraph.Proofs.Search.Limited
import CommonSubgraph.Proofs.Solver.Gathering
import CommonSubgraph.Proofs.Solver.Recorded

/-!
# Runs under a limit

A limit of the arena never changes what a run does, it only cuts it off. If all reservations of the
run without a limit fit, the run under the limit is the same, event by event. Otherwise it has the
same events up to the first reservation that does not fit, and fails there. In both cases it keeps
to the limit (`Solver.Reachable.limited_runs`).

All this holds for any callers, whatever their questions and answers do to their state.
-/

namespace CommonSubgraph

variable {ν ε σ : Type}

/-- If a reservation does not fit, not all of the run fits. -/
theorem Event.not_forall_fits {limit : Nat} {before after : List Event} {e : Event}
    (he : ¬ e.Fits limit) : ¬ ∀ e' ∈ before ++ e :: after, e'.Fits limit :=
  fun h => he (h e (List.mem_append_right before List.mem_cons_self))

/-- Up to the first reservation that does not fit, all do. -/
theorem Event.takeWhile_fits {limit : Nat} {before after : List Event} {e : Event}
    (hbefore : ∀ e ∈ before, e.Fits limit) (he : ¬ e.Fits limit) :
    (before ++ e :: after).takeWhile (fun e => decide (e.Fits limit)) = before := by
  rw [List.takeWhile_append_of_pos fun e he => decide_eq_true (hbefore e he),
    List.takeWhile_cons_of_neg (by simpa using he), List.append_nil]

namespace Solver

variable {s : Solver ν ε σ}

/-- The solver with another limit of its arena from the next run on. -/
def limited (s : Solver ν ε σ) (limit : Option Nat) : Solver ν ε σ :=
  s.setConfig { s.config with arenaLimit := limit }

/-! ## How limited runs begin -/

/-- The arena that the settings ask for is no larger than a block of memory can be. -/
theorem HasArena.capacity_le (ha : s.HasArena) : VertexId.bytes *
    s.config.arenaCapacity s.problem.second.vertexCount ≤ Storage.largestBlock := by
  obtain ⟨a, ha⟩ := ha
  rw [newArena, Arena.newChecked] at ha
  by_contra hn
  have hcheck := mt Storage.check_eq_ok_iff.mp hn
  cases hc : Storage.check VertexId.bytes
      (s.problem.config.arenaCapacity s.problem.second.vertexCount) with
  | ok _ => exact hcheck hc
  | error f =>
    rw [hc] at ha
    cases ha

/-- No more slots are set aside under a limit than without one. -/
theorem HasArena.limited (ha : (s.limited none).HasArena) (limit : Option Nat) :
    (s.limited limit).HasArena := by
  refine ⟨_, newArena_of_le (Nat.le_trans (Nat.mul_le_mul_left _ ?_) ha.capacity_le)⟩
  cases limit with
  | none => exact Nat.le_refl _
  | some limit => exact Nat.min_le_right _ _

/-- With any limit, a solver starts as if it were new. -/
theorem Coherent.reset_limited (hs : s.Coherent) (ha : (s.limited none).HasArena)
    (limit : Option Nat) :
    (s.limited limit).reset = (.ok (), begun (s.limited limit).problem s.env) :=
  (hs.setConfig _).reset_eq (ha.limited limit)

/-! ## How limited runs go on -/

/-- A run under a limit goes as the one without, or is cut off. -/
theorem Coherent.limited_cases (hs : s.Coherent) (ha : (s.limited none).HasArena) (limit : Nat) :
    ((∀ e ∈ (s.limited none).events, e.Fits limit) ∧
      (s.limited (some limit)).RunsAlike Eq (s.limited none)) ∨
    ∃ before inUse requested after,
      (s.limited none).events = before ++ .reservation inUse requested :: after ∧
      (∀ e ∈ before, e.Fits limit) ∧ ¬ (Event.reservation inUse requested).Fits limit ∧
      (s.limited (some limit)).events = before ++ [.reservation inUse requested] ∧
      (s.limited (some limit)).run.1 = .error (.exhausted ⟨requested, inUse, limit⟩) ∧
      (s.limited (some limit)).run.2.status = .failed := by
  have hreset := hs.reset_limited ha none
  have hreset' := hs.reset_limited ha (some limit)
  have hevents := events_of_ready hreset
  -- the two searches begin alike, but for the limit
  rcases Problem.recorded_limited (s.limited none).problem limit
      (w := (begun (s.limited none).problem s.env).work) rfl s.env with
    ⟨r, hr, hr', heq, hfit⟩ | ⟨halt, w, env, events, hr', hprefix, before, inUse, requested, rfl,
      hbefore, hnot, rfl⟩
  · refine .inl ⟨?_, .of_seen hreset' hreset hr' hr ?_ rfl rfl ?_⟩
    · rw [hevents]
      show ∀ e ∈ (endState ((s.limited none).problem.recorded
        ((begun (s.limited none).problem s.env).work, (s.env, [])))).2.2, _
      rw [hr, endState_seen]
      exact hfit
    · exact congrArg Prod.snd heq.symm
    · exact congrArg Prod.fst heq.symm
  · obtain ⟨after, hafter⟩ := hprefix
    have hrecorded : (begun (s.limited (some limit)).problem s.env).recorded =
      .error (.failed (.exhausted ⟨requested, inUse, limit⟩))
        (w, (env, before ++ [.reservation inUse requested])) := hr'
    have hrun := run_eq_ended hreset'
    rw [hrecorded] at hrun
    refine .inr ⟨before, inUse, requested, after, ?_, hbefore, hnot, ?_, ?_, ?_⟩
    · rw [hevents, List.append_cons]
      exact hafter.symm
    · rw [events_of_ready hreset', hrecorded]
      rfl
    · rw [hrun]
      rfl
    · rw [hrun]
      rfl

/-- A run under a limit that is one keeps to it. -/
theorem Coherent.keepsTo_limited (hs : s.Coherent) (ha : (s.limited none).HasArena) {limit : Nat}
    (hlimit : limit < Size.largest) : Comparison.KeepsTo limit
      (s.limited (some limit)).run.2.work.arena (s.limited (some limit)).events := by
  have hreset := hs.reset_limited ha (some limit)
  rw [work_run hreset, events_of_ready hreset]
  exact Problem.recorded_keepsTo _ hlimit rfl
    ⟨Nat.zero_le _, Nat.zero_le _, fun _ _ h => by cases h⟩

/-- For any callers, let there be an arena without a limit for the settings in force. If all
reservations of the run without a limit fit a limit, the run under the limit is the same. Otherwise
its events are those up to the first reservation that does not fit, and it fails there. In both
cases no more slots than the limit are in use at any time, so far as a machine word counts; and if
the run under the limit does not fail, the runs under all larger limits are the same. -/
theorem Reachable.limited_runs (hs : s.Reachable) (hg₁ : s.problem.first.WellFormed)
    (hg₂ : s.problem.second.WellFormed) (ha : (s.limited none).HasArena) (limit : Nat) :
    ((∀ e ∈ (s.limited none).events, e.Fits limit) →
      (s.limited (some limit)).RunsAlike Eq (s.limited none)) ∧
    (∀ before inUse requested after,
      (s.limited none).events = before ++ .reservation inUse requested :: after →
      (∀ e ∈ before, e.Fits limit) → ¬ (Event.reservation inUse requested).Fits limit →
      (s.limited (some limit)).events = before ++ [.reservation inUse requested] ∧
        (s.limited (some limit)).run.1 = .error (.exhausted ⟨requested, inUse, limit⟩) ∧
        (s.limited (some limit)).run.2.status = .failed ∧
        inUse ≤ limit ∧ limit < inUse + requested) ∧
    (min (s.limited (some limit)).run.2.highWater Size.largest ≤ limit ∧
      ∀ inUse requested, .reservation inUse requested ∈ (s.limited (some limit)).events →
        min inUse Size.largest ≤ limit) ∧
    ((s.limited (some limit)).run.1 = .ok () →
      (s.limited (some limit)).RunsAlike Eq (s.limited none) ∧
      ∀ limit', limit ≤ limit' →
        (s.limited (some limit)).RunsAlike Eq (s.limited (some limit'))) := by
  have hcoherent := hs.coherent hg₁ hg₂
  have hcases := hcoherent.limited_cases ha
  refine ⟨fun hfit => ?_, fun before inUse requested after hevents hbefore hnot => ?_, ?_,
    fun hok => ?_⟩
  · rcases hcases limit with ⟨-, halike⟩ | ⟨before, inUse, requested, after, hevents, -, hnot, -⟩
    · exact halike
    · exact absurd (hevents ▸ hfit) (Event.not_forall_fits hnot)
  · rcases hcases limit with
      ⟨hfit, -⟩ | ⟨before', inUse', requested', after', hevents', hbefore', hnot', hcut, hrun⟩
    · exact absurd (hevents ▸ hfit) (Event.not_forall_fits hnot)
    -- there is only one first reservation that does not fit
    have hsplit := hevents.symm.trans hevents'
    obtain rfl : before = before' := by
      rw [← Event.takeWhile_fits hbefore hnot, hsplit, Event.takeWhile_fits hbefore' hnot']
    obtain ⟨heq, -⟩ := List.cons.inj (List.append_cancel_left hsplit)
    obtain ⟨rfl, rfl⟩ := Event.reservation.inj heq
    obtain ⟨hlt, hlargest⟩ := Event.lt_of_not_fits hnot
    have hkeeps := (hcoherent.keepsTo_limited ha hlargest).inUse_le inUse requested
    rw [hcut] at hkeeps
    exact ⟨hcut, hrun.1, hrun.2, hkeeps (List.mem_append_right _ (List.mem_singleton_self _)), hlt⟩
  · by_cases hlargest : limit < Size.largest
    · have hkeeps := hcoherent.keepsTo_limited ha hlargest
      exact ⟨Nat.le_trans (Nat.min_le_left _ _) hkeeps.highWater_le, fun inUse requested hmem =>
        Nat.le_trans (Nat.min_le_left _ _) (hkeeps.inUse_le inUse requested hmem)⟩
    · have hle : Size.largest ≤ limit := Nat.le_of_not_lt hlargest
      exact ⟨Nat.le_trans (Nat.min_le_right _ _) hle, fun _ _ _ =>
        Nat.le_trans (Nat.min_le_right _ _) hle⟩
  · rcases hcases limit with ⟨hfit, halike⟩ | ⟨_, _, _, _, -, -, -, -, herror, -⟩
    · refine ⟨halike, fun limit' hle => ?_⟩
      rcases hcases limit' with
        ⟨-, halike'⟩ | ⟨before, inUse, requested, after, hevents, -, hnot, -⟩
      · exact halike.trans halike'.symm
      · rw [hevents] at hfit
        exact absurd (fun e he => (hfit e he).mono hle) (Event.not_forall_fits hnot)
    · cases hok.symm.trans herror

/-- The search of the looped graph in the longer one never has more than eleven slots in use. But
with nine in use it reserves three for one row, and so takes a limit of twelve. -/
theorem limited_runs_looped_longer :
    ((byStructure .looped .longer .default).limited none).run.2.highWater = 11 ∧
    ((byStructure .looped .longer .default).limited (some 12)).RunsAlike Eq
      ((byStructure .looped .longer .default).limited none) ∧
    ((byStructure .looped .longer .default).limited (some 11)).run.1 =
      .error (.exhausted ⟨3, 9, 11⟩) := by
  have hs : (byStructure .looped .longer .default).Reachable :=
    reachable_byStructure Graph.wellFormed_longer rfl
  have ha : (byStructure .looped .longer .default).HasArena :=
    hasArena_byStructure Graph.wellFormed_longer rfl
  have hruns := hs.limited_runs Graph.wellFormed_looped Graph.wellFormed_longer ha
  have hevents : ((byStructure .looped .longer .default).limited none).events =
      ((byStructure .looped .longer .default).limited none).events.take 19 ++
        .reservation 9 3 ::
          ((byStructure .looped .longer .default).limited none).events.drop 20 := by
    decide +kernel
  exact ⟨by decide +kernel, (hruns 12).1 (by decide +kernel),
    ((hruns 11).2.1 _ 9 3 _ hevents (by decide +kernel) (by decide +kernel)).2.1⟩

end Solver

end CommonSubgraph
