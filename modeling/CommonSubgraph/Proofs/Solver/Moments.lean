import CommonSubgraph.Proofs.Search.Bookkeeping
import CommonSubgraph.Proofs.Search.Recursion
import CommonSubgraph.Proofs.Solver.Promises

/-!
# Calls and steps of a script

Every call of a run is made at a step of a script of its search, and the working state is then the
one that the step shows (`Solver.Reachable.exists_step`). The run whose caller gives up in place of
the call tells which step that is: nothing else stops it, and a fault leaves everything as it is.

So what holds at the steps of a script holds when the caller is called. Told of a level or handed a
solution, it finds the books of the search right (`Solver.Reachable.books_kept`); and whatever level
is begun where it is told of one is put back (`Solver.Reachable.level_puts_back`).
-/

namespace CommonSubgraph

variable {ν ε σ α : Type}

/-! ## Scripts of interrupted callers -/

/-- One more step that makes a call adds that call at the end. -/
theorem callsOf_concat {st : Step} {c : Call} (hc : st.act.call? = some c) (E : List Step) :
    callsOf (E ++ [st]) = callsOf E ++ [c] := by
  have hlast : callsOf [st] = [c] := List.filterMap_cons_some hc
  rw [callsOf, List.filterMap_append]
  exact congrArg (callsOf E ++ ·) hlast

namespace Problem

section

variable {P : Problem ν ε σ} {st : Step} {E : List Step} {env env' : σ}

/-- A step that a caller passes is passed with any visits noted. -/
theorem Passes.visiting (h : P.Passes st env env') (es : List Entry) :
    P.visiting.Passes st (env, es) (env', es) := by
  obtain ⟨v, act⟩ := st
  cases act with
  | vertices | edges | progress | solution => exact Callback.onFst_of_ok h es
  | reserve n => exact ⟨congrArg (·, es) h.1, h.2⟩

/-- Steps that a caller goes along with are so with any visits noted. -/
theorem Heard.visiting (h : P.Heard E env env') (es : List Entry) :
    P.visiting.Heard E (env, es) (env', es) := by
  induction h with
  | nil => exact .nil
  | cons head _ ih => exact .cons (head.visiting es) ih

/-- A caller that stops at a step does so with any visits noted. -/
theorem Stops.visiting {halt : Halt} (h : P.Stops st env halt env') (es : List Entry) :
    P.visiting.Stops st (env, es) halt (env', es) := by
  obtain ⟨v, act⟩ := st
  cases act with
  | vertices | edges =>
    obtain ⟨f, hhalt, h⟩ := h
    exact ⟨f, hhalt, Callback.onFst_of_error h es⟩
  | progress | solution =>
    rcases h with ⟨hhalt, h⟩ | ⟨f, hhalt, h⟩
    · exact .inl ⟨hhalt, Callback.onFst_of_ok h es⟩
    · exact .inr ⟨f, hhalt, Callback.onFst_of_error h es⟩
  | reserve n => exact ⟨congrArg (·, es) h.1, h.2⟩

end

variable {P : Problem ν ε σ} {k : Nat} {m : SearchM ((σ × Array Call) × List Event) α}
variable {w w' w₁ : Work} {E : List Step} {a : α} {keep : Nat → Prop}

/-- A program whose caller gives up in place of call number `k` is left at the step that is this
call, unless it makes fewer calls. -/
theorem Follows.at_call {env : σ} {x : (σ × Array Call) × List Event}
    (h : (P.interrupted k).Follows keep m w ((env, #[]), []) E a w')
    (hend : endState (m (w, ((env, #[]), []))) = (w₁, x)) (hk : k < x.2.length) :
    ∃ E₁ st E₂ c, E = E₁ ++ st :: E₂ ∧ st.act.call? = some c ∧
      x.2 = (callsOf (E₁ ++ [st])).map Call.event ∧ P.Shows w₁ st.view := by
  have hx : Interrupted.Going (((env, #[]), []), []) k := ⟨rfl, Nat.zero_le k⟩
  cases h with
  | through heard eq =>
    rw [eq] at hend
    cases hend
    exact absurd hk (Nat.not_lt.mpr ((heard.visiting []).going hx).1.2)
  | @stopped E₁ E₂ st x₁ x' halt w'' n split heard stops eq _ shows =>
    rw [eq] at hend
    cases hend
    obtain ⟨hx₁, hanswered₁, -⟩ := (heard.visiting []).going hx
    rcases (stops.visiting []).giveUp hx₁ with hle | ⟨⟨f, rfl⟩, c, hc, -, hcalls, -⟩
    · exact absurd hk (Nat.not_lt.mpr hle)
    · refine ⟨E₁, st, E₂, c, split, hc, ?_, (shows_recast_iff (P := P)).mp shows⟩
      rw [callsOf_concat hc, List.map_append]
      refine Eq.trans hcalls ?_
      rw [hanswered₁]
      rfl

end Problem

/-! ## The steps of a run -/

namespace Solver

variable {s : Solver ν ε σ} {k : Nat} {e : Event}

/-- A call of a run is made at a step of a script of its search, in the state that is shown there,
and the calls before it are those of the steps before. -/
theorem Reachable.exists_step (hs : s.Reachable) (hg₁ : s.problem.first.WellFormed)
    (hg₂ : s.problem.second.WellFormed) (he : s.calls[k]? = some e) :
    ∃ a E₁ st E₂ v',
      Searched s.problem.first s.problem.second s.config a (E₁ ++ st :: E₂) v' ∧
      (∃ c, st.act.call? = some c ∧ c.event = e) ∧
      s.calls.take (k + 1) = (callsOf (E₁ ++ [st])).map Call.event ∧
      s.problem.Shows (s.moment k).work st.view := by
  obtain ⟨hk, rfl⟩ := List.getElem?_eq_some_iff.mp he
  have hcalls := s.calls_interrupted k
  rcases (hs.coherent hg₁ hg₂).reset hg₁ hg₂ with ⟨s₁, a, hreset, hready⟩ | ⟨f, s₁, hreset, -⟩
  swap
  · rw [calls, events_of_error hreset] at hk
    cases hk
  have hshows : (s.problem.interrupted k).Shows s₁.work (.initial s.problem.first s.config a) :=
    (Problem.shows_recast_iff (P := s.problem)).mpr hready.shows
  -- a script of the interrupted search, which makes the calls up to number `k` as the run does
  obtain ⟨E, w', v', hsearched, -, -, hf⟩ := Problem.exists_searched (P := s.problem.interrupted k)
    hg₁ hg₂ (Problem.within_proper _) hshows ((s₁.env, #[]), [])
  have hreset' := s.reset_interrupted k
  rw [hreset] at hreset'
  have hend : endState ((s.problem.interrupted k).search (s₁.work, ((s₁.env, #[]), []))) =
      ((s.moment k).work, (s.interrupted k).run.2.env) := by
    obtain ⟨status, hended⟩ := (s₁.interrupted k).ended_snd
      ((s₁.interrupted k).problem.search ((s₁.interrupted k).work, (s₁.interrupted k).env))
    rw [moment, run_of_ready hreset', hended, problem_interrupted, hready.problem_eq]
    rfl
  have hmade : k < (s.interrupted k).run.2.env.2.length := by
    rw [hcalls, List.length_take_of_le hk]
    exact Nat.lt_succ_self k
  obtain ⟨E₁, st, E₂, c, rfl, hc, hupto, hstep⟩ := hf.at_call hend hmade
  rw [hcalls] at hupto
  refine ⟨a, E₁, st, E₂, v', hsearched, ⟨c, hc, ?_⟩, hupto, hstep⟩
  rw [callsOf_concat hc, List.take_add_one, he, List.map_append] at hupto
  exact (List.singleton_inj.mp (List.append_inj' hupto rfl).2).symm

/-- Where the caller is told of a level or handed a solution, the working state is on the level that
it was told of last. -/
theorem Reachable.exists_booked (hs : s.Reachable) (hg₁ : s.problem.first.WellFormed)
    (hg₂ : s.problem.second.WellFormed) (he : s.calls[k]? = some e) (hhook : e.isHook = true) :
    ∃ level v, (Event.levels (s.calls.take (k + 1))).getLast? = some level ∧
      s.problem.Shows (s.moment k).work v ∧
      v.Booked s.problem.first s.problem.second s.config level := by
  obtain ⟨a, E₁, st, E₂, v', hsearched, ⟨c, hc, rfl⟩, hcalls, hshows⟩ := hs.exists_step hg₁ hg₂ he
  obtain ⟨level, hlast, hbooked⟩ := hsearched.atHooks hg₁ hg₂ E₁ st E₂ rfl ⟨c, hc, hhook⟩
  exact ⟨level, st.view, hcalls ▸ hlast, hshows, hbooked⟩

/-! ## Levels put back -/

/-- Wherever the caller is told of a level, whatever level is searched from there with whatever
candidates: at its end all is put back, and the slots of the arena are also if the caller stops it
or the arena is exhausted. -/
theorem Reachable.level_puts_back (hs : s.Reachable) (hg₁ : s.problem.first.WellFormed)
    (hg₂ : s.problem.second.WellFormed) {level : Nat}
    (he : s.calls[k]? = some (.progress level)) (n : Nat) (map : CandidateMap) (level' : Nat)
    (env : σ) :
    s.problem.PutBackBy (s.moment k).work
      (s.problem.explore n map level' ((s.moment k).work, env)) := by
  obtain ⟨_, v, -, hshows, hbooked⟩ := hs.exists_booked hg₁ hg₂ he rfl
  exact Problem.putBackBy_explore hshows (fun _ hi => hbooked.mem_considered hi) n map level' env

/-- Call number 16 tells of level 1, which is entered with the last vertices paired. Searched with
the candidates that are in force there, the level delivers five solutions and puts everything
back. -/
theorem level_puts_back_looped_longer :
    let s := byStructure .looped .longer .default
    s.calls[16]? = some (.progress 1) ∧ (s.moment 16).pairs = [(.ofNat 2, .ofNat 3)] ∧
      ∃ e st, s.entries[1]? = some e ∧
        s.problem.explore 2 e.active.map 1 ((s.moment 16).work, s.env) = .ok () st ∧
        st.1.found = 5 ∧ (s.moment 16).work.PutBack s.problem st.1 := by
  intro s
  have hs : s.Reachable := reachable_byStructure Graph.wellFormed_longer rfl
  have hg₁ : s.problem.first.WellFormed := Graph.wellFormed_looped
  have hg₂ : s.problem.second.WellFormed := Graph.wellFormed_longer
  have he : s.calls[16]? = some (.progress 1) := by decide +kernel
  have hpairs : (s.moment 16).pairs = [(.ofNat 2, .ofNat 3)] := by decide +kernel
  have hfound : (s.entries[1]?.bind fun e =>
      match s.problem.explore 2 e.active.map 1 ((s.moment 16).work, s.env) with
      | .ok _ st => some st.1.found
      | .error _ _ => none) = some 5 := by decide +kernel
  -- the rest does not depend on which solver it is, and nothing more is to be computed
  clear_value s
  obtain ⟨e, hentry, hfound⟩ := Option.bind_eq_some_iff.mp hfound
  have hback := hs.level_puts_back hg₁ hg₂ he 2 e.active.map 1 s.env
  cases hr : s.problem.explore 2 e.active.map 1 ((s.moment 16).work, s.env) with
  | ok u st =>
    rw [hr] at hfound hback
    exact ⟨he, hpairs, e, st, hentry, hr, Option.some.inj hfound, hback⟩
  | error halt st =>
    rw [hr] at hfound
    cases hfound

/-- In a search for embeddings a level may lower the minimum, in monotonic mode also. With one
vertex on either side and solutions wanted of five pairs at least, level 0 is entered with minimum
5. It hands over the solution of one pair, which is all that such a search asks for, and ends with
minimum 1. -/
theorem level_lowers_minimum :
    let s := byStructure (Graph.plain 1 []) (Graph.plain 1 [])
      { Config.exact with monotonic := true, minimum := 5 }
    (s.Reachable ∧ (Graph.plain 1 []).WellFormed ∧ s.config.monotonic = true) ∧
      s.calls[2]? = some (.progress 0) ∧ (s.moment 2).work.minimum = 5 ∧
      ∃ e st, s.entries[0]? = some e ∧
        s.problem.explore 1 e.active.map 0 ((s.moment 2).work, s.env) = .ok () st ∧
        st.1.found = 1 ∧ st.1.minimum = 1 := by
  intro s
  have hg : (Graph.plain 1 []).WellFormed := Graph.wellFormed_plain (by decide) (by decide)
  have hs : s.Reachable := reachable_byStructure hg rfl
  have he : s.calls[2]? = some (.progress 0) := by decide +kernel
  have hbefore : (s.moment 2).work.minimum = 5 := by decide +kernel
  have hafter : (s.entries[0]?.bind fun e =>
      match s.problem.explore 1 e.active.map 0 ((s.moment 2).work, s.env) with
      | .ok _ st => some (st.1.found, st.1.minimum)
      | .error _ _ => none) = some (1, 1) := by decide +kernel
  have hmonotonic : s.config.monotonic = true := rfl
  clear_value s
  obtain ⟨e, hentry, hafter⟩ := Option.bind_eq_some_iff.mp hafter
  cases hr : s.problem.explore 1 e.active.map 0 ((s.moment 2).work, s.env) with
  | ok u st =>
    rw [hr] at hafter
    obtain ⟨hfound, hminimum⟩ := Prod.mk.inj (Option.some.inj hafter)
    exact ⟨⟨hs, hg, hmonotonic⟩, he, hbefore, e, st, hentry, hr, hfound, hminimum⟩
  | error halt st =>
    rw [hr] at hafter
    cases hafter

/-! ## Books kept -/

/-- Whenever the caller is told of a level or handed a solution, the books of the search are right
for the level that it was told of last. And the levels come to an end: whatever would be done below
levels that are nested deeper than the first graph has vertices, the search is the same. -/
theorem Reachable.books_kept (hs : s.Reachable) (hg₁ : s.problem.first.WellFormed)
    (hg₂ : s.problem.second.WellFormed) :
    (∀ k e, s.calls[k]? = some e → e.isHook = true →
      ∃ level, (Event.levels (s.calls.take (k + 1))).getLast? = some level ∧
        (s.moment k).work.InBooks s.problem level) ∧
    ∀ s₁, s.reset = (.ok (), s₁) → ∀ cut n, s.problem.first.vertexCount < n →
      s.problem.searchTo cut n (s₁.work, s₁.env) = s.problem.search (s₁.work, s₁.env) := by
  refine ⟨fun k e he hhook => ?_, fun s₁ hreset cut n hn => ?_⟩
  · obtain ⟨level, v, hlast, hshows, hbooked⟩ := hs.exists_booked hg₁ hg₂ he hhook
    exact ⟨level, hlast, hbooked.inBooks hshows hg₁ hg₂⟩
  · rcases (hs.coherent hg₁ hg₂).reset hg₁ hg₂ with ⟨s₁', a, hreset', hready⟩ | ⟨f, s₁', hreset', -⟩
    swap
    · cases hreset.symm.trans hreset'
    cases hreset.symm.trans hreset'
    refine Problem.searchTo_eq_search cut hready.shows (fun _ hi => hi) ?_ s₁.env
    exact (Graph.length_vertexIds _).trans_lt hn

/-- Call number 22 hands over a solution on level 3: two vertices are paired, and the first one is
left out. -/
theorem books_kept_looped_longer :
    let s := byStructure .looped .longer .default
    s.calls[22]? = some (.solution [.ofNat 2, .ofNat 1] [.ofNat 3, .ofNat 2]) ∧
      (s.moment 22).work.leftOut .looped = [.ofNat 0] ∧ (s.moment 22).work.InBooks s.problem 3 ∧
      ∀ s₁, s.reset = (.ok (), s₁) → ∀ cut,
        s.problem.searchTo cut 4 (s₁.work, s₁.env) = s.problem.search (s₁.work, s₁.env) := by
  intro s
  have hs : s.Reachable := reachable_byStructure Graph.wellFormed_longer rfl
  obtain ⟨hbooks, hends⟩ := hs.books_kept Graph.wellFormed_looped Graph.wellFormed_longer
  have he : s.calls[22]? = some (.solution [.ofNat 2, .ofNat 1] [.ofNat 3, .ofNat 2]) := by
    decide +kernel
  obtain ⟨level, hlast, hbooked⟩ := hbooks 22 _ he rfl
  have hlevel : (Event.levels (s.calls.take 23)).getLast? = some 3 := by decide +kernel
  cases hlast.symm.trans hlevel
  exact ⟨he, by decide +kernel, hbooked, fun s₁ hreset cut => hends s₁ hreset cut 4 (by decide)⟩

end Solver

end CommonSubgraph
