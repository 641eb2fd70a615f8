import CommonSubgraph.Proofs.Solver.Allowed
import CommonSubgraph.Proofs.Solver.FirstFound
import CommonSubgraph.Proofs.Solver.Recorded

/-!
# Enumerating by structure

A search that goes by the structure of its graphs alone does not look at what its processor does,
until the processor ends it. Such searches have one list of solutions in common, which is delivered
to a processor that does nothing (`Problem.enumerated`). Any other processor is fed with this list
until it ends the search or the list is used up (`Problem.runOnce_structured`).
-/

namespace CommonSubgraph

variable {ν ε σ τ α : Type}

/-! ## Feeding a processor -/

namespace Processor

variable {q : Processor ν ε σ} {g₁ g₂ : Graph ν ε} {s s' : σ} {l : List Solution}

/-- The processor that does nothing. -/
def idle : Processor ν ε Unit := ⟨fun _ _ _ _ => pure .proceed⟩

/-- Give the solutions to the processor until it ends the search. The answer is what it was ended
by, if it was, and the state that the processor is left in. -/
def feed (q : Processor ν ε σ) (g₁ g₂ : Graph ν ε) : List Solution → σ → Option Halt × σ
  | [], s => (none, s)
  | sol :: rest, s =>
    match q.process g₁ sol.xs g₂ sol.ys s with
    | .ok .proceed s' => q.feed g₁ g₂ rest s'
    | .ok .abort s' => (some .aborted, s')
    | .error f s' => (some (.failed (.fault f)), s')

/-- A processor that takes the first of two lists whole is fed with the second after it. -/
theorem feed_append_of_none (h : q.feed g₁ g₂ l s = (none, s')) (l' : List Solution) :
    q.feed g₁ g₂ (l ++ l') s = q.feed g₁ g₂ l' s' := by
  induction l generalizing s with
  | nil =>
    cases h
    rfl
  | cons sol l ih =>
    simp only [List.cons_append, feed] at h ⊢
    cases hq : q.process g₁ sol.xs g₂ sol.ys s with
    | error f s₁ =>
      rw [hq] at h
      cases h
    | ok action s₁ =>
      rw [hq] at h
      cases action with
      | proceed => exact ih h
      | abort => cases h

/-- Nothing is given to a processor that has ended the search. -/
theorem feed_append_of_some {halt : Halt} (h : q.feed g₁ g₂ l s = (some halt, s'))
    (l' : List Solution) : q.feed g₁ g₂ (l ++ l') s = (some halt, s') := by
  induction l generalizing s with
  | nil => cases h
  | cons sol l ih =>
    simp only [List.cons_append, feed] at h ⊢
    cases hq : q.process g₁ sol.xs g₂ sol.ys s with
    | error f s₁ =>
      rw [hq] at h
      exact h
    | ok action s₁ =>
      rw [hq] at h
      cases action with
      | proceed => exact ih h
      | abort => exact h

/-- A processor with a state beside it is fed as it is without. -/
theorem feed_onSnd (q : Processor ν ε τ) (g₁ g₂ : Graph ν ε) (l : List Solution) (s : σ) (t : τ) :
    q.onSnd.feed g₁ g₂ l (s, t) = ((q.feed g₁ g₂ l t).1, (s, (q.feed g₁ g₂ l t).2)) := by
  induction l generalizing t with
  | nil => rfl
  | cons sol l ih =>
    simp only [feed, onSnd, Callback.onSnd]
    cases q.process g₁ sol.xs g₂ sol.ys t with
    | error f t' => rfl
    | ok action t' =>
      cases action with
      | proceed => exact ih t'
      | abort => rfl

/-- The processor goes on with every solution that has two sides of one length. -/
def GoesOn (q : Processor ν ε σ) (g₁ g₂ : Graph ν ε) : Prop :=
  ∀ xs ys s, xs.length = ys.length → ∃ s', q.process g₁ xs g₂ ys s = .ok .proceed s'

/-- A processor that goes on with everything it is given has noted all of it. -/
theorem feed_noting (hq : ∀ sol ∈ l, ∀ s, ∃ s', q.process g₁ sol.xs g₂ sol.ys s = .ok .proceed s')
    (s : σ) (noted : List Solution) :
    ∃ s', q.noting.feed g₁ g₂ l (s, noted) = (none, (s', noted ++ l)) := by
  induction l generalizing s noted with
  | nil => exact ⟨s, by rw [List.append_nil]; rfl⟩
  | cons sol l ih =>
    obtain ⟨s₁, hs₁⟩ := hq sol List.mem_cons_self s
    obtain ⟨s', hs'⟩ := ih (fun sol' h => hq sol' (List.mem_cons_of_mem sol h)) s₁ (noted ++ [sol])
    refine ⟨s', ?_⟩
    have hprocess : q.noting.process g₁ sol.xs g₂ sol.ys (s, noted) =
        .ok .proceed (s₁, noted ++ [sol]) := Callback.onFst_of_ok hs₁ (noted ++ [sol])
    rw [List.append_assoc] at hs'
    rw [feed, hprocess]
    exact hs'

end Processor

/-! ## Beside a processor that does nothing -/

/-- A search that goes by the structure of the graphs alone. -/
def Problem.structured (g₁ g₂ : Graph ν ε) (q : Processor ν ε σ) (c : Config) : Problem ν ε σ :=
  ⟨g₁, g₂, Predicate.structural, q, c⟩

/-- A search by structure that does nothing with its solutions. -/
abbrev Problem.bare (g₁ g₂ : Graph ν ε) (c : Config) : Problem ν ε Unit :=
  structured g₁ g₂ Processor.idle c

/-- The second search has a processor that is fed with what the first one delivers. -/
def Comparison.feeding (limit : Option Nat) (q : Processor ν ε σ) (g₁ g₂ : Graph ν ε) (s : σ) :
    Comparison (Unit × List Solution) σ where
  limit₁ := limit
  limit₂ := limit
  inStep _ _ x y := q.feed g₁ g₂ x.2 s = (none, y)
  rows _ := True
  before x x' := x.2 <+: x'.2
  stopped x halt _ y := q.feed g₁ g₂ x.2 s = (some halt, y)
  before_refl x := List.prefix_refl x.2
  before_trans _ _ _ h h' := h.trans h'
  stopped_before := by
    rintro x x' halt - y ⟨rest, hrest⟩ h
    rw [← hrest]
    exact Processor.feed_append_of_some h rest
  inStep_truncate _ _ _ _ _ h := h
  rows_new _ _ := trivial
  rows_start _ _ _ _ _ _ _ _ := trivial
  rows_grow _ _ _ _ _ _ := trivial
  inStep_push _ _ _ _ _ _ _ _ _ _ h := h

namespace Problem

variable {g₁ g₂ : Graph ν ε} {c : Config} {q : Processor ν ε σ}

/-- What the processor does with the next solution is what comes of feeding it with one more. -/
theorem heeded_feeding {limit : Option Nat} {s : σ} {x : Unit × List Solution} {y : σ}
    (h : q.feed g₁ g₂ x.2 s = (none, y)) (a : Arena VertexId) (found : Nat)
    (xs ys : List VertexId) :
    Heeded ((Comparison.feeding limit q g₁ g₂ s).inStep a found)
      (fun halt => (Comparison.feeding limit q g₁ g₂ s).stopped
        (endState (Processor.idle.noting.process g₁ xs g₂ ys x)) halt found)
      (Processor.idle.noting.process g₁ xs g₂ ys x) (q.process g₁ xs g₂ ys y) := by
  obtain ⟨u, noted⟩ := x
  have hnoted : Processor.idle.noting.process g₁ xs g₂ ys (u, noted) =
      .ok .proceed (u, noted ++ [⟨xs, ys⟩]) := rfl
  have hfed : q.feed g₁ g₂ (noted ++ [⟨xs, ys⟩]) s = q.feed g₁ g₂ [⟨xs, ys⟩] y :=
    Processor.feed_append_of_none h _
  -- by what the processor does: the search goes on with it, or is ended in the same way
  rw [hnoted]
  cases hq : q.process g₁ xs g₂ ys y with
  | error f y' =>
    refine .fault (hfed.trans ?_)
    simp only [Processor.feed, hq]
  | ok action y' =>
    cases action with
    | proceed =>
      refine .alike (.ok (hfed.trans ?_))
      simp only [Processor.feed, hq]
    | abort =>
      refine .abort (hfed.trans ?_)
      simp only [Processor.feed, hq]

/-- The search that does nothing with its solutions, and the search that gives them to a processor,
are in step as long as the processor goes on. -/
theorem callers_feeding (g₁ g₂ : Graph ν ε) (c : Config) (q : Processor ν ε σ) (s : σ)
    (limit : Option Nat) : (Comparison.feeding limit q g₁ g₂ s).Callers (bare g₁ g₂ c).noting
      (.plain (bare g₁ g₂ c).noting.predicate) (structured g₁ g₂ q c).predicate q
      (.plain (structured g₁ g₂ q c).predicate) where
  vertices n i j := .ask (fun x => List.prefix_refl x.2) fun a found x y h => .ok h
  edges n i₁ i₂ es₁ j₁ j₂ es₂ := .ask (fun x => List.prefix_refl x.2) fun a found x y h => .ok h
  enter n := by
    rintro ⟨level, active₁, enclosing₁, w₁⟩ ⟨_, active₂, enclosing₂, w₂⟩ rfl
    exact .heed (fun x => List.prefix_refl x.2) fun a found x y h => .alike (.ok h)
  deliver n limit := .deliver (fun xs ys x => List.prefix_append x.2 [⟨xs, ys⟩])
    fun a found x y xs ys h => heeded_feeding h a (found + 1) xs ys
  start n map i k _ := .startRow rfl trivial i k

/-- A search by structure ends as the one does that does nothing with its solutions, or it is
stopped by its processor on the way. -/
theorem search_feeding (g₁ g₂ : Graph ν ε) (c : Config) (q : Processor ν ε σ) (w : Work) (s : σ) :
    (∃ r : EStateM.Result Halt (Work × ((Unit × List Solution) × σ)) Unit,
      (bare g₁ g₂ c).noting.search (w, ((), [])) = seen (beside Prod.fst) r ∧
      (structured g₁ g₂ q c).search (w, s) = seen (beside Prod.snd) r ∧
      q.feed g₁ g₂ (endState r).2.1.2 s = (none, (endState r).2.2)) ∨
    ∃ halt w' s', (structured g₁ g₂ q c).search (w, s) = .error halt (w', s') ∧
      q.feed g₁ g₂ (endState ((bare g₁ g₂ c).noting.search (w, ((), [])))).2.2 s =
        (some halt, s') := by
  have htracks := (callers_feeding g₁ g₂ c q s w.arena.limit).searchBy 0 c.arenaLimit
  rw [← searchBy_plain, ← searchBy_plain]
  rcases htracks.exists_seen rfl rfl (x := ((), [])) (y := s) ⟨Nat.zero_le _, rfl⟩ with
    ⟨r, hr₁, hr₂, hm⟩ | ⟨halt, w', s', hr₂, hs⟩
  · exact .inl ⟨r, hr₁, hr₂, hm.inStep⟩
  · refine .inr ⟨halt, w', s', hr₂, ?_⟩
    exact hs

end Problem

/-! ## What is enumerated -/

/-- An action that succeeds with `a` or fails, as the answer says, and leaves its caller in the
state `s`. -/
def ending (answer : Except Failure Unit) (a : α) (s : σ) : EStateM.Result Failure σ α :=
  match answer with
  | .ok _ => .ok a s
  | .error f => .error f s

/-- What is answered if a search is ended early. A search that is stopped by its caller is no
failure. -/
def Halt.answer : Halt → Except Failure Unit
  | .aborted => .ok ()
  | .failed f => .error f

/-- What is answered after a search. -/
def answerOf {τ : Type} : EStateM.Result Halt τ Unit → Except Failure Unit
  | .ok _ _ => .ok ()
  | .error halt _ => halt.answer

/-- What is answered after a search does not depend on how the state is seen. -/
theorem answerOf_seen (f : τ → σ) (r : EStateM.Result Halt τ Unit) :
    answerOf (seen f r) = answerOf r := by
  cases r <;> rfl

namespace Problem

/-- What searches by structure have in common: the answer if their processor does not end them, and
what they deliver until then. -/
def enumerated (g₁ g₂ : Graph ν ε) (c : Config) : Except Failure Unit × List Solution :=
  match (bare g₁ g₂ c).noting.runOnce ((), []) with
  | .ok _ x => (.ok (), x.2)
  | .error f x => (.error f, x.2)

variable {P : Problem ν ε σ} {g₁ g₂ : Graph ν ε} {c : Config}

/-- What is enumerated can be read off a run that notes its solutions. -/
theorem enumerated_of_runOnce {answer : Except Failure Unit} {x : Unit × List Solution}
    (h : (bare g₁ g₂ c).noting.runOnce ((), []) = ending answer () x) :
    enumerated g₁ g₂ c = (answer, x.2) := by
  rw [enumerated, h]
  cases answer <;> rfl

/-- Without an arena, nothing is searched. -/
theorem runOnce_of_error {f : Fault} (h : Solver.newArena P = .error f) (s : σ) :
    P.runOnce s = ending (.error (.fault f)) () s := by
  rw [runOnce, Solver.new, h]
  rfl

/-- With an arena, the answer and the state are those of the search. -/
theorem runOnce_of_newArena {a : Arena VertexId} (h : Solver.newArena P = .ok a) (s : σ) :
    P.runOnce s = ending (answerOf (P.search ((Solver.begun P s).work, s))) ()
      (endState (P.search ((Solver.begun P s).work, s))).2 := by
  have hreset := (Solver.coherent_ofArena h s).reset_eq ⟨a, h⟩
  have hrun : (Solver.ofArena P s a).run =
      (Solver.begun P s).ended (P.search ((Solver.begun P s).work, s)) :=
    Solver.run_of_ready hreset
  rw [runOnce, Solver.new_of_newArena h]
  simp only [hrun]
  cases P.search ((Solver.begun P s).work, s) with
  | ok _ _ => rfl
  | error halt _ =>
    cases halt with
    | aborted => rfl
    | failed f => cases f <;> rfl

/-- A search by structure feeds its processor with what is enumerated, and answers as the
enumeration does unless its processor ends it. -/
theorem runOnce_structured (g₁ g₂ : Graph ν ε) (q : Processor ν ε σ) (c : Config) (s : σ) :
    (structured g₁ g₂ q c).runOnce s =
      match q.feed g₁ g₂ (enumerated g₁ g₂ c).2 s with
      | (none, s') => ending (enumerated g₁ g₂ c).1 () s'
      | (some halt, s') => ending halt.answer () s' := by
  have hsame : Solver.newArena (structured g₁ g₂ q c) = Solver.newArena (bare g₁ g₂ c).noting := rfl
  cases hn : Solver.newArena (bare g₁ g₂ c).noting with
  | error f =>
    rw [enumerated_of_runOnce (runOnce_of_error hn _), runOnce_of_error (hsame.trans hn)]
    rfl
  | ok a =>
    have hwork : (Solver.begun (structured g₁ g₂ q c) s).work =
        (Solver.begun (bare g₁ g₂ c).noting ((), [])).work := rfl
    rw [enumerated_of_runOnce (runOnce_of_newArena hn _), runOnce_of_newArena (hsame.trans hn),
      hwork]
    rcases search_feeding g₁ g₂ c q (Solver.begun (bare g₁ g₂ c).noting ((), [])).work s with
      ⟨r, hbare, hfed, hnone⟩ | ⟨halt, w', s', hfed, hsome⟩
    · rw [hbare, hfed, answerOf_seen, answerOf_seen, Solver.endState_seen, Solver.endState_seen]
      simp only [beside, hnone]
    · rw [hfed]
      simp only [hsome]
      rfl

/-- Everything that is enumerated is of a size that the settings allow. -/
theorem enumerated_allowed (g₁ g₂ : Graph ν ε) (c : Config) :
    c.AllowsAll g₁.vertexCount (enumerated g₁ g₂ c).2 := by
  cases hn : Solver.newArena (bare g₁ g₂ c).noting with
  | error f =>
    rw [enumerated_of_runOnce (runOnce_of_error hn _)]
    exact List.forall_mem_nil _
  | ok a =>
    rw [enumerated_of_runOnce (runOnce_of_newArena hn _)]
    exact (bare g₁ g₂ c).protocol_noting.final_search ⟨rfl, fun _ => Nat.le_refl _⟩
      (List.forall_mem_nil _)

/-- Nothing ends an enumeration without a limit for the arena. -/
theorem enumerated_ok (hg₁ : g₁.WellFormed) (hg₂ : g₂.WellFormed) (hlimit : c.arenaLimit = none)
    (hm : c.arenaMultiplier = Config.defaultArenaMultiplier) :
    (enumerated g₁ g₂ c).1 = .ok () := by
  have hn := Solver.newArena_eq (P := (bare g₁ g₂ c).noting) hg₂ hm
  have hnew := Solver.new_of_newArena hn ((), [])
  have hcontinues : (bare g₁ g₂ c).noting.Continues :=
    Continues.noting ⟨fun _ env => ⟨env, rfl⟩, fun _ _ env _ => ⟨env, rfl⟩⟩
  obtain ⟨hok, -, -⟩ := (Solver.coherent_ofArena hn ((), [])).deliveries_eq hg₁ hg₂
    (Predicate.answers_structural g₁ g₂).onFst hcontinues hlimit ⟨_, hn⟩
  rw [enumerated, runOnce_eq hnew hok]

/-- A processor that goes on with every solution is delivered everything that is enumerated. -/
theorem runOnce_noting {q : Processor ν ε σ} (hq : q.GoesOn g₁ g₂) (c : Config) (s : σ) :
    ∃ s', (structured g₁ g₂ q.noting c).runOnce (s, []) =
      ending (enumerated g₁ g₂ c).1 () (s', (enumerated g₁ g₂ c).2) := by
  obtain ⟨s', hfed⟩ := Processor.feed_noting
    (fun sol hsol s => hq sol.xs sol.ys s (enumerated_allowed g₁ g₂ c sol hsol).length_eq) s []
  refine ⟨s', ?_⟩
  rw [runOnce_structured, hfed]
  rfl

/-- What is beside the state of the processor makes no difference. -/
theorem runWith_structural (g₁ g₂ : Graph ν ε) (q : Processor ν ε τ) (c : Config) (start : τ)
    (s : σ) : runWith g₁ g₂ Predicate.structural q c start s =
      match (structured g₁ g₂ q c).runOnce start with
      | .ok _ t => .ok t s
      | .error f _ => .error f s := by
  have honce : runOnce ⟨g₁, g₂, Predicate.structural.onFst, q.onSnd, c⟩ (s, start) =
      (structured g₁ g₂ q.onSnd c).runOnce (s, start) := rfl
  rw [runWith, honce, runOnce_structured, runOnce_structured, Processor.feed_onSnd]
  obtain ⟨ended, t⟩ := q.feed g₁ g₂ (enumerated g₁ g₂ c).2 start
  cases ended with
  | none => cases (enumerated g₁ g₂ c).1 <;> rfl
  | some halt => cases halt <;> rfl

/-- The first solution of a size is the first one that is enumerated for that size alone. -/
theorem findFirst_structural (g₁ g₂ : Graph ν ε) (size : Nat) (s : σ) :
    findFirst g₁ g₂ size Predicate.structural s =
      match enumerated g₁ g₂ (Config.fixedSize size) with
      | (_, sol :: _) => .ok sol s
      | (.ok _, []) => .ok Solution.empty s
      | (.error f, []) => .error f s := by
  have hallowed := enumerated_allowed g₁ g₂ (Config.fixedSize size)
  have hfound : findFirst g₁ g₂ size Predicate.structural s =
      match runWith g₁ g₂ Predicate.structural FirstFound.processor (Config.fixedSize size)
        FirstFound.empty s with
      | .ok kept s' => .ok kept.result s'
      | .error f s' => .error f s' := by
    show EStateM.map _ _ s = _
    rw [EStateM.map]
    cases runWith g₁ g₂ Predicate.structural FirstFound.processor (Config.fixedSize size)
      FirstFound.empty s <;> rfl
  rw [hfound, runWith_structural, runOnce_structured]
  -- only the list and the answer matter from here on
  generalize enumerated g₁ g₂ (Config.fixedSize size) = e at hallowed
  obtain ⟨answer, l⟩ := e
  cases l with
  | nil => cases answer <;> rfl
  | cons sol rest =>
    have hsides : sol.xs.length = sol.ys.length := (hallowed sol List.mem_cons_self).length_eq
    have hprocess : FirstFound.processor.process g₁ sol.xs g₂ sol.ys .empty =
        .ok .abort ⟨some sol⟩ := FirstFound.process_eq g₁ g₂ .empty hsides
    rw [Processor.feed, hprocess]
    rfl

end Problem

end CommonSubgraph
