import CommonSubgraph.Cancellation
import CommonSubgraph.Proofs.Solver.History

/-!
# Searches that can be cancelled

A caller made cancellable answers a search by calls of its own inner callbacks, and does not make
all of them: where a level is entered it counts first, and may stop the search without asking.
`t.notes p q budget` lists what goes on in the next run of such a solver: the levels it enters and
the inner calls that are made, each noted just before it happens together with whether the token is
cancelled by then. Taking the notes makes no other difference to the run (`Solver.run_overheard`).
-/

namespace CommonSubgraph

variable {ν ε σ α : Type}

/-! ## Callers that only watch -/

/-- A callback that mirrors another one ends alike with it. -/
theorem Mirrors.endAlike {σ' : Type} {f : σ' → σ} {m' : Callback σ' α} {m : Callback σ α}
    (h : Mirrors f m' m) {x : σ} {y : σ'} (hxy : f y = x) :
    EndAlike (fun x y => f y = x) (m x) (m' y) := by
  have hy := h y
  rw [hxy] at hy
  rw [← hy]
  cases m' y with
  | ok a y' => exact .ok rfl
  | error fault y' => exact .error rfl

/-- A caller that only watches answers as the one that it watches. -/
theorem Problem.Watched.alikeBy {σ' : Type} {P : Problem ν ε σ} {p : Predicate ν ε σ'}
    {q : Processor ν ε σ'} {π : σ' → σ} (h : P.Watched p q π) :
    P.AlikeBy (P.recast p q) fun x y => π y = x where
  first_eq := rfl
  second_eq := rfl
  config_eq := rfl
  vertices i j _ _ hxy := (h.vertices P.first i P.second j).endAlike hxy
  edges i₁ i₂ es₁ j₁ j₂ es₂ _ _ hxy :=
    (h.edges P.first i₁ i₂ es₁ P.second j₁ j₂ es₂).endAlike hxy
  progress level _ _ hxy := (h.progress level).endAlike hxy
  process xs ys _ _ hxy := (h.process P.first xs P.second ys).endAlike hxy

/-- Solvers that differ in their callers run alike if neither comes to its search. -/
theorem Solver.RunsAlike.of_reset_error {σ' : Type} {s s₁ : Solver ν ε σ} {p : Predicate ν ε σ'}
    {q : Processor ν ε σ'} {R : σ → σ' → Prop} {env : σ'} {f : Fault}
    (h : s.reset = (.error f, s₁)) (h' : (s.recast p q env).reset = (.error f, s₁.recast p q env))
    (henv : R s.env env) : s.RunsAlike R (s.recast p q env) := by
  have hrun := run_of_error h
  have hrun' := run_of_error h'
  have hsame := s.reset_keeps.2
  rw [h] at hsame
  refine ⟨?_, ?_, ?_, ?_, ?_, ?_⟩
  · rw [events_of_error h, events_of_error h']
  · rw [hrun, hrun']
  · rw [hrun, hrun']
    rfl
  · rw [hrun, hrun']
    rfl
  · rw [hrun, hrun']
    rfl
  · rw [hrun, hrun', show s₁.env = s.env from hsame]
    exact henv

/-- Solvers that differ in callers that answer alike run alike. -/
theorem Solver.RunsAlike.recast {σ' : Type} {s : Solver ν ε σ} {p : Predicate ν ε σ'}
    {q : Processor ν ε σ'} {R : σ → σ' → Prop} (h : s.problem.AlikeBy (s.problem.recast p q) R)
    {env : σ'} (henv : R s.env env) : s.RunsAlike R (s.recast p q env) := by
  have hreset := s.reset_recast p q env
  obtain ⟨hproblem, hsame⟩ := s.reset_keeps
  cases hr : s.reset with
  | mk r s₁ =>
    rw [hr] at hreset hproblem hsame
    cases r with
    | error f => exact .of_reset_error hr hreset henv
    | ok u =>
      obtain ⟨r, hr₁, hr₂, hevents, hR⟩ := h.recorded s₁.work henv
      rw [← show s₁.problem = s.problem from hproblem] at hr₁ hr₂
      rw [← show s₁.env = s.env from hsame] at hr₁
      exact .of_seen hr hreset hr₁ hr₂ hevents rfl rfl hR

/-- Runs that are alike to one and the same run are alike. -/
theorem Solver.RunsAlike.common {σ₁ σ₂ σ₃ : Type} {s₁ : Solver ν ε σ₁} {s₂ : Solver ν ε σ₂}
    {s₃ : Solver ν ε σ₃} {R : σ₁ → σ₃ → Prop} {R' : σ₂ → σ₃ → Prop} {R'' : σ₁ → σ₂ → Prop}
    (h : s₁.RunsAlike R s₃) (h' : s₂.RunsAlike R' s₃) (hR : ∀ x y z, R x z → R' y z → R'' x y) :
    s₁.RunsAlike R'' s₂ where
  events_eq := h.events_eq.trans h'.events_eq.symm
  result_eq := h.result_eq.trans h'.result_eq.symm
  status_eq := h.status_eq.trans h'.status_eq.symm
  found_eq := h.found_eq.trans h'.found_eq.symm
  highWater_eq := h.highWater_eq.trans h'.highWater_eq.symm
  env := hR _ _ _ h.env h'.env

/-! ## Notes -/

/-- What goes on in a search that can be cancelled, and whether it was cancelled by then. -/
inductive Note where
  /-- A level is entered; nothing has been counted there yet. -/
  | entered (level : Nat) (cancelled : Bool)
  /-- An inner callback is called. -/
  | called (call : Event) (cancelled : Bool)
deriving DecidableEq

namespace Note

/-- The token was cancelled when the note was taken. -/
def cancelled : Note → Bool
  | entered _ cancelled | called _ cancelled => cancelled

/-- The inner call that is noted. -/
def call? : Note → Option Event
  | entered _ _ => none
  | called call _ => some call

/-- A level is entered. -/
def isEntered : Note → Bool
  | entered _ _ => true
  | called _ _ => false

end Note

/-! ## Callers that are overheard -/

/-- The callback, with a note taken before it is called. -/
def Callback.overheard (call : Event) (m : Callback (Token × σ) α) :
    Callback (Token × (σ × List Note)) α := fun (token, s, notes) =>
  match m (token, s) with
  | .ok a (token', s') => .ok a (token', s', notes ++ [.called call token.cancelled])
  | .error f (token', s') => .error f (token', s', notes ++ [.called call token.cancelled])

/-- The predicate with every call of it noted. -/
def Predicate.overheard (p : Predicate ν ε (Token × σ)) :
    Predicate ν ε (Token × (σ × List Note)) where
  vertices g₁ i g₂ j := (p.vertices g₁ i g₂ j).overheard (.vertices i j)
  edges g₁ i₁ i₂ es₁ g₂ j₁ j₂ es₂ :=
    (p.edges g₁ i₁ i₂ es₁ g₂ j₁ j₂ es₂).overheard (.edges i₁ i₂ es₁ j₁ j₂ es₂)
  progress level := (p.progress level).overheard (.progress level)

/-- The processor with every call of it noted. -/
def Processor.overheard (q : Processor ν ε (Token × σ)) :
    Processor ν ε (Token × (σ × List Note)) where
  process g₁ xs g₂ ys := (q.process g₁ xs g₂ ys).overheard (.solution xs ys)

/-- The predicate made cancellable, with every level and every inner call noted. -/
def Predicate.overseen (p : Predicate ν ε (Token × σ)) (budget : Option Nat) :
    Predicate ν ε (Watch × (σ × List Note)) :=
  { p.overheard.cancellable budget with
    progress := fun level => do
      modify fun (w, s, notes) => (w, s, notes ++ [.entered level w.token.cancelled])
      (p.overheard.cancellable budget).progress level }

/-- The state of a caller without the notes. -/
def Note.forget (y : Watch × (σ × List Note)) : Watch × σ := (y.1, y.2.1)

namespace Callback

/-- A callback that is watched sees the token and leaves the rest of the watch as it is. -/
theorem watched_eq (m : Callback (Token × σ) α) (w : Watch) (s : σ) :
    m.watched (w, s) = match m (w.token, s) with
      | .ok a (token, s') => .ok a ({ w with token }, s')
      | .error f (token, s') => .error f ({ w with token }, s') := rfl

/-- A callback that is overheard leaves a note of its call, with the token as it was before it. -/
theorem overheard_watched_eq (call : Event) (m : Callback (Token × σ) α) (w : Watch) (s : σ)
    (notes : List Note) : (m.overheard call).watched (w, s, notes) = match m (w.token, s) with
      | .ok a (token, s') =>
        .ok a ({ w with token }, s', notes ++ [.called call w.token.cancelled])
      | .error f (token, s') =>
        .error f ({ w with token }, s', notes ++ [.called call w.token.cancelled]) := by
  simp only [watched, overheard]
  cases m (w.token, s) <;> rfl

/-- Overhearing a callback changes nothing but the notes. -/
theorem mirrors_overheard (call : Event) (m : Callback (Token × σ) α) :
    Mirrors Note.forget (m.overheard call).watched m.watched := by
  rintro ⟨w, s, notes⟩
  show seen Note.forget ((m.overheard call).watched (w, s, notes)) = m.watched (w, s)
  rw [overheard_watched_eq, watched_eq]
  cases m (w.token, s) <;> rfl

end Callback

namespace Predicate

variable (p : Predicate ν ε (Token × σ)) (budget : Option Nat)

/-- At a level, the token and the budget are looked at first, and the inner caller is told only if
neither ends the search. -/
theorem cancellable_progress_eq (level : Nat) (w : Watch) (s : σ) :
    (p.cancellable budget).progress level (w, s) =
      if w.token.cancelled || (w.record level).overBudget budget then
        .ok .abort (w.record level, s)
      else (p.progress level).watched (w.record level, s) := by
  show (if w.token.cancelled || (w.record level).overBudget budget then
    (pure .abort : Callback (Watch × σ) Action) else (p.progress level).watched)
      (w.record level, s) = _
  split <;> rfl

/-- An overseen caller notes the level entered before anything is looked at. -/
theorem overseen_progress_eq (level : Nat) (w : Watch) (s : σ) (notes : List Note) :
    (p.overseen budget).progress level (w, s, notes) =
      (p.overheard.cancellable budget).progress level
        (w, s, notes ++ [.entered level w.token.cancelled]) := rfl

/-- Overseeing a caller changes nothing but the notes at a level. -/
theorem mirrors_overseen_progress (level : Nat) : Mirrors Note.forget
    ((p.overseen budget).progress level) ((p.cancellable budget).progress level) := by
  rintro ⟨w, s, notes⟩
  show _ = (p.cancellable budget).progress level (w, s)
  rw [overseen_progress_eq, cancellable_progress_eq, cancellable_progress_eq]
  split
  · rfl
  · exact (p.progress level).mirrors_overheard (.progress level) (w.record level, s, _)

end Predicate

namespace Solver

/-- The solver of a fresh cancellable caller: nothing has been counted. -/
def cancellable (s : Solver ν ε (Token × σ)) (budget : Option Nat) : Solver ν ε (Watch × σ) :=
  s.recast (s.problem.predicate.cancellable budget) s.problem.processor.watched
    (Watch.start s.env.1, s.env.2)

/-- The solver with a cancellable caller that is overheard. -/
def overheard (t : Solver ν ε (Watch × σ)) (p : Predicate ν ε (Token × σ))
    (q : Processor ν ε (Token × σ)) (budget : Option Nat) :
    Solver ν ε (Watch × (σ × List Note)) :=
  t.recast (p.overseen budget) q.overheard.watched (t.env.1, t.env.2, [])

/-- What goes on in the next run of a solver whose caller is `p` and `q` made cancellable. -/
def notes (t : Solver ν ε (Watch × σ)) (p : Predicate ν ε (Token × σ))
    (q : Processor ν ε (Token × σ)) (budget : Option Nat) : List Note :=
  (t.overheard p q budget).run.2.env.2.2

/-- The caller of the solver is `p` and `q` made cancellable. -/
structure Under (t : Solver ν ε (Watch × σ)) (p : Predicate ν ε (Token × σ))
    (q : Processor ν ε (Token × σ)) (budget : Option Nat) : Prop where
  predicate_eq : t.problem.predicate = p.cancellable budget
  processor_eq : t.problem.processor = q.watched

variable {t : Solver ν ε (Watch × σ)} {p : Predicate ν ε (Token × σ)}
variable {q : Processor ν ε (Token × σ)} {budget : Option Nat}

/-- A caller that is overheard is watched, which changes nothing in its own state. -/
theorem Under.watched (h : t.Under p q budget) :
    t.problem.Watched (p.overseen budget) q.overheard.watched Note.forget where
  vertices g₁ i g₂ j := by
    rw [h.predicate_eq]
    exact (p.vertices g₁ i g₂ j).mirrors_overheard _
  edges g₁ i₁ i₂ es₁ g₂ j₁ j₂ es₂ := by
    rw [h.predicate_eq]
    exact (p.edges g₁ i₁ i₂ es₁ g₂ j₁ j₂ es₂).mirrors_overheard _
  progress level := by
    rw [h.predicate_eq]
    exact p.mirrors_overseen_progress budget level
  process g₁ xs g₂ ys := by
    rw [h.processor_eq]
    exact (q.process g₁ xs g₂ ys).mirrors_overheard _

/-- Overhearing the caller makes no other difference to a run. -/
theorem Under.run_overheard (h : t.Under p q budget) :
    t.RunsAlike (fun x y => Note.forget y = x) (t.overheard p q budget) :=
  .recast h.watched.alikeBy rfl

end Solver

end CommonSubgraph
