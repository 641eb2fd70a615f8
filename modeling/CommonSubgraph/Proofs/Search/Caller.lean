import CommonSubgraph.Proofs.Search.Script

/-!
# What a script makes of the caller's state

A step hands the caller's state to one callback, and whatever becomes of the search the state is
then as the callback left it (`Problem.after`). However a program ends, it has made such changes
for the first steps of its script, one after the other, and for all of them if nothing stopped it
(`Problem.Follows.env_eq_foldl`).

A caller can have a state beside the one that its callbacks are about; they leave it alone.
-/

namespace CommonSubgraph

variable {ν ε σ τ α : Type}

/-- A list up to one of its members and with it. -/
theorem concat_prefix_append_cons (l : List α) (a : α) (l' : List α) :
    l ++ [a] <+: l ++ a :: l' := by
  rw [List.append_cons l a l']
  exact List.prefix_append _ _

/-- The state in which a step computation ends, be it early or not. -/
def endState {η τ α : Type} : EStateM.Result η τ α → τ
  | .ok _ s => s
  | .error _ s => s

namespace Problem

variable {P : Problem ν ε σ} {st : Step} {E : List Step} {env env' : σ}

/-- The caller's state after a step, whether the search passes it or not. -/
def after (P : Problem ν ε σ) (env : σ) (st : Step) : σ :=
  match st.act with
  | .vertices i j _ => endState (P.predicate.vertices P.first i P.second j env)
  | .edges i₁ i₂ es₁ j₁ j₂ es₂ _ =>
    endState (P.predicate.edges P.first i₁ i₂ es₁ P.second j₁ j₂ es₂ env)
  | .progress level => endState (P.predicate.progress level env)
  | .solution xs ys => endState (P.processor.process P.first xs P.second ys env)
  | .reserve _ => env

/-- A step that is passed leaves the caller in the state that follows it. -/
theorem Passes.eq_after (h : P.Passes st env env') : env' = P.after env st := by
  obtain ⟨v, act⟩ := st
  cases act with
  | vertices => exact (congrArg endState h).symm
  | edges => exact (congrArg endState h).symm
  | progress => exact (congrArg endState h).symm
  | solution => exact (congrArg endState h).symm
  | reserve => exact h.1

/-- A step that ends the search leaves the caller in the state that follows it. -/
theorem Stops.eq_after {halt : Halt} (h : P.Stops st env halt env') : env' = P.after env st := by
  obtain ⟨v, act⟩ := st
  cases act with
  | vertices =>
    obtain ⟨f, -, h⟩ := h
    exact (congrArg endState h).symm
  | edges =>
    obtain ⟨f, -, h⟩ := h
    exact (congrArg endState h).symm
  | progress =>
    rcases h with ⟨-, h⟩ | ⟨f, -, h⟩
    · exact (congrArg endState h).symm
    · exact (congrArg endState h).symm
  | solution =>
    rcases h with ⟨-, h⟩ | ⟨f, -, h⟩
    · exact (congrArg endState h).symm
    · exact (congrArg endState h).symm
  | reserve => exact h.1

/-- A script that is heard leaves the caller in the state that follows its steps. -/
theorem Heard.eq_foldl (h : P.Heard E env env') : env' = E.foldl P.after env := by
  induction h with
  | nil => rfl
  | cons head _ ih => rw [List.foldl_cons, ← head.eq_after, ih]

/-- However a program ends, the caller's state has gone through the first steps of its script. -/
theorem Follows.env_eq_foldl {keep : Nat → Prop} {m : SearchM σ α} {w w' : Work} {a : α}
    (h : P.Follows keep m w env E a w') :
    ∃ E₁, E₁ <+: E ∧ (endState (m (w, env))).2 = E₁.foldl P.after env := by
  cases h with
  | through heard eq =>
    rw [eq]
    exact ⟨E, List.prefix_refl E, heard.eq_foldl⟩
  | @stopped E₁ E₂ st env₁ env' halt w'' n split heard stops eq _ _ =>
    rw [eq, split]
    refine ⟨E₁ ++ [st], concat_prefix_append_cons E₁ st E₂, ?_⟩
    · rw [List.foldl_append, ← heard.eq_foldl]
      exact stops.eq_after

end Problem

/-! ## A state beside that of the callbacks -/

namespace Callback

variable {m : Callback σ α} {a : α} {s s' : σ} {env env' : σ × τ}

/-- A callback on the first state leaves the second as it is, however it ends. -/
theorem endState_onFst (m : Callback σ α) (env : σ × τ) :
    endState (m.onFst env) = (endState (m env.1), env.2) := by
  obtain ⟨s, t⟩ := env
  simp only [onFst]
  cases m s <;> rfl

/-- A callback on the first state gives the value that it gives alone. -/
theorem onFst_of_ok (h : m s = .ok a s') (t : τ) : m.onFst (s, t) = .ok a (s', t) := by
  simp only [onFst, h]

/-- A callback on the first state has the fault that it has alone. -/
theorem onFst_of_error {f : Fault} (h : m s = .error f s') (t : τ) :
    m.onFst (s, t) = .error f (s', t) := by
  simp only [onFst, h]

/-- The value of a callback on the first state is the one that it gives alone. -/
theorem ok_of_onFst (h : m.onFst env = .ok a env') : m env.1 = .ok a env'.1 := by
  obtain ⟨s, t⟩ := env
  simp only [onFst] at h
  show m s = .ok a env'.1
  cases hm : m s with
  | ok a₁ s₁ =>
    rw [hm] at h
    cases h
    rfl
  | error f s₁ =>
    rw [hm] at h
    cases h

end Callback

/-- With a state beside its own, a predicate answers as the same tests. -/
theorem Predicate.Answers.onFst {p : Predicate ν ε σ} {g₁ g₂ : Graph ν ε} {T : Tests}
    (h : p.Answers g₁ g₂ T) : (p.onFst : Predicate ν ε (σ × τ)).Answers g₁ g₂ T where
  vertices_eq i j s hi hj := Callback.onFst_of_ok (h.vertices_eq i j s.1 hi hj) s.2
  edges_eq i₁ i₂ j₁ j₂ s hi₁ hi₂ hj₁ hj₂ :=
    Callback.onFst_of_ok (h.edges_eq i₁ i₂ j₁ j₂ s.1 hi₁ hi₂ hj₁ hj₂) s.2

end CommonSubgraph
