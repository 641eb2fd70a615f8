import CommonSubgraph.Isomorphism
import CommonSubgraph.Proofs.Arena
import CommonSubgraph.Proofs.OrderedSet.Lists
import CommonSubgraph.Search.Level

/-!
# Scripts of a search

A search meets its caller, and the limit of its arena, one step after the other. A *script* lists
the steps that come when nothing stops the search: the questions with their answers, the levels
entered, the solutions delivered and the arena slots reserved, each with the state of the search at
that moment (`Step`). A state is given as a `View`, with lists in place of linked tables.

`P.Runs A keep m w R` ties a program to its scripts. Whatever the state of the caller, there is a
script with answers among `A` and an outcome that satisfies `R`, and `m` run from `w` does one of
two things (`Problem.Follows`): it goes through the whole script and has that outcome, or it ends at
the first step that the caller or the limit does not let pass, with the state that the step shows.
The arena may by then have been taken back to a size among `keep`.

The rules for `Runs` follow the shape of programs (`Runs.bind`, `Runs.silent`, `Runs.releasing`) and
the kinds of steps (`runs_vertices` to `runs_startRow`).
-/

namespace CommonSubgraph

variable {ν ε σ α β : Type}

/-! ## States and steps -/

/-- The state of a search, with lists in place of linked tables. -/
structure View where
  /-- The pairs made so far, oldest first. -/
  pairs : List (VertexId × VertexId)
  /-- Vertices of the first graph that are not left out. -/
  considered : List VertexId
  /-- Vertices of the first graph that are neither left out nor paired. -/
  unpaired : List VertexId
  /-- The smallest size in force. -/
  minimum : Nat
  /-- Solutions delivered so far. -/
  found : Nat
  arena : Arena VertexId

/-- The state with its arena taken back to `n` slots. -/
def View.rewind (v : View) (n : Nat) : View := { v with arena := v.arena.truncate n }

/-- Taking the arena back to its top changes nothing. -/
theorem View.rewind_size (v : View) : v.rewind v.arena.size = v := by
  rw [View.rewind, Arena.truncate_size]

/-- Of two positions that the arena is taken back to, the lower one counts. -/
theorem View.rewind_rewind (v : View) {m n : Nat} (h : n ≤ m) :
    (v.rewind m).rewind n = v.rewind n := by
  simp only [View.rewind, Arena.truncate_truncate _ h]

/-- The state that remains when the search is halted in `v` and takes its arena back to `n` slots.
Nothing is tidied up after a fault. -/
def View.afterHalt (v : View) (n : Nat) : Halt → View
  | .failed (.fault _) => v
  | _ => v.rewind n

/-- The working state is the one that the view describes. -/
structure Problem.Shows (P : Problem ν ε σ) (w : Work) (v : View) : Prop where
  xs_eq : w.xs.toList = v.pairs.map Prod.fst
  ys_eq : w.ys.toList = v.pairs.map Prod.snd
  considered : w.considered.Lists P.first.vertexCount v.considered
  unpaired : w.unpaired.Lists P.first.vertexCount v.unpaired
  targets : w.targets.Lists P.second.vertexCount P.second.vertexIds
  minimum_eq : w.minimum = v.minimum
  found_eq : w.found = v.found
  arena_eq : w.arena = v.arena

/-- What a search does at a step. -/
inductive Act where
  /-- Ask whether two vertices may be paired. -/
  | vertices (i j : VertexId) (answer : Bool)
  /-- Ask whether the edges at two pairs go together. -/
  | edges (i₁ i₂ : VertexId) (edges₁ : List EdgeId) (j₁ j₂ : VertexId) (edges₂ : List EdgeId)
    (answer : Bool)
  /-- Tell that a level is entered. -/
  | progress (level : Nat)
  /-- Hand over a solution. -/
  | solution (xs ys : List VertexId)
  /-- Reserve arena slots. -/
  | reserve (n : Nat)

/-- A question names vertices of the two graphs and all the edges at them, and a solution has as
many vertices on one side as on the other. -/
def Act.Proper (g₁ g₂ : Graph ν ε) : Act → Prop
  | .vertices i j _ => g₁.containsVertex i = true ∧ g₂.containsVertex j = true
  | .edges i₁ i₂ es₁ j₁ j₂ es₂ _ =>
    (g₁.containsVertex i₁ = true ∧ g₁.containsVertex i₂ = true ∧ es₁ = g₁.touching i₁ i₂) ∧
      g₂.containsVertex j₁ = true ∧ g₂.containsVertex j₂ = true ∧ es₂ = g₂.touching j₁ j₂
  | .solution xs ys => xs.length = ys.length
  | _ => True

/-- What a search does, with the state in which it does it. -/
structure Step where
  view : View
  act : Act

namespace Problem

variable (P : Problem ν ε σ)

/-- The caller, or the limit of the arena, lets the search pass the step. -/
def Passes (st : Step) (env env' : σ) : Prop :=
  match st.act with
  | .vertices i j b => P.predicate.vertices P.first i P.second j env = .ok b env'
  | .edges i₁ i₂ es₁ j₁ j₂ es₂ b =>
    P.predicate.edges P.first i₁ i₂ es₁ P.second j₁ j₂ es₂ env = .ok b env'
  | .progress level => P.predicate.progress level env = .ok .proceed env'
  | .solution xs ys => P.processor.process P.first xs P.second ys env = .ok .proceed env'
  | .reserve n => env' = env ∧ ∃ top, st.view.arena.reserve n = .ok top

/-- The step ends the search. -/
def Stops (st : Step) (env : σ) (h : Halt) (env' : σ) : Prop :=
  match st.act with
  | .vertices i j _ =>
    ∃ f, h = .failed (.fault f) ∧ P.predicate.vertices P.first i P.second j env = .error f env'
  | .edges i₁ i₂ es₁ j₁ j₂ es₂ _ =>
    ∃ f, h = .failed (.fault f) ∧
      P.predicate.edges P.first i₁ i₂ es₁ P.second j₁ j₂ es₂ env = .error f env'
  | .progress level =>
    (h = .aborted ∧ P.predicate.progress level env = .ok .abort env') ∨
      ∃ f, h = .failed (.fault f) ∧ P.predicate.progress level env = .error f env'
  | .solution xs ys =>
    (h = .aborted ∧ P.processor.process P.first xs P.second ys env = .ok .abort env') ∨
      ∃ f, h = .failed (.fault f) ∧
        P.processor.process P.first xs P.second ys env = .error f env'
  | .reserve n =>
    env' = env ∧ ∃ e, h = .failed (.exhausted e) ∧ st.view.arena.reserve n = .error e

/-- The search passes all the steps, one after the other. -/
inductive Heard : List Step → σ → σ → Prop where
  | nil {env : σ} : Heard [] env env
  | cons {st : Step} {E : List Step} {env env₁ env' : σ} (head : P.Passes st env env₁)
    (tail : Heard E env₁ env') : Heard (st :: E) env env'

variable {P}

/-- Two scripts that are heard one after the other are heard together. -/
theorem Heard.append {E E' : List Step} {env env₁ env' : σ} (h : P.Heard E env env₁)
    (h' : P.Heard E' env₁ env') : P.Heard (E ++ E') env env' := by
  induction h with
  | nil => exact h'
  | cons head _ ih => exact .cons head (ih h')

/-- The arena is exhausted only where slots are reserved. -/
theorem Stops.of_exhausted {st : Step} {env env' : σ} {e : ArenaExhausted}
    (h : P.Stops st env (.failed (.exhausted e)) env') :
    ∃ n, st.act = .reserve n ∧ st.view.arena.reserve n = .error e := by
  obtain ⟨v, act⟩ := st
  cases act with
  | vertices | edges =>
    obtain ⟨_, hh, -⟩ := h
    cases hh
  | progress | solution =>
    rcases h with ⟨hh, -⟩ | ⟨_, hh, -⟩ <;> cases hh
  | reserve n =>
    obtain ⟨-, _, hh, hr⟩ := h
    cases hh
    exact ⟨n, rfl, hr⟩

/-! ## Programs and their scripts -/

/-- How running `m` from `w` relates to the script `E` with the outcome `a` and `w'`. -/
inductive Follows (P : Problem ν ε σ) (keep : Nat → Prop) (m : SearchM σ α) (w : Work) (env : σ)
    (E : List Step) (a : α) (w' : Work) : Prop where
  /-- All the steps pass. -/
  | through {env' : σ} (heard : P.Heard E env env') (eq : m (w, env) = .ok a (w', env'))
  /-- The steps before `st` pass, and `st` does not. -/
  | stopped {E₁ E₂ : List Step} {st : Step} {env₁ env' : σ} {h : Halt} {w'' : Work} {n : Nat}
    (split : E = E₁ ++ st :: E₂) (heard : P.Heard E₁ env env₁) (stops : P.Stops st env₁ h env')
    (eq : m (w, env) = .error h (w'', env')) (kept : keep n)
    (shows : P.Shows w'' (st.view.afterHalt n h))

/-- Whatever the state of the caller, running `m` from `w` follows a script whose answers are among
`A` and whose outcome satisfies `R`. -/
def Runs (P : Problem ν ε σ) (A : Act → Prop) (keep : Nat → Prop) (m : SearchM σ α) (w : Work)
    (R : List Step → α → Work → Prop) : Prop :=
  ∀ env, ∃ E a w', R E a w' ∧ (∀ st ∈ E, A st.act) ∧ P.Follows keep m w env E a w'

/-- The caller answers proper questions within `A`, and there is always such an answer. -/
structure Within (P : Problem ν ε σ) (A : Act → Prop) : Prop where
  exists_vertices : ∀ i j, P.first.containsVertex i = true → P.second.containsVertex j = true →
    ∃ b, A (.vertices i j b)
  vertices : ∀ i j b env env', P.first.containsVertex i = true →
    P.second.containsVertex j = true → P.predicate.vertices P.first i P.second j env = .ok b env' →
    A (.vertices i j b)
  exists_edges : ∀ i₁ i₂ j₁ j₂, P.first.containsVertex i₁ = true →
    P.first.containsVertex i₂ = true → P.second.containsVertex j₁ = true →
    P.second.containsVertex j₂ = true →
    ∃ b, A (.edges i₁ i₂ (P.first.touching i₁ i₂) j₁ j₂ (P.second.touching j₁ j₂) b)
  edges : ∀ i₁ i₂ j₁ j₂ b env env', P.first.containsVertex i₁ = true →
    P.first.containsVertex i₂ = true → P.second.containsVertex j₁ = true →
    P.second.containsVertex j₂ = true →
    P.predicate.edges P.first i₁ i₂ (P.first.touching i₁ i₂) P.second j₁ j₂
      (P.second.touching j₁ j₂) env = .ok b env' →
    A (.edges i₁ i₂ (P.first.touching i₁ i₂) j₁ j₂ (P.second.touching j₁ j₂) b)
  progress : ∀ level, A (.progress level)
  solution : ∀ pairs : List (VertexId × VertexId),
    A (.solution (pairs.map Prod.fst) (pairs.map Prod.snd))
  reserve : ∀ n, A (.reserve n)

/-- Whatever the caller answers, only proper questions are asked. -/
theorem within_proper (P : Problem ν ε σ) : P.Within (Act.Proper P.first P.second) where
  exists_vertices _ _ hi hj := ⟨true, hi, hj⟩
  vertices _ _ _ _ _ hi hj _ := ⟨hi, hj⟩
  exists_edges _ _ _ _ hi₁ hi₂ hj₁ hj₂ := ⟨true, ⟨hi₁, hi₂, rfl⟩, hj₁, hj₂, rfl⟩
  edges _ _ _ _ _ _ _ hi₁ hi₂ hj₁ hj₂ _ := ⟨⟨hi₁, hi₂, rfl⟩, hj₁, hj₂, rfl⟩
  progress _ := trivial
  solution pairs := by simp [Act.Proper]
  reserve _ := trivial

section Rules

variable {A : Act → Prop} {keep keep' : Nat → Prop} {w w₁ : Work} {v : View}
variable {R R' : List Step → α → Work → Prop}

/-- After a value the next program goes on with it. -/
theorem bind_ok {s s' : Work × σ} {m : SearchM σ α} {f : α → SearchM σ β} {a : α}
    (h : m s = .ok a s') : (m >>= f) s = f a s' := by
  simp only [bind, EStateM.bind, h]

/-- After a halt nothing goes on. -/
theorem bind_error {s s' : Work × σ} {m : SearchM σ α} {f : α → SearchM σ β} {h : Halt}
    (he : m s = .error h s') : (m >>= f) s = .error h s' := by
  simp only [bind, EStateM.bind, he]

/-- Reading the working state changes nothing. -/
theorem work_eq (w : Work) (env : σ) : SearchM.work (w, env) = .ok w (w, env) := rfl

/-- What is said of the outcome can be weakened. -/
theorem Runs.mono {m : SearchM σ α} (h : P.Runs A keep m w R)
    (hR : ∀ E a w', R E a w' → R' E a w') : P.Runs A keep m w R' := by
  intro env
  obtain ⟨E, a, w', hr, hA, hf⟩ := h env
  exact ⟨E, a, w', hR E a w' hr, hA, hf⟩

/-- A program that takes its arena back to certain positions does so to more. -/
theorem Runs.keep_mono {m : SearchM σ α} (h : P.Runs A keep m w R) (hk : ∀ n, keep n → keep' n) :
    P.Runs A keep' m w R := by
  intro env
  obtain ⟨E, a, w', hr, hA, hf⟩ := h env
  refine ⟨E, a, w', hr, hA, ?_⟩
  cases hf with
  | through heard eq => exact .through heard eq
  | stopped split heard stops eq kept shows => exact .stopped split heard stops eq (hk _ kept) shows

/-- Giving a value has an empty script. -/
theorem Runs.pure {a : α} (h : R [] a w) : P.Runs A keep (pure a) w R :=
  fun _ => ⟨[], a, w, h, fun _ hst => absurd hst List.not_mem_nil, .through .nil rfl⟩

/-- What changes the working state without a step changes nothing else. -/
theorem Runs.silent {m m₁ : SearchM σ α} (heq : ∀ env, m (w, env) = m₁ (w₁, env))
    (h : P.Runs A keep m₁ w₁ R) : P.Runs A keep m w R := by
  intro env
  obtain ⟨E, a, w', hr, hA, hf⟩ := h env
  refine ⟨E, a, w', hr, hA, ?_⟩
  cases hf with
  | through heard eq => exact .through heard ((heq env).trans eq)
  | stopped split heard stops eq kept shows =>
    exact .stopped split heard stops ((heq env).trans eq) kept shows

/-- Programs that follow each other have scripts that follow each other. -/
theorem Runs.bind {m : SearchM σ α} {f : α → SearchM σ β} {R' : List Step → β → Work → Prop}
    (hm : P.Runs A keep m w R)
    (hf : ∀ E a w₁, R E a w₁ → P.Runs A keep (f a) w₁ fun E' b w₂ => R' (E ++ E') b w₂) :
    P.Runs A keep (m >>= f) w R' := by
  intro env
  obtain ⟨E, a, w₁, hr, hA, hm⟩ := hm env
  have mem_or {E' : List Step} (hA' : ∀ st ∈ E', A st.act) : ∀ st ∈ E ++ E', A st.act :=
    fun st hst => (List.mem_append.mp hst).elim (hA st) (hA' st)
  cases hm with
  | @through env₁ heard eq =>
    obtain ⟨E', b, w₂, hr', hA', hf⟩ := hf E a w₁ hr env₁
    refine ⟨E ++ E', b, w₂, hr', mem_or hA', ?_⟩
    cases hf with
    | through heard' eq' => exact .through (heard.append heard') ((bind_ok eq).trans eq')
    | @stopped E₁ E₂ st _ _ _ _ _ split heard' stops eq' kept shows =>
      have split' : E ++ E' = E ++ E₁ ++ st :: E₂ := by rw [split, List.append_assoc]
      exact .stopped split' (heard.append heard') stops ((bind_ok eq).trans eq') kept shows
  | @stopped E₁ E₂ st _ _ _ _ _ split heard stops eq kept shows =>
    -- the script is made complete by what would come next, from any state of the caller
    obtain ⟨E', b, w₂, hr', hA', -⟩ := hf E a w₁ hr env
    refine ⟨E ++ E', b, w₂, hr', mem_or hA', ?_⟩
    have split' : E ++ E' = E₁ ++ st :: (E₂ ++ E') := by
      rw [split, List.append_assoc, List.cons_append]
    exact .stopped split' heard stops (bind_error eq) kept shows

/-- A program that makes one step and leaves the working state alone. -/
theorem Runs.step {m : SearchM σ α} {f : α → Act} {Q : α → Prop} (hw : P.Shows w v)
    (hk : keep v.arena.size) (hA : ∃ a, Q a ∧ A (f a))
    (h : ∀ env, (∃ a env', Q a ∧ A (f a) ∧ P.Passes ⟨v, f a⟩ env env' ∧
        m (w, env) = .ok a (w, env')) ∨
      ∃ halt env', (∀ a, P.Stops ⟨v, f a⟩ env halt env') ∧ m (w, env) = .error halt (w, env')) :
    P.Runs A keep m w fun E a w' => E = [⟨v, f a⟩] ∧ w' = w ∧ Q a := by
  have mem_one {a : α} (ha : A (f a)) : ∀ st ∈ [(⟨v, f a⟩ : Step)], A st.act := by
    intro st hst
    rw [List.mem_singleton.mp hst]
    exact ha
  have shown (halt : Halt) : P.Shows w (v.afterHalt v.arena.size halt) := by
    match halt with
    | .aborted | .failed (.exhausted _) =>
      show P.Shows w (v.rewind v.arena.size)
      rw [v.rewind_size]
      exact hw
    | .failed (.fault _) => exact hw
  intro env
  rcases h env with ⟨a, env', hq, ha, hp, heq⟩ | ⟨halt, env', hs, heq⟩
  · exact ⟨_, a, w, ⟨rfl, rfl, hq⟩, mem_one ha, .through (.cons hp .nil) heq⟩
  · obtain ⟨a, hq, ha⟩ := hA
    have split : [(⟨v, f a⟩ : Step)] = [] ++ ⟨v, f a⟩ :: [] := rfl
    exact ⟨_, a, w, ⟨rfl, rfl, hq⟩, mem_one ha, .stopped split .nil (hs a) heq hk (shown halt)⟩

/-- A position up to the top can be gone back to. -/
theorem revertTo_eq_ok {n : Nat} (hn : n ≤ w.arena.size) (env : σ) :
    SearchM.revertTo n (w, env) = .ok () ({ w with arena := w.arena.truncate n }, env) := by
  rw [SearchM.revertTo, bind_ok (work_eq w env), if_pos hn]
  rfl

/-- Releasing slots shows in the view. -/
theorem Shows.rewind (h : P.Shows w v) (n : Nat) :
    P.Shows { w with arena := w.arena.truncate n } (v.rewind n) :=
  { h with arena_eq := congrArg (Arena.truncate · n) h.arena_eq }

/-- Whatever is done above `n` slots can be released however it ends. -/
theorem Runs.releasing {m : SearchM σ α} {n : Nat} (h : P.Runs A (n ≤ ·) m w R)
    (hR : ∀ E a w', R E a w' → n ≤ w'.arena.size ∧ ∀ st ∈ E, n ≤ st.view.arena.size) :
    P.Runs A (· = n) (SearchM.releasing n m) w fun E a w' =>
      ∃ w₁, R E a w₁ ∧ w' = { w₁ with arena := w₁.arena.truncate n } := by
  intro env
  obtain ⟨E, a, w₁, hr, hA, hf⟩ := h env
  obtain ⟨hsize, hsteps⟩ := hR E a w₁ hr
  refine ⟨E, a, _, ⟨w₁, hr, rfl⟩, hA, ?_⟩
  cases hf with
  | @through env' heard eq =>
    refine .through heard ?_
    simp only [SearchM.releasing, eq]
    exact bind_ok (revertTo_eq_ok hsize env')
  | @stopped E₁ E₂ st _ env' halt w'' k split heard stops eq kept shows =>
    have hst : n ≤ st.view.arena.size := hsteps st (by simp [split])
    have hk : n ≤ (st.view.rewind k).arena.size := by
      simp only [View.rewind, Arena.size_truncate]
      omega
    -- what is left by any halt but a fault is taken back further, to `n` slots
    have tidied (hs : P.Shows w'' (st.view.rewind k)) :
        SearchM.revertTo n (w'', env') = .ok () ({ w'' with arena := w''.arena.truncate n }, env') ∧
          P.Shows { w'' with arena := w''.arena.truncate n } (st.view.rewind n) :=
      ⟨revertTo_eq_ok (hs.arena_eq ▸ hk) env', st.view.rewind_rewind kept ▸ hs.rewind n⟩
    match halt with
    | .aborted =>
      obtain ⟨hrev, hs⟩ := tidied shows
      refine .stopped split heard stops ?_ rfl hs
      simp only [SearchM.releasing, eq]
      exact bind_ok hrev
    | .failed (.exhausted e) =>
      obtain ⟨hrev, hs⟩ := tidied shows
      refine .stopped split heard stops ?_ rfl hs
      simp only [SearchM.releasing, eq]
      exact bind_ok hrev
    | .failed (.fault f) =>
      refine .stopped split heard stops ?_ rfl shows
      simp only [SearchM.releasing, eq]

/-! ## The kinds of steps -/

/-- A question about two vertices is one step. -/
theorem runs_vertices (hP : P.Within A) (hw : P.Shows w v) (hk : keep v.arena.size)
    {i j : VertexId} (hi : P.first.containsVertex i = true)
    (hj : P.second.containsVertex j = true) :
    P.Runs A keep (SearchM.ask (P.predicate.vertices P.first i P.second j)) w
      fun E b w' => E = [⟨v, .vertices i j b⟩] ∧ w' = w := by
  refine (Runs.step (f := Act.vertices i j) (Q := fun _ => True) hw hk ?_ fun env => ?_).mono
    fun E b w' h => ⟨h.1, h.2.1⟩
  · simpa using hP.exists_vertices i j hi hj
  cases he : P.predicate.vertices P.first i P.second j env with
  | ok b env' =>
    exact .inl ⟨b, env', trivial, hP.vertices i j b env env' hi hj he, he,
      by simp [SearchM.ask, he]⟩
  | error f env' => exact .inr ⟨_, env', fun _ => ⟨f, rfl, he⟩, by simp [SearchM.ask, he]⟩

/-- A question about edges is one step. -/
theorem runs_edges (hP : P.Within A) (hw : P.Shows w v) (hk : keep v.arena.size)
    {i₁ i₂ j₁ j₂ : VertexId} (hi₁ : P.first.containsVertex i₁ = true)
    (hi₂ : P.first.containsVertex i₂ = true) (hj₁ : P.second.containsVertex j₁ = true)
    (hj₂ : P.second.containsVertex j₂ = true) {es₁ es₂ : List EdgeId}
    (he₁ : es₁ = P.first.touching i₁ i₂) (he₂ : es₂ = P.second.touching j₁ j₂) :
    P.Runs A keep (SearchM.ask (P.predicate.edges P.first i₁ i₂ es₁ P.second j₁ j₂ es₂)) w
      fun E b w' => E = [⟨v, .edges i₁ i₂ es₁ j₁ j₂ es₂ b⟩] ∧ w' = w := by
  subst he₁ he₂
  refine (Runs.step (f := Act.edges i₁ i₂ _ j₁ j₂ _) (Q := fun _ => True) hw hk ?_
    fun env => ?_).mono fun E b w' h => ⟨h.1, h.2.1⟩
  · simpa using hP.exists_edges i₁ i₂ j₁ j₂ hi₁ hi₂ hj₁ hj₂
  cases he : P.predicate.edges P.first i₁ i₂ _ P.second j₁ j₂ _ env with
  | ok b env' =>
    exact .inl ⟨b, env', trivial, hP.edges i₁ i₂ j₁ j₂ b env env' hi₁ hi₂ hj₁ hj₂ he, he,
      by simp [SearchM.ask, he]⟩
  | error f env' => exact .inr ⟨_, env', fun _ => ⟨f, rfl, he⟩, by simp [SearchM.ask, he]⟩

/-- A question to which the answer is whether to go on. -/
theorem runs_heed {act : Act} {m : Callback σ Action} (hw : P.Shows w v)
    (hk : keep v.arena.size) (hA : A act)
    (hpass : ∀ env env', m env = .ok .proceed env' → P.Passes ⟨v, act⟩ env env')
    (habort : ∀ env env', m env = .ok .abort env' → P.Stops ⟨v, act⟩ env .aborted env')
    (hfault : ∀ env f env', m env = .error f env' →
      P.Stops ⟨v, act⟩ env (.failed (.fault f)) env') :
    P.Runs A keep (SearchM.heed m) w fun E _ w' => E = [⟨v, act⟩] ∧ w' = w := by
  refine (Runs.step (f := fun _ => act) (Q := fun _ => True) hw hk ⟨(), trivial, hA⟩
    fun env => ?_).mono fun E b w' h => ⟨h.1, h.2.1⟩
  cases he : m env with
  | ok a env' =>
    have ha : SearchM.ask m (w, env) = .ok a (w, env') := by simp [SearchM.ask, he]
    cases a with
    | proceed => exact .inl ⟨(), env', trivial, hA, hpass env env' he, bind_ok ha⟩
    | abort => exact .inr ⟨_, env', fun _ => habort env env' he, bind_ok ha⟩
  | error f env' =>
    have ha : SearchM.ask m (w, env) = .error (.failed (.fault f)) (w, env') := by
      simp [SearchM.ask, he]
    exact .inr ⟨_, env', fun _ => hfault env f env' he, bind_error ha⟩

/-- Entering a level is one step. -/
theorem runs_progress (hP : P.Within A) (hw : P.Shows w v) (hk : keep v.arena.size)
    (level : Nat) :
    P.Runs A keep (SearchM.heed (P.predicate.progress level)) w
      fun E _ w' => E = [⟨v, .progress level⟩] ∧ w' = w :=
  runs_heed hw hk (hP.progress level) (fun _ _ h => h) (fun _ _ h => .inl ⟨rfl, h⟩)
    fun _ f _ h => .inr ⟨f, rfl, h⟩

/-- Handing over a solution is one step. -/
theorem runs_solution (hP : P.Within A) (hw : P.Shows w v) (hk : keep v.arena.size)
    (pairs : List (VertexId × VertexId)) :
    P.Runs A keep (SearchM.heed (P.processor.process P.first (pairs.map Prod.fst) P.second
        (pairs.map Prod.snd))) w
      fun E _ w' => E = [⟨v, .solution (pairs.map Prod.fst) (pairs.map Prod.snd)⟩] ∧ w' = w :=
  runs_heed hw hk (hP.solution pairs) (fun _ _ h => h) (fun _ _ h => .inl ⟨rfl, h⟩)
    fun _ f _ h => .inr ⟨f, rfl, h⟩

/-- Starting a row is one step, at which its slots are reserved. -/
theorem runs_startRow (hP : P.Within A) (hw : P.Shows w v) (hk : keep v.arena.size)
    {map : CandidateMap} {i : VertexId} (hi : map.hasRow i = false) (n : Nat) :
    P.Runs A keep (SearchM.startRow map i n) w fun E map' w' =>
      E = [⟨v, .reserve n⟩] ∧ w' = w ∧
        map' = (map.reserveRows (i.index + 1)).enter i ⟨v.arena.size, 0, n⟩ := by
  refine Runs.step (f := fun _ => .reserve n) hw hk ⟨_, rfl, hP.reserve n⟩ fun env => ?_
  cases he : v.arena.reserve n with
  | ok top =>
    have hs : map.start w.arena i n =
        .ok ((map.reserveRows (i.index + 1)).enter i ⟨v.arena.size, 0, n⟩) := by
      rw [CandidateMap.start, hi, hw.arena_eq, he, Arena.eq_size_of_reserve he]
      rfl
    refine .inl ⟨_, env, rfl, hP.reserve n, ⟨rfl, top, he⟩, ?_⟩
    rw [SearchM.startRow, bind_ok (work_eq w env), hs]
    rfl
  | error e =>
    have hs : map.start w.arena i n = .error (.exhausted e) := by
      rw [CandidateMap.start, hi, hw.arena_eq, he]
      rfl
    refine .inr ⟨.failed (.exhausted e), env, fun _ => ⟨rfl, e, rfl, he⟩, ?_⟩
    rw [SearchM.startRow, bind_ok (work_eq w env), hs]
    rfl

end Rules

end Problem

end CommonSubgraph
