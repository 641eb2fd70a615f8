import CommonSubgraph.Proofs.Search.Caller
import CommonSubgraph.Proofs.Search.Mirror
import CommonSubgraph.Proofs.Search.Observed
import CommonSubgraph.Proofs.Search.Rows

/-!
# Two searches in step

Two searches of the same graphs, for callers of their own and with limits of their own, that begin
alike go on alike as long as the callers answer alike and the limits do not bite. The second may be
stopped where the first goes on; what is known of it then is what it had in common with the first
up to there.

A `Comparison` says what the states of the two callers have to do with each other while the
searches are in step, and when the second one has stopped. `C.Tracks n Q m₁ m₂` is the property of
two programs that is carried along: from states in step the programs end in step with a common
value that satisfies `Q`, or the second has stopped. The arenas stay at or above `n` slots, so that
a search that is stopped can release what lies above.

The rules for `Tracks` follow the shape of programs, and `Comparison.Callers.searchBy` follows the
text of the search once for all comparisons. A comparison of a search with itself gives what holds
throughout that search.
-/

namespace CommonSubgraph

variable {ν ε σ σ₁ σ₂ α β γ : Type}

/-! ## Other limits, other callers -/

/-- The working state with another limit of its arena. -/
def Work.limited (w : Work) (limit : Option Nat) : Work :=
  { w with arena := { w.arena with limit } }

/-- The limit that an arena has already changes nothing. -/
theorem Work.limited_of_eq {w : Work} {limit : Option Nat} (h : w.arena.limit = limit) :
    w.limited limit = w := by
  subst h
  rfl

/-- The problem with another caller and another limit of the arena. -/
def Problem.alter (P : Problem ν ε σ₁) (p : Predicate ν ε σ₂) (q : Processor ν ε σ₂)
    (limit : Option Nat) : Problem ν ε σ₂ :=
  { P.recast p q with config := { P.config with arenaLimit := limit } }

/-! ## What a search does beside its arena -/

/-- A change of the working state that neither looks at the arena and the count of solutions nor
changes them. -/
def Work.Aside (f : Work → Except Fault Work) : Prop :=
  ∀ (w : Work) (arena : Arena VertexId) (found : Nat), f { w with arena, found } =
    (f w).map fun w' => { w' with arena, found }

namespace Work

/-- Pairing looks at neither the arena nor the count of solutions. -/
theorem aside_extend (i j : VertexId) : Aside fun w => w.extend i j := by
  intro w arena found
  simp only [extend]
  split_ifs <;> rfl

/-- Taking a pair back looks at neither the arena nor the count of solutions. -/
theorem aside_retract : Aside retract := by
  intro w arena found
  simp only [retract]
  cases w.xs.back? with
  | none => rfl
  | some i =>
    simp only
    split_ifs
    · rfl
    · cases w.unpaired.insert i.index <;> rfl

theorem aside_leaveOut (i : VertexId) : Aside fun w => .ok (w.leaveOut i) := fun _ _ _ => rfl

/-- Considering a vertex again looks at neither the arena nor the count of solutions. -/
theorem aside_takeBack (i : VertexId) : Aside fun w => w.takeBack i := by
  intro w arena found
  simp only [takeBack]
  cases w.considered.insert i.index with
  | error f => rfl
  | ok s => cases w.unpaired.insert i.index <;> rfl

/-- What happens aside leaves the arena and the count of solutions. -/
theorem Aside.arena_found_eq {f : Work → Except Fault Work} (hf : Aside f) {w w' : Work}
    (h : f w = .ok w') : w'.arena = w.arena ∧ w'.found = w.found := by
  have heq := hf w w.arena w.found
  have h' : f { w with arena := w.arena, found := w.found } = .ok w' := h
  rw [h'] at heq
  have hw : w' = { w' with arena := w.arena, found := w.found } := Except.ok.inj heq
  have ha := congrArg Work.arena hw
  have hk := congrArg Work.found hw
  exact ⟨ha, hk⟩

/-- What happens aside is the same under every limit. -/
theorem Aside.limited {f : Work → Except Fault Work} (hf : Aside f) (w : Work)
    (limit : Option Nat) : f (w.limited limit) = (f w).map fun w' => w'.limited limit := by
  have heq := hf w { w.arena with limit } w.found
  cases h : f w with
  | error x =>
    rw [h] at heq
    exact heq
  | ok w' =>
    obtain ⟨ha, hk⟩ := hf.arena_found_eq h
    rw [h] at heq
    refine heq.trans ?_
    simp only [Except.map, Work.limited, ha, ← hk]

end Work

namespace CandidateMap

/-- A row that is started has been granted its slots. -/
theorem of_start {m m' : CandidateMap} {a : Arena VertexId} {i : VertexId} {n : Nat}
    (h : m.start a i n = .ok m') : a.reserve n = .ok a.size ∧ m' = m.started a i n := by
  rw [start] at h
  split at h
  · cases h
  cases hr : a.reserve n with
  | error e =>
    rw [hr] at h
    cases h
  | ok top =>
    obtain rfl := Arena.eq_size_of_reserve hr
    rw [hr] at h
    exact ⟨rfl, (Except.ok.inj h).symm⟩

/-- A row that takes a candidate leaves the base of its map. -/
theorem base_grow {m m' : CandidateMap} {i : VertexId} {top : Nat} (h : m.grow i top = .ok m') :
    m'.base = m.base := by
  obtain ⟨r, -, -, -, rfl⟩ := of_grow h
  rfl

/-- A row that is started leaves the base of its map. -/
theorem base_start {m m' : CandidateMap} {a : Arena VertexId} {i : VertexId} {n : Nat}
    (h : m.start a i n = .ok m') : m'.base = m.base := by
  obtain ⟨-, rfl⟩ := of_start h
  rfl

end CandidateMap

namespace SearchM

/-- What a question does, by how its callback ends. -/
theorem ask_eq (m : Callback σ α) (w : Work) (s : σ) : ask m (w, s) = match m s with
    | .ok a s' => .ok a (w, s')
    | .error f s' => .error (.failed (.fault f)) (w, s') := rfl

/-- What heeding the caller does, by how its callback ends. -/
theorem heed_eq (m : Callback σ Action) (w : Work) (s : σ) : heed m (w, s) = match m s with
    | .ok .proceed s' => .ok () (w, s')
    | .ok .abort s' => .error .aborted (w, s')
    | .error f s' => .error (.failed (.fault f)) (w, s') := by
  have ha := ask_eq m w s
  cases hr : m s with
  | ok action s' =>
    rw [hr] at ha
    rw [heed, Problem.bind_ok ha]
    cases action <;> rfl
  | error f s' =>
    rw [hr] at ha
    rw [heed, Problem.bind_error ha]

/-- A question leaves the working state as it is. -/
theorem endState_ask (m : Callback σ α) (w : Work) (s : σ) :
    endState (ask m (w, s)) = (w, endState (m s)) := by
  rw [ask_eq]
  cases m s <;> rfl

/-- Heeding the caller leaves the working state as it is. -/
theorem endState_heed (m : Callback σ Action) (w : Work) (s : σ) :
    endState (heed m (w, s)) = (w, endState (m s)) := by
  rw [heed_eq]
  cases m s with
  | ok action s' => cases action <;> rfl
  | error f s' => rfl

/-- What starting a row does, by whether the slots are granted. -/
theorem startRow_eq (map : CandidateMap) (i : VertexId) (n : Nat) (w : Work) (s : σ) :
    startRow map i n (w, s) = match map.start w.arena i n with
      | .ok map' => .ok map' (w, s)
      | .error f => .error (.failed f) (w, s) := by
  rw [startRow, Problem.bind_ok (Problem.work_eq w s)]
  cases map.start w.arena i n <;> rfl

/-- What pushing a candidate does, by whether the row takes it. -/
theorem pushCandidate_eq (map : CandidateMap) (i j : VertexId) (w : Work) (s : σ) :
    pushCandidate map i j (w, s) = match map.grow i w.arena.size with
      | .ok map' => .ok map' ({ w with arena := w.arena.push j }, s)
      | .error f => .error (.failed (.fault f)) (w, s) := by
  rw [pushCandidate, Problem.bind_ok (Problem.work_eq w s)]
  cases map.grow i w.arena.size <;> rfl

/-- The state in which a program was halted, with its slots from `n` on released. Nothing is tidied
up after a fault. -/
def tidied (n : Nat) (w : Work) : Halt → Work
  | .failed (.fault _) => w
  | _ => { w with arena := w.arena.truncate n }

variable {m : SearchM σ α} {st : Work × σ} {w : Work} {s : σ} {n : Nat}

/-- After a program that gives a value the slots above the position are released. -/
theorem releasing_of_ok {a : α} (h : m st = .ok a (w, s)) (hn : n ≤ w.arena.size) :
    releasing n m st = .ok a ({ w with arena := w.arena.truncate n }, s) := by
  simp only [releasing, h]
  exact Problem.bind_ok (Problem.revertTo_eq_ok hn s)

/-- After a program that was halted the slots above the position are released, a fault apart. -/
theorem releasing_of_error {halt : Halt} (h : m st = .error halt (w, s))
    (hn : n ≤ w.arena.size) : releasing n m st = .error halt (tidied n w halt, s) := by
  cases halt with
  | aborted =>
    simp only [releasing, h]
    exact Problem.bind_ok (Problem.revertTo_eq_ok hn s)
  | failed failure =>
    cases failure with
    | exhausted _ =>
      simp only [releasing, h]
      exact Problem.bind_ok (Problem.revertTo_eq_ok hn s)
    | fault _ => simp only [releasing, h, tidied]

/-- A position above the top cannot be gone back to. -/
theorem revertTo_eq_error (hn : ¬ n ≤ w.arena.size) (s : σ) : revertTo n (w, s) =
    .error (.failed (.fault (.revertAboveTop n w.arena.size))) (w, s) := by
  rw [revertTo, Problem.bind_ok (Problem.work_eq w s), if_neg hn]
  rfl

/-- Going back to a position either fails and changes nothing, or releases the slots above it. -/
theorem endState_revertTo (n : Nat) {m : SearchM σ α} (hm : ∀ st, endState (m st) = st)
    (st : Work × σ) : endState ((do revertTo n; m : SearchM σ α) st) = st ∨
      endState ((do revertTo n; m : SearchM σ α) st) =
        ({ st.1 with arena := st.1.arena.truncate n }, st.2) := by
  obtain ⟨w, s⟩ := st
  by_cases hn : n ≤ w.arena.size
  · rw [Problem.bind_ok (Problem.revertTo_eq_ok hn s), hm]
    exact .inr rfl
  · rw [Problem.bind_error (revertTo_eq_error hn s)]
    exact .inl rfl

/-- Releasing slots changes the arena at most. -/
theorem endState_releasing_or (n : Nat) (m : SearchM σ α) (st : Work × σ) :
    endState (releasing n m st) = endState (m st) ∨ endState (releasing n m st) =
      ({ (endState (m st)).1 with arena := (endState (m st)).1.arena.truncate n },
        (endState (m st)).2) := by
  cases h : m st with
  | ok a st' =>
    simp only [releasing, h]
    exact endState_revertTo n (fun _ => rfl) st'
  | error halt st' =>
    cases halt with
    | aborted =>
      simp only [releasing, h]
      exact endState_revertTo n (fun _ => rfl) st'
    | failed failure =>
      cases failure with
      | exhausted _ =>
        simp only [releasing, h]
        exact endState_revertTo n (fun _ => rfl) st'
      | fault _ =>
        simp only [releasing, h]
        exact .inl trivial

/-- Releasing slots changes neither the caller's state nor the limit of the arena. -/
theorem endState_releasing (n : Nat) (m : SearchM σ α) (st : Work × σ) :
    (endState (releasing n m st)).2 = (endState (m st)).2 ∧
      (endState (releasing n m st)).1.arena.limit = (endState (m st)).1.arena.limit := by
  rcases endState_releasing_or n m st with h | h
  · rw [h]
    exact ⟨rfl, rfl⟩
  · rw [h]
    exact ⟨rfl, rfl⟩

/-- The value of a program whose slots are released is the one it gave. -/
theorem exists_of_releasing_eq_ok {st' : Work × σ} {a : α} (h : releasing n m st = .ok a st') :
    ∃ st'', m st = .ok a st'' := by
  have of_bind {β : Type} {r : SearchM σ Unit} {k : SearchM σ β} {b : β} {st₀ st₁ : Work × σ}
      (hr : (do r; k : SearchM σ β) st₀ = .ok b st₁) : ∃ st₂, k st₂ = .ok b st₁ := by
    cases hr₀ : r st₀ with
    | ok _ st₂ => exact ⟨st₂, (Problem.bind_ok hr₀).symm.trans hr⟩
    | error _ st₂ => cases (Problem.bind_error hr₀).symm.trans hr
  -- only a program that did not end early can give a value, whatever is released after it
  cases hm : m st with
  | ok b st₀ =>
    simp only [releasing, hm] at h
    obtain ⟨st₂, hk⟩ := of_bind h
    cases hk
    exact ⟨st₀, rfl⟩
  | error halt st₀ =>
    cases halt with
    | aborted =>
      simp only [releasing, hm] at h
      obtain ⟨st₂, hk⟩ := of_bind h
      cases hk
    | failed failure =>
      cases failure with
      | exhausted _ =>
        simp only [releasing, hm] at h
        obtain ⟨st₂, hk⟩ := of_bind h
        cases hk
      | fault _ =>
        simp only [releasing, hm] at h
        cases h

end SearchM

/-! ## Comparisons -/

/-- Two callbacks end alike, in states that go together. -/
inductive EndAlike (R : σ₁ → σ₂ → Prop) : EStateM.Result Fault σ₁ α →
    EStateM.Result Fault σ₂ α → Prop where
  | ok {a x y} (h : R x y) : EndAlike R (.ok a x) (.ok a y)
  | error {f x y} (h : R x y) : EndAlike R (.error f x) (.error f y)

/-- A callback ends like itself. -/
theorem EndAlike.refl {R : σ → σ → Prop} (hR : ∀ x, R x x) (r : EStateM.Result Fault σ α) :
    EndAlike R r r := by
  cases r with
  | ok a x => exact .ok (hR x)
  | error f x => exact .error (hR x)

/-- Two callbacks that say whether to go on end alike, or the second one stops its search. -/
inductive Heeded (R : σ₁ → σ₂ → Prop) (stops : Halt → σ₂ → Prop) :
    EStateM.Result Fault σ₁ Action → EStateM.Result Fault σ₂ Action → Prop where
  | alike {r₁ r₂} (h : EndAlike R r₁ r₂) : Heeded R stops r₁ r₂
  | abort {r y} (h : stops .aborted y) : Heeded R stops r (.ok .abort y)
  | fault {r f y} (h : stops (.failed (.fault f)) y) : Heeded R stops r (.error f y)

/-- Which states two callers may be in, at the same point of two searches. -/
structure Comparison (σ₁ σ₂ : Type) where
  /-- The limit of the arena of the first search. -/
  limit₁ : Option Nat
  /-- The limit of the arena of the second search. -/
  limit₂ : Option Nat
  /-- The callers' states go together while the searches have this arena, the limit apart, and have
  found so many solutions. -/
  inStep : Arena VertexId → (found : Nat) → σ₁ → σ₂ → Prop
  /-- What the candidate maps have in common. -/
  rows : CandidateMap → Prop
  /-- The first caller's state may come before another one. -/
  before : σ₁ → σ₁ → Prop
  /-- The second search has stopped, having found so many solutions and with its caller in this
  state, on the way of the first to this state. -/
  stopped : σ₁ → Halt → (found : Nat) → σ₂ → Prop
  before_refl : ∀ x, before x x
  before_trans : ∀ x y z, before x y → before y z → before x z
  stopped_before : ∀ x x' halt found y, before x x' → stopped x halt found y →
    stopped x' halt found y
  inStep_truncate : ∀ a found x y n, inStep a found x y → inStep (a.truncate n) found x y
  rows_new : ∀ a n, rows ((CandidateMap.new a).reserveRows n)
  rows_start : ∀ map map' a i n, rows map → a.limit = limit₁ → map.start a i n = .ok map' →
    rows map'
  rows_grow : ∀ map map' i top, rows map → map.grow i top = .ok map' → rows map'
  inStep_push : ∀ a found x y map map' i j, rows map → map.grow i a.size = .ok map' →
    inStep a found x y → inStep (a.push j) found x y

namespace Comparison

variable (C : Comparison σ₁ σ₂)

/-- The searches are in step, with at least `n` slots in use. -/
structure Meets (n : Nat) (w : Work) (x : σ₁) (y : σ₂) : Prop where
  size_le : n ≤ w.arena.size
  inStep : C.inStep w.arena w.found x y

/-- What holds of a program of the first search, begun in the caller's state `x`, whether or not the
second is in step. -/
structure Alone (Q : α → Prop) (x : σ₁) (r : EStateM.Result Halt (Work × σ₁) α) : Prop where
  limit_eq : (endState r).1.arena.limit = C.limit₁
  before : C.before x (endState r).2
  value : ∀ a st, r = .ok a st → Q a

/-- How two programs can end: in step, or the second one earlier. -/
inductive Outcome (n : Nat) : EStateM.Result Halt (Work × σ₁) α →
    EStateM.Result Halt (Work × σ₂) α → Prop where
  | ok {a w x y} (meets : C.Meets n w x y) :
    Outcome n (.ok a (w, x)) (.ok a (w.limited C.limit₂, y))
  | error {halt w x y} (meets : C.Meets n w x y) :
    Outcome n (.error halt (w, x)) (.error halt (w.limited C.limit₂, y))
  | stopped {r halt w y} (size_le : n ≤ w.arena.size)
    (stopped : C.stopped (endState r).2 halt w.found y) :
    Outcome n r (.error halt (w, y))

/-- The first program gives values that satisfy `Q`, and from states in step the two come to an
`Outcome`. -/
structure Tracks (n : Nat) (Q : α → Prop) (m₁ : SearchM σ₁ α) (m₂ : SearchM σ₂ α) : Prop where
  alone : ∀ w x, w.arena.limit = C.limit₁ → C.Alone Q x (m₁ (w, x))
  outcome : ∀ w x y, w.arena.limit = C.limit₁ → C.Meets n w x y →
    C.Outcome n (m₁ (w, x)) (m₂ (w.limited C.limit₂, y))

variable {C} {n n' : Nat} {Q : α → Prop} {R : β → Prop}

/-- Searches in step with many slots in use are in step with fewer. -/
theorem Meets.lower {w : Work} {x : σ₁} {y : σ₂} (h : C.Meets n w x y) (hn : n' ≤ n) :
    C.Meets n' w x y :=
  { h with size_le := Nat.le_trans hn h.size_le }

/-- An outcome with many slots in use is one with fewer. -/
theorem Outcome.lower {r₁ : EStateM.Result Halt (Work × σ₁) α}
    {r₂ : EStateM.Result Halt (Work × σ₂) α} (h : C.Outcome n r₁ r₂) (hn : n' ≤ n) :
    C.Outcome n' r₁ r₂ := by
  cases h with
  | ok meets => exact .ok (meets.lower hn)
  | error meets => exact .error (meets.lower hn)
  | stopped size_le stopped => exact .stopped (Nat.le_trans hn size_le) stopped

/-- Unless the second search was stopped, the two ends are views of one. -/
theorem Outcome.exists_seen {r₁ : EStateM.Result Halt (Work × σ₁) α}
    {r₂ : EStateM.Result Halt (Work × σ₂) α} (h : C.Outcome n r₁ r₂) :
    (∃ r : EStateM.Result Halt (Work × (σ₁ × σ₂)) α, r₁ = seen (beside Prod.fst) r ∧
      r₂ = seen (fun st => (st.1.limited C.limit₂, st.2.2)) r ∧
      C.Meets n (endState r).1 (endState r).2.1 (endState r).2.2) ∨
    ∃ halt w y, r₂ = .error halt (w, y) ∧ C.stopped (endState r₁).2 halt w.found y := by
  cases h with
  | @ok a w x y meets => exact .inl ⟨.ok a (w, (x, y)), rfl, rfl, meets⟩
  | @error halt w x y meets => exact .inl ⟨.error halt (w, (x, y)), rfl, rfl, meets⟩
  | @stopped _ halt w y _ stopped => exact .inr ⟨halt, w, y, rfl, stopped⟩

namespace Tracks

/-! ## Rules for programs -/

/-- What is said of the values can be weakened. -/
theorem mono {Q' : α → Prop} {m₁ : SearchM σ₁ α} {m₂ : SearchM σ₂ α} (h : C.Tracks n Q m₁ m₂)
    (hQ : ∀ a, Q a → Q' a) : C.Tracks n Q' m₁ m₂ where
  alone w x hl :=
    { h.alone w x hl with value := fun a st hr => hQ a ((h.alone w x hl).value a st hr) }
  outcome := h.outcome

/-- Programs that give the same value are in step. -/
theorem pure {a : α} (h : Q a) : C.Tracks n Q (Pure.pure a) (Pure.pure a) where
  alone w x hl := ⟨hl, C.before_refl x, fun _ _ hr => by cases hr; exact h⟩
  outcome _ _ _ _ hm := .ok hm

/-- Programs that are halted in the same way are in step. -/
theorem throw (halt : Halt) :
    C.Tracks n Q (MonadExcept.throw halt) (MonadExcept.throw halt) where
  alone w x hl := ⟨hl, C.before_refl x, fun _ _ hr => by cases hr⟩
  outcome _ _ _ _ hm := .error hm

/-- Programs in step, followed by programs in step, are in step. -/
theorem bind {m₁ : SearchM σ₁ α} {m₂ : SearchM σ₂ α} {k₁ : α → SearchM σ₁ β}
    {k₂ : α → SearchM σ₂ β} (hm : C.Tracks n Q m₁ m₂) (hk : ∀ a, Q a → C.Tracks n R (k₁ a) (k₂ a)) :
    C.Tracks n R (m₁ >>= k₁) (m₂ >>= k₂) := by
  -- the first search may go on where the second has stopped; it only comes later that way
  have halone (w : Work) (x : σ₁) (hl : w.arena.limit = C.limit₁) :
      C.Alone R x ((m₁ >>= k₁) (w, x)) ∧
        C.before (endState (m₁ (w, x))).2 (endState ((m₁ >>= k₁) (w, x))).2 := by
    have h := hm.alone w x hl
    cases hr : m₁ (w, x) with
    | ok a st =>
      rw [hr] at h
      rw [Problem.bind_ok hr]
      have h' := (hk a (h.value a st rfl)).alone st.1 st.2 h.limit_eq
      exact ⟨{ h' with before := C.before_trans _ _ _ h.before h'.before }, h'.before⟩
    | error halt st =>
      rw [hr] at h
      rw [Problem.bind_error hr]
      exact ⟨⟨h.limit_eq, h.before, fun _ _ hr => by cases hr⟩, C.before_refl _⟩
  refine ⟨fun w x hl => (halone w x hl).1, fun w x y hl hmeets => ?_⟩
  have h := hm.alone w x hl
  have hlater := (halone w x hl).2
  have ho := hm.outcome w x y hl hmeets
  generalize hr₁ : m₁ (w, x) = r₁ at h hlater ho
  generalize hr₂ : m₂ (w.limited C.limit₂, y) = r₂ at ho
  cases ho with
  | @ok a w' x' y' meets =>
    rw [Problem.bind_ok hr₁, Problem.bind_ok hr₂]
    exact (hk a (h.value a _ rfl)).outcome w' x' y' h.limit_eq meets
  | error meets =>
    rw [Problem.bind_error hr₁, Problem.bind_error hr₂]
    exact .error meets
  | stopped size_le stopped =>
    rw [Problem.bind_error hr₂]
    exact .stopped size_le (C.stopped_before _ _ _ _ _ hlater stopped)

/-- Programs that choose alike between programs in step are in step. -/
theorem ite {p : Prop} [Decidable p] {m₁ m₁' : SearchM σ₁ α} {m₂ m₂' : SearchM σ₂ α}
    (hm : C.Tracks n Q m₁ m₂) (hm' : C.Tracks n Q m₁' m₂') :
    C.Tracks n Q (if p then m₁ else m₁') (if p then m₂ else m₂') := by
  split
  · exact hm
  · exact hm'

/-- Going through a list in step keeps in step. -/
theorem foldlM {add₁ : α → γ → SearchM σ₁ α} {add₂ : α → γ → SearchM σ₂ α}
    (h : ∀ a c, Q a → C.Tracks n Q (add₁ a c) (add₂ a c)) (cs : List γ) {a : α} (ha : Q a) :
    C.Tracks n Q (cs.foldlM add₁ a) (cs.foldlM add₂ a) := by
  induction cs generalizing a with
  | nil => exact .pure ha
  | cons c cs ih =>
    rw [List.foldlM_cons, List.foldlM_cons]
    exact (h a c ha).bind fun _ => ih

/-- Doing something in step for all of a list keeps in step. -/
theorem forM {m₁ : γ → SearchM σ₁ Unit} {m₂ : γ → SearchM σ₂ Unit}
    (h : ∀ c, C.Tracks n (fun _ => True) (m₁ c) (m₂ c)) (cs : List γ) :
    C.Tracks n (fun _ => True) (cs.forM m₁) (cs.forM m₂) := by
  induction cs with
  | nil => exact .pure trivial
  | cons c cs ih => exact (h c).bind fun _ _ => ih

/-! ## Rules for the working state -/

/-- What follows a look at the working state may keep to the slots that are then in use. -/
theorem work {k₁ : Work → SearchM σ₁ α} {k₂ : Work → SearchM σ₂ α}
    (h : ∀ w, C.Tracks w.arena.size Q (k₁ w) (k₂ (w.limited C.limit₂))) :
    C.Tracks n Q (SearchM.work >>= k₁) (SearchM.work >>= k₂) where
  alone w x hl := (h w).alone w x hl
  outcome w x y hl hm :=
    ((h w).outcome w x y hl { hm with size_le := Nat.le_refl _ }).lower hm.size_le

/-- Programs in step for all working states are so for the one they read. -/
theorem look {k₁ : Work → SearchM σ₁ α} {k₂ : Work → SearchM σ₂ α}
    (h : ∀ w, C.Tracks n Q (k₁ w) (k₂ (w.limited C.limit₂))) :
    C.Tracks n Q (SearchM.work >>= k₁) (SearchM.work >>= k₂) where
  alone w x hl := (h w).alone w x hl
  outcome w x y hl hm := (h w).outcome w x y hl hm

/-- A check goes alike on both sides. -/
theorem check {r : Except Fault α} (h : ∀ a, r = .ok a → Q a) :
    C.Tracks n Q (SearchM.check r) (SearchM.check r) := by
  cases r with
  | ok a => exact .pure (h a rfl)
  | error f => exact .throw _

/-- Reading a slot goes alike on both sides. -/
theorem slot (k : Nat) : C.Tracks n (fun _ => True) (SearchM.slot k) (SearchM.slot k) :=
  .work fun _ => .check fun _ _ => trivial

/-- A change aside goes alike on both sides. -/
theorem update {f : Work → Except Fault Work} (hf : Work.Aside f) :
    C.Tracks n (fun _ => True) (SearchM.update f) (SearchM.update f) := by
  refine ⟨fun w x hl => ?_, fun w x y hl hm => ?_⟩
  · rw [SearchM.update]
    cases hw : f w with
    | error e => exact ⟨hl, C.before_refl x, fun _ _ _ => trivial⟩
    | ok w' =>
      refine ⟨?_, C.before_refl x, fun _ _ _ => trivial⟩
      exact (congrArg Arena.limit (hf.arena_found_eq hw).1).trans hl
  · rw [SearchM.update, SearchM.update, hf.limited]
    cases hw : f w with
    | error e => exact .error hm
    | ok w' =>
      obtain ⟨ha, hk⟩ := hf.arena_found_eq hw
      refine .ok ⟨?_, ?_⟩
      · rw [ha]
        exact hm.size_le
      · rw [ha, hk]
        exact hm.inStep

/-- What is done with a new map may keep to the slots below it. -/
theorem newMap {k₁ : CandidateMap → SearchM σ₁ α} {k₂ : CandidateMap → SearchM σ₂ α} (size : Nat)
    (h : ∀ map, C.rows map → C.Tracks map.base Q (k₁ map) (k₂ map)) :
    C.Tracks n Q (SearchM.newMap size >>= k₁) (SearchM.newMap size >>= k₂) := by
  have hw : C.Tracks n Q
      (SearchM.work >>= fun w => k₁ ((CandidateMap.new w.arena).reserveRows size))
      (SearchM.work >>= fun w => k₂ ((CandidateMap.new w.arena).reserveRows size)) :=
    .work fun w => h ((CandidateMap.new w.arena).reserveRows size) (C.rows_new w.arena size)
  exact hw

/-- A candidate is pushed alike on both sides. -/
theorem pushCandidate {map : CandidateMap} (hmap : C.rows map) (i j : VertexId) :
    C.Tracks n (fun map' => C.rows map' ∧ map'.base = map.base)
      (SearchM.pushCandidate map i j) (SearchM.pushCandidate map i j) := by
  refine ⟨fun w x hl => ?_, fun w x y hl hm => ?_⟩
  · rw [SearchM.pushCandidate_eq]
    cases hg : map.grow i w.arena.size with
    | error f => exact ⟨hl, C.before_refl x, fun _ _ hr => by cases hr⟩
    | ok map' =>
      refine ⟨hl, C.before_refl x, fun _ _ hr => ?_⟩
      cases hr
      exact ⟨C.rows_grow map map' i _ hmap hg, CandidateMap.base_grow hg⟩
  · rw [SearchM.pushCandidate_eq, SearchM.pushCandidate_eq]
    have hsize : (w.limited C.limit₂).arena.size = w.arena.size := rfl
    rw [hsize]
    cases hg : map.grow i w.arena.size with
    | error f => exact .error hm
    | ok map' =>
      refine .ok (w := { w with arena := w.arena.push j }) ⟨?_, ?_⟩
      · show n ≤ (w.arena.push j).size
        rw [Arena.size_push]
        exact Nat.le_succ_of_le hm.size_le
      · exact C.inStep_push _ _ _ _ _ _ i j hmap hg hm.inStep

/-- Slots that were not in use before can be released however the programs end. -/
theorem releasing {m₁ : SearchM σ₁ α} {m₂ : SearchM σ₂ α} (h : C.Tracks n Q m₁ m₂) :
    C.Tracks n Q (SearchM.releasing n m₁) (SearchM.releasing n m₂) := by
  have truncated {w : Work} {x : σ₁} {y : σ₂} (hm : C.Meets n w x y) :
      C.Meets n { w with arena := w.arena.truncate n } x y := by
    refine ⟨?_, C.inStep_truncate _ _ _ _ n hm.inStep⟩
    rw [Arena.size_truncate]
    exact Nat.le_min.mpr ⟨Nat.le_refl n, hm.size_le⟩
  -- alone, `releasing` changes the arena only; in step, it truncates both arenas or neither
  refine ⟨fun w x hl => ?_, fun w x y hl hm => ?_⟩
  · have ha := h.alone w x hl
    obtain ⟨hsnd, hlimit⟩ := SearchM.endState_releasing n m₁ (w, x)
    refine ⟨hlimit.trans ha.limit_eq, hsnd ▸ ha.before, fun a st hr => ?_⟩
    obtain ⟨st', hr'⟩ := SearchM.exists_of_releasing_eq_ok hr
    exact ha.value a st' hr'
  · have ho := h.outcome w x y hl hm
    have hsnd := (SearchM.endState_releasing n m₁ (w, x)).1
    generalize hr₁ : m₁ (w, x) = r₁ at ho hsnd
    generalize hr₂ : m₂ (w.limited C.limit₂, y) = r₂ at ho
    cases ho with
    | @ok a w' x' y' meets =>
      rw [SearchM.releasing_of_ok hr₁ meets.size_le, SearchM.releasing_of_ok hr₂ meets.size_le]
      exact .ok (truncated meets)
    | @error halt w' x' y' meets =>
      rw [SearchM.releasing_of_error hr₁ meets.size_le,
        SearchM.releasing_of_error hr₂ meets.size_le]
      cases halt with
      | aborted => exact .error (truncated meets)
      | failed failure =>
        cases failure with
        | exhausted _ => exact .error (truncated meets)
        | fault _ => exact .error meets
    | @stopped _ halt w' y' size_le stopped =>
      rw [SearchM.releasing_of_error hr₂ size_le]
      rw [← hsnd] at stopped
      have hsize : n ≤ (w'.arena.truncate n).size := by
        rw [Arena.size_truncate]
        exact Nat.le_min.mpr ⟨Nat.le_refl n, size_le⟩
      cases halt with
      | aborted => exact .stopped hsize stopped
      | failed failure =>
        cases failure with
        | exhausted _ => exact .stopped hsize stopped
        | fault _ => exact .stopped size_le stopped

/-- Starting a row comes to the same where the limits are the same. -/
theorem startRow (hlimit : C.limit₂ = C.limit₁) {map : CandidateMap} (hmap : C.rows map)
    (i : VertexId) (k : Nat) : C.Tracks n (fun map' => C.rows map' ∧ map'.base = map.base)
      (SearchM.startRow map i k) (SearchM.startRow map i k) := by
  refine ⟨fun w x hl => ?_, fun w x y hl hm => ?_⟩
  · rw [SearchM.startRow_eq]
    cases hs : map.start w.arena i k with
    | error f => exact ⟨hl, C.before_refl x, fun _ _ hr => by cases hr⟩
    | ok map' =>
      refine ⟨hl, C.before_refl x, fun _ _ hr => ?_⟩
      cases hr
      exact ⟨C.rows_start map map' w.arena i k hmap hl hs, CandidateMap.base_start hs⟩
  · have hw : w.limited C.limit₂ = w := Work.limited_of_eq (hl.trans hlimit.symm)
    rw [hw, SearchM.startRow_eq, SearchM.startRow_eq]
    have hok {map' : CandidateMap} : C.Outcome n (.ok map' (w, x)) (.ok map' (w, y)) := by
      have h := Outcome.ok (a := map') hm
      rwa [hw] at h
    have herror {halt : Halt} :
        C.Outcome n (α := CandidateMap) (.error halt (w, x)) (.error halt (w, y)) := by
      have h : C.Outcome n (α := CandidateMap) (.error halt (w, x))
        (.error halt (w.limited C.limit₂, y)) := .error hm
      rwa [hw] at h
    cases map.start w.arena i k with
    | ok map' => exact hok
    | error f => exact herror

/-- Under one limit, two programs that are not stopped end in views of one state. -/
theorem exists_seen {m₁ : SearchM σ₁ α} {m₂ : SearchM σ₂ α} (h : C.Tracks n Q m₁ m₂)
    (hlimit : C.limit₂ = C.limit₁) {w : Work} {x : σ₁} {y : σ₂}
    (hl : w.arena.limit = C.limit₁) (hm : C.Meets n w x y) :
    (∃ r : EStateM.Result Halt (Work × (σ₁ × σ₂)) α, m₁ (w, x) = seen (beside Prod.fst) r ∧
      m₂ (w, y) = seen (beside Prod.snd) r ∧
      C.Meets n (endState r).1 (endState r).2.1 (endState r).2.2) ∨
    ∃ halt w' y', m₂ (w, y) = .error halt (w', y') ∧
      C.stopped (endState (m₁ (w, x))).2 halt w'.found y' := by
  have halone := (h.alone w x hl).limit_eq
  have ho := h.outcome w x y hl hm
  rw [Work.limited_of_eq (hl.trans hlimit.symm)] at ho
  rcases ho.exists_seen with ⟨r, hr₁, hr₂, hmeets⟩ | hstopped
  · refine .inl ⟨r, hr₁, hr₂.trans ?_, hmeets⟩
    rw [hr₁] at halone
    cases r with
    | ok a st =>
      have hw : st.1.limited C.limit₂ = st.1 := Work.limited_of_eq (halone.trans hlimit.symm)
      exact congrArg (fun w' => EStateM.Result.ok a (w', st.2.2)) hw
    | error halt st =>
      have hw : st.1.limited C.limit₂ = st.1 := Work.limited_of_eq (halone.trans hlimit.symm)
      exact congrArg (fun w' => EStateM.Result.error halt (w', st.2.2)) hw
  · exact .inr hstopped

end Tracks

/-! ## Rules for callers -/

/-- Questions are in step if the callbacks end alike. -/
theorem Tracks.ask {m₁ : Callback σ₁ α} {m₂ : Callback σ₂ α}
    (hb : ∀ x, C.before x (endState (m₁ x)))
    (h : ∀ a found x y, C.inStep a found x y → EndAlike (C.inStep a found) (m₁ x) (m₂ y)) :
    C.Tracks n (fun _ => True) (SearchM.ask m₁) (SearchM.ask m₂) := by
  refine ⟨fun w x hl => ?_, fun w x y hl hm => ?_⟩
  · have hend := SearchM.endState_ask m₁ w x
    exact ⟨hend ▸ hl, hend ▸ hb x, fun _ _ _ => trivial⟩
  · have he := h w.arena w.found x y hm.inStep
    rw [SearchM.ask_eq, SearchM.ask_eq]
    generalize m₁ x = r₁ at he ⊢
    generalize m₂ y = r₂ at he ⊢
    cases he with
    | ok h => exact .ok ⟨hm.size_le, h⟩
    | error h => exact .error ⟨hm.size_le, h⟩

/-- Heeding the caller leaves the limit of the arena and gives no value to speak of. -/
theorem alone_heed {m : Callback σ₁ Action} {x : σ₁} (hb : C.before x (endState (m x)))
    {w : Work} (hl : w.arena.limit = C.limit₁) :
    C.Alone (fun _ => True) x (SearchM.heed m (w, x)) := by
  have hend := SearchM.endState_heed m w x
  exact ⟨hend ▸ hl, hend ▸ hb, fun _ _ _ => trivial⟩

/-- Heeding the callers keeps in step, or the second caller ends its search. -/
theorem outcome_heed {m₁ : Callback σ₁ Action} {m₂ : Callback σ₂ Action} {w : Work} {x : σ₁}
    {y : σ₂} (h : Heeded (C.inStep w.arena w.found)
      (fun halt => C.stopped (endState (m₁ x)) halt w.found) (m₁ x) (m₂ y))
    (hn : n ≤ w.arena.size) :
    C.Outcome n (SearchM.heed m₁ (w, x)) (SearchM.heed m₂ (w.limited C.limit₂, y)) := by
  have hend : (endState (SearchM.heed m₁ (w, x))).2 = endState (m₁ x) :=
    congrArg Prod.snd (SearchM.endState_heed m₁ w x)
  rw [← hend] at h
  rw [SearchM.heed_eq m₂]
  generalize hr₁ : m₁ x = r₁ at h
  generalize m₂ y = r₂ at h ⊢
  cases h with
  | alike h =>
    rw [SearchM.heed_eq, hr₁]
    cases h with
    | @ok action x' y' h =>
      cases action with
      | proceed => exact .ok ⟨hn, h⟩
      | abort => exact .error ⟨hn, h⟩
    | error h => exact .error ⟨hn, h⟩
  | abort h => exact .stopped hn h
  | fault h => exact .stopped hn h

/-- The callers are heeded in step if the callbacks end alike or the second one stops. -/
theorem Tracks.heed {m₁ : Callback σ₁ Action} {m₂ : Callback σ₂ Action}
    (hb : ∀ x, C.before x (endState (m₁ x)))
    (h : ∀ a found x y, C.inStep a found x y → Heeded (C.inStep a found)
      (fun halt => C.stopped (endState (m₁ x)) halt found) (m₁ x) (m₂ y)) :
    C.Tracks n (fun _ => True) (SearchM.heed m₁) (SearchM.heed m₂) where
  alone _ x hl := alone_heed (hb x) hl
  outcome w x y _ hm := outcome_heed (h w.arena w.found x y hm.inStep) hm.size_le

/-- A solution is counted before it is handed over. -/
theorem Tracks.deliver {P : Problem ν ε σ₁} {p : Predicate ν ε σ₂} {q : Processor ν ε σ₂}
    {limit : Option Nat}
    (hb : ∀ xs ys x, C.before x (endState (P.processor.process P.first xs P.second ys x)))
    (h : ∀ a found x y xs ys, C.inStep a found x y → Heeded (C.inStep a (found + 1))
      (fun halt => C.stopped (endState (P.processor.process P.first xs P.second ys x)) halt
        (found + 1))
      (P.processor.process P.first xs P.second ys x) (q.process P.first xs P.second ys y)) :
    C.Tracks n (fun _ => True) P.deliver (P.alter p q limit).deliver := by
  refine .look fun w => .ite ?_ (.pure trivial)
  refine ⟨fun w' x hl => alone_heed (hb _ _ x) hl, fun w' x y _ hm => ?_⟩
  exact outcome_heed (w := { w' with
      minimum := if P.config.monotonic then w'.xs.size else w'.minimum
      found := w'.found + 1 })
    (h w'.arena w'.found x y w.xs.toList w.ys.toList hm.inStep) hm.size_le

/-! ## The text of the search -/

/-- The two callers, and what is observed of the two searches, stay in step. -/
structure Callers (C : Comparison σ₁ σ₂) (P : Problem ν ε σ₁) (o₁ : Observer σ₁)
    (p : Predicate ν ε σ₂) (q : Processor ν ε σ₂) (o₂ : Observer σ₂) : Prop where
  vertices : ∀ n i j, C.Tracks n (fun _ => True)
    (SearchM.ask (P.predicate.vertices P.first i P.second j))
    (SearchM.ask (p.vertices P.first i P.second j))
  edges : ∀ n i₁ i₂ es₁ j₁ j₂ es₂, C.Tracks n (fun _ => True)
    (SearchM.ask (P.predicate.edges P.first i₁ i₂ es₁ P.second j₁ j₂ es₂))
    (SearchM.ask (p.edges P.first i₁ i₂ es₁ P.second j₁ j₂ es₂))
  enter : ∀ n e₁ e₂, e₁.level = e₂.level →
    C.Tracks n (fun _ => True) (o₁.enter e₁) (o₂.enter e₂)
  deliver : ∀ n limit, C.Tracks n (fun _ => True) P.deliver (P.alter p q limit).deliver
  start : ∀ n map i k, C.rows map → C.Tracks n (fun map' => C.rows map' ∧ map'.base = map.base)
    (o₁.start map i k) (o₂.start map i k)

namespace Callers

variable {P : Problem ν ε σ₁} {o₁ : Observer σ₁} {p : Predicate ν ε σ₂} {q : Processor ν ε σ₂}
variable {o₂ : Observer σ₂} {map parent : CandidateMap} {b : Nat} {limit : Option Nat}
variable (h : C.Callers P o₁ p q o₂)

include h

/-- Pairs are suitable in step. -/
theorem suitable (n : Nat) (i j : VertexId) :
    C.Tracks n (fun _ => True) (P.suitable i j) ((P.alter p q limit).suitable i j) := by
  refine (Tracks.check fun _ _ => trivial).bind fun loops₁ _ => ?_
  refine (Tracks.check fun _ _ => trivial).bind fun loops₂ _ => .ite (.pure trivial) ?_
  refine (h.vertices n i j).bind fun _ _ => .ite (.pure trivial) ?_
  exact h.edges n i i loops₁ j j loops₂

/-- Pairs are compatible in step. -/
theorem compatible (n : Nat) (i j iu ju : VertexId) :
    C.Tracks n (fun _ => True) (P.compatible i j iu ju)
      ((P.alter p q limit).compatible i j iu ju) := by
  refine (Tracks.check fun _ _ => trivial).bind fun _ _ => ?_
  refine (Tracks.check fun _ _ => trivial).bind fun _ _ => .ite (.pure trivial) ?_
  refine (Tracks.check fun _ _ => trivial).bind fun _ _ => ?_
  refine (Tracks.check fun _ _ => trivial).bind fun _ _ => .ite (.pure trivial) ?_
  exact .ite (.pure trivial) (h.edges n i iu _ j ju _)

omit h in
/-- A candidate is added if it passes its test. -/
theorem sift {test₁ : SearchM σ₁ Bool} {test₂ : SearchM σ₂ Bool}
    (htest : C.Tracks n (fun _ => True) test₁ test₂) (hmap : C.rows map) (hb : map.base = b)
    (i j : VertexId) : C.Tracks n (fun map' => C.rows map' ∧ map'.base = b)
      (do if ← test₁ then SearchM.pushCandidate map i j else return map)
      (do if ← test₂ then SearchM.pushCandidate map i j else return map) := by
  subst hb
  exact htest.bind fun _ _ => .ite (.pushCandidate hmap i j) (.pure ⟨hmap, rfl⟩)

/-- A row of the initial map is filled in step. -/
theorem addInitialRow (n : Nat) (hmap : C.rows map) (hb : map.base = b) (i : VertexId) :
    C.Tracks n (fun map' => C.rows map' ∧ map'.base = b) ((o₁.steps P).addInitialRow P map i)
      ((o₂.steps (P.alter p q limit)).addInitialRow (P.alter p q limit) map i) := by
  refine .work fun w => (h.start _ map i _ hmap).bind fun map₁ hmap₁ => ?_
  exact .foldlM (fun map' j hmap' => sift (h.suitable _ i j) hmap'.1 hmap'.2 i j) _
    ⟨hmap₁.1, hmap₁.2.trans hb⟩

/-- A row of a refined map is filled in step. -/
theorem addRefinedRow (n : Nat) (i j : VertexId) (hmap : C.rows map) (hb : map.base = b)
    (iu : VertexId) : C.Tracks n (fun map' => C.rows map' ∧ map'.base = b)
      ((o₁.steps P).addRefinedRow P parent i j map iu)
      ((o₂.steps (P.alter p q limit)).addRefinedRow (P.alter p q limit) parent i j map iu) := by
  refine (h.start n map iu _ hmap).bind fun map₁ hmap₁ => ?_
  refine .foldlM (fun map' k hmap' => ?_) _ ⟨hmap₁.1, hmap₁.2.trans hb⟩
  refine (Tracks.slot k).bind fun ju _ => .ite (.pure hmap') ?_
  exact sift (h.compatible n i j iu ju) hmap'.1 hmap'.2 iu ju

/-- Maps are refined in step. -/
theorem refine (n : Nat) (i j : VertexId) : C.Tracks n (fun _ => True)
    ((o₁.steps P).refine P parent i j)
    ((o₂.steps (P.alter p q limit)).refine (P.alter p q limit) parent i j) := by
  refine .work fun w => .newMap _ fun map hmap => ?_
  exact (Tracks.foldlM (fun map' iu hmap' => h.addRefinedRow _ i j hmap'.1 hmap'.2 iu) _
    ⟨hmap, rfl⟩).mono fun _ _ => trivial

/-- A candidate is tried in step if the levels below are in step. -/
theorem tryCandidate {deeper₁ : CandidateMap → SearchM σ₁ Unit}
    {deeper₂ : CandidateMap → SearchM σ₂ Unit}
    (hd : ∀ n map, C.Tracks n (fun _ => True) (deeper₁ map) (deeper₂ map)) (n : Nat)
    (map : CandidateMap) (i : VertexId) (k : Nat) :
    C.Tracks n (fun _ => True) ((o₁.steps P).tryCandidate P map i deeper₁ k)
      ((o₂.steps (P.alter p q limit)).tryCandidate (P.alter p q limit) map i deeper₂ k) := by
  refine (Tracks.slot k).bind fun j _ => (Tracks.update (Work.aside_extend i j)).bind fun _ _ => ?_
  have hrefined : C.Tracks n (fun _ => True) ((o₁.steps P).withRefined P map i j deeper₁)
      ((o₂.steps (P.alter p q limit)).withRefined (P.alter p q limit) map i j deeper₂) :=
    .work fun w => .releasing ((h.refine _ i j).bind fun map' _ => hd _ map')
  exact hrefined.bind fun _ _ => .update Work.aside_retract

omit h in
theorem leaveOut (n : Nat) (i : VertexId) :
    C.Tracks n (fun _ => True) (SearchM.modifyWork fun w => w.leaveOut i)
      (SearchM.modifyWork fun w => w.leaveOut i) :=
  .update (Work.aside_leaveOut i)

/-- Levels are searched in step if they have the same map. -/
theorem explore (k : Nat) : ∀ n scope₁ scope₂ level,
    scope₁.active.map = scope₂.active.map → C.Tracks n (fun _ => True)
      ((o₁.steps P).explore P k scope₁ level)
      ((o₂.steps (P.alter p q limit)).explore (P.alter p q limit) k scope₂ level) := by
  -- the frames are for the observers only, but for the candidates of this level
  have henter (n : Nat) (scope₁ scope₂ : Scope) (level : Nat) : C.Tracks n (fun _ => True)
      ((o₁.steps P).enter scope₁ level) ((o₂.steps (P.alter p q limit)).enter scope₂ level) :=
    .look fun w => h.enter n ⟨level, scope₁.active, scope₁.enclosing, w⟩
      ⟨level, scope₂.active, scope₂.enclosing, w.limited C.limit₂⟩ rfl
  induction k with
  | zero => exact fun n scope₁ scope₂ level _ =>
      (henter n scope₁ scope₂ level).bind fun _ _ => h.deliver n limit
  | succ k ih =>
    intro n scope₁ scope₂ level hmap
    refine (henter n scope₁ scope₂ level).bind fun _ _ => .work fun w => ?_
    have hpick : (w.limited C.limit₂).pick scope₁.active.map = w.pick scope₁.active.map := rfl
    simp only [Observer.steps_map, Observer.steps_feasible, Problem.steps_feasible,
      Observer.steps_span, Problem.steps_span, pure_bind, ← hmap, hpick]
    refine Tracks.ite ?_ (h.deliver _ limit)
    cases w.pick scope₁.active.map with
    | none => exact .throw _
    | some i =>
      refine Tracks.bind (Tracks.forM (fun k' => h.tryCandidate ?_ _ _ i k') _) fun _ _ => ?_
      · intro n map'
        simp only [Observer.steps_refined, bind_assoc, pure_bind]
        exact .work fun w => ih _ _ _ _ rfl
      simp only [Observer.steps_unrefined]
      refine Tracks.ite ?_ (.pure trivial)
      have hrest := ih w.arena.size (scope₁.below scope₁.active) (scope₂.below scope₂.active)
        (level + 1) hmap
      exact (leaveOut _ i).bind fun _ _ => hrest.bind fun _ _ => .update (Work.aside_takeBack i)

/-- Searches whose callers stay in step track each other. -/
theorem searchBy (n : Nat) (limit : Option Nat) :
    C.Tracks n (fun _ => True) (P.searchBy o₁) ((P.alter p q limit).searchBy o₂) := by
  have hassoc {σ : Type} (P : Problem ν ε σ) (o : Observer σ) : P.searchBy o = (do
      let considered := (← SearchM.work).considered
      let map ← SearchM.newMap considered.maxPlusOneOrZero
      let map ← considered.vertices.foldlM ((o.steps P).addInitialRow P) map
      let w ← SearchM.work
      SearchM.releasing map.base
        ((o.steps P).explore P (← SearchM.work).unpaired.size ⟨⟨map, w.arena⟩, []⟩ 0)) := by
    simp only [Problem.searchBy, Steps.search, Steps.initialMap, Observer.steps_first, bind_assoc,
      pure_bind]
    rfl
  rw [hassoc, hassoc]
  -- the slots of the initial map are released from where it begins
  refine .work fun w => .newMap _ fun map hmap => ?_
  refine (Tracks.foldlM (fun map' i hmap' => h.addInitialRow _ hmap'.1 hmap'.2 i) _
    (And.intro hmap (Eq.refl map.base))).bind fun map' hmap' => ?_
  rw [← hmap'.2]
  exact .look fun w' => .look fun w'' => .releasing (h.explore w''.unpaired.size _ _ _ 0 rfl)

end Callers

end Comparison

end CommonSubgraph
