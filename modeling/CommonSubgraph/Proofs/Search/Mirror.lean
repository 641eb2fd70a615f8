import CommonSubgraph.Search.Level

/-!
# Callers that only watch

A caller with a larger state that answers and stops as another caller does makes a search go as that
other caller would: all the search does is the same, and so is what the other caller's part of the
state becomes (`Problem.mirrors_search`). So what a search tells its caller can be noted without
changing the search.

The argument follows the programs of the search one by one; each treats the state of its caller as a
whole and hands it on.
-/

namespace CommonSubgraph

/-- The outcome, with its state seen through `f`. -/
def seen {η τ τ' α : Type} (f : τ' → τ) : EStateM.Result η τ' α → EStateM.Result η τ α
  | .ok a s => .ok a (f s)
  | .error e s => .error e (f s)

/-- With states seen through `f`, `m'` does what `m` does. -/
def Mirrors {η τ τ' α : Type} (f : τ' → τ) (m' : EStateM η τ' α) (m : EStateM η τ α) : Prop :=
  ∀ s, seen f (m' s) = m (f s)

namespace Mirrors

variable {η τ τ' α β γ : Type} {f : τ' → τ}

theorem pure (a : α) : Mirrors (η := η) f (Pure.pure a) (Pure.pure a) := fun _ => rfl

theorem throw (e : η) : Mirrors (η := η) (α := α) f (MonadExcept.throw e) (MonadExcept.throw e) :=
  fun _ => rfl

/-- Programs that mirror each other, followed by such programs, mirror each other. -/
theorem bind {m' : EStateM η τ' α} {m : EStateM η τ α} {k' : α → EStateM η τ' β}
    {k : α → EStateM η τ β} (hm : Mirrors f m' m) (hk : ∀ a, Mirrors f (k' a) (k a)) :
    Mirrors f (m' >>= k') (m >>= k) := by
  intro s
  have h := hm s
  simp only [Bind.bind, EStateM.bind, ← h]
  cases m' s with
  | ok a s₁ => exact hk a s₁
  | error e s₁ => rfl

/-- A choice between programs that mirror each other mirrors the same choice. -/
theorem ite {p : Prop} [Decidable p] {m' n' : EStateM η τ' α} {m n : EStateM η τ α}
    (hm : Mirrors f m' m) (hn : Mirrors f n' n) :
    Mirrors f (if p then m' else n') (if p then m else n) := by
  split
  · exact hm
  · exact hn

/-- Going through a list with steps that mirror each other does so as a whole. -/
theorem foldlM {add' : β → γ → EStateM η τ' β} {add : β → γ → EStateM η τ β}
    (h : ∀ b x, Mirrors f (add' b x) (add b x)) (xs : List γ) (b : β) :
    Mirrors f (xs.foldlM add' b) (xs.foldlM add b) := by
  induction xs generalizing b with
  | nil => exact .pure b
  | cons x xs ih =>
    rw [List.foldlM_cons, List.foldlM_cons]
    exact (h b x).bind ih

/-- Doing for all of a list what mirrors each other does so as a whole. -/
theorem forM {m' : γ → EStateM η τ' Unit} {m : γ → EStateM η τ Unit}
    (h : ∀ x, Mirrors f (m' x) (m x)) (xs : List γ) : Mirrors f (xs.forM m') (xs.forM m) := by
  induction xs with
  | nil => exact .pure ()
  | cons x xs ih => exact (h x).bind fun _ => ih

end Mirrors

/-! ## The steps of a search -/

section

variable {σ σ' α : Type} {π : σ' → σ}

/-- The state of a search, with the caller's part of it seen through `π`. -/
def beside (π : σ' → σ) (s : Work × σ') : Work × σ := (s.1, π s.2)

namespace SearchM

/-- The working state is the same in both. -/
theorem mirrors_work : Mirrors (beside π) work work := fun _ => rfl

/-- A change of the working state is the same in both. -/
theorem mirrors_modifyWork (g : Work → Work) :
    Mirrors (beside π) (modifyWork g) (modifyWork g) := fun _ => rfl

/-- An update of the working state is the same in both. -/
theorem mirrors_update (g : Work → Except Fault Work) :
    Mirrors (beside π) (update g) (update g) := by
  rintro ⟨w, s⟩
  simp only [update, beside]
  cases g w <;> rfl

/-- A check is the same in both. -/
theorem mirrors_check (r : Except Fault α) : Mirrors (beside π) (check r) (check r) := by
  intro s
  cases r <;> rfl

/-- Questions mirror each other if the callbacks do. -/
theorem mirrors_ask {m' : Callback σ' α} {m : Callback σ α} (h : Mirrors π m' m) :
    Mirrors (beside π) (ask m') (ask m) := by
  rintro ⟨w, s⟩
  have hs := h s
  simp only [ask, beside, ← hs]
  cases m' s <;> rfl

/-- Heeding the callers mirrors each other if the callbacks do. -/
theorem mirrors_heed {m' : Callback σ' Action} {m : Callback σ Action} (h : Mirrors π m' m) :
    Mirrors (beside π) (heed m') (heed m) := by
  refine (mirrors_ask h).bind fun a => ?_
  cases a with
  | proceed => exact .pure ()
  | abort => exact .throw _

/-- Reading a slot is the same in both. -/
theorem mirrors_slot (k : Nat) : Mirrors (beside π) (slot k) (slot k) :=
  mirrors_work.bind fun _ => mirrors_check _

/-- A new map is the same in both. -/
theorem mirrors_newMap (n : Nat) : Mirrors (beside π) (newMap n) (newMap n) :=
  mirrors_work.bind fun _ => .pure _

/-- Starting a row is the same in both. -/
theorem mirrors_startRow (map : CandidateMap) (i : VertexId) (n : Nat) :
    Mirrors (beside π) (startRow map i n) (startRow map i n) := by
  refine mirrors_work.bind fun w => ?_
  cases map.start w.arena i n with
  | ok map => exact .pure map
  | error e => exact .throw _

/-- Pushing a candidate is the same in both. -/
theorem mirrors_pushCandidate (map : CandidateMap) (i j : VertexId) :
    Mirrors (beside π) (pushCandidate map i j) (pushCandidate map i j) :=
  mirrors_work.bind fun _ => (mirrors_check _).bind fun _ =>
    (mirrors_modifyWork _).bind fun _ => .pure _

/-- Going back to a position is the same in both. -/
theorem mirrors_revertTo (n : Nat) : Mirrors (beside π) (revertTo n) (revertTo n) :=
  mirrors_work.bind fun _ => .ite (mirrors_modifyWork _) (.throw _)

/-- Programs that mirror each other do so with slots released after them. -/
theorem mirrors_releasing {m' : SearchM σ' α} {m : SearchM σ α} (h : Mirrors (beside π) m' m)
    (n : Nat) : Mirrors (beside π) (releasing n m') (releasing n m) := by
  have hdone {β : Type} (r' : SearchM σ' β) (r : SearchM σ β) (hr : Mirrors (beside π) r' r) :
      Mirrors (beside π) (do revertTo n; r') (do revertTo n; r) :=
    (mirrors_revertTo n).bind fun _ => hr
  intro s
  have hs := h s
  simp only [releasing, ← hs]
  cases m' s with
  | ok a s₁ => exact hdone _ _ (.pure a) s₁
  | error e s₁ =>
    match e with
    | .aborted => exact hdone _ _ (.throw _) s₁
    | .failed (.exhausted _) => exact hdone _ _ (.throw _) s₁
    | .failed (.fault _) => rfl

end SearchM

end

/-! ## Whole searches -/

namespace Problem

open SearchM

variable {ν ε σ σ' : Type}

/-- The problem with another caller. -/
def recast (P : Problem ν ε σ) (p : Predicate ν ε σ') (q : Processor ν ε σ') : Problem ν ε σ' where
  first := P.first
  second := P.second
  predicate := p
  processor := q
  config := P.config

/-- With states seen through `π`, the caller of `P` is matched by `p` and `q`. -/
structure Watched (P : Problem ν ε σ) (p : Predicate ν ε σ') (q : Processor ν ε σ')
    (π : σ' → σ) : Prop where
  vertices : ∀ g₁ i g₂ j, Mirrors π (p.vertices g₁ i g₂ j) (P.predicate.vertices g₁ i g₂ j)
  edges : ∀ g₁ i₁ i₂ es₁ g₂ j₁ j₂ es₂, Mirrors π (p.edges g₁ i₁ i₂ es₁ g₂ j₁ j₂ es₂)
    (P.predicate.edges g₁ i₁ i₂ es₁ g₂ j₁ j₂ es₂)
  progress : ∀ level, Mirrors π (p.progress level) (P.predicate.progress level)
  process : ∀ g₁ xs g₂ ys, Mirrors π (q.process g₁ xs g₂ ys) (P.processor.process g₁ xs g₂ ys)

variable {P : Problem ν ε σ} {p : Predicate ν ε σ'} {q : Processor ν ε σ'} {π : σ' → σ}
variable (h : P.Watched p q π)

include h

/-- The trial of a pair by itself mirrors that of the other caller. -/
theorem mirrors_suitable (i j : VertexId) :
    Mirrors (beside π) ((P.recast p q).suitable i j) (P.suitable i j) :=
  (mirrors_check _).bind fun _ => (mirrors_check _).bind fun _ => .ite (.pure _)
    ((mirrors_ask (h.vertices _ i _ j)).bind fun _ => .ite (.pure _)
      (mirrors_ask (h.edges _ i i _ _ j j _)))

/-- The trial of a pair against another one mirrors that of the other caller. -/
theorem mirrors_compatible (i j iu ju : VertexId) :
    Mirrors (beside π) ((P.recast p q).compatible i j iu ju) (P.compatible i j iu ju) :=
  (mirrors_check _).bind fun _ => (mirrors_check _).bind fun _ => .ite (.pure _)
    ((mirrors_check _).bind fun _ => (mirrors_check _).bind fun _ => .ite (.pure _)
      (.ite (.pure _) (mirrors_ask (h.edges _ i iu _ _ j ju _))))

/-- The initial map is built alike by both callers. -/
theorem mirrors_initialMap : Mirrors (beside π) (P.recast p q).initialMap P.initialMap := by
  refine mirrors_work.bind fun w => (mirrors_newMap _).bind fun map => .foldlM (fun map i => ?_) _ _
  refine mirrors_work.bind fun w => (mirrors_startRow map i _).bind fun map => ?_
  refine .foldlM (fun map j => ?_) _ _
  exact (mirrors_suitable h i j).bind fun _ => .ite (mirrors_pushCandidate map i j) (.pure _)

/-- A refined map is built alike by both callers. -/
theorem mirrors_refine (parent : CandidateMap) (i j : VertexId) :
    Mirrors (beside π) ((P.recast p q).refine parent i j) (P.refine parent i j) := by
  refine mirrors_work.bind fun w => (mirrors_newMap _).bind fun map =>
    .foldlM (fun map iu => ?_) _ _
  refine (mirrors_startRow map iu _).bind fun map => .foldlM (fun map k => ?_) _ _
  refine (mirrors_slot k).bind fun ju => .ite (.pure _) ?_
  exact (mirrors_compatible h i j iu ju).bind fun _ =>
    .ite (mirrors_pushCandidate map iu ju) (.pure _)

/-- A delivery goes alike with both callers. -/
theorem mirrors_deliver : Mirrors (beside π) (P.recast p q).deliver P.deliver := by
  refine mirrors_work.bind fun w => .ite ?_ (.pure _)
  simp only [steps_record]
  exact (mirrors_modifyWork P.handedOver).bind fun _ => mirrors_heed (h.process _ _ _ _)

/-- A candidate is tried alike if the levels below go alike. -/
theorem mirrors_tryCandidate {deeper' : CandidateMap → SearchM σ' Unit}
    {deeper : CandidateMap → SearchM σ Unit}
    (hd : ∀ map, Mirrors (beside π) (deeper' map) (deeper map)) (map : CandidateMap)
    (i : VertexId) (k : Nat) :
    Mirrors (beside π) ((P.recast p q).tryCandidate map i deeper' k)
      (P.tryCandidate map i deeper k) := by
  refine (mirrors_slot k).bind fun j => (mirrors_update fun w => w.extend i j).bind fun _ => ?_
  refine Mirrors.bind ?_ fun _ => mirrors_update Work.retract
  exact mirrors_work.bind fun w =>
    mirrors_releasing ((mirrors_refine h map i j).bind hd) w.arena.size

/-- A level goes alike with both callers. -/
theorem mirrors_explore (n : Nat) (map : CandidateMap) (level : Nat) :
    Mirrors (beside π) ((P.recast p q).explore n map level) (P.explore n map level) := by
  -- the two programs have the same shape, so the rules are applied in the order of its parts
  induction n generalizing map level with
  | zero => exact (mirrors_heed (h.progress level)).bind fun _ => mirrors_deliver h
  | succ n ih =>
    refine (mirrors_heed (h.progress level)).bind fun _ => mirrors_work.bind fun w => ?_
    simp only [steps_feasible, steps_map, steps_span, steps_refined, steps_leaveOut,
      steps_unrefined, steps_takeBack, pure_bind]
    refine .ite ?_ (mirrors_deliver h)
    cases w.pick map with
    | none => exact .throw _
    | some i =>
      refine (Mirrors.forM (mirrors_tryCandidate h (fun map => ih map (level + 1)) map i) _).bind
        fun _ => .ite ?_ (.pure _)
      exact (mirrors_modifyWork _).bind fun _ => (ih map (level + 1)).bind fun _ =>
        mirrors_update _

/-- A whole search goes alike with both callers. -/
theorem mirrors_search : Mirrors (beside π) (P.recast p q).search P.search :=
  (mirrors_initialMap h).bind fun map => mirrors_work.bind fun w =>
    mirrors_releasing (mirrors_explore h w.unpaired.size map 0) map.base

end Problem

end CommonSubgraph
