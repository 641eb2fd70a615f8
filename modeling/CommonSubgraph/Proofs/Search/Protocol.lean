import CommonSubgraph.Proofs.Search.InStep

/-!
# The protocol of a search

Between two levels that it enters a search only asks questions; a solution is handed over right
after a level was entered, or not at all, and then its sides are as long as each other and of a size
that the settings allow (`Config.Allows`). So what becomes of a caller in a search is known once it
is known for the states in which it is asked and told of levels, for those in which a level was just
entered, and for those in which the search may be over (`Problem.Protocol`). Whatever the graphs and
the settings are, no search breaks the protocol (`Problem.Protocol.final_search`).
-/

namespace CommonSubgraph

variable {ν ε σ α β γ : Type}

/-- From `s`, the program gives a value and a state as `post` says, or it is halted, and then in a
state as `halted` says. -/
def Ensures {η τ : Type} (m : EStateM η τ α) (s : τ) (post : α → τ → Prop)
    (halted : η → τ → Prop) : Prop :=
  match m s with
  | .ok a s' => post a s'
  | .error e s' => halted e s'

namespace Ensures

variable {η τ : Type} {m : EStateM η τ α} {s : τ} {post post' : α → τ → Prop}
variable {halted halted' : η → τ → Prop}

/-- What a program ensures can be weakened. -/
theorem mono (h : Ensures m s post halted) (hpost : ∀ a s, post a s → post' a s)
    (hhalted : ∀ e s, halted e s → halted' e s) : Ensures m s post' halted' := by
  rw [Ensures] at h ⊢
  cases hr : m s with
  | ok a s' =>
    rw [hr] at h
    exact hpost a s' h
  | error e s' =>
    rw [hr] at h
    exact hhalted e s' h

/-- A program ensures what its parts ensure, one after the other. -/
theorem bind {f : α → EStateM η τ β} {post' : β → τ → Prop} (h : Ensures m s post halted)
    (hf : ∀ a s', post a s' → Ensures (f a) s' post' halted) :
    Ensures (m >>= f) s post' halted := by
  rw [Ensures] at h
  simp only [Ensures, Bind.bind, EStateM.bind]
  cases hr : m s with
  | ok a s' =>
    rw [hr] at h
    exact hf a s' h
  | error e s' =>
    rw [hr] at h
    exact h

/-- However the program ends, what holds in both cases holds. -/
theorem endState {Q : τ → Prop} (h : Ensures m s post halted) (hpost : ∀ a s, post a s → Q s)
    (hhalted : ∀ e s, halted e s → Q s) : Q (endState (m s)) := by
  rw [Ensures] at h
  cases hr : m s with
  | ok a s' =>
    rw [hr] at h
    exact hpost a s' h
  | error e s' =>
    rw [hr] at h
    exact hhalted e s' h

end Ensures

/-! ## Sizes -/

/-- The sides of a solution are as long as each other, and their length is one that the settings
allow for a first graph of `n` vertices. -/
structure Config.Allows (c : Config) (n : Nat) (xs ys : List VertexId) : Prop where
  length_eq : xs.length = ys.length
  of_common : c.common = true → c.minimum ≤ xs.length ∧ xs.length ≤ c.maximum
  of_exact : c.common = false → xs.length = n

/-- Every paired vertex has its partner, and a search for common subgraphs has not fallen below the
minimum that is set. -/
structure Work.InOrder (c : Config) (w : Work) : Prop where
  sides : w.xs.size = w.ys.size
  minimum_le : c.common = true → c.minimum ≤ w.minimum

namespace Work.InOrder

variable {c : Config} {w w' : Work} {i j : VertexId}

/-- Pairing keeps the sides equally long. -/
theorem extend (h : w.InOrder c) (he : w.extend i j = .ok w') : w'.InOrder c := by
  rw [Work.extend] at he
  split_ifs at he
  cases he
  refine ⟨?_, h.minimum_le⟩
  rw [Array.size_push, Array.size_push, h.sides]

/-- Taking a pair back keeps the sides equally long. -/
theorem retract (h : w.InOrder c) (hr : w.retract = .ok w') : w'.InOrder c := by
  rw [Work.retract] at hr
  cases hlast : w.xs.back? with
  | none =>
    rw [hlast] at hr
    cases hr
  | some i =>
    simp only [hlast] at hr
    split_ifs at hr
    cases hi : w.unpaired.insert i.index with
    | error f =>
      rw [hi] at hr
      cases hr
    | ok inserted =>
      rw [hi] at hr
      cases hr
      refine ⟨?_, h.minimum_le⟩
      rw [Array.size_pop, Array.size_pop, h.sides]

/-- Leaving a vertex out keeps a state in order. -/
theorem leaveOut (h : w.InOrder c) (i : VertexId) : (w.leaveOut i).InOrder c :=
  ⟨h.sides, h.minimum_le⟩

/-- Considering a vertex again keeps a state in order. -/
theorem takeBack (h : w.InOrder c) (ht : w.takeBack i = .ok w') : w'.InOrder c := by
  rw [Work.takeBack] at ht
  cases hc : w.considered.insert i.index with
  | error f =>
    rw [hc] at ht
    cases ht
  | ok considered =>
    rw [hc] at ht
    cases hu : w.unpaired.insert i.index with
    | error f =>
      simp only [hu] at ht
      cases ht
    | ok unpaired =>
      simp only [hu] at ht
      cases ht
      exact ⟨h.sides, h.minimum_le⟩

variable {P : Problem ν ε σ}

/-- What a state in order delivers has a size that the settings allow. -/
theorem allows (h : w.InOrder P.config) (ha : P.acceptable w = true) :
    P.config.Allows P.first.vertexCount w.xs.toList w.ys.toList := by
  rw [Problem.acceptable] at ha
  refine ⟨h.sides, fun hc => ?_, fun hc => ?_⟩
  · rw [if_pos hc, Bool.and_eq_true, decide_eq_true_iff, decide_eq_true_iff] at ha
    exact ⟨Nat.le_trans (h.minimum_le hc) ha.1, ha.2⟩
  · rw [if_neg (Bool.not_eq_true _ ▸ hc), beq_iff_eq] at ha
    exact ha

/-- A monotonic search raises the minimum to a size that is acceptable. -/
theorem raise (h : w.InOrder P.config) (ha : P.acceptable w = true) (n : Nat) : InOrder P.config
    { w with minimum := if P.config.monotonic then w.xs.size else w.minimum, found := n } := by
  refine ⟨h.sides, fun hc => ?_⟩
  show P.config.minimum ≤ if P.config.monotonic then w.xs.size else w.minimum
  split
  · exact ((h.allows ha).of_common hc).1
  · exact h.minimum_le hc

end Work.InOrder

/-! ## Callers -/

/-- What the caller leaves behind when it is asked whether to go on. -/
def afterAction (post final : σ → Prop) : Action → σ → Prop
  | .proceed => post
  | .abort => final

/-- The states of a caller: it is asked questions and told of levels in `idle` states, is given
solutions in `entered` states only, and is left in a `final` state. -/
structure Problem.Protocol (P : Problem ν ε σ) (idle entered final : σ → Prop) : Prop where
  vertices : ∀ i j s, idle s →
    Ensures (P.predicate.vertices P.first i P.second j) s (fun _ => idle) fun _ => final
  edges : ∀ i₁ i₂ es₁ j₁ j₂ es₂ s, idle s →
    Ensures (P.predicate.edges P.first i₁ i₂ es₁ P.second j₁ j₂ es₂) s (fun _ => idle)
      fun _ => final
  progress : ∀ level s, idle s →
    Ensures (P.predicate.progress level) s (afterAction entered final) fun _ => final
  process : ∀ xs ys s, P.config.Allows P.first.vertexCount xs ys → entered s →
    Ensures (P.processor.process P.first xs P.second ys) s (afterAction idle final)
      fun _ => final
  idle_of_entered : ∀ s, entered s → idle s
  final_of_idle : ∀ s, idle s → final s

/-! ## Programs -/

/-- Begun in order and with a caller in a `pre` state, the program leaves the search in order and
the caller in a `post` state, or the caller in a `final` state if it is halted. -/
def SearchM.Leads (c : Config) (final pre : σ → Prop) (m : SearchM σ α) (post : σ → Prop) : Prop :=
  ∀ w s, w.InOrder c → pre s →
    Ensures m (w, s) (fun _ st => st.1.InOrder c ∧ post st.2) fun _ st => final st.2

namespace SearchM.Leads

variable {c : Config} {final pre mid post : σ → Prop}

/-- A program may begin in fewer states. -/
theorem weaken {m : SearchM σ α} (h : Leads c final mid m post) (hpre : ∀ s, pre s → mid s) :
    Leads c final pre m post := fun w s hw hs => h w s hw (hpre s hs)

/-- Programs lead on from one to the next. -/
theorem bind {m : SearchM σ α} {f : α → SearchM σ β} (hm : Leads c final pre m mid)
    (hf : ∀ a, Leads c final mid (f a) post) : Leads c final pre (m >>= f) post :=
  fun w s hw hs => (hm w s hw hs).bind fun a st hst => hf a st.1 st.2 hst.1 hst.2

theorem pure {a : α} : Leads c final pre (Pure.pure a) pre := fun _ _ hw hs => ⟨hw, hs⟩

/-- The working state that is read is in order. -/
theorem work {f : Work → SearchM σ α} (h : ∀ w, w.InOrder c → Leads c final pre (f w) post) :
    Leads c final pre (SearchM.work >>= f) post := fun w s hw hs => h w hw w s hw hs

/-- A change that keeps states in order leaves the caller as it is. -/
theorem modifyWork {f : Work → Work} (hf : ∀ w, w.InOrder c → (f w).InOrder c) :
    Leads c final pre (SearchM.modifyWork f) pre := fun w _ hw hs => ⟨hf w hw, hs⟩

/-- A check leaves the caller as it is or is final. -/
theorem check (hfinal : ∀ s, pre s → final s) (r : Except Fault α) :
    Leads c final pre (SearchM.check r) pre := by
  intro w s hw hs
  cases r with
  | ok a => exact ⟨hw, hs⟩
  | error f => exact hfinal s hs

/-- An update that keeps states in order leaves the caller as it is or is final. -/
theorem update (hfinal : ∀ s, pre s → final s) {f : Work → Except Fault Work}
    (hf : ∀ w w', w.InOrder c → f w = .ok w' → w'.InOrder c) :
    Leads c final pre (SearchM.update f) pre := by
  intro w s hw hs
  rw [Ensures, SearchM.update]
  cases hr : f w with
  | ok w' => exact ⟨hf w w' hw hr, hs⟩
  | error e => exact hfinal s hs

/-- Starting a row leaves the caller as it is or is final. -/
theorem startRow (hfinal : ∀ s, pre s → final s) (map : CandidateMap) (i : VertexId) (n : Nat) :
    Leads c final pre (SearchM.startRow map i n) pre := by
  intro w s hw hs
  rw [Ensures, SearchM.startRow_eq]
  cases map.start w.arena i n with
  | ok map' => exact ⟨hw, hs⟩
  | error f => exact hfinal s hs

/-- Pushing a candidate leaves the caller as it is or is final. -/
theorem pushCandidate (hfinal : ∀ s, pre s → final s) (map : CandidateMap) (i j : VertexId) :
    Leads c final pre (SearchM.pushCandidate map i j) pre := by
  intro w s hw hs
  rw [Ensures, SearchM.pushCandidate_eq]
  cases map.grow i w.arena.size with
  | ok map' => exact ⟨⟨hw.sides, hw.minimum_le⟩, hs⟩
  | error f => exact hfinal s hs

/-- Releasing slots changes the arena at most. -/
theorem releasing {m : SearchM σ α} (h : Leads c final pre m post) (hfinal : ∀ s, post s → final s)
    (n : Nat) : Leads c final pre (SearchM.releasing n m) post := by
  intro w s hw hs
  have h := h w s hw hs
  have hend := SearchM.endState_releasing_or n m (w, s)
  rw [Ensures] at h ⊢
  cases hr : SearchM.releasing n m (w, s) with
  | ok a st =>
    obtain ⟨st', hm⟩ := SearchM.exists_of_releasing_eq_ok hr
    rw [hm] at h
    rw [hr, hm] at hend
    rcases hend with hend | hend
    · obtain rfl : st = st' := hend
      exact h
    · obtain rfl : st = ({ st'.1 with arena := st'.1.arena.truncate n }, st'.2) := hend
      exact ⟨⟨h.1.sides, h.1.minimum_le⟩, h.2⟩
  | error halt st =>
    have hsame := (SearchM.endState_releasing n m (w, s)).1
    rw [hr] at hsame
    show final st.2
    rw [show st.2 = _ from hsame]
    cases hm : m (w, s) with
    | ok a st' =>
      rw [hm] at h
      exact hfinal _ h.2
    | error halt' st' =>
      rw [hm] at h
      exact h

/-- A question leads where the callback leads. -/
theorem ask {m : Callback σ α} (h : ∀ s, pre s → Ensures m s (fun _ => post) fun _ => final) :
    Leads c final pre (SearchM.ask m) post := by
  intro w s hw hs
  have h := h s hs
  rw [Ensures, SearchM.ask_eq]
  rw [Ensures] at h
  cases hr : m s with
  | ok a s' =>
    rw [hr] at h
    exact ⟨hw, h⟩
  | error f s' =>
    rw [hr] at h
    exact h

/-- Heeding the caller leads where the callback leads, and to a final state if it says to stop. -/
theorem heed {m : Callback σ Action}
    (h : ∀ s, pre s → Ensures m s (afterAction post final) fun _ => final) :
    Leads c final pre (SearchM.heed m) post := by
  intro w s hw hs
  have h := h s hs
  rw [Ensures, SearchM.heed_eq]
  rw [Ensures] at h
  cases hr : m s with
  | ok action s' =>
    rw [hr] at h
    cases action with
    | proceed => exact ⟨hw, h⟩
    | abort => exact h
  | error f s' =>
    rw [hr] at h
    exact h

/-- Doing something for all of a list leads to where it begins if each step does. -/
theorem forM {m : γ → SearchM σ Unit} (h : ∀ x, Leads c final pre (m x) pre) (xs : List γ) :
    Leads c final pre (xs.forM m) pre := by
  induction xs with
  | nil => exact pure
  | cons x xs ih => exact (h x).bind fun _ => ih

end SearchM.Leads

/-! ## Filling candidate maps -/

/-- Programs of the kind `C` do what is done while a candidate map is filled, step by step, and what
is put together of such programs is of the kind as well. -/
structure Problem.Fills (P : Problem ν ε σ) (C : ∀ α : Type, SearchM σ α → Prop) : Prop where
  pure : ∀ {α : Type} (a : α), C α (Pure.pure a)
  bind : ∀ {α β : Type} {m : SearchM σ α} {f : α → SearchM σ β}, C α m → (∀ a, C β (f a)) →
    C β (m >>= f)
  work : C Work SearchM.work
  check : ∀ {α : Type} (r : Except Fault α), C α (SearchM.check r)
  vertices : ∀ i j, C Bool (SearchM.ask (P.predicate.vertices P.first i P.second j))
  edges : ∀ i₁ i₂ es₁ j₁ j₂ es₂,
    C Bool (SearchM.ask (P.predicate.edges P.first i₁ i₂ es₁ P.second j₁ j₂ es₂))
  startRow : ∀ map i n, C CandidateMap (SearchM.startRow map i n)
  pushCandidate : ∀ map i j, C CandidateMap (SearchM.pushCandidate map i j)

namespace Problem.Fills

variable {P : Problem ν ε σ} {C : ∀ α : Type, SearchM σ α → Prop} (h : P.Fills C)

include h

/-- Going through a list with steps of the kind is of the kind. -/
theorem foldlM {β γ : Type} {add : β → γ → SearchM σ β} (hadd : ∀ b x, C β (add b x))
    (xs : List γ) (b : β) : C β (xs.foldlM add b) := by
  induction xs generalizing b with
  | nil => exact h.pure b
  | cons x xs ih =>
    rw [List.foldlM_cons]
    exact h.bind (hadd b x) ih

/-- Reading a slot is of the kind. -/
theorem slot (k : Nat) : C VertexId (SearchM.slot k) := h.bind h.work fun _ => h.check _

/-- The trial of a pair by itself is of the kind. -/
theorem suitable (i j : VertexId) : C Bool (P.suitable i j) := by
  refine h.bind (h.check _) fun _ => h.bind (h.check _) fun _ => ?_
  split
  · exact h.pure _
  refine h.bind (h.vertices i j) fun b => ?_
  cases b with
  | false => exact h.pure _
  | true => exact h.edges i i _ j j _

/-- The trial of a pair against another one is of the kind. -/
theorem compatible (i j iu ju : VertexId) : C Bool (P.compatible i j iu ju) := by
  refine h.bind (h.check _) fun _ => h.bind (h.check _) fun _ => ?_
  split
  · exact h.pure _
  refine h.bind (h.check _) fun _ => h.bind (h.check _) fun _ => ?_
  split
  · exact h.pure _
  split
  · exact h.pure _
  · exact h.edges i iu _ j ju _

/-- A candidate that passes its test is put into its row. -/
theorem sift {test : SearchM σ Bool} (htest : C Bool test) (map : CandidateMap) (i j : VertexId) :
    C CandidateMap (do if ← test then SearchM.pushCandidate map i j else return map) := by
  refine h.bind htest fun b => ?_
  cases b with
  | false => exact h.pure _
  | true => exact h.pushCandidate map i j

/-- Building the initial map is of the kind. -/
theorem initialMap : C CandidateMap P.initialMap := by
  refine h.bind h.work fun w => h.bind (h.bind h.work fun _ => h.pure _) fun map =>
    h.foldlM (fun map i => ?_) _ _
  refine h.bind h.work fun w => h.bind (h.startRow map i _) fun map => ?_
  exact h.foldlM (fun map j => h.sift (h.suitable i j) map i j) _ _

/-- Building a refined map is of the kind. -/
theorem refine (parent : CandidateMap) (i j : VertexId) : C CandidateMap (P.refine parent i j) := by
  refine h.bind h.work fun w => h.bind (h.bind h.work fun _ => h.pure _) fun map =>
    h.foldlM (fun map iu => ?_) _ _
  refine h.bind (h.pure (parent.span iu)) fun span => ?_
  refine h.bind (h.startRow map iu _) fun map => h.foldlM (fun map k => ?_) _ _
  refine h.bind (h.slot k) fun ju => ?_
  split
  · exact h.pure _
  · exact h.sift (h.compatible i j iu ju) map iu ju

end Problem.Fills

/-! ## Searches -/

namespace Problem.Protocol

open SearchM

variable {P : Problem ν ε σ} {idle entered final : σ → Prop} (h : P.Protocol idle entered final)

include h

/-- A caller that is asked while a candidate map is filled stays idle. -/
theorem fills : P.Fills fun _ m => Leads P.config final idle m idle where
  pure _ := .pure
  bind := .bind
  work := fun _ _ hw hs => ⟨hw, hs⟩
  check := .check h.final_of_idle
  vertices i j := .ask (h.vertices i j)
  edges i₁ i₂ es₁ j₁ j₂ es₂ := .ask (h.edges i₁ i₂ es₁ j₁ j₂ es₂)
  startRow := .startRow h.final_of_idle
  pushCandidate := .pushCandidate h.final_of_idle

/-- A delivery leaves a caller that was told of the level idle. -/
theorem deliver : Leads P.config final entered P.deliver idle := by
  intro w s hw hs
  by_cases ha : P.acceptable w = true
  · have hallows := hw.allows ha
    have hheed : Leads P.config final entered
        (heed (P.processor.process P.first w.xs.toList P.second w.ys.toList)) idle :=
      .heed fun s => h.process _ _ s hallows
    have hdeliver : P.deliver (w, s) = heed
        (P.processor.process P.first w.xs.toList P.second w.ys.toList) (P.handedOver w, s) := by
      rw [Problem.deliver, Steps.deliver, Problem.bind_ok (Problem.work_eq w s), if_pos ha]
      rfl
    rw [Ensures, hdeliver]
    exact hheed _ s (hw.raise ha _) hs
  · have hdeliver : P.deliver (w, s) = .ok () (w, s) := by
      rw [Problem.deliver, Steps.deliver, Problem.bind_ok (Problem.work_eq w s), if_neg ha]
      rfl
    rw [Ensures, hdeliver]
    exact ⟨hw, h.idle_of_entered s hs⟩

/-- Trying a candidate leaves the caller idle if the level below does. -/
theorem tryCandidate {deeper : CandidateMap → SearchM σ Unit}
    (hdeeper : ∀ map, Leads P.config final idle (deeper map) idle) (map : CandidateMap)
    (i : VertexId) (k : Nat) :
    Leads P.config final idle (P.tryCandidate map i deeper k) idle := by
  refine (h.fills.slot k).bind fun j => ?_
  refine (Leads.update h.final_of_idle fun _ _ hw => hw.extend).bind fun _ => ?_
  refine Leads.bind (.work fun w _ => ?_) fun _ =>
    .update h.final_of_idle fun _ _ hw => hw.retract
  exact .releasing ((h.fills.refine map i j).bind hdeeper) h.final_of_idle w.arena.size

/-- A level leaves an idle caller idle. -/
theorem explore (n : Nat) (map : CandidateMap) (level : Nat) :
    Leads P.config final idle (P.explore n map level) idle := by
  -- every level is entered before anything else is done on it
  induction n generalizing map level with
  | zero => exact (Leads.heed (h.progress level)).bind fun _ => h.deliver
  | succ n ih =>
    refine (Leads.heed (h.progress level)).bind fun _ => .work fun w _ => ?_
    simp only [steps_feasible, steps_map, steps_span, steps_refined, steps_leaveOut,
      steps_unrefined, steps_takeBack, pure_bind]
    split
    swap
    · exact h.deliver
    refine .weaken ?_ h.idle_of_entered
    cases w.pick map with
    | none => exact fun _ s _ hs => h.final_of_idle s hs
    | some i =>
      refine (Leads.forM (h.tryCandidate (fun map => ih map (level + 1)) map i) _).bind fun _ => ?_
      split
      · refine (Leads.modifyWork fun _ hw => hw.leaveOut i).bind fun _ => ?_
        exact (ih map (level + 1)).bind fun _ =>
          .update h.final_of_idle fun _ _ hw => hw.takeBack
      · exact .pure

/-- A search leaves an idle caller idle, or in a final state. -/
theorem search : Leads P.config final idle P.search idle :=
  Leads.bind h.fills.initialMap fun map => .work fun w _ =>
    .releasing (h.explore w.unpaired.size map 0) h.final_of_idle map.base

/-- However a search ends, its caller is left in a state in which it may be over. -/
theorem final_search {w : Work} (hw : w.InOrder P.config) {s : σ} (hs : idle s) :
    final (endState (P.search (w, s))).2 :=
  (h.search w s hw hs).endState (Q := fun st => final st.2)
    (fun _ _ hst => h.final_of_idle _ hst.2) fun _ _ hfinal => hfinal

end Problem.Protocol

end CommonSubgraph
