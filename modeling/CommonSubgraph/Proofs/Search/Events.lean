import CommonSubgraph.Proofs.Search.InStep

/-!
# Recorded searches

What a search does toward its caller and toward the limit of its arena is a list of events, each
noted just before it happens, so that a call that stops the search is the last one in the list.
`P.recorded` is the search of `P` with this list beside the caller's state. The list makes no other
difference (`Problem.recorded_erases`).

Two recorded searches are compared by the events they have in common (`Comparison.ofEvents`). What
has to be known of their callers is then how each callback goes on from states that go together
after the same events (`Comparison.GoOn`).
-/

namespace CommonSubgraph

variable {ν ε σ σ₁ σ₂ τ τ₁ τ₂ α : Type}

/-! ## Events -/

/-- What a search does that can be told from outside. -/
inductive Event where
  /-- The caller is asked whether two vertices may be paired. -/
  | vertices (i j : VertexId)
  /-- The caller is asked whether the edges at two pairs go together. -/
  | edges (i₁ i₂ : VertexId) (edges₁ : List EdgeId) (j₁ j₂ : VertexId) (edges₂ : List EdgeId)
  /-- The caller is told that a level is entered. -/
  | progress (level : Nat)
  /-- A solution is handed over. -/
  | solution (xs ys : List VertexId)
  /-- Arena slots are reserved while others are in use. -/
  | reservation (inUse requested : Nat)
deriving DecidableEq

namespace Event

/-- The event is a call that may end the search. -/
def isHook : Event → Bool
  | progress _ | solution _ _ => true
  | _ => false

/-- The caller is called. -/
def isCall : Event → Bool
  | reservation _ _ => false
  | _ => true

/-- A solution is handed over. -/
def isSolution : Event → Bool
  | solution _ _ => true
  | _ => false

/-- The slots in use and those requested are within `limit` together. -/
def Fits (limit : Nat) : Event → Prop
  | reservation inUse requested => Size.saturatingAdd inUse requested ≤ limit
  | _ => True

instance (limit : Nat) : DecidablePred (Fits limit)
  | reservation _ _ => inferInstanceAs (Decidable (_ ≤ _))
  | vertices _ _ | edges _ _ _ _ _ _ | progress _ | solution _ _ => inferInstanceAs (Decidable True)

/-- A solution that is handed over is a call that may end the search. -/
theorem isHook_of_isSolution : ∀ e : Event, e.isSolution = true → e.isHook = true
  | solution _ _, _ => rfl

/-- A call that may end the search is a call. -/
theorem isCall_of_isHook : ∀ e : Event, e.isHook = true → e.isCall = true
  | progress _, _ | solution _ _, _ => rfl

variable {p q : Event → Bool}

/-- What is read off some of the events is read off those that a filter lets through, if it lets all
of these through. -/
theorem filterMap_filter_of_imp {β : Type} {f : Event → Option β}
    (h : ∀ e, (f e).isSome → q e = true) (events : List Event) :
    (events.filter q).filterMap f = events.filterMap f := by
  rw [List.filterMap_filter]
  refine List.filterMap_congr fun e _ => ?_
  cases hf : f e with
  | none => exact ite_self none
  | some b => exact if_pos (h e (by rw [hf]; rfl))

/-- A filter leaves the number of the events of a kind if it lets all of these through. -/
theorem countP_filter_of_imp (h : ∀ e, p e = true → q e = true) (events : List Event) :
    (events.filter q).countP p = events.countP p := by
  have hguard := filterMap_filter_of_imp (f := Option.guard p) (q := q) (by simpa using h) events
  simpa [List.countP_eq_length_filter] using congrArg List.length hguard

end Event

/-! ## Recording -/

/-- The callback, with a note taken before it is called. -/
def Callback.recording (e : τ) (m : Callback σ α) : Callback (σ × List τ) α :=
  fun (s, notes) => m.onFst (s, notes ++ [e])

/-- The predicate, with every question and every level noted. -/
def Predicate.recording (p : Predicate ν ε σ) : Predicate ν ε (σ × List Event) where
  vertices g₁ i g₂ j := (p.vertices g₁ i g₂ j).recording (.vertices i j)
  edges g₁ i₁ i₂ es₁ g₂ j₁ j₂ es₂ :=
    (p.edges g₁ i₁ i₂ es₁ g₂ j₁ j₂ es₂).recording (.edges i₁ i₂ es₁ j₁ j₂ es₂)
  progress level := (p.progress level).recording (.progress level)

/-- The processor, with every solution noted. -/
def Processor.recording (q : Processor ν ε σ) : Processor ν ε (σ × List Event) where
  process g₁ xs g₂ ys := (q.process g₁ xs g₂ ys).recording (.solution xs ys)

/-- Note that `n` slots are about to be reserved for the row of `i`. A row that was started before
gets no slots again. -/
def SearchM.noteRow (map : CandidateMap) (i : VertexId) (n : Nat) :
    SearchM (σ × List Event) Unit := fun (w, s, events) =>
  .ok () (w, s, if map.hasRow i then events else events ++ [.reservation w.arena.size n])

/-- The observer that notes every reservation of arena slots. -/
def Observer.recording (p : Predicate ν ε σ) : Observer (σ × List Event) where
  start map i n := do
    SearchM.noteRow map i n
    SearchM.startRow map i n
  enter e := SearchM.heed (p.recording.progress e.level)

namespace Problem

/-- The problem with a caller that notes every call. -/
def recording (P : Problem ν ε σ) : Problem ν ε (σ × List Event) :=
  P.recast P.predicate.recording P.processor.recording

/-- The search with all its events noted. -/
def recorded (P : Problem ν ε σ) : SearchM (σ × List Event) Unit :=
  P.recording.searchBy (.recording P.predicate)

end Problem

/-! ## Recorded callbacks -/

/-- A recorded callback leaves the caller in the state of the callback alone, with one note more. -/
theorem Callback.endState_recording (e : τ) (m : Callback σ α) (s : σ) (notes : List τ) :
    endState (m.recording e (s, notes)) = (endState (m s), notes ++ [e]) :=
  m.endState_onFst (s, notes ++ [e])

/-- One callback ends alike beside different notes. -/
theorem EndAlike.onFst {R : σ × τ₁ → σ × τ₂ → Prop} (m : Callback σ α) (s : σ) {t₁ : τ₁} {t₂ : τ₂}
    (h : ∀ s', R (s', t₁) (s', t₂)) : EndAlike R (m.onFst (s, t₁)) (m.onFst (s, t₂)) := by
  simp only [Callback.onFst]
  cases m s with
  | ok a s' => exact .ok (h s')
  | error f s' => exact .error (h s')

/-- Callbacks that end alike still do so when both are recorded. -/
theorem EndAlike.recording {R : List Event → σ₁ → σ₂ → Prop} {m₁ : Callback σ₁ α}
    {m₂ : Callback σ₂ α} {e : Event} {events : List Event} {x : σ₁} {y : σ₂}
    (h : EndAlike (R (events ++ [e])) (m₁ x) (m₂ y)) :
    EndAlike (fun x y => x.2 = y.2 ∧ R x.2 x.1 y.1) (m₁.recording e (x, events))
      (m₂.recording e (y, events)) := by
  simp only [Callback.recording, Callback.onFst]
  generalize m₁ x = r₁ at h ⊢
  generalize m₂ y = r₂ at h ⊢
  cases h with
  | ok h => exact .ok ⟨rfl, h⟩
  | error h => exact .error ⟨rfl, h⟩

/-! ## Comparing recorded searches -/

namespace Comparison

/-- Searches under one limit, whose callers are in related states all along. -/
def ofStates (limit : Option Nat) (R : σ₁ → σ₂ → Prop) : Comparison σ₁ σ₂ where
  limit₁ := limit
  limit₂ := limit
  inStep _ _ := R
  rows _ := True
  before _ _ := True
  stopped _ _ _ _ := False
  before_refl _ := trivial
  before_trans _ _ _ _ _ := trivial
  stopped_before _ _ _ _ _ _ h := h
  inStep_truncate _ _ _ _ _ h := h
  rows_new _ _ := trivial
  rows_start _ _ _ _ _ _ _ _ := trivial
  rows_grow _ _ _ _ _ _ := trivial
  inStep_push _ _ _ _ _ _ _ _ _ _ h := h

/-- Searches that have noted the same events. The callers' states go together as `R` says, given how
many solutions were found; the second search has stopped after some of the events of the first. -/
def ofEvents (limit₁ limit₂ : Option Nat) (R : (found : Nat) → List Event → σ₁ → σ₂ → Prop)
    (S : Halt → (found : Nat) → List Event → σ₂ → Prop) :
    Comparison (σ₁ × List Event) (σ₂ × List Event) where
  limit₁ := limit₁
  limit₂ := limit₂
  inStep _ found x y := x.2 = y.2 ∧ R found x.2 x.1 y.1
  rows _ := True
  before x x' := x.2 <+: x'.2
  stopped x halt found y := y.2 <+: x.2 ∧ S halt found y.2 y.1
  before_refl x := List.prefix_refl x.2
  before_trans _ _ _ h h' := h.trans h'
  stopped_before _ _ _ _ _ hx h := ⟨h.1.trans hx, h.2⟩
  inStep_truncate _ _ _ _ _ h := h
  rows_new _ _ := trivial
  rows_start _ _ _ _ _ _ _ _ := trivial
  rows_grow _ _ _ _ _ _ := trivial
  inStep_push _ _ _ _ _ _ _ _ _ _ h := h

section

variable {limit₁ limit₂ : Option Nat} {R : Nat → List Event → σ₁ → σ₂ → Prop}
variable {S : Halt → Nat → List Event → σ₂ → Prop} {e : Event} {n : Nat}

/-- A recorded callback only adds to the notes. -/
theorem before_recording (e : Event) (m : Callback σ₁ α) (x : σ₁ × List Event) :
    (ofEvents limit₁ limit₂ R S).before x (endState (m.recording e x)) := by
  obtain ⟨s, events⟩ := x
  rw [Callback.endState_recording]
  exact List.prefix_append events [e]

/-- Questions stay in step when both are recorded. -/
theorem tracks_ask {m₁ : Callback σ₁ α} {m₂ : Callback σ₂ α}
    (h : ∀ found events x y, R found events x y →
      EndAlike (R found (events ++ [e])) (m₁ x) (m₂ y)) :
    (ofEvents limit₁ limit₂ R S).Tracks n (fun _ => True) (SearchM.ask (m₁.recording e))
      (SearchM.ask (m₂.recording e)) := by
  refine .ask (before_recording e m₁) ?_
  rintro a found ⟨x, events⟩ ⟨y, _⟩ ⟨rfl, hR⟩
  exact (h found events x y hR).recording

/-- A callback that may stop the second search, noted on both sides. -/
theorem heeded_recording {m₁ : Callback σ₁ Action} {m₂ : Callback σ₂ Action} {found : Nat}
    {events : List Event} {x : σ₁} {y : σ₂} (a : Arena VertexId)
    (h : Heeded (R found (events ++ [e])) (fun halt => S halt found (events ++ [e]))
      (m₁ x) (m₂ y)) :
    Heeded ((ofEvents limit₁ limit₂ R S).inStep a found)
      (fun halt => (ofEvents limit₁ limit₂ R S).stopped
        (endState (m₁.recording e (x, events))) halt found)
      (m₁.recording e (x, events)) (m₂.recording e (y, events)) := by
  have hend := m₁.endState_recording e x events
  -- by the answer of the second callback: the first one differs only if the second one stops
  cases hr₂ : m₂ y with
  | ok action y' =>
    rw [hr₂] at h
    have hm₂ : m₂.recording e (y, events) = .ok action (y', events ++ [e]) := by
      simp only [Callback.recording, Callback.onFst, hr₂]
    cases h with
    | alike h =>
      rw [← hr₂] at h
      exact .alike h.recording
    | abort h =>
      rw [hm₂, hend]
      exact .abort ⟨List.prefix_refl _, h⟩
  | error f y' =>
    rw [hr₂] at h
    have hm₂ : m₂.recording e (y, events) = .error f (y', events ++ [e]) := by
      simp only [Callback.recording, Callback.onFst, hr₂]
    cases h with
    | alike h =>
      rw [← hr₂] at h
      exact .alike h.recording
    | fault h =>
      rw [hm₂, hend]
      exact .fault ⟨List.prefix_refl _, h⟩

/-- What may be noted comes after what was. -/
theorem prefix_ite_concat {p : Prop} [Decidable p] (notes : List τ) (e : τ) :
    notes <+: if p then notes else notes ++ [e] := by
  split
  · exact List.prefix_refl _
  · exact List.prefix_append _ _

/-- Rows are started alike where the limits are the same. -/
theorem tracks_start {p₁ : Predicate ν ε σ₁} {p₂ : Predicate ν ε σ₂} (hlimit : limit₂ = limit₁)
    (hR : ∀ found events x y inUse requested, R found events x y →
      R found (events ++ [.reservation inUse requested]) x y)
    (map : CandidateMap) (i : VertexId) (k : Nat) :
    (ofEvents limit₁ limit₂ R S).Tracks n (fun map' => True ∧ map'.base = map.base)
      ((Observer.recording p₁).start map i k) ((Observer.recording p₂).start map i k) := by
  have hnote : (ofEvents limit₁ limit₂ R S).Tracks n (fun _ => True)
      (SearchM.noteRow map i k) (SearchM.noteRow map i k) := by
    refine ⟨fun w x hl => ⟨hl, prefix_ite_concat _ _, fun _ _ _ => trivial⟩, ?_⟩
    rintro w ⟨x, events⟩ ⟨y, _⟩ - ⟨hn, rfl, h⟩
    refine .ok ⟨hn, rfl, ?_⟩
    show R w.found (if map.hasRow i then events else events ++ [_]) x y
    split
    · exact h
    · exact hR _ _ _ _ _ _ h
  exact hnote.bind fun _ _ => .startRow hlimit trivial i k

/-- How two callers go on from states that go together after the same events. -/
structure GoOn (R : Nat → List Event → σ₁ → σ₂ → Prop) (S : Halt → Nat → List Event → σ₂ → Prop)
    (P : Problem ν ε σ₁) (p : Predicate ν ε σ₂) (q : Processor ν ε σ₂) : Prop where
  vertices : ∀ found events x y i j, R found events x y →
    EndAlike (R found (events ++ [.vertices i j])) (P.predicate.vertices P.first i P.second j x)
      (p.vertices P.first i P.second j y)
  edges : ∀ found events x y i₁ i₂ es₁ j₁ j₂ es₂, R found events x y →
    EndAlike (R found (events ++ [.edges i₁ i₂ es₁ j₁ j₂ es₂]))
      (P.predicate.edges P.first i₁ i₂ es₁ P.second j₁ j₂ es₂ x)
      (p.edges P.first i₁ i₂ es₁ P.second j₁ j₂ es₂ y)
  progress : ∀ found events x y level, R found events x y →
    Heeded (R found (events ++ [.progress level]))
      (fun halt => S halt found (events ++ [.progress level]))
      (P.predicate.progress level x) (p.progress level y)
  solution : ∀ found events x y xs ys, R found events x y →
    Heeded (R (found + 1) (events ++ [.solution xs ys]))
      (fun halt => S halt (found + 1) (events ++ [.solution xs ys]))
      (P.processor.process P.first xs P.second ys x) (q.process P.first xs P.second ys y)

/-- Recorded searches stay in step as their callers and their reservations do. -/
theorem GoOn.callers {P : Problem ν ε σ₁} {p : Predicate ν ε σ₂} {q : Processor ν ε σ₂}
    (h : GoOn R S P p q) (limit₁ limit₂ : Option Nat)
    (hstart : ∀ n map i k, (ofEvents limit₁ limit₂ R S).Tracks n
      (fun map' => True ∧ map'.base = map.base) ((Observer.recording P.predicate).start map i k)
      ((Observer.recording p).start map i k)) :
    (ofEvents limit₁ limit₂ R S).Callers P.recording (.recording P.predicate) p.recording
      q.recording (.recording p) where
  vertices n i j := tracks_ask fun found events x y => h.vertices found events x y i j
  edges n i₁ i₂ es₁ j₁ j₂ es₂ :=
    tracks_ask fun found events x y => h.edges found events x y i₁ i₂ es₁ j₁ j₂ es₂
  enter n := by
    rintro ⟨level, active₁, enclosing₁, w₁⟩ ⟨_, active₂, enclosing₂, w₂⟩ rfl
    refine .heed (before_recording (.progress level) (P.predicate.progress level)) ?_
    rintro a found ⟨x, events⟩ ⟨y, _⟩ ⟨rfl, hR⟩
    exact heeded_recording a (h.progress found events x y level hR)
  deliver n limit := by
    refine .deliver (fun xs ys => before_recording (.solution xs ys) _) ?_
    rintro a found ⟨x, events⟩ ⟨y, _⟩ xs ys ⟨rfl, hR⟩
    exact heeded_recording a (h.solution found events x y xs ys hR)
  start n map i k _ := hstart n map i k

end

end Comparison

/-! ## Forgetting what was noted -/

/-- A row is started as before if its reservation is noted beside a search that takes no notes of
it. -/
theorem Comparison.tracks_start_left {R : σ × List Event → σ₂ → Prop} {limit : Option Nat} {n : Nat}
    (p : Predicate ν ε σ) (hR : ∀ s events y inUse requested, R (s, events) y →
      R (s, events ++ [.reservation inUse requested]) y)
    (map : CandidateMap) (i : VertexId) (k : Nat) :
    (ofStates limit R).Tracks n (fun map' => True ∧ map'.base = map.base)
      ((Observer.recording p).start map i k) (SearchM.startRow map i k) := by
  have hnote : (ofStates limit R).Tracks n (fun _ => True) (SearchM.noteRow map i k)
      (pure () : SearchM σ₂ Unit) := by
    refine ⟨fun _ x hl => ⟨hl, trivial, fun _ _ _ => trivial⟩, ?_⟩
    rintro w ⟨s, events⟩ y - ⟨hn, h⟩
    refine .ok ⟨hn, ?_⟩
    show R (s, if map.hasRow i then events else events ++ [_]) y
    split
    · exact h
    · exact hR s events y _ _ h
  exact hnote.bind fun _ _ => .startRow rfl trivial i k

/-- A recorded callback ends like the callback alone. -/
theorem endAlike_recording_left (m : Callback σ α) (e : Event) (x : σ × List Event) (y : σ)
    (h : x.1 = y) : EndAlike (fun x y => x.1 = y) (m.recording e x) (m y) := by
  subst h
  obtain ⟨s, events⟩ := x
  simp only [Callback.recording, Callback.onFst]
  cases m s with
  | ok a s' => exact .ok rfl
  | error f s' => exact .error rfl

/-- A recorded caller and the caller alone stay in step. -/
theorem Problem.callers_erasing (P : Problem ν ε σ) (limit : Option Nat) :
    (Comparison.ofStates limit fun (x : σ × List Event) (y : σ) => x.1 = y).Callers P.recording
      (.recording P.predicate) P.predicate P.processor (.plain P.predicate) where
  vertices n i j :=
    .ask (fun _ => trivial) fun a found x y h => endAlike_recording_left _ _ x y h
  edges n i₁ i₂ es₁ j₁ j₂ es₂ :=
    .ask (fun _ => trivial) fun a found x y h => endAlike_recording_left _ _ x y h
  enter n := by
    rintro ⟨level, active₁, enclosing₁, w₁⟩ ⟨_, active₂, enclosing₂, w₂⟩ rfl
    exact .heed (fun _ => trivial) fun a found x y h => .alike (endAlike_recording_left _ _ x y h)
  deliver n limit := .deliver (fun _ _ _ => trivial) fun a found x y xs ys h =>
    .alike (endAlike_recording_left _ _ x y h)
  start n map i k _ := Comparison.tracks_start_left P.predicate (fun _ _ _ _ _ h => h) map i k

/-- Noting the events makes no difference to a search. -/
theorem Problem.recorded_erases (P : Problem ν ε σ) (w : Work) (s : σ) (events : List Event) :
    seen (beside Prod.fst) (P.recorded (w, (s, events))) = P.search (w, s) := by
  have htracks := (P.callers_erasing w.arena.limit).searchBy 0 P.config.arenaLimit
  have hplain : P.search = (P.recording.alter P.predicate P.processor
      P.config.arenaLimit).searchBy (.plain P.predicate) := P.searchBy_plain.symm
  rw [hplain]
  rcases htracks.exists_seen rfl rfl (x := (s, events)) ⟨Nat.zero_le _, rfl⟩ with
    ⟨r, hr₁, hr₂, hm⟩ | ⟨_, _, _, _, h⟩
  · refine (congrArg (seen (beside Prod.fst)) hr₁).trans (Eq.trans ?_ hr₂.symm)
    cases r with
    | ok a st => exact congrArg (EStateM.Result.ok a) (Prod.ext rfl hm.inStep)
    | error halt st => exact congrArg (EStateM.Result.error halt) (Prod.ext rfl hm.inStep)
  · exact h.elim

end CommonSubgraph
