import CommonSubgraph.Proofs.Search.Events
import CommonSubgraph.Trace

/-!
# Searches that are interrupted at a call

A caller that gives up in place of one of its calls leaves the search as it is at that moment, since
nothing is tidied up after a fault. `P.upTo k` has the caller of `P` that gives up in place of its
call number `k`, counted from 0. Up to there the search of `P.upTo k` is the one of `P`
(`Problem.calls_upTo`), so what is left of it is what the search of `P` has come to when it makes
that call.

The caller of `P.interrupted k` notes its answers as well; they are those that a search has at first
whose caller never gives up (`Problem.answered_interrupted`).
-/

namespace CommonSubgraph

variable {ν ε σ σ₁ σ₂ α : Type}

/-! ## Giving up -/

/-- The callback, with its calls noted. From call number `k` on it gives up instead. -/
def Callback.upTo (k : Nat) (e : Event) (m : Callback σ α) : Callback (σ × List Event) α :=
  fun (s, calls) =>
    if calls.length < k then m.recording e (s, calls)
    else .error (.raised "interrupted") (s, calls ++ [e])

/-- The predicate that gives up from call number `k` on. -/
def Predicate.upTo (k : Nat) (p : Predicate ν ε σ) : Predicate ν ε (σ × List Event) where
  vertices g₁ i g₂ j := (p.vertices g₁ i g₂ j).upTo k (.vertices i j)
  edges g₁ i₁ i₂ es₁ g₂ j₁ j₂ es₂ :=
    (p.edges g₁ i₁ i₂ es₁ g₂ j₁ j₂ es₂).upTo k (.edges i₁ i₂ es₁ j₁ j₂ es₂)
  progress level := (p.progress level).upTo k (.progress level)

/-- The processor that gives up from call number `k` on. -/
def Processor.upTo (k : Nat) (q : Processor ν ε σ) : Processor ν ε (σ × List Event) where
  process g₁ xs g₂ ys := (q.process g₁ xs g₂ ys).upTo k (.solution xs ys)

/-- The problem with a caller that gives up from call number `k` on. -/
def Problem.upTo (P : Problem ν ε σ) (k : Nat) : Problem ν ε (σ × List Event) :=
  P.recast (P.predicate.upTo k) (P.processor.upTo k)

/-! ## Questions that may stop a search -/

/-- Two callbacks end alike, or the second one gives up. -/
inductive Asked (R : σ₁ → σ₂ → Prop) (stops : Halt → σ₂ → Prop) :
    EStateM.Result Fault σ₁ α → EStateM.Result Fault σ₂ α → Prop where
  | alike {r₁ r₂} (h : EndAlike R r₁ r₂) : Asked R stops r₁ r₂
  | fault {r f y} (h : stops (.failed (.fault f)) y) : Asked R stops r (.error f y)

/-- A question that may stop the second search is heeded in the same way. -/
theorem Asked.heeded {R : σ₁ → σ₂ → Prop} {stops : Halt → σ₂ → Prop}
    {r₁ : EStateM.Result Fault σ₁ Action} {r₂ : EStateM.Result Fault σ₂ Action}
    (h : Asked R stops r₁ r₂) : Heeded R stops r₁ r₂ := by
  cases h with
  | alike h => exact .alike h
  | fault h => exact .fault h

namespace Comparison

variable {C : Comparison σ₁ σ₂} {n : Nat}

/-- Questions are in step if the callbacks end alike or the second caller gives up. -/
theorem Tracks.ask_or_stop {m₁ : Callback σ₁ α} {m₂ : Callback σ₂ α}
    (hb : ∀ x, C.before x (endState (m₁ x)))
    (h : ∀ a found x y, C.inStep a found x y → Asked (C.inStep a found)
      (fun halt => C.stopped (endState (m₁ x)) halt found) (m₁ x) (m₂ y)) :
    C.Tracks n (fun _ => True) (SearchM.ask m₁) (SearchM.ask m₂) := by
  refine ⟨fun w x hl => ?_, fun w x y hl hm => ?_⟩
  · have hend := SearchM.endState_ask m₁ w x
    exact ⟨hend ▸ hl, hend ▸ hb x, fun _ _ _ => trivial⟩
  · have ha := h w.arena w.found x y hm.inStep
    have hend := congrArg Prod.snd (SearchM.endState_ask m₁ w x)
    rw [← show (endState (SearchM.ask m₁ (w, x))).2 = endState (m₁ x) from hend] at ha
    rw [SearchM.ask_eq m₂]
    generalize hr₁ : m₁ x = r₁ at ha
    generalize m₂ y = r₂ at ha ⊢
    cases ha with
    | alike h =>
      rw [SearchM.ask_eq, hr₁]
      cases h with
      | ok h => exact .ok ⟨hm.size_le, h⟩
      | error h => exact .error ⟨hm.size_le, h⟩
    | fault h => exact .stopped hm.size_le h

variable {limit₁ limit₂ : Option Nat} {R : Nat → List Event → σ₁ → σ₂ → Prop}
variable {S : Halt → Nat → List Event → σ₂ → Prop} {e : Event}

/-- A question in place of which the second caller may give up, noted on both sides. -/
theorem tracks_ask_or_stop {m₁ : Callback σ₁ α} {m₂ : Callback σ₂ α}
    (h : ∀ found events x y, R found events x y →
      Asked (R found (events ++ [e])) (fun halt => S halt found (events ++ [e])) (m₁ x) (m₂ y)) :
    (ofEvents limit₁ limit₂ R S).Tracks n (fun _ => True) (SearchM.ask (m₁.recording e))
      (SearchM.ask (m₂.recording e)) := by
  refine .ask_or_stop (before_recording e m₁) ?_
  rintro a found ⟨x, events⟩ ⟨y, _⟩ ⟨rfl, hR⟩
  have hend := m₁.endState_recording e x events
  have hasked := h found events x y hR
  generalize hr₂ : m₂ y = r₂ at hasked
  cases hasked with
  | alike h => exact .alike (hr₂ ▸ h).recording
  | @fault f y' h =>
    have hm₂ : m₂.recording e (y, events) = .error f (y', events ++ [e]) := by
      simp only [Callback.recording, Callback.onFst, hr₂]
    rw [hm₂, hend]
    exact .fault ⟨List.prefix_refl _, h⟩

end Comparison

/-! ## Beside the recorded search -/

/-- After the same events, the second caller has noted its calls and has not given up. -/
def GoesOn (k : Nat) (_ : Nat) (events : List Event) (x : σ) (y : σ × List Event) : Prop :=
  y = (x, events.filter Event.isCall) ∧ y.2.length ≤ k

/-- The second caller gave up in place of the last of the events, its call number `k`. -/
def GivenUp (k : Nat) (_ : Halt) (_ : Nat) (events : List Event) (y : σ × List Event) : Prop :=
  y.2 = events.filter Event.isCall ∧ y.2.length = k + 1

variable {k found found' : Nat} {events : List Event} {x : σ} {y : σ × List Event}

/-- At its next call the second caller goes on, or it gives up. -/
theorem GoesOn.asked (h : GoesOn k found events x y) (m : Callback σ α) {e : Event}
    (he : e.isCall = true) :
    Asked (GoesOn k found' (events ++ [e])) (fun halt => GivenUp k halt found' (events ++ [e]))
      (m x) (m.upTo k e y) := by
  obtain ⟨rfl, hle⟩ := h
  have hcalls : (events ++ [e]).filter Event.isCall = events.filter Event.isCall ++ [e] := by
    rw [List.filter_append, List.filter_cons_of_pos he]
    rfl
  have hlength : (events.filter Event.isCall ++ [e]).length =
      (events.filter Event.isCall).length + 1 := List.length_append
  have hle : (events.filter Event.isCall).length ≤ k := hle
  rw [Callback.upTo]
  split
  · rename_i hlt
    have hgoes (s' : σ) : GoesOn k found' (events ++ [e]) s'
        (s', events.filter Event.isCall ++ [e]) :=
      ⟨by rw [hcalls], hlength ▸ hlt⟩
    refine .alike ?_
    simp only [Callback.recording, Callback.onFst]
    cases m x with
    | ok a s' => exact .ok (hgoes s')
    | error f s' => exact .error (hgoes s')
  · rename_i hlt
    refine .fault ⟨hcalls.symm, hlength.trans ?_⟩
    omega

/-- A reservation is no call, so the second caller goes on. -/
theorem GoesOn.reserved (h : GoesOn k found events x y) (inUse requested : Nat) :
    GoesOn k found (events ++ [.reservation inUse requested]) x y := by
  obtain ⟨rfl, hle⟩ := h
  have hcalls : (events ++ [Event.reservation inUse requested]).filter Event.isCall =
      events.filter Event.isCall := by
    rw [List.filter_append]
    exact List.append_nil _
  exact ⟨by rw [hcalls], hle⟩

namespace Problem

variable (P : Problem ν ε σ) (k : Nat)

/-- The recorded searches go on alike until the second caller gives up. -/
theorem callers_upTo (limit : Option Nat) :
    (Comparison.ofEvents limit limit (GoesOn k) (GivenUp (σ := σ) k)).Callers P.recording
      (.recording P.predicate) (P.predicate.upTo k).recording (P.processor.upTo k).recording
      (.recording (P.predicate.upTo k)) where
  vertices n i j := Comparison.tracks_ask_or_stop fun found events x y h => h.asked _ rfl
  edges n i₁ i₂ es₁ j₁ j₂ es₂ :=
    Comparison.tracks_ask_or_stop fun found events x y h => h.asked _ rfl
  enter n := by
    rintro ⟨level, active₁, enclosing₁, w₁⟩ ⟨_, active₂, enclosing₂, w₂⟩ rfl
    refine .heed (Comparison.before_recording (.progress level) _) ?_
    rintro a found ⟨x, events⟩ ⟨y, _⟩ ⟨rfl, h⟩
    exact Comparison.heeded_recording a (h.asked _ rfl).heeded
  deliver n limit := by
    refine .deliver (fun xs ys => Comparison.before_recording (.solution xs ys) _) ?_
    rintro a found ⟨x, events⟩ ⟨y, _⟩ xs ys ⟨rfl, h⟩
    exact Comparison.heeded_recording a (h.asked _ rfl).heeded
  start n map i k' _ := Comparison.tracks_start rfl
    (fun found events x y inUse requested h => h.reserved inUse requested) map i k'

/-- A search whose caller gives up from call number `k` on makes the calls up to there. -/
theorem calls_upTo (w : Work) (s : σ) :
    (endState ((P.upTo k).recorded (w, ((s, []), [])))).2.1.2 =
      ((endState (P.recorded (w, (s, [])))).2.2.filter Event.isCall).take (k + 1) := by
  have htracks := (P.callers_upTo k w.arena.limit).searchBy 0 P.config.arenaLimit
  have hstart : GoesOn k w.found [] s (s, []) := ⟨rfl, Nat.zero_le k⟩
  rcases htracks.exists_seen rfl rfl (x := (s, [])) (y := ((s, []), []))
      ⟨Nat.zero_le _, rfl, hstart⟩ with
    ⟨r, hr₁, hr₂, hm⟩ | ⟨halt, w', y, hr₂, hprefix, hcalls, hlength⟩
  -- the caller did not get to call number `k`: its calls are all there are
  · obtain ⟨hevents, hy, hle⟩ := hm.inStep
    have hcalls : (endState r).2.2.1.2 =
        ((endState r).2.1.2.filter Event.isCall).take (k + 1) := by
      rw [hy] at hle ⊢
      exact (List.take_of_length_le (Nat.le_succ_of_le hle)).symm
    have hr₁ : P.recorded (w, (s, [])) = seen (beside Prod.fst) r := hr₁
    have hr₂ : (P.upTo k).recorded (w, ((s, []), [])) = seen (beside Prod.snd) r := hr₂
    rw [hr₁, hr₂]
    cases r with
    | ok a st => exact hcalls
    | error halt st => exact hcalls
  -- it gave up there: its calls are the first `k + 1`
  · have h₂ := congrArg (fun r => (endState r).2.1.2) hr₂
    refine h₂.trans ?_
    show y.1.2 = _
    have hprefix := hprefix.filter Event.isCall
    rw [← hcalls] at hprefix
    rw [← hlength]
    exact List.prefix_iff_eq_take.mp hprefix

end Problem

/-! ## Interrupted callers -/

/-- The call as an event, without its answer. -/
def Call.event : Call → Event
  | .vertices i j _ => .vertices i j
  | .edges i₁ i₂ es₁ j₁ j₂ es₂ _ => .edges i₁ i₂ es₁ j₁ j₂ es₂
  | .progress level _ => .progress level
  | .solution xs ys _ => .solution xs ys

/-- The problem with a caller that notes its answers. -/
def Problem.traced (P : Problem ν ε σ) : Problem ν ε (σ × Array Call) :=
  P.recast P.predicate.traced P.processor.traced

/-- The problem with a caller that notes its answers and gives up from call number `k` on. -/
def Problem.interrupted (P : Problem ν ε σ) (k : Nat) :
    Problem ν ε ((σ × Array Call) × List Event) :=
  P.traced.upTo k

/-- The state of a caller that is interrupted, with the levels noted beside it. -/
abbrev Interrupted (σ : Type) := ((σ × Array Call) × List Event) × List Entry

namespace Interrupted

variable (x : Interrupted σ)

/-- The calls that were answered, with their answers. -/
def answered : List Call := x.1.1.2.toList

/-- The calls that were made. -/
def calls : List Event := x.1.2

/-- The levels that were entered. -/
def entries : List Entry := x.2

/-- The caller has answered all its calls and not given up. -/
def Going (k : Nat) : Prop := x.calls = x.answered.map Call.event ∧ x.calls.length ≤ k

/-- The caller gave up in place of the call `e`, having answered those in `answered`. -/
def GaveUp (answered : List Call) (entries : List Entry) (e : Event) (x : Interrupted σ) : Prop :=
  x.answered = answered ∧ x.calls = answered.map Call.event ++ [e] ∧ x.entries = entries

end Interrupted

/-! ## Their callbacks -/

section

variable {k : Nat} {x x' : Interrupted σ}

/-- One callback of an interrupted caller, with the levels left alone. -/
abbrev Callback.interrupted (k : Nat) (e : Event) (c : α → Call) (m : Callback σ α) :
    Callback (Interrupted σ) α := ((m.traced c).upTo k e).onFst

variable {m : Callback σ α} {e : Event} {c : α → Call} {a : α} {f : Fault}

/-- What a callback of an interrupted caller does, by how many calls were made. -/
theorem Callback.interrupted_eq (k : Nat) (e : Event) (c : α → Call) (m : Callback σ α) (s : σ)
    (answered : Array Call) (calls : List Event) (entries : List Entry) :
    m.interrupted k e c (((s, answered), calls), entries) =
      if calls.length < k then match m s with
        | .ok a s' => .ok a (((s', answered.push (c a)), calls ++ [e]), entries)
        | .error f s' => .error f (((s', answered), calls ++ [e]), entries)
      else .error (.raised "interrupted") (((s, answered), calls ++ [e]), entries) := by
  by_cases hlt : calls.length < k
  · simp only [Callback.interrupted, Callback.onFst, Callback.upTo, Callback.recording,
      Callback.traced, if_pos hlt]
    cases m s <;> rfl
  · simp only [Callback.interrupted, Callback.onFst, Callback.upTo, if_neg hlt]

/-- An answer is noted. -/
theorem Interrupted.Going.answer (hx : x.Going k) (h : m.interrupted k e c x = .ok a x')
    (he : (c a).event = e) :
    x'.Going k ∧ x'.answered = x.answered ++ [c a] ∧ x'.entries = x.entries := by
  obtain ⟨⟨⟨s, answered⟩, calls⟩, entries⟩ := x
  obtain ⟨hcalls, -⟩ := hx
  rw [Callback.interrupted_eq] at h
  split at h
  · rename_i hlt
    cases hm : m s with
    | ok a' s' =>
      rw [hm] at h
      cases h
      have hanswered : (answered.push (c a)).toList = answered.toList ++ [c a] := Array.toList_push
      refine ⟨⟨?_, ?_⟩, hanswered, rfl⟩
      · show calls ++ [e] = (answered.push (c a)).toList.map Call.event
        rw [hanswered, List.map_append, ← show calls = answered.toList.map Call.event from hcalls,
          List.map_singleton, he]
      · show (calls ++ [e]).length ≤ k
        rw [List.length_append]
        exact hlt
    | error f' s' =>
      rw [hm] at h
      cases h
  · cases h

/-- A callback that gives up is the last call, or there were fewer calls than the caller makes. -/
theorem Interrupted.Going.giveUp (hx : x.Going k) (h : m.interrupted k e c x = .error f x') :
    x'.calls.length ≤ k ∨ x'.GaveUp x.answered x.entries e := by
  obtain ⟨⟨⟨s, answered⟩, calls⟩, entries⟩ := x
  obtain ⟨hcalls, -⟩ := hx
  rw [Callback.interrupted_eq] at h
  split at h
  · rename_i hlt
    cases hm : m s with
    | ok a' s' =>
      rw [hm] at h
      cases h
    | error f' s' =>
      rw [hm] at h
      cases h
      refine .inl ?_
      show (calls ++ [e]).length ≤ k
      rw [List.length_append]
      exact hlt
  · cases h
    refine .inr ⟨rfl, ?_, rfl⟩
    show calls ++ [e] = _
    rw [show calls = answered.toList.map Call.event from hcalls]
    rfl

end

/-! ## Their answers -/

/-- Searches whose callers give the same answers, until the second one gives up. -/
def Comparison.untilGivenUp (limit : Option Nat) :
    Comparison (σ × Array Call) ((σ × Array Call) × List Event) where
  limit₁ := limit
  limit₂ := limit
  inStep _ _ x y := y.1 = x
  rows _ := True
  before x x' := x.2.toList <+: x'.2.toList
  stopped x _ _ y := y.1.2.toList <+: x.2.toList
  before_refl _ := List.prefix_refl _
  before_trans _ _ _ h h' := h.trans h'
  stopped_before _ _ _ _ _ hx h := h.trans hx
  inStep_truncate _ _ _ _ _ h := h
  rows_new _ _ := trivial
  rows_start _ _ _ _ _ _ _ _ := trivial
  rows_grow _ _ _ _ _ _ := trivial
  inStep_push _ _ _ _ _ _ _ _ _ _ h := h

/-- A caller that notes its answers keeps those noted before. -/
theorem Callback.prefix_traced (m : Callback σ α) (c : α → Call) (x : σ × Array Call) :
    x.2.toList <+: (endState (m.traced c x)).2.toList := by
  obtain ⟨s, answered⟩ := x
  simp only [Callback.traced]
  cases m s with
  | ok a s' =>
    show answered.toList <+: (answered.push (c a)).toList
    rw [Array.toList_push]
    exact List.prefix_append _ _
  | error f s' => exact List.prefix_refl _

/-- Beside the traced callback, one that may give up ends alike or gives up. -/
theorem Callback.asked_traced (m : Callback σ α) (k : Nat) (e : Event) (c : α → Call)
    {x : σ × Array Call} {y : (σ × Array Call) × List Event} (h : y.1 = x) :
    Asked (fun x y => y.1 = x)
      (fun _ (y : (σ × Array Call) × List Event) =>
        y.1.2.toList <+: (endState (m.traced c x)).2.toList)
      (m.traced c x) ((m.traced c).upTo k e y) := by
  obtain ⟨_, calls⟩ := y
  obtain rfl := h
  rw [Callback.upTo]
  split
  · refine .alike ?_
    simp only [Callback.recording, Callback.onFst]
    cases m.traced c _ with
    | ok a x' => exact .ok rfl
    | error f x' => exact .error rfl
  · exact .fault (m.prefix_traced c _)

/-- A traced caller and an interrupted one stay in step until the second gives up. -/
theorem Problem.callers_interrupted (P : Problem ν ε σ) (k : Nat) (limit : Option Nat) :
    (Comparison.untilGivenUp limit).Callers P.traced (.plain P.traced.predicate)
      (P.interrupted k).predicate (P.interrupted k).processor
      (.plain (P.interrupted k).predicate) where
  vertices n i j := .ask_or_stop (Callback.prefix_traced _ _) fun a found x y h =>
    Callback.asked_traced _ k _ _ h
  edges n i₁ i₂ es₁ j₁ j₂ es₂ := .ask_or_stop (Callback.prefix_traced _ _) fun a found x y h =>
    Callback.asked_traced _ k _ _ h
  enter n := by
    rintro ⟨level, active₁, enclosing₁, w₁⟩ ⟨_, active₂, enclosing₂, w₂⟩ rfl
    exact .heed (Callback.prefix_traced _ _) fun a found x y h =>
      (Callback.asked_traced _ k _ _ h).heeded
  deliver n limit := .deliver (fun _ _ => Callback.prefix_traced _ _) fun a found x y xs ys h =>
    (Callback.asked_traced _ k _ _ h).heeded
  start n map i k _ := .startRow rfl trivial i k

/-- What an interrupted caller has answered is what a search that is not interrupted begins with. -/
theorem Problem.answered_interrupted (P : Problem ν ε σ) (k : Nat) (w : Work) (s : σ) :
    (endState ((P.interrupted k).search (w, ((s, #[]), [])))).2.1.2.toList <+:
      (endState (P.traced.search (w, (s, #[])))).2.2.toList := by
  have htracks := (P.callers_interrupted k w.arena.limit).searchBy 0 P.config.arenaLimit
  have hplain : (P.interrupted k).search = (P.traced.alter (P.interrupted k).predicate
      (P.interrupted k).processor P.config.arenaLimit).searchBy
        (.plain (P.interrupted k).predicate) := (P.interrupted k).searchBy_plain.symm
  rw [searchBy_plain] at htracks
  rw [hplain]
  rcases htracks.exists_seen rfl rfl (x := (s, #[])) (y := ((s, #[]), []))
    ⟨Nat.zero_le _, rfl⟩ with ⟨r, hr₁, hr₂, hm⟩ | ⟨halt, w', y, hr₂, hprefix⟩
  · have hsame : (endState r).2.2.1 = (endState r).2.1 := hm.inStep
    rw [hr₁, hr₂]
    cases r with
    | ok a st => exact hsame ▸ List.prefix_refl _
    | error halt st => exact hsame ▸ List.prefix_refl _
  · rw [hr₂]
    exact hprefix

end CommonSubgraph
