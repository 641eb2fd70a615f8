import CommonSubgraph.Proofs.Search.Entries
import CommonSubgraph.Proofs.Search.Interrupted
import CommonSubgraph.Proofs.Search.Protocol
import CommonSubgraph.Proofs.Search.Trials

/-!
# What a caller may rely on

A caller is asked about two vertices once, and before any level is entered. Asked about edges, it is
given all edges of the two graphs at the two pairs, as many on each side in each direction; the
pairs are one and the same, which it has accepted before, or the newest one and a candidate of the
level on which that was made (`Moment.Promises`).

What holds when a call is made is read off a search that is interrupted there. Its caller notes the
answers, the calls and the levels, one beside the other (`Interrupted`). The scripts of the two
programs that fill candidate maps say what is asked, and in which state; what is known of the levels
is carried through the search (`Problem.ensures_explore`).
-/

namespace CommonSubgraph

variable {ν ε σ α β γ : Type}

/-! ## Moments -/

/-- A search that is about to make a call. -/
structure Moment where
  /-- The calls that were made before, with their answers. -/
  answered : List Call
  /-- The levels that were entered before, in order. -/
  entries : List Entry
  work : Work

namespace Moment

/-- The pairs made so far, oldest first. -/
def pairs (m : Moment) : List (VertexId × VertexId) := m.work.xs.toList.zip m.work.ys.toList

/-- The level `e` is the newest one that was entered without the newest pair, that of `i` with
`j`. -/
def IsParent (m : Moment) (e : Entry) (i j : VertexId) : Prop :=
  e.pairs ++ [(i, j)] = m.pairs ∧ ∃ before after, m.entries = before ++ e :: after ∧
    ∀ e' ∈ after, e.pairs.length < e'.pairs.length

/-- The newest pair is `i₁` with `j₁`; `i₂` is up for pairing, and `j₂` is a partner that it can
have on the level on which that pair was made. -/
structure Tries (m : Moment) (i₁ i₂ j₁ j₂ : VertexId) : Prop where
  newest : m.pairs.getLast? = some (i₁, j₁)
  unpaired : i₂ ∈ m.work.unpaired.vertices
  not_paired : i₂ ∉ m.work.xs
  free : j₂ ∉ m.work.ys
  candidate : ∃ e js, m.IsParent e i₁ j₁ ∧ e.active.map.read m.work.arena i₂ = .ok js ∧ j₂ ∈ js

/-- What the caller may rely on when it is called. -/
def Promises (g₁ g₂ : Graph ν ε) (m : Moment) : Event → Prop
  | .vertices i j =>
    (∀ answer, .vertices i j answer ∉ m.answered) ∧
      ∀ level action, .progress level action ∉ m.answered
  | .edges i₁ i₂ es₁ j₁ j₂ es₂ =>
    (es₁ = g₁.touching i₁ i₂ ∧ es₂ = g₂.touching j₁ j₂) ∧
      ((g₁.joining i₁ i₂).length = (g₂.joining j₁ j₂).length ∧
        (g₁.joining i₂ i₁).length = (g₂.joining j₂ j₁).length) ∧
      (i₁ = i₂ → j₁ = j₂ ∧ .vertices i₁ j₁ true ∈ m.answered) ∧
      (i₁ ≠ i₂ → es₁ ≠ [] ∧ m.Tries i₁ i₂ j₁ j₂)
  | _ => True

end Moment

/-- The moment at which a search with an interrupted caller is. -/
def Interrupted.moment (x : Interrupted σ) (w : Work) : Moment := ⟨x.answered, x.entries, w⟩

/-- The search is halted. Where its caller gave up in place of call number `k`, the caller could
rely on what it may rely on. -/
def Halted (g₁ g₂ : Graph ν ε) (k : Nat) (halt : Halt) (st : Work × Interrupted σ) : Prop :=
  st.2.calls.length ≤ k ∨ (∃ f, halt = .failed (.fault f)) ∧
    ∃ e, st.2.calls = st.2.answered.map Call.event ++ [e] ∧
      (st.2.moment st.1).Promises g₁ g₂ e

/-! ## Programs of interrupted callers -/

/-- The call that is made at a step that the search passes. -/
def Act.call? : Act → Option Call
  | .vertices i j answer => some (.vertices i j answer)
  | .edges i₁ i₂ es₁ j₁ j₂ es₂ answer => some (.edges i₁ i₂ es₁ j₁ j₂ es₂ answer)
  | .progress level => some (.progress level .proceed)
  | .solution xs ys => some (.solution xs ys .proceed)
  | .reserve _ => none

/-- The calls of a script, in order. -/
def callsOf (E : List Step) : List Call := E.filterMap fun st => st.act.call?

namespace Problem

variable {P : Problem ν ε σ} {k : Nat} {x x' : Interrupted σ} {st : Step} {E : List Step}

/-- A step that is passed adds its call and the answer to those noted. -/
theorem Passes.going (h : (P.interrupted k).visiting.Passes st x x') (hx : x.Going k) :
    x'.Going k ∧ x'.answered = x.answered ++ st.act.call?.toList ∧ x'.entries = x.entries := by
  obtain ⟨v, act⟩ := st
  cases act with
  | vertices i j answer => exact hx.answer (c := Call.vertices i j) h rfl
  | edges i₁ i₂ es₁ j₁ j₂ es₂ answer =>
    exact hx.answer (c := Call.edges i₁ i₂ es₁ j₁ j₂ es₂) h rfl
  | progress level => exact hx.answer (c := Call.progress level) h rfl
  | solution xs ys => exact hx.answer (c := Call.solution xs ys) h rfl
  | reserve n =>
    obtain ⟨rfl, -⟩ := h
    exact ⟨hx, (List.append_nil _).symm, rfl⟩

/-- A script that is heard adds its calls and their answers to those noted. -/
theorem Heard.going (h : (P.interrupted k).visiting.Heard E x x') (hx : x.Going k) :
    x'.Going k ∧ x'.answered = x.answered ++ callsOf E ∧ x'.entries = x.entries := by
  induction h with
  | nil => exact ⟨hx, (List.append_nil _).symm, rfl⟩
  | @cons st E x x₁ x' head _ ih =>
    obtain ⟨hx₁, hanswered₁, hentries₁⟩ := head.going hx
    obtain ⟨hx', hanswered', hentries'⟩ := ih hx₁
    refine ⟨hx', ?_, hentries'.trans hentries₁⟩
    rw [hanswered', hanswered₁, List.append_assoc, callsOf, callsOf, List.filterMap_cons]
    cases st.act.call? <;> rfl

/-- A step that ends the search was no call beyond the limit, or the caller gave up in its place. -/
theorem Stops.giveUp {halt : Halt} (h : (P.interrupted k).visiting.Stops st x halt x')
    (hx : x.Going k) : x'.calls.length ≤ k ∨ (∃ f, halt = .failed (.fault f)) ∧
      ∃ c, st.act.call? = some c ∧ x'.GaveUp x.answered x.entries c.event := by
  have fault {c : Call} {f : Fault} (hhalt : halt = .failed (.fault f))
      (hgave : x'.calls.length ≤ k ∨ x'.GaveUp x.answered x.entries c.event) :
      x'.calls.length ≤ k ∨ (∃ f, halt = .failed (.fault f)) ∧
        ∃ c', some c = some c' ∧ x'.GaveUp x.answered x.entries c'.event :=
    hgave.imp_right fun hgave => ⟨⟨f, hhalt⟩, c, rfl, hgave⟩
  -- by the kind of step; the caller gives up in place of an answer, and a reservation asks for none
  obtain ⟨v, act⟩ := st
  cases act with
  | vertices i j answer =>
    obtain ⟨f, hhalt, h⟩ := h
    exact fault hhalt (hx.giveUp (c := Call.vertices i j) h)
  | edges i₁ i₂ es₁ j₁ j₂ es₂ answer =>
    obtain ⟨f, hhalt, h⟩ := h
    exact fault hhalt (hx.giveUp (c := Call.edges i₁ i₂ es₁ j₁ j₂ es₂) h)
  | progress level =>
    rcases h with ⟨-, h⟩ | ⟨f, hhalt, h⟩
    · exact .inl (hx.answer (c := Call.progress level) h rfl).1.2
    · exact fault hhalt (hx.giveUp (c := Call.progress level) h)
  | solution xs ys =>
    rcases h with ⟨-, h⟩ | ⟨f, hhalt, h⟩
    · exact .inl (hx.answer (c := Call.solution xs ys) h rfl).1.2
    · exact fault hhalt (hx.giveUp (c := Call.solution xs ys) h)
  | reserve n =>
    obtain ⟨rfl, -⟩ := h
    exact .inl hx.2

/-- A program with a script is halted as it should be, if the caller may rely at each step on what
it may rely on. -/
theorem Runs.ensures {A : Act → Prop} {keep : Nat → Prop} {m : SearchM (Interrupted σ) α} {w : Work}
    {R : List Step → α → Work → Prop} (h : (P.interrupted k).visiting.Runs A keep m w R)
    (hx : x.Going k)
    (hkept : ∀ E a w', R E a w' → ∀ E₁ st E₂, E = E₁ ++ st :: E₂ → ∀ c, st.act.call? = some c →
      ∀ w'', (P.interrupted k).visiting.Shows w'' st.view →
        (⟨x.answered ++ callsOf E₁, x.entries, w''⟩ : Moment).Promises P.first P.second c.event) :
    Ensures m (w, x) (fun a st => (∃ E, R E a st.1) ∧ st.2.Going k ∧ st.2.entries = x.entries)
      (Halted P.first P.second k) := by
  obtain ⟨E, a, w', hR, -, hf⟩ := h x
  rw [Ensures]
  cases hf with
  | through heard eq =>
    rw [eq]
    obtain ⟨hx', -, hentries⟩ := heard.going hx
    exact ⟨⟨E, hR⟩, hx', hentries⟩
  | @stopped E₁ E₂ st x₁ x' halt w'' n split heard stops eq _ shows =>
    rw [eq]
    obtain ⟨hx₁, hanswered₁, hentries₁⟩ := heard.going hx
    rcases stops.giveUp hx₁ with hle | ⟨⟨f, rfl⟩, c, hc, hanswered, hcalls, hentries⟩
    · exact .inl hle
    · refine .inr ⟨⟨f, rfl⟩, c.event, hanswered ▸ hcalls, ?_⟩
      have hpromises := hkept E a w' hR E₁ st E₂ split c hc w'' shows
      rw [← hanswered₁, ← hanswered, ← hentries₁, ← hentries] at hpromises
      exact hpromises

end Problem

/-! ## Programs that are halted as they should be -/

namespace Ensures

variable {τ : Type} {w w₁ : Work} {x : τ} {post : α → Work × τ → Prop}
variable {halted : Halt → Work × τ → Prop}

/-- Reading the working state ensures what follows it ensures. -/
theorem work {f : Work → SearchM τ α} (h : Ensures (f w) (w, x) post halted) :
    Ensures (SearchM.work >>= f) (w, x) post halted := h

/-- What changes the working state alone changes nothing else. -/
theorem silent {m m₁ : SearchM τ α} (heq : m (w, x) = m₁ (w₁, x))
    (h : Ensures m₁ (w₁, x) post halted) : Ensures m (w, x) post halted := by
  rw [Ensures, heq]
  exact h

/-- Reading a slot in use ensures what follows it ensures. -/
theorem slot {f : VertexId → SearchM τ α} {k : Nat} {j : VertexId} (hj : w.arena.slots[k]? = some j)
    (h : Ensures (f j) (w, x) post halted) : Ensures (SearchM.slot k >>= f) (w, x) post halted := by
  refine silent (Problem.bind_ok ?_) h
  show SearchM.check (w.arena.get k) (w, x) = _
  rw [Arena.get, hj]
  rfl

/-- An update that succeeds ensures what follows it ensures. -/
theorem update {f : Work → Except Fault Work} {m : SearchM τ α} (hf : f w = .ok w₁)
    (h : Ensures m (w₁, x) post halted) :
    Ensures (SearchM.update f >>= fun _ => m) (w, x) post halted := by
  refine silent (Problem.bind_ok (a := ()) ?_) h
  rw [SearchM.update, hf]

/-- An update that succeeds at the end ensures what holds of its result. -/
theorem update_last {f : Work → Except Fault Work} {post : Unit → Work × τ → Prop}
    (hf : f w = .ok w₁) (h : post () (w₁, x)) : Ensures (SearchM.update f) (w, x) post halted := by
  rw [Ensures, SearchM.update, hf]
  exact h

/-- What releases its slots at the end must not be held to them if it is tidied up after a halt. -/
theorem releasing {m : SearchM τ α} {n : Nat} (h : Ensures m (w, x) post halted)
    (hpost : ∀ a st, post a st → n ≤ st.1.arena.size)
    (hhalted : ∀ halt st, halted halt st →
      (∃ f, halt = .failed (.fault f)) ∨ ∀ halt' w', halted halt' (w', st.2)) :
    Ensures (SearchM.releasing n m) (w, x) (fun a st =>
      ∃ w', post a (w', st.2) ∧ st.1 = { w' with arena := w'.arena.truncate n }) halted := by
  rw [Ensures] at h
  cases hr : m (w, x) with
  | ok a st =>
    rw [hr] at h
    rw [Ensures, SearchM.releasing_of_ok hr (hpost a st h)]
    exact ⟨st.1, h, rfl⟩
  | error halt st =>
    rw [hr] at h
    rcases hhalted halt st h with ⟨f, rfl⟩ | hany
    · simp only [Ensures, SearchM.releasing, hr]
      exact h
    · have hsame := (SearchM.endState_releasing n m (w, x)).1
      rw [hr] at hsame
      rw [Ensures]
      cases hreleased : SearchM.releasing n m (w, x) with
      | ok a st' =>
        obtain ⟨st'', hm⟩ := SearchM.exists_of_releasing_eq_ok hreleased
        cases hr.symm.trans hm
      | error halt' st' =>
        rw [hreleased] at hsame
        have hst' := hany halt' st'.1
        rw [← show st'.2 = st.2 from hsame] at hst'
        exact hst'

/-- Candidates are tried one after the other as long as what holds before each holds after it. -/
theorem forM {m : γ → SearchM τ Unit} {S : Work × τ → Prop} {cs : List γ}
    (h : ∀ c ∈ cs, ∀ st, S st → Ensures (m c) st (fun _ => S) halted) {st : Work × τ} (hst : S st) :
    Ensures (cs.forM m) st (fun _ => S) halted := by
  induction cs generalizing st with
  | nil => exact hst
  | cons c cs ih =>
    refine (h c List.mem_cons_self st hst).bind fun _ st₁ hst₁ => ?_
    exact ih (fun c' hc' => h c' (List.mem_cons_of_mem c hc')) hst₁

end Ensures

/-- What is said of a halt survives the tidying up: if it speaks of the working state, the halt is
a fault, after which nothing is tidied up. -/
theorem Halted.tidied {g₁ g₂ : Graph ν ε} {k : Nat} (halt : Halt) (st : Work × Interrupted σ)
    (h : Halted g₁ g₂ k halt st) :
    (∃ f, halt = .failed (.fault f)) ∨ ∀ halt' w', Halted g₁ g₂ k halt' (w', st.2) := by
  rcases h with hle | ⟨hfault, -⟩
  · exact .inr fun _ _ => .inl hle
  · exact .inl hfault

/-! ## What is asked while a map is filled -/

section

variable {g₁ g₂ : Graph ν ε} {v v' : View} {E E₁ E₂ : List Step} {st : Step} {rows rows' : Rows}
variable {acts₁ acts₂ : List Act} {act : Act} {b : Bool} {i j iu ju : VertexId} {js : List VertexId}
variable {c : Call}

/-- A call that asks about two vertices is a question about this pair. -/
theorem Act.vertexPair?_of_call? {answer : Bool}
    (h : act.call? = some (.vertices i j answer)) : act.vertexPair? = some (i, j) := by
  cases act with
  | vertices =>
    cases h
    rfl
  | edges | progress | solution | reserve => cases h

/-- The calls of a script are made at its steps. -/
theorem mem_callsOf : c ∈ callsOf E ↔ ∃ st ∈ E, st.act.call? = some c := List.mem_filterMap

/-- A list that is split at its only element. -/
theorem split_eq_singleton {l l' : List α} {x y : α} (h : l ++ x :: l' = [y]) : l = [] ∧ x = y := by
  cases l with
  | nil => exact ⟨rfl, (List.cons.inj h).1⟩
  | cons _ l =>
    exact absurd (List.cons.inj h).2
      (List.append_ne_nil_of_right_ne_nil _ (List.cons_ne_nil _ _))

/-- Self-loops are compared after the vertices were accepted. -/
theorem Suited.asked (h : Suited g₁ g₂ i j (acts₁ ++ act :: acts₂) b) :
    (∃ answer, act = .vertices i j answer) ∨ acts₁ = [.vertices i j true] ∧
      (g₁.joining i i).length = (g₂.joining j j).length ∧
      ∃ answer, act = .edges i i (g₁.joining i i) j j (g₂.joining j j) answer := by
  generalize hacts : acts₁ ++ act :: acts₂ = acts at h
  cases h with
  | loops => exact absurd hacts (List.append_ne_nil_of_right_ne_nil _ (List.cons_ne_nil _ _))
  | refused => exact .inl ⟨false, (split_eq_singleton hacts).2⟩
  | compared h b =>
    cases acts₁ with
    | nil => exact .inl ⟨true, (List.cons.inj hacts).1⟩
    | cons act₁ acts₁ =>
      obtain ⟨rfl, hrest⟩ := List.cons.inj hacts
      obtain ⟨rfl, hact⟩ := split_eq_singleton hrest
      exact .inr ⟨rfl, h, b, hact⟩

/-- Edges are compared only if there are any, and as many on both sides in each direction. -/
theorem Matched.asked (h : Matched g₁ g₂ i j iu ju (acts₁ ++ act :: acts₂) b) :
    ju ≠ j ∧ (g₁.joining i iu).length = (g₂.joining j ju).length ∧
      (g₁.joining iu i).length = (g₂.joining ju j).length ∧
      g₁.joining i iu ++ g₁.joining iu i ≠ [] ∧
      ∃ answer, act = .edges i iu (g₁.joining i iu ++ g₁.joining iu i) j ju
        (g₂.joining j ju ++ g₂.joining ju j) answer := by
  generalize hacts : acts₁ ++ act :: acts₂ = acts at h
  cases h with
  | taken | there | back | apart =>
    exact absurd hacts (List.append_ne_nil_of_right_ne_nil _ (List.cons_ne_nil _ _))
  | compared hne h h' hnil b => exact ⟨hne, h, h', hnil, b, (split_eq_singleton hacts).2⟩

/-- While the initial map is filled, the caller is asked about vertices, or about their self-loops
after it has accepted the vertices. -/
theorem RowsFilled.asked_initial {source : Rows} {is : List VertexId}
    (h : RowsFilled (Suited g₁ g₂) source is v E rows v') (hE : E = E₁ ++ st :: E₂)
    (hc : st.act.call? = some c) : (∃ i j answer, st.act = .vertices i j answer) ∨
      ∃ i j answer, .vertices i j true ∈ callsOf E₁ ∧
        (g₁.joining i i).length = (g₂.joining j j).length ∧
        st.act = .edges i i (g₁.joining i i) j j (g₂.joining j j) answer := by
  rcases h.exists_trial hE with ⟨n, hact⟩ | ⟨i, -, j, -, acts₁, acts₂, b, E₀, ht, rfl⟩
  · rw [hact] at hc
    cases hc
  rcases ht.asked with ⟨answer, hact⟩ | ⟨rfl, hloops, answer, hact⟩
  · exact .inl ⟨i, j, answer, hact⟩
  · refine .inr ⟨i, j, answer, mem_callsOf.mpr ⟨⟨st.view, .vertices i j true⟩, ?_, rfl⟩, hloops,
      hact⟩
    exact List.mem_append_right _ List.mem_cons_self

/-- What the caller may rely on while the initial map is filled. -/
theorem RowsFilled.promises_initial {is : List VertexId}
    (h : RowsFilled (Suited g₁ g₂) (fun _ => js) is v E rows v') (his : is.Nodup) (hjs : js.Nodup)
    (hE : E = E₁ ++ st :: E₂) (hc : st.act.call? = some c) (entries : List Entry) (w : Work) :
    (⟨callsOf E₁, entries, w⟩ : Moment).Promises g₁ g₂ c.event := by
  rcases h.asked_initial hE hc with ⟨i, j, answer, hact⟩ | ⟨i, j, answer, haccepted, hloops, hact⟩
  · rw [hact] at hc
    cases hc
    constructor
    · -- the same question would be there twice
      intro answer' hmem
      obtain ⟨st', hst', hc'⟩ := mem_callsOf.mp hmem
      have hnodup := h.nodup_vertexPairs his hjs
      rw [hE, vertexPairs_append] at hnodup
      refine (List.nodup_append.mp hnodup).2.2 (i, j) ?_ (i, j) ?_ rfl
      · exact List.mem_filterMap.mpr ⟨st', hst', Act.vertexPair?_of_call? hc'⟩
      · exact List.mem_filterMap.mpr ⟨st, List.mem_cons_self, congrArg Act.vertexPair? hact⟩
    -- nothing but questions about vertices and their loops is asked before the first level
    · intro level action hmem
      obtain ⟨st', hst', hc'⟩ := mem_callsOf.mp hmem
      obtain ⟨E₀, E₀', rfl⟩ := List.append_of_mem hst'
      have hE' : E = E₀ ++ st' :: (E₀' ++ st :: E₂) := by rw [hE, List.append_assoc]; rfl
      rcases h.asked_initial hE' hc' with ⟨i', j', answer', hact'⟩ | ⟨i', j', answer', -, -, hact'⟩
      · rw [hact'] at hc'
        cases hc'
      · rw [hact'] at hc'
        cases hc'
  · rw [hact] at hc
    cases hc
    refine ⟨⟨(Graph.touching_self _ i).symm, (Graph.touching_self _ j).symm⟩, ⟨hloops, hloops⟩,
      fun _ => ⟨rfl, haccepted⟩, fun hne => absurd rfl hne⟩

/-- The newest level with as few pairs as `pairs` was entered with these and with the candidates of
`map`. -/
def OnLevel (map : CandidateMap) (pairs : List (VertexId × VertexId)) (entries : List Entry) :
    Prop :=
  ∃ before e after, entries = before ++ e :: after ∧ e.active.map = map ∧ e.pairs = pairs ∧
    ∀ e' ∈ after, pairs.length < e'.pairs.length

/-- The pairs of a working state are those of the view. -/
theorem Problem.Shows.zip_eq {P : Problem ν ε σ} {w : Work} (hw : P.Shows w v) :
    w.xs.toList.zip w.ys.toList = v.pairs := by
  rw [hw.xs_eq, hw.ys_eq]
  exact (List.zip_of_prod rfl rfl).symm

/-- What the caller may rely on while a map is refined. -/
theorem RowsFilled.promises_refined {P : Problem ν ε σ} {w : Work} {map : CandidateMap}
    {answered : List Call} {entries : List Entry} (hv : v.Sound P.first P.second)
    (hfit : v.Fits P.second rows) (hm : map.Reads v.arena rows) (hi : i ∈ v.unpaired)
    (hj : j ∈ rows i) (hlevel : OnLevel map v.pairs entries)
    (h : RowsFilled (Matched P.first P.second i j) rows (v.extend i j).unpaired (v.extend i j) E
      rows' v') (hE : E = E₁ ++ st :: E₂) (hc : st.act.call? = some c) (hw : P.Shows w st.view) :
    (⟨answered, entries, w⟩ : Moment).Promises P.first P.second c.event := by
  rcases h.exists_trial hE with ⟨n, hact⟩ | ⟨iu, hiu, ju, hju, acts₁, acts₂, b, -, ht, -⟩
  · rw [hact] at hc
    cases hc
  obtain ⟨hne, hthere, hback, hsome, answer, hact⟩ := ht.asked
  rw [hact] at hc
  cases hc
  -- the pair has just been made, and nothing but the arena has changed since
  obtain ⟨a, hview, hgrown⟩ := h.above.2 st (hE ▸ List.mem_append_right _ List.mem_cons_self)
  rw [hview] at hw
  obtain ⟨hj₂, hjp⟩ := hfit i hi j hj
  obtain ⟨hiu_ne, hiu₀⟩ := hv.nodup_unpaired.mem_erase_iff.mp hiu
  have hpairs : Moment.pairs ⟨answered, entries, w⟩ = v.pairs ++ [(i, j)] := hw.zip_eq
  refine ⟨⟨(Graph.touching_of_ne _ hiu_ne.symm).symm, (Graph.touching_of_ne _ hne.symm).symm⟩,
    ⟨hthere, hback⟩, fun heq => absurd heq hiu_ne.symm, fun _ => ⟨hsome, ?_, ?_, ?_, ?_, ?_⟩⟩
  · rw [hpairs]
    exact List.getLast?_concat
  · exact hw.unpaired.vertices_eq ▸ hiu
  · rw [← Array.mem_toList_iff, hw.xs_eq]
    exact (hv.extend hi hj₂ hjp).not_paired iu hiu
  · rw [← Array.mem_toList_iff, hw.ys_eq]
    show ju ∉ (v.pairs ++ [(i, j)]).map Prod.snd
    rw [List.map_append, List.mem_append, List.map_singleton, List.mem_singleton]
    exact not_or.mpr ⟨(hfit iu hiu₀ ju hju).2, hne⟩
  · obtain ⟨before, e, after, hentries, hmap, hpairs', hafter⟩ := hlevel
    refine ⟨e, rows iu, ⟨?_, before, after, hentries, hpairs' ▸ hafter⟩, ?_, hju⟩
    · rw [hpairs', hpairs]
    · show e.active.map.read w.arena iu = _
      rw [hmap, hw.arena_eq]
      exact (hm.of_prefix hgrown.slots).read_eq iu

end

/-! ## Levels -/

/-- A level is still the newest with as few pairs after levels with more. -/
theorem OnLevel.append {map : CandidateMap} {pairs : List (VertexId × VertexId)}
    {entries late : List Entry} (h : OnLevel map pairs entries)
    (hlate : ∀ e ∈ late, pairs.length + 1 ≤ e.pairs.length) :
    OnLevel map pairs (entries ++ late) := by
  obtain ⟨before, e, after, rfl, hmap, hpairs, hafter⟩ := h
  refine ⟨before, e, after ++ late, by rw [List.append_assoc, List.cons_append], hmap, hpairs, ?_⟩
  exact List.forall_mem_append.mpr ⟨hafter, hlate⟩

namespace Problem

/-- What a search was begun from in `v` is restored. Since then only levels with at least `n` pairs
were entered. -/
structure Resumes (P : Problem ν ε σ) (k n : Nat) (v : View) (entries : List Entry)
    (st : Work × Interrupted σ) : Prop where
  going : st.2.Going k
  restored : ∃ v', (P.interrupted k).visiting.Shows st.1 v' ∧ v.Restores P.config v'
  later : ∃ late, st.2.entries = entries ++ late ∧ ∀ e ∈ late, n ≤ e.pairs.length

/-- A program goes on from a candidate map; its caller may rely on what it may rely on. -/
def KeepsPromises (P : Problem ν ε σ) (k : Nat) (m : CandidateMap → SearchM (Interrupted σ) Unit) :
    Prop :=
  ∀ w x v map rows, (P.interrupted k).visiting.Shows w v → v.Sound P.first P.second →
    v.Fits P.second rows → CandidateMap.Reads map v.arena rows → x.Going k →
    Ensures (m map) (w, x) (fun _ => P.Resumes k v.pairs.length v x.entries)
      (Halted P.first P.second k)

section

variable {P : Problem ν ε σ} {k : Nat} {w : Work} {x : Interrupted σ} {v : View}
variable {map : CandidateMap} {rows : Rows} {i j : VertexId}
variable {deeper : CandidateMap → SearchM (Interrupted σ) Unit}

/-- What resumes after a part of the search and again after the next one resumes after both. -/
theorem Resumes.trans {n : Nat} {v' : View} {entries : List Entry} {st st' : Work × Interrupted σ}
    (h : P.Resumes k n v entries st) (hrest : v.Restores P.config v')
    (h' : P.Resumes k n v' st.2.entries st') : P.Resumes k n v entries st' := by
  obtain ⟨-, -, late, hentries, hlate⟩ := h
  obtain ⟨hgoing', ⟨v'', hw', hrest'⟩, late', hentries', hlate'⟩ := h'
  refine ⟨hgoing', ⟨v'', hw', hrest.trans hrest'⟩, late ++ late', ?_, ?_⟩
  · rw [hentries', hentries, List.append_assoc]
  · exact List.forall_mem_append.mpr ⟨hlate, hlate'⟩

/-- Levels with at least so many pairs have at least fewer. -/
theorem Resumes.lower {n n' : Nat} {entries : List Entry} {st : Work × Interrupted σ}
    (h : P.Resumes k n v entries st) (hn : n' ≤ n) : P.Resumes k n' v entries st := by
  obtain ⟨hgoing, hrestored, late, hentries, hlate⟩ := h
  exact ⟨hgoing, hrestored, late, hentries, fun e he => Nat.le_trans hn (hlate e he)⟩

/-- A delivery keeps its promise and resumes. -/
theorem ensures_deliver (hw : (P.interrupted k).visiting.Shows w v) (hx : x.Going k) :
    Ensures (P.interrupted k).visiting.deliver (w, x)
      (fun _ => P.Resumes k v.pairs.length v x.entries) (Halted P.first P.second k) := by
  have hruns : (P.interrupted k).visiting.Runs _ (fun _ => True)
      (P.interrupted k).visiting.deliver w _ := runs_deliver (within_proper _) hw trivial
  refine (hruns.ensures hx ?_).mono ?_ fun _ _ h => h
  · rintro E _ w' (⟨-, rfl, -⟩ | ⟨-, rfl, -⟩) E₁ st E₂ hE c hc w'' -
    · exact absurd hE (List.append_ne_nil_of_right_ne_nil _ (List.cons_ne_nil _ _)).symm
    · have hst : st ∈ [(⟨v.delivered P.config,
          .solution (v.pairs.map Prod.fst) (v.pairs.map Prod.snd)⟩ : Step)] :=
        hE ▸ List.mem_append_right _ List.mem_cons_self
      rw [List.mem_singleton.mp hst] at hc
      cases hc
      trivial
  · rintro _ ⟨w', x'⟩ ⟨⟨E, hE⟩, hx', hentries⟩
    refine ⟨hx', ?_, [], by rw [hentries, List.append_nil], List.forall_mem_nil _⟩
    rcases hE with ⟨-, -, hs⟩ | ⟨ha, -, hs⟩
    · exact ⟨v, hs, .refl _ v⟩
    · exact ⟨_, hs, .delivered ha⟩

/-- A level is noted, and its caller may rely on nothing when it is told. -/
theorem ensures_enter (e : Entry) (hx : x.Going k) :
    Ensures ((Observer.visiting (P.interrupted k).predicate).enter e) (w, x)
      (fun _ (st : Work × Interrupted σ) => st.1 = w ∧ st.2.Going k ∧
        st.2.entries = x.entries ++ [e])
      (Halted P.first P.second k) := by
  have hx₁ : Interrupted.Going (x.1, x.2 ++ [e]) k := hx
  have htold : (Observer.visiting (P.interrupted k).predicate).enter e (w, x) =
      SearchM.heed ((P.predicate.progress e.level).interrupted k (.progress e.level)
        (Call.progress e.level)) (w, (x.1, x.2 ++ [e])) := by
    rw [SearchM.heed_eq]
    exact SearchM.heed_eq _ w x
  rw [Ensures, htold, SearchM.heed_eq]
  cases hr : (P.predicate.progress e.level).interrupted k (.progress e.level)
    (Call.progress e.level) (x.1, x.2 ++ [e]) with
  | ok action x' =>
    obtain ⟨hx', -, hentries⟩ := hx₁.answer hr rfl
    cases action with
    | proceed => exact ⟨rfl, hx', hentries⟩
    | abort => exact .inl hx'.2
  | error f x' =>
    rcases hx₁.giveUp hr with hle | ⟨hanswered, hcalls, -⟩
    · exact .inl hle
    · exact .inr ⟨⟨f, rfl⟩, .progress e.level, hanswered ▸ hcalls, trivial⟩

/-- The level that was just entered is the newest one with its pairs. -/
theorem ensures_entered {m : SearchM (Interrupted σ) Unit} {scope : Scope} {level : Nat}
    (hw : (P.interrupted k).visiting.Shows w v) (hx : x.Going k)
    (h : ∀ x₁ : Interrupted σ, x₁.Going k →
      x₁.entries = x.entries ++ [⟨level, scope.active, scope.enclosing, w⟩] →
      P.Resumes k v.pairs.length v x.entries (w, x₁) →
      Ensures m (w, x₁) (fun _ => P.Resumes k v.pairs.length v x.entries)
        (Halted P.first P.second k)) :
    Ensures (do (P.interrupted k).visitingSteps.enter scope level; m) (w, x)
      (fun _ => P.Resumes k v.pairs.length v x.entries) (Halted P.first P.second k) := by
  refine Ensures.bind (.work (ensures_enter _ hx)) ?_
  rintro _ ⟨w₁, x₁⟩ ⟨hw₁, hx₁, hentries⟩
  obtain rfl : w₁ = w := hw₁
  have hpairs : Entry.pairs ⟨level, scope.active, scope.enclosing, w₁⟩ = v.pairs := hw.zip_eq
  exact h x₁ hx₁ hentries ⟨hx₁, ⟨v, hw, .refl _ v⟩, _, hentries,
    List.forall_mem_singleton.mpr (hpairs ▸ Nat.le_refl _)⟩

/-- Deeper levels are searched without `i`, which is then considered again. -/
theorem ensures_leaveOut (hdeeper : P.KeepsPromises k deeper)
    (hw : (P.interrupted k).visiting.Shows w v) (hv : v.Sound P.first P.second)
    (hfit : v.Fits P.second rows) (hm : map.Reads v.arena rows) (hi : i ∈ v.unpaired)
    (hx : x.Going k) :
    Ensures (do
        SearchM.modifyWork fun w => w.leaveOut i
        deeper map
        SearchM.update fun w => w.takeBack i) (w, x)
      (fun _ => P.Resumes k v.pairs.length v x.entries) (Halted P.first P.second k) := by
  have hwithout := hdeeper (w.leaveOut i) x (v.leaveOut i) map rows (shows_leaveOut hw i)
    (hv.leaveOut hi) (hfit.leaveOut i) hm hx
  refine .silent rfl (hwithout.bind ?_)
  rintro _ ⟨w₁, x₁⟩ ⟨hx₁, ⟨v₁, hw₁, hrest⟩, hlater⟩
  obtain ⟨w₂, htake, hw₂⟩ := shows_takeBack_restored hw hi hrest hw₁
  exact .update_last htake
    ⟨hx₁, ⟨_, hw₂, hrest.takeBack hi (hv.mem_considered hi)⟩, hlater⟩

variable (hg₁ : P.first.WellFormed) (hg₂ : P.second.WellFormed)

include hg₁ hg₂

/-- The next level is entered with `j` as the partner of `i`. -/
theorem ensures_tryCandidate (hdeeper : P.KeepsPromises k deeper)
    (hw : (P.interrupted k).visiting.Shows w v) (hv : v.Sound P.first P.second)
    (hfit : v.Fits P.second rows) (hm : map.Reads v.arena rows) (hi : i ∈ v.unpaired)
    (hj : j ∈ rows i) {c : Nat} (hc : v.arena.slots[c]? = some j) (hx : x.Going k)
    (hlevel : OnLevel map v.pairs x.entries) :
    Ensures ((P.interrupted k).visitingSteps.tryCandidate (P.interrupted k).visiting map i deeper c)
      (w, x) (fun _ => P.Resumes k (v.pairs.length + 1) v x.entries)
      (Halted P.first P.second k) := by
  obtain ⟨hj₂, hjp⟩ := hfit i hi j hj
  obtain ⟨w₁, hext, hw₁⟩ := shows_extend hw hv hi hjp
  have hi₁ : i ∉ (v.extend i j).unpaired := hv.nodup_unpaired.not_mem_erase
  refine .slot (hw.arena_eq ▸ hc) ?_
  simp only [visitingSteps, Observer.steps_extend, Observer.steps_retract, steps_extend,
    steps_retract]
  refine .update hext ?_
  -- what is refined and searched deeper is above the map in force, and all of it has more pairs
  have hinner : Ensures ((P.interrupted k).visiting.refine map i j >>= deeper) (w₁, x)
      (fun _ st => ∃ v₁, (v.extend i j).Above v₁ ∧
        P.Resumes k (v.pairs.length + 1) v₁ x.entries st) (Halted P.first P.second k) := by
    have hruns : (P.interrupted k).visiting.Runs _ (fun _ => True) _ w₁ _ :=
      runs_refine (P := (P.interrupted k).visiting) hg₁ hg₂ (within_proper _) hw₁
        (fun _ _ => trivial) hm
        (fun iu hiu ju hju => (hfit iu (List.mem_of_mem_erase hiu) ju hju).1)
        (hv.mem_first_of_unpaired hi) hj₂ hi₁
    refine (hruns.ensures hx ?_).bind ?_
    · rintro E _ w' ⟨rows', v', hfilled, -⟩ E₁ st E₂ hE c hc w'' hw''
      exact hfilled.promises_refined (P := (P.interrupted k).visiting) hv hfit hm hi hj hlevel hE hc
        hw''
    rintro map₁ ⟨w₂, x₂⟩ ⟨⟨E, rows', v₁, hfilled, hw₂, hm₁, -⟩, hx₂, hentries₂⟩
    have habove := hfilled.above.1
    have hlength : v₁.pairs.length = v.pairs.length + 1 := by
      obtain ⟨a, rfl, -⟩ := habove
      exact List.length_append
    have hkeeps := hdeeper w₂ x₂ v₁ map₁ rows' hw₂ ((hv.extend hi hj₂ hjp).above habove)
      (hfit.refined hfilled) hm₁ hx₂
    rw [hlength, hentries₂] at hkeeps
    exact hkeeps.mono (fun _ _ h => ⟨v₁, habove, h⟩) fun _ _ h => h
  have hreleased := hinner.releasing (n := v.arena.size) ?_ Halted.tidied
  · have hpos : w₁.arena.size = v.arena.size := congrArg Arena.size hw₁.arena_eq
    rw [← hpos] at hreleased
    refine Ensures.bind (.work hreleased) ?_
    rintro _ ⟨_, x₃⟩ ⟨w₃, ⟨v₁, habove, hgoing, ⟨v₂, hw₃, hrest⟩, hlater⟩, rfl⟩
    rw [hpos]
    obtain ⟨w₄, hretract, hw₄⟩ := shows_retract_restored hw hi habove hrest hw₃
    exact .update_last hretract ⟨hgoing, ⟨_, hw₄, .retract habove hrest hi⟩, hlater⟩
  · rintro _ ⟨w', x'⟩ ⟨v₁, habove, -, ⟨v₂, hw', hrest⟩, -⟩
    rw [hw'.arena_eq, hrest.size_eq]
    exact habove.grown.size_le

/-- The candidates of `i` are tried one after the other. -/
theorem ensures_tries (hdeeper : P.KeepsPromises k deeper)
    (hw : (P.interrupted k).visiting.Shows w v) (hv : v.Sound P.first P.second)
    (hfit : v.Fits P.second rows) (hm : map.Reads v.arena rows) (hi : i ∈ v.unpaired)
    (hx : x.Going k) (hlevel : OnLevel map v.pairs x.entries) :
    Ensures ((map.span i).forM ((P.interrupted k).visitingSteps.tryCandidate
        (P.interrupted k).visiting map i deeper)) (w, x)
      (fun _ => P.Resumes k (v.pairs.length + 1) v x.entries) (Halted P.first P.second k) := by
  refine .forM (fun c hc st hst => ?_)
    ⟨hx, ⟨v, hw, .refl _ v⟩, [], (List.append_nil _).symm, List.forall_mem_nil _⟩
  obtain ⟨w₁, x₁⟩ := st
  obtain ⟨hx₁, ⟨v₁, hw₁, hrest₁⟩, late, hentries₁, hlate⟩ := id hst
  obtain ⟨j, hj, hcj⟩ := hm.exists_slot hc
  have hlevel₁ : OnLevel map v₁.pairs (Interrupted.entries x₁) := by
    rw [hrest₁.pairs_eq, hentries₁]
    exact hlevel.append hlate
  have htry := ensures_tryCandidate hg₁ hg₂ hdeeper hw₁ (hv.restores hrest₁) (hfit.restores hrest₁)
    (hm.of_prefix hrest₁.grown.slots) (hrest₁.unpaired_perm.mem_iff.mpr hi) hj
    (hrest₁.slots_eq ▸ hcj) hx₁ hlevel₁
  rw [hrest₁.pairs_eq] at htry
  exact htry.mono (fun _ _ h => hst.trans hrest₁ h) fun _ _ h => h

/-- From a level on, the caller may rely on what it may rely on. -/
theorem ensures_explore (n : Nat) : ∀ level built enclosing, P.KeepsPromises k fun map =>
    (P.interrupted k).visitingSteps.explore (P.interrupted k).visiting n ⟨⟨map, built⟩, enclosing⟩
      level := by
  induction n with
  | zero =>
    intro level built enclosing w x v map rows hw hv hfit hm hx
    refine ensures_entered hw hx fun x₁ hx₁ _ hentered => ?_
    exact (ensures_deliver hw hx₁).mono (fun _ _ h => hentered.trans (.refl _ v) h) fun _ _ h => h
  | succ n ih =>
    intro level built enclosing w x v map rows hw hv hfit hm hx
    refine ensures_entered hw hx fun x₁ hx₁ hentries hentered => .work ?_
    simp only [visitingSteps, Observer.steps_map, Observer.steps_feasible, Observer.steps_span,
      Observer.steps_refined, Observer.steps_leaveOut, Observer.steps_unrefined,
      Observer.steps_takeBack, steps_feasible, steps_span, steps_leaveOut, steps_takeBack,
      bind_assoc, pure_bind]
    split
    swap
    · exact (ensures_deliver hw hx₁).mono (fun _ _ h => hentered.trans (.refl _ v) h)
        fun _ _ h => h
    rw [hw.pick_eq hm]
    cases hpick : v.pick rows with
    | none => exact .inl hx₁.2
    | some i =>
      obtain ⟨hi, -⟩ := View.mem_of_pick hpick
      have hdeeper : P.KeepsPromises k (fun refined => do
          (P.interrupted k).visitingSteps.explore (P.interrupted k).visiting n
            ⟨⟨refined, (← SearchM.work).arena⟩, ⟨map, built⟩ :: enclosing⟩ (level + 1)) :=
        fun w₁ x₁ v₁ map₁ rows₁ hw₁ hv₁ hfit₁ hm₁ hx₁ =>
          .work (ih _ _ _ w₁ x₁ v₁ map₁ rows₁ hw₁ hv₁ hfit₁ hm₁ hx₁)
      -- the candidates that are tried come from the level that was just entered
      have hlevel : OnLevel map v.pairs (Interrupted.entries x₁) :=
        ⟨_, _, [], hentries, rfl, hw.zip_eq, List.forall_mem_nil _⟩
      refine (ensures_tries hg₁ hg₂ hdeeper hw hv hfit hm hi hx₁ hlevel).bind ?_
      rintro _ ⟨w₂, x₂⟩ htries
      have htried : P.Resumes k v.pairs.length v x.entries (w₂, x₂) :=
        hentered.trans (.refl _ v) (htries.lower (Nat.le_succ _))
      obtain ⟨hx₂, ⟨v₂, hw₂, hrest₂⟩, -⟩ := id htried
      split
      swap
      · exact htried
      have hwithout := ensures_leaveOut (ih (level + 1) built (⟨map, built⟩ :: enclosing)) hw₂
        (hv.restores hrest₂) (hfit.restores hrest₂) (hm.of_prefix hrest₂.grown.slots)
        (hrest₂.unpaired_perm.mem_iff.mpr hi) hx₂
      rw [hrest₂.pairs_eq] at hwithout
      exact hwithout.mono (fun _ _ h => htried.trans hrest₂ h) fun _ _ h => h

/-- However an interrupted search ends, its caller may rely on what it may rely on. -/
theorem ensures_visited {a : Arena VertexId} (s : σ)
    (hw : (P.interrupted k).visiting.Shows w (.initial P.first P.config a)) :
    Ensures (P.interrupted k).visited (w, (((s, #[]), []), []))
      (fun _ (st : Work × Interrupted σ) => st.2.calls.length ≤ k) (Halted P.first P.second k) := by
  have hx : Interrupted.Going (((s, #[]), []), []) k := ⟨rfl, Nat.zero_le k⟩
  have hruns : (P.interrupted k).visiting.Runs _ (fun _ => True) _ w _ :=
    runs_initialMap hg₁ hg₂ (within_proper _) hw fun _ _ => trivial
  refine (hruns.ensures hx ?_).bind ?_
  · rintro E _ w' ⟨rows, v₁, hfilled, -⟩ E₁ st E₂ hE c hc w'' -
    exact hfilled.promises_initial (Graph.nodup_vertexIds hg₁) (Graph.nodup_vertexIds hg₂) hE hc _ _
  rintro map ⟨w₁, x₁⟩ ⟨⟨E, rows, v₁, hfilled, hw₁, hm, hbase⟩, hx₁, hentries₁⟩
  simp only [Observer.steps_first, bind_assoc, pure_bind]
  have habove := hfilled.above.1
  have hv₁ := (View.sound_initial hg₁ P.second P.config a).above habove
  have hexplored := ensures_explore hg₁ hg₂ w₁.unpaired.size 0 w₁.arena [] w₁ x₁ v₁ map rows hw₁ hv₁
    (View.Fits.initial hg₂ hfilled) hm hx₁
  refine .work (.work ((hexplored.releasing ?_ Halted.tidied).mono ?_ fun _ _ h => h))
  · rintro _ ⟨w', x'⟩ ⟨-, ⟨v', hw', hrest⟩, -⟩
    rw [hw'.arena_eq, hrest.size_eq, hbase]
    exact habove.grown.size_le
  · rintro _ ⟨w', x'⟩ ⟨w₂, hresumes, -⟩
    exact hresumes.going.2

/-- An interrupted search that makes call number `k` is left where its caller may rely on what it
may rely on. -/
theorem promises_visited {a : Arena VertexId} (s : σ)
    (hw : P.Shows w (.initial P.first P.config a))
    {st : Work × Interrupted σ}
    (hst : endState ((P.interrupted k).visited (w, (((s, #[]), []), []))) = st)
    (hk : k < st.2.calls.length) :
    ∃ e, st.2.calls = st.2.answered.map Call.event ++ [e] ∧
      (st.2.moment st.1).Promises P.first P.second e := by
  have hvisiting : (P.interrupted k).visiting.Shows w (.initial P.first P.config a) :=
    (shows_recast_iff (P := P)).mpr hw
  have hover := (ensures_visited hg₁ hg₂ s hvisiting).endState
    (Q := fun st => ∃ halt, Halted P.first P.second k halt st)
    (fun _ _ hle => ⟨.aborted, .inl hle⟩) fun halt _ h => ⟨halt, h⟩
  rw [hst] at hover
  obtain ⟨halt, hle | ⟨-, hkept⟩⟩ := hover
  · exact absurd hk (Nat.not_lt.mpr hle)
  · exact hkept

end

end Problem

end CommonSubgraph
