import CommonSubgraph.Proofs.Search.Candidates
import CommonSubgraph.Proofs.Search.Events
import CommonSubgraph.Proofs.Search.Exploring

/-!
# The levels that a search enters

`P.visited` is the search of `P` with every level noted that is entered, together with what is in
force there (`Entry`). The notes are taken where the caller is told of the level, and make no
difference to the search (`Problem.visited_beside_recorded`, `Problem.visited_erases`).

Where a caller answers as pure tests do, the rows of the candidate map at a level are the candidates
of the unpaired vertices, and the maps of the levels above still read as they did when they were
built (`Entry.Exact`). This holds of every level that is entered, however the search ends
(`Problem.notes_visited`): a deeper level grows and truncates the arena above the maps that are in
force, and restores what it changed before the next one is entered.

`SearchM.Notes Q m w R` is what is carried through the search: the program `m` notes entries that
satisfy `Q` only, and if it comes to its end, then as `R` says.
-/

namespace CommonSubgraph

variable {ν ε σ α β γ : Type}

/-- The rows of the map read in the arena `a` as they did when the map had just been built. -/
def Frame.ReadsAlike (f : Frame) (a : Arena VertexId) : Prop :=
  ∀ i, ∃ js, f.map.read f.built i = .ok js ∧ f.map.read a i = .ok js

/-- The pairs made so far, oldest first. -/
def Entry.pairs (e : Entry) : List (VertexId × VertexId) := e.work.xs.toList.zip e.work.ys.toList

/-- The row of each unpaired vertex is the ascending list of the partners it can still have, and all
maps that are in force read as they did when they were built. -/
structure Entry.Exact (g₁ g₂ : Graph ν ε) (T : Tests) (e : Entry) : Prop where
  sides : e.work.xs.size = e.work.ys.size
  active : ∀ i ∈ e.work.unpaired.vertices, ∃ js, e.active.map.read e.work.arena i = .ok js ∧
    js.Pairwise (fun j j' => j.index < j'.index) ∧
    ∀ j, j ∈ js ↔ g₂.containsVertex j = true ∧ j ∉ e.work.ys.toList ∧ Suits g₁ g₂ T (i, j) ∧
      ∀ p ∈ e.pairs, Agree g₁ g₂ T p (i, j)
  kept : ∀ f ∈ e.active :: e.enclosing, f.ReadsAlike e.work.arena

/-- The arena still has the slots that it had when the map had just been built. -/
def Frame.Intact (f : Frame) (a : Arena VertexId) : Prop :=
  (∃ rows, f.map.Reads f.built rows) ∧ f.built.Grown a

/-- A map that is intact stays so while the arena grows. -/
theorem Frame.Intact.grown {f : Frame} {a b : Arena VertexId} (h : f.Intact a) (hab : a.Grown b) :
    f.Intact b := ⟨h.1, h.2.trans hab⟩

/-- A map that is intact reads as it did when it was built. -/
theorem Frame.Intact.readsAlike {f : Frame} {a : Arena VertexId} (h : f.Intact a) :
    f.ReadsAlike a := by
  obtain ⟨⟨rows, hm⟩, hgrown⟩ := h
  exact fun i => ⟨rows i, hm.read_eq i, (hm.of_prefix hgrown.slots).read_eq i⟩

/-- A level enters with rows that are the candidates and with maps that are intact. -/
theorem Entry.exact_of_shows {P : Problem ν ε σ} {T : Tests} {w : Work} {v : View} {rows : Rows}
    {active : Frame} {enclosing : List Frame} {level : Nat} (hg₂ : P.second.WellFormed)
    (hw : P.Shows w v) (hx : v.Exact P.first P.second T rows)
    (hm : active.map.Reads v.arena rows)
    (hframes : ∀ f ∈ active :: enclosing, f.Intact v.arena) :
    Entry.Exact P.first P.second T ⟨level, active, enclosing, w⟩ where
  sides := hw.size_xs.trans hw.size_ys.symm
  active i hi := by
    have hi : i ∈ v.unpaired := hw.unpaired.vertices_eq ▸ hi
    refine ⟨rows i, ?_, ?_, fun j => ?_⟩
    · show active.map.read w.arena i = _
      rw [hw.arena_eq]
      exact hm.read_eq i
    · rw [hx i hi]
      exact (Graph.pairwise_vertexIds hg₂).filter _
    · have hpairs : Entry.pairs ⟨level, active, enclosing, w⟩ = v.pairs := by
        rw [Entry.pairs, hw.xs_eq, hw.ys_eq]
        exact (List.zip_of_prod rfl rfl).symm
      rw [hx i hi, mem_candidates_iff, Graph.mem_vertexIds_iff hg₂, hpairs, hw.ys_eq]
  kept f hf := by
    show f.ReadsAlike w.arena
    rw [hw.arena_eq]
    exact (hframes f hf).readsAlike

/-! ## Noting levels -/

/-- The observer that notes every level before the caller is told of it. -/
def Observer.visiting (p : Predicate ν ε σ) : Observer (σ × List Entry) where
  start := SearchM.startRow
  enter e := SearchM.heed ((p.progress e.level).recording e)

namespace Problem

/-- Who the caller is makes no difference to what a working state shows. -/
theorem shows_recast_iff {τ : Type} {P : Problem ν ε σ} {p : Predicate ν ε τ}
    {q : Processor ν ε τ} {w : Work} {v : View} : (P.recast p q).Shows w v ↔ P.Shows w v :=
  ⟨fun h => ⟨h.xs_eq, h.ys_eq, h.considered, h.unpaired, h.targets, h.minimum_eq, h.found_eq,
      h.arena_eq⟩,
    fun h => ⟨h.xs_eq, h.ys_eq, h.considered, h.unpaired, h.targets, h.minimum_eq, h.found_eq,
      h.arena_eq⟩⟩

/-- The problem with notes beside the caller's state. -/
def visiting (P : Problem ν ε σ) : Problem ν ε (σ × List Entry) :=
  P.recast P.predicate.onFst P.processor.onFst

/-- The steps of a search that notes its levels. -/
def visitingSteps (P : Problem ν ε σ) : Steps (σ × List Entry) Scope :=
  (Observer.visiting P.predicate).steps P.visiting

/-- The search with all its levels noted. -/
def visited (P : Problem ν ε σ) : SearchM (σ × List Entry) Unit :=
  P.visiting.searchBy (.visiting P.predicate)

/-- The callers leave the notes alone. -/
theorem after_visiting (P : Problem ν ε σ) (E : List Step) (x : σ × List Entry) :
    (E.foldl P.visiting.after x).2 = x.2 := by
  have hstep (x : σ × List Entry) (st : Step) : (P.visiting.after x st).2 = x.2 := by
    have called {α : Type} (m : Callback σ α) :
        (endState (m.onFst x : EStateM.Result Fault (σ × List Entry) α)).2 = x.2 := by
      rw [Callback.endState_onFst]
    obtain ⟨v, act⟩ := st
    cases act with
    | vertices | edges | progress | solution => exact called _
    | reserve => rfl
  induction E generalizing x with
  | nil => rfl
  | cons st E ih => exact (ih _).trans (hstep x st)

end Problem

/-! ## Beside the recorded search -/

/-- The level that the caller is told of. -/
def Event.level? : Event → Option Nat
  | progress level => some level
  | _ => none

/-- An event that tells a level is a call. -/
theorem Event.isCall_of_isSome_level? : ∀ e : Event, e.level?.isSome → e.isCall = true
  | progress _, _ => rfl

/-- The levels that are entered, in order. -/
def Event.levels (events : List Event) : List Nat := events.filterMap Event.level?

/-- The caller's states are the same, and the levels that were noted are those it was told of. -/
def SameLevels (x : σ × List Event) (y : σ × List Entry) : Prop :=
  x.1 = y.1 ∧ x.2.filterMap Event.level? = y.2.map Entry.level

/-- An event that tells no level leaves the two records the same. -/
theorem SameLevels.concat {x : σ × List Event} {y : σ × List Entry} (h : SameLevels x y)
    {e : Event} (he : e.level? = none) (s : σ) : SameLevels (s, x.2 ++ [e]) (s, y.2) := by
  refine ⟨rfl, ?_⟩
  rw [List.filterMap_append, List.filterMap_cons_none he, ← h.2]
  exact List.append_nil _

/-- A level that is told and noted leaves the two records the same. -/
theorem SameLevels.enter {x : σ × List Event} {y : σ × List Entry} (h : SameLevels x y)
    (e : Entry) (s : σ) : SameLevels (s, x.2 ++ [.progress e.level]) (s, y.2 ++ [e]) := by
  refine ⟨rfl, ?_⟩
  rw [List.filterMap_append, List.map_append, ← h.2]
  rfl

/-- A callback that tells no level ends alike with either record. -/
theorem endAlike_sameLevels {m : Callback σ α} {e : Event} (he : e.level? = none)
    {x : σ × List Event} {y : σ × List Entry} (h : SameLevels x y) :
    EndAlike SameLevels (m.recording e x) (m.onFst y) := by
  obtain ⟨s, events⟩ := x
  obtain ⟨_, entries⟩ := y
  obtain rfl := h.1
  exact .onFst m s fun s' => h.concat he s'

namespace Problem

/-- Callers with the two records go on alike. -/
theorem callers_visiting (P : Problem ν ε σ) (limit : Option Nat) :
    (Comparison.ofStates limit (SameLevels (σ := σ))).Callers P.recording (.recording P.predicate)
      P.predicate.onFst P.processor.onFst (.visiting P.predicate) where
  vertices n i j := .ask (fun _ => trivial) fun a found x y h => endAlike_sameLevels rfl h
  edges n i₁ i₂ es₁ j₁ j₂ es₂ :=
    .ask (fun _ => trivial) fun a found x y h => endAlike_sameLevels rfl h
  enter n := by
    rintro ⟨level, active₁, enclosing₁, w₁⟩ e₂ rfl
    refine .heed (fun _ => trivial) ?_
    rintro a found ⟨s, events⟩ ⟨_, entries⟩ h
    obtain rfl := h.1
    exact .alike (.onFst _ s fun s' => h.enter e₂ s')
  deliver n limit := .deliver (fun _ _ _ => trivial) fun a found x y xs ys h =>
    .alike (endAlike_sameLevels rfl h)
  start n map i k _ := by
    refine Comparison.tracks_start_left P.predicate (fun s events y inUse requested h => ?_) map i k
    exact ⟨h.1, (h.concat (e := .reservation inUse requested) rfl s).2⟩

/-- Noting the levels makes no difference to a search, and those noted are those the caller is told
of. -/
theorem visited_beside_recorded (P : Problem ν ε σ) (w : Work) (s : σ) :
    ∃ r : EStateM.Result Halt (Work × ((σ × List Event) × (σ × List Entry))) Unit,
      P.recorded (w, (s, [])) = seen (beside Prod.fst) r ∧
      P.visited (w, (s, [])) = seen (beside Prod.snd) r ∧
      SameLevels (endState r).2.1 (endState r).2.2 := by
  have htracks := (P.callers_visiting w.arena.limit).searchBy 0 P.config.arenaLimit
  rcases htracks.exists_seen rfl rfl (x := (s, [])) (y := (s, [])) ⟨Nat.zero_le _, rfl, rfl⟩ with
    ⟨r, hr₁, hr₂, hm⟩ | ⟨_, _, _, _, h⟩
  · exact ⟨r, hr₁, hr₂, hm.inStep⟩
  · exact h.elim

/-- With the notes forgotten, the search that notes its levels is the search. -/
theorem visited_erases (P : Problem ν ε σ) (w : Work) (s : σ) :
    seen (beside Prod.fst) (P.visited (w, (s, []))) = P.search (w, s) := by
  obtain ⟨r, hr₁, hr₂, hsame, -⟩ := P.visited_beside_recorded w s
  rw [← P.recorded_erases w s [], hr₁, hr₂]
  cases r with
  | ok a st => exact congrArg (fun s => EStateM.Result.ok a (st.1, s)) hsame.symm
  | error halt st => exact congrArg (fun s => EStateM.Result.error halt (st.1, s)) hsame.symm

end Problem

/-! ## What a program notes -/

/-- Begun in `w` with notes that satisfy `Q`, the program takes only such notes, and if it gives a
value, `R` holds of it and of the working state. -/
def SearchM.Notes (Q : Entry → Prop) (m : SearchM (σ × List Entry) α) (w : Work)
    (R : α → Work → Prop) : Prop :=
  ∀ x : σ × List Entry, (∀ e ∈ x.2, Q e) → (∀ e ∈ (endState (m (w, x))).2.2, Q e) ∧
    ∀ a w' x', m (w, x) = .ok a (w', x') → R a w'

namespace SearchM.Notes

variable {Q : Entry → Prop} {w w₁ : Work} {R R' : α → Work → Prop}

/-- What is said of the outcome can be weakened. -/
theorem mono {m : SearchM (σ × List Entry) α} (h : Notes Q m w R)
    (hR : ∀ a w', R a w' → R' a w') : Notes Q m w R' :=
  fun x hx => ⟨(h x hx).1, fun a w' x' hr => hR a w' ((h x hx).2 a w' x' hr)⟩

/-- Giving a value takes no note. -/
theorem pure {a : α} (h : R a w) : Notes Q (Pure.pure a : SearchM (σ × List Entry) α) w R :=
  fun _ hx => ⟨hx, fun _ _ _ hr => by cases hr; exact h⟩

/-- A halt takes no note. -/
theorem throw (halt : Halt) :
    Notes Q (MonadExcept.throw halt : SearchM (σ × List Entry) α) w R :=
  fun _ hx => ⟨hx, fun _ _ _ hr => by cases hr⟩

/-- What changes the working state alone takes no notes. -/
theorem silent {m m₁ : SearchM (σ × List Entry) α} (heq : ∀ x, m (w, x) = m₁ (w₁, x))
    (h : Notes Q m₁ w₁ R) : Notes Q m w R := by
  intro x hx
  rw [heq]
  exact h x hx

/-- Two programs, one after the other, take the notes of both. -/
theorem bind {m : SearchM (σ × List Entry) α} {f : α → SearchM (σ × List Entry) β}
    {R' : β → Work → Prop} (hm : Notes Q m w R) (hf : ∀ a w₁, R a w₁ → Notes Q (f a) w₁ R') :
    Notes Q (m >>= f) w R' := by
  intro x hx
  obtain ⟨hnotes, hvalue⟩ := hm x hx
  cases hr : m (w, x) with
  | ok a st =>
    rw [hr] at hnotes
    rw [Problem.bind_ok hr]
    exact hf a st.1 (hvalue a st.1 st.2 hr) st.2 hnotes
  | error halt st =>
    rw [hr] at hnotes
    rw [Problem.bind_error hr]
    exact ⟨hnotes, fun _ _ _ hr => by cases hr⟩

/-- Reading the working state takes no note. -/
theorem work {f : Work → SearchM (σ × List Entry) α} (h : Notes Q (f w) w R) :
    Notes Q (SearchM.work >>= f) w R := h

/-- Reading a slot takes no note. -/
theorem slot {f : VertexId → SearchM (σ × List Entry) α} {k : Nat} {j : VertexId}
    (hj : w.arena.slots[k]? = some j) (h : Notes Q (f j) w R) :
    Notes Q (SearchM.slot k >>= f) w R := by
  refine silent (fun x => Problem.bind_ok ?_) h
  show SearchM.check (w.arena.get k) (w, x) = _
  rw [Arena.get, hj]
  rfl

/-- An update takes no note. -/
theorem update {f : Work → Except Fault Work} {m : SearchM (σ × List Entry) α}
    (hf : f w = .ok w₁) (h : Notes Q m w₁ R) :
    Notes Q (SearchM.update f >>= fun _ => m) w R := by
  refine silent (fun x => Problem.bind_ok (a := ()) ?_) h
  rw [SearchM.update, hf]

/-- An update at the end takes no note. -/
theorem update_last {f : Work → Except Fault Work} {R : Unit → Work → Prop} (hf : f w = .ok w₁)
    (h : R () w₁) : Notes Q (SearchM.update f : SearchM (σ × List Entry) Unit) w R := by
  refine silent (fun x => ?_) (pure h)
  rw [SearchM.update, hf]
  rfl

/-- Releasing slots takes no note. -/
theorem releasing {m : SearchM (σ × List Entry) α} {n : Nat} (h : Notes Q m w R)
    (hn : ∀ a w', R a w' → n ≤ w'.arena.size) :
    Notes Q (SearchM.releasing n m) w fun a w' =>
      ∃ w₁, R a w₁ ∧ w' = { w₁ with arena := w₁.arena.truncate n } := by
  intro x hx
  obtain ⟨hnotes, hvalue⟩ := h x hx
  refine ⟨?_, fun a w' x' hr => ?_⟩
  · rw [(SearchM.endState_releasing n m (w, x)).1]
    exact hnotes
  · obtain ⟨⟨w₁, x₁⟩, hm⟩ := SearchM.exists_of_releasing_eq_ok hr
    have hR := hvalue a w₁ x₁ hm
    rw [SearchM.releasing_of_ok hm (hn a w₁ hR)] at hr
    cases hr
    exact ⟨w₁, hR, rfl⟩

/-- Candidates are tried one after the other as long as what holds before each holds after it. -/
theorem forM {m : γ → SearchM (σ × List Entry) Unit} {S : Work → Prop} {cs : List γ}
    (h : ∀ c ∈ cs, ∀ w, S w → Notes Q (m c) w fun _ w' => S w') (hw : S w) :
    Notes Q (cs.forM m) w fun _ w' => S w' := by
  induction cs generalizing w with
  | nil => exact pure hw
  | cons c cs ih =>
    refine (h c List.mem_cons_self w hw).bind fun _ w₁ hw₁ => ?_
    exact ih (fun c' hc' => h c' (List.mem_cons_of_mem c hc')) hw₁

/-- A program with a script takes no notes. -/
theorem of_runs {P : Problem ν ε σ} {A : Act → Prop} {keep : Nat → Prop}
    {m : SearchM (σ × List Entry) α} {R : List Step → α → Work → Prop}
    (h : P.visiting.Runs A keep m w R) :
    Notes Q m w fun a w' => ∃ E, R E a w' ∧ ∀ st ∈ E, A st.act := by
  intro x hx
  obtain ⟨E, a, w', hR, hA, hf⟩ := h x
  obtain ⟨E₁, -, hE₁⟩ := hf.env_eq_foldl
  refine ⟨?_, fun a' w₁ x' hr => ?_⟩
  · rw [hE₁, P.after_visiting]
    exact hx
  · cases hf with
    | through _ eq =>
      cases hr.symm.trans eq
      exact ⟨E, hR, hA⟩
    | stopped _ _ _ eq => cases hr.symm.trans eq

/-- A level that is entered is noted. -/
theorem enter {p : Predicate ν ε σ} {e : Entry} (he : Q e) :
    Notes Q ((Observer.visiting p).enter e) w fun _ w' => w' = w := by
  intro x hx
  obtain ⟨s, entries⟩ := x
  refine ⟨?_, fun _ w' x' hr => ?_⟩
  · show ∀ e' ∈ (endState (SearchM.heed ((p.progress e.level).recording e) (w, s, entries))).2.2, _
    rw [SearchM.endState_heed, Callback.endState_recording]
    exact List.forall_mem_append.mpr ⟨hx, List.forall_mem_singleton.mpr he⟩
  · have hend := congrArg (fun r => (endState r).1) hr
    exact (hend.symm.trans (congrArg Prod.fst (SearchM.endState_heed _ w (s, entries))))

end SearchM.Notes

/-! ## What a search notes -/

namespace Problem

variable {P : Problem ν ε σ} {T : Tests}

/-- The notes of a search whose caller answers as the tests do. -/
abbrev IsExact (P : Problem ν ε σ) (T : Tests) : Entry → Prop := Entry.Exact P.first P.second T

/-- With the maps `enclosing` above, a level enters deeper levels only where all is as it should be,
and puts back what it changed. -/
def Deepens (P : Problem ν ε σ) (T : Tests) (enclosing : List Frame)
    (deeper : CandidateMap → SearchM (σ × List Entry) Unit) : Prop :=
  ∀ w v map rows, P.visiting.Shows w v → v.Sound P.first P.second →
    v.Exact P.first P.second T rows → CandidateMap.Reads map v.arena rows →
    (∀ f ∈ enclosing, f.Intact v.arena) →
    SearchM.Notes (P.IsExact T) (deeper map) w fun _ w' =>
      ∃ v', P.visiting.Shows w' v' ∧ v.Restores P.config v'

/-- The questions that the caller is asked are answered as by the tests. -/
theorem within_visiting (hT : P.predicate.Answers P.first P.second T) :
    P.visiting.Within fun act => act.Proper P.first P.second ∧ T.Gives act :=
  Predicate.Answers.within (P := P.visiting) hT.onFst

section

variable (hg₁ : P.first.WellFormed) (hg₂ : P.second.WellFormed)
variable (hT : P.predicate.Answers P.first P.second T)
variable {w : Work} {v : View} {map : CandidateMap} {rows : Rows} {i j : VertexId}
variable {enclosing : List Frame} {active : Frame}
variable {deeper : CandidateMap → SearchM (σ × List Entry) Unit}

/-- Where a level is entered, a note is taken of it that is as it should be. -/
theorem notes_enter {scope : Scope} {level : Nat} (hg₂ : P.second.WellFormed)
    (hw : P.visiting.Shows w v) (hx : v.Exact P.first P.second T rows)
    (hm : scope.active.map.Reads v.arena rows)
    (hframes : ∀ f ∈ scope.active :: scope.enclosing, f.Intact v.arena) :
    SearchM.Notes (P.IsExact T) (P.visitingSteps.enter scope level) w fun _ w' => w' = w :=
  .work (.enter (Entry.exact_of_shows (P := P.visiting) hg₂ hw hx hm hframes))

/-- Deeper levels are searched without `i`, which is then considered again. -/
theorem notes_leaveOut {m : SearchM (σ × List Entry) Unit} (hw : P.visiting.Shows w v)
    (hv : v.Sound P.first P.second) (hi : i ∈ v.unpaired)
    (h : SearchM.Notes (P.IsExact T) m (w.leaveOut i) fun _ w' =>
      ∃ v', P.visiting.Shows w' v' ∧ (v.leaveOut i).Restores P.config v') :
    SearchM.Notes (P.IsExact T) (do
      SearchM.modifyWork fun w => w.leaveOut i
      m
      SearchM.update fun w => w.takeBack i) w fun _ w' =>
        ∃ v', P.visiting.Shows w' v' ∧ v.Restores P.config v' := by
  refine .silent (fun _ => rfl) (h.bind ?_)
  rintro _ w₁ ⟨v₁, hw₁, hrest⟩
  obtain ⟨w₂, htake, hw₂⟩ := shows_takeBack_restored hw hi hrest hw₁
  exact .update_last htake ⟨_, hw₂, hrest.takeBack hi (hv.mem_considered hi)⟩

include hT

/-- Delivering takes no note and leaves everything in its place. -/
theorem notes_deliver (hw : P.visiting.Shows w v) :
    SearchM.Notes (P.IsExact T) P.visiting.deliver w fun _ w' =>
      ∃ v', P.visiting.Shows w' v' ∧ v.Restores P.config v' := by
  have hruns : P.visiting.Runs _ (fun _ => True) P.visiting.deliver w _ :=
    runs_deliver (within_visiting hT) hw trivial
  refine (SearchM.Notes.of_runs hruns).mono ?_
  rintro _ w' ⟨E, ⟨-, -, hs⟩ | ⟨ha, -, hs⟩, -⟩
  · exact ⟨v, hs, .refl _ v⟩
  · exact ⟨_, hs, .delivered ha⟩

include hg₁ hg₂

/-- The next level is entered with `j` as the partner of `i`. -/
theorem notes_tryCandidate (hdeeper : P.Deepens T enclosing deeper) (hw : P.visiting.Shows w v)
    (hv : v.Sound P.first P.second) (hx : v.Exact P.first P.second T rows)
    (hm : map.Reads v.arena rows) (hframes : ∀ f ∈ enclosing, f.Intact v.arena)
    (hi : i ∈ v.unpaired) (hj : j ∈ rows i) {k : Nat} (hk : v.arena.slots[k]? = some j) :
    SearchM.Notes (P.IsExact T) (P.visitingSteps.tryCandidate P.visiting map i deeper k) w
      fun _ w' => ∃ v', P.visiting.Shows w' v' ∧ v.Restores P.config v' := by
  have hfit := hx.fits hg₂
  obtain ⟨hj₂, hjp⟩ := hfit i hi j hj
  obtain ⟨w₁, hext, hw₁⟩ := shows_extend hw hv hi hjp
  have hi₁ : i ∉ (v.extend i j).unpaired := hv.nodup_unpaired.not_mem_erase
  refine .slot (hw.arena_eq ▸ hk) ?_
  simp only [visitingSteps, Observer.steps_extend, Observer.steps_retract, steps_extend,
    steps_retract]
  refine .update hext ?_
  -- the refined map is above the maps in force, and what is done with it is taken back
  have hinner : SearchM.Notes (P.IsExact T) (P.visiting.refine map i j >>= deeper) w₁ fun _ w' =>
      ∃ v₁ v₂, (v.extend i j).Above v₁ ∧ P.visiting.Shows w' v₂ ∧ v₁.Restores P.config v₂ := by
    refine (SearchM.Notes.of_runs (runs_refine (P := P.visiting) hg₁ hg₂ (within_visiting hT) hw₁
      (fun _ h => h) hm ?_ (hv.mem_first_of_unpaired hi) hj₂ hi₁)).bind ?_
    · exact fun iu hiu ju hju => (hfit iu (List.mem_of_mem_erase hiu) ju hju).1
    rintro map₁ w₂ ⟨E, ⟨rows', v₁, hfilled, hw₂, hm₁, -⟩, hE⟩
    have habove := hfilled.above.1
    refine (hdeeper w₂ v₁ map₁ rows' hw₂ ((hv.extend hi hj₂ hjp).above habove)
      (hx.refined hv.nodup_unpaired hfilled fun st hst => (hE st hst).2) hm₁ ?_).mono ?_
    · exact fun f hf => (hframes f hf).grown habove.grown
    · rintro _ w' ⟨v₂, hw', hrest⟩
      exact ⟨v₁, v₂, habove, hw', hrest⟩
  have hreleased := hinner.releasing (n := v.arena.size) ?_
  · have hpos : w₁.arena.size = v.arena.size := congrArg Arena.size hw₁.arena_eq
    rw [← hpos] at hreleased
    refine SearchM.Notes.bind (.work hreleased) ?_
    rintro _ w₂ ⟨w₃, ⟨v₁, v₂, habove, hw₃, hrest⟩, rfl⟩
    rw [hpos]
    obtain ⟨w₄, hretract, hw₄⟩ := shows_retract_restored hw hi habove hrest hw₃
    exact .update_last hretract ⟨_, hw₄, .retract habove hrest hi⟩
  · rintro _ w' ⟨v₁, v₂, habove, hw', hrest⟩
    rw [hw'.arena_eq, hrest.size_eq]
    exact habove.grown.size_le

/-- The candidates of `i` are tried one after the other. -/
theorem notes_tries (hdeeper : P.Deepens T enclosing deeper) (hw : P.visiting.Shows w v)
    (hv : v.Sound P.first P.second) (hx : v.Exact P.first P.second T rows)
    (hm : map.Reads v.arena rows) (hframes : ∀ f ∈ enclosing, f.Intact v.arena)
    (hi : i ∈ v.unpaired) :
    SearchM.Notes (P.IsExact T)
      ((map.span i).forM (P.visitingSteps.tryCandidate P.visiting map i deeper)) w fun _ w' =>
        ∃ v', P.visiting.Shows w' v' ∧ v.Restores P.config v' := by
  refine .forM (fun k hk w₁ ⟨v₁, hw₁, hrest₁⟩ => ?_) ⟨v, hw, .refl _ v⟩
  obtain ⟨j, hj, hkj⟩ := hm.exists_slot hk
  refine (notes_tryCandidate hg₁ hg₂ hT hdeeper hw₁ (hv.restores hrest₁) (hx.restores hrest₁)
    (hm.of_prefix hrest₁.grown.slots) (fun f hf => (hframes f hf).grown hrest₁.grown)
    (hrest₁.unpaired_perm.mem_iff.mpr hi) hj ?_).mono ?_
  · rw [hrest₁.slots_eq]
    exact hkj
  · rintro _ w' ⟨v', hw', hrest⟩
    exact ⟨v', hw', hrest₁.trans hrest⟩

/-- A level is noted as it should be, and so are the levels below it. -/
theorem notes_explore (n : Nat) : ∀ level (scope : Scope) {w v rows}, P.visiting.Shows w v →
    v.Sound P.first P.second → v.Exact P.first P.second T rows →
    CandidateMap.Reads scope.active.map v.arena rows →
    (∀ f ∈ scope.active :: scope.enclosing, f.Intact v.arena) →
    SearchM.Notes (P.IsExact T) (P.visitingSteps.explore P.visiting n scope level) w fun _ w' =>
      ∃ v', P.visiting.Shows w' v' ∧ v.Restores P.config v' := by
  induction n with
  | zero =>
    intro level scope w v rows hw hv hx hm hframes
    refine (notes_enter hg₂ hw hx hm hframes).bind ?_
    rintro _ _ rfl
    exact notes_deliver hT hw
  | succ n ih =>
    intro level scope w v rows hw hv hx hm hframes
    refine (notes_enter hg₂ hw hx hm hframes).bind ?_
    rintro _ w rfl
    refine .work ?_
    simp only [visitingSteps, Observer.steps_map, Observer.steps_feasible, Observer.steps_span,
      Observer.steps_refined, Observer.steps_leaveOut, Observer.steps_unrefined,
      Observer.steps_takeBack, steps_feasible, steps_span, steps_leaveOut, steps_takeBack,
      bind_assoc, pure_bind]
    split
    swap
    · exact notes_deliver hT hw
    rw [hw.pick_eq hm]
    cases hpick : v.pick rows with
    | none => exact .throw _
    | some i =>
      obtain ⟨hi, -⟩ := View.mem_of_pick hpick
      -- a refined map is in force on the next level, above all that were in force here
      have hdeeper : P.Deepens T (scope.active :: scope.enclosing) (fun refined => do
          P.visitingSteps.explore P.visiting n (scope.below ⟨refined, (← SearchM.work).arena⟩)
            (level + 1)) := by
        intro w₁ v₁ map₁ rows₁ hw₁ hv₁ hx₁ hm₁ hframes₁
        refine .work (ih _ _ hw₁ hv₁ hx₁ hm₁ (List.forall_mem_cons.mpr ⟨?_, hframes₁⟩))
        rw [hw₁.arena_eq]
        exact ⟨⟨rows₁, hm₁⟩, .refl _⟩
      refine (notes_tries hg₁ hg₂ hT hdeeper hw hv hx hm hframes hi).bind ?_
      rintro _ w₁ ⟨v₁, hw₁, hrest₁⟩
      split
      swap
      · exact .pure ⟨v₁, hw₁, hrest₁⟩
      have hv₁ := hv.restores hrest₁
      have hi₁ := hrest₁.unpaired_perm.mem_iff.mpr hi
      have hgrown : ∀ f ∈ scope.active :: scope.enclosing, f.Intact v₁.arena :=
        fun f hf => (hframes f hf).grown hrest₁.grown
      refine (notes_leaveOut hw₁ hv₁ hi₁ ?_).mono fun _ _ ⟨v₂, hw₂, hrest₂⟩ =>
        ⟨v₂, hw₂, hrest₁.trans hrest₂⟩
      exact ih (level + 1) (scope.below scope.active) (shows_leaveOut hw₁ i) (hv₁.leaveOut hi₁)
        ((hx.restores hrest₁).leaveOut i) (hm.of_prefix hrest₁.grown.slots)
        (List.forall_mem_cons.mpr ⟨hgrown scope.active List.mem_cons_self, hgrown⟩)

/-- However a search ends, all levels that it has entered are exact. -/
theorem notes_visited {a : Arena VertexId}
    (hw : P.visiting.Shows w (.initial P.first P.config a)) :
    SearchM.Notes (P.IsExact T) P.visited w fun _ _ => True := by
  refine (SearchM.Notes.of_runs (runs_initialMap (P := P.visiting) hg₁ hg₂ (within_visiting hT) hw
    fun _ h => h)).bind ?_
  rintro map w₁ ⟨E, ⟨rows, v₁, hfilled, hw₁, hm, hbase⟩, hE⟩
  simp only [Observer.steps_first, bind_assoc, pure_bind]
  have habove := hfilled.above.1
  have hx : v₁.Exact P.first P.second T rows :=
    .initial hg₁ hfilled fun st hst => (hE st hst).2
  have hv₁ := (View.sound_initial hg₁ P.second P.config a).above habove
  have hexplored :=
    notes_explore hg₁ hg₂ hT w₁.unpaired.size 0 ⟨⟨map, w₁.arena⟩, []⟩ hw₁ hv₁ hx hm ?_
  · refine .work (.work ((hexplored.releasing ?_).mono fun _ _ _ => trivial))
    rintro _ w' ⟨v', hw', hrest⟩
    rw [hw'.arena_eq, hrest.size_eq, hbase]
    exact habove.grown.size_le
  · rw [hw₁.arena_eq]
    exact List.forall_mem_singleton.mpr ⟨⟨rows, hm⟩, .refl _⟩

end

end Problem

end CommonSubgraph
