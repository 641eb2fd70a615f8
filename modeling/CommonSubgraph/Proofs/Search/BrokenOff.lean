import CommonSubgraph.Proofs.Search.PutBack
import CommonSubgraph.Proofs.Search.SlotBound

/-!
# Initial maps that are broken off

The caller is only asked questions while a candidate map is filled, and does not stop the search
there. So an initial map that does not get finished was broken off by a fault, or by a reservation
that the arena refused (`Problem.fills_breaks`). In the second case the rows of the vertices before
are complete, the next one has not begun (`RowsFilled.of_reserve`), and what is in the arena is
nothing but these rows (`Problem.brokenOff_initialMap`).

Only a map that was finished is released again. Once there is one, a search leaves the arena empty,
whatever ends it (`Problem.cleared_search`).
-/

namespace CommonSubgraph

variable {ν ε σ : Type}

/-! ## What breaks off the filling of a map -/

/-- The filling of a map can be broken off so with the arena `a`: by a fault, or by a reservation
that the arena refuses. -/
def Arena.Breaks (a : Arena VertexId) : Halt → Prop
  | .aborted => False
  | .failed (.exhausted e) => a.reserve e.requested = .error e
  | .failed (.fault _) => True

/-- A refusal names the slots in use, so none were given back between two of the same kind. -/
theorem Arena.truncate_eq_of_refused {a : Arena VertexId} {k n : Nat} {e : ArenaExhausted}
    (h : a.reserve k = .error e) (h' : (a.truncate n).reserve e.requested = .error e) :
    a.truncate n = a := by
  obtain ⟨_, -, -, rfl⟩ := Arena.of_reserve_eq_error h
  obtain ⟨_, -, -, he⟩ := Arena.of_reserve_eq_error h'
  have hsize : a.size = (a.truncate n).size := congrArg ArenaExhausted.inUse he
  rw [Arena.size_truncate] at hsize
  exact Arena.truncate_of_size_le (by omega)

/-- The arena that is left after a refusal is the one that refused. -/
theorem Problem.fills_breaks (P : Problem ν ε σ) : P.Fills fun _ m => ∀ w s,
    Ensures m (w, s) (fun _ _ => True) fun halt st => st.1.arena.Breaks halt where
  pure _ _ _ := trivial
  bind hm hf w s := (hm w s).bind fun a st _ => hf a st.1 st.2
  work _ _ := trivial
  check r w s := by
    cases r <;> exact trivial
  vertices i j w s := by
    rw [Ensures, SearchM.ask_eq]
    cases P.predicate.vertices P.first i P.second j s <;> exact trivial
  edges i₁ i₂ es₁ j₁ j₂ es₂ w s := by
    rw [Ensures, SearchM.ask_eq]
    cases P.predicate.edges P.first i₁ i₂ es₁ P.second j₁ j₂ es₂ s <;> exact trivial
  startRow map i n w s := by
    rw [Ensures, SearchM.startRow_eq, CandidateMap.start]
    split_ifs
    · exact trivial
    cases hr : w.arena.reserve n with
    | ok top => exact trivial
    | error e =>
      obtain ⟨_, -, -, rfl⟩ := Arena.of_reserve_eq_error hr
      exact hr
  pushCandidate map i j w s := by
    rw [Ensures, SearchM.pushCandidate_eq]
    cases map.grow i w.arena.size <;> exact trivial

/-! ## Rows before a reservation -/

section Rows

variable {trial : VertexId → VertexId → List Act → Bool → Prop} {source rows : Rows}
variable {is : List VertexId} {v v' : View} {E E₁ E₂ : List Step} {st : Step} {n : Nat}

/-- Where slots are reserved, the rows of the vertices before are filled. -/
theorem RowsFilled.of_reserve (h : RowsFilled trial source is v E rows v')
    (htrial : ∀ i j acts b, trial i j acts b → ∀ act ∈ acts, act ≠ .reserve n)
    (hE : E = E₁ ++ st :: E₂) (hst : st.act = .reserve n) :
    ∃ before i after rows', is = before ++ i :: after ∧ n = (source i).length ∧
      RowsFilled trial source before v E₁ rows' st.view := by
  induction h generalizing E₁ with
  | nil => exact absurd hE (List.append_ne_nil_of_right_ne_nil _ (List.cons_ne_nil _ _)).symm
  | @cons i is v F₁ kept v₁ F₂ rows v₂ row _ ih =>
    cases E₁ with
    | nil =>
      obtain ⟨rfl, -⟩ := List.cons.inj hE
      exact ⟨[], i, is, _, rfl, (Act.reserve.inj hst).symm, .nil⟩
    | cons st₀ E₁ =>
      obtain ⟨rfl, hrest⟩ := List.cons.inj hE
      rcases split_append hrest with ⟨rest, rfl⟩ | ⟨E₁', rfl, hF₂⟩
      · exact absurd hst (row.forall_act (htrial i) st (by simp))
      · obtain ⟨before, k, after, rows', rfl, hn, hbefore⟩ := ih hF₂
        exact ⟨i :: before, k, after, _, rfl, hn, .cons row hbefore⟩

/-- The trial of a pair reserves nothing. -/
theorem Suited.ne_reserve {g₁ g₂ : Graph ν ε} {i j : VertexId} {acts : List Act} {b : Bool}
    (h : Suited g₁ g₂ i j acts b) : ∀ act ∈ acts, act ≠ .reserve n := by
  cases h <;> simp

end Rows

namespace Problem

open SearchM

variable {P : Problem ν ε σ} {T : Tests} {E : List Step} {env env' : σ} {w : Work}
variable {a : Arena VertexId}

/-! ## Initial maps -/

/-- What a caller that answers as the tests do has answered in passing. -/
theorem Heard.gives (h : P.Heard E env env') (hT : P.predicate.Answers P.first P.second T)
    (hE : ∀ st ∈ E, st.act.Proper P.first P.second) : ∀ st ∈ E, T.Gives st.act := by
  induction h with
  | nil => exact List.forall_mem_nil _
  | @cons st E env env₁ env' head _ ih =>
    obtain ⟨hst, hE⟩ := List.forall_mem_cons.mp hE
    refine List.forall_mem_cons.mpr ⟨?_, ih hE⟩
    obtain ⟨v, act⟩ := st
    cases act with
    | vertices i j b => exact (hT.within.vertices i j b env env₁ hst.1 hst.2 head).2
    | edges i₁ i₂ es₁ j₁ j₂ es₂ b =>
      obtain ⟨⟨hi₁, hi₂, rfl⟩, hj₁, hj₂, rfl⟩ := hst
      exact (hT.within.edges i₁ i₂ j₁ j₂ b env env₁ hi₁ hi₂ hj₁ hj₂ head).2
    | progress | solution | reserve => exact trivial

/-- The initial map is broken off behind the vertices `before`: the arena holds their `rows`, and
refuses the row of the vertex that comes next. -/
structure BrokenOff (P : Problem ν ε σ) (before : List VertexId) (rows : Rows)
    (a : Arena VertexId) (e : ArenaExhausted) : Prop where
  exists_next : ∃ i after, P.first.vertexIds = before ++ i :: after
  slots_eq : a.slots.toList = before.flatMap rows
  refused : a.reserve P.second.vertexCount = .error e
  sublist : ∀ i, (rows i).Sublist P.second.vertexIds
  rows_eq : ∀ T, P.predicate.Answers P.first P.second T →
    ∀ i ∈ before, rows i = candidates P.first P.second T [] i

/-- It is a whole row that is refused. -/
theorem BrokenOff.requested_eq {before : List VertexId} {rows : Rows} {e : ArenaExhausted}
    (h : P.BrokenOff before rows a e) : e.requested = P.second.vertexCount := by
  obtain ⟨_, -, -, rfl⟩ := Arena.of_reserve_eq_error h.refused
  rfl

/-- What the program that fills the initial map does from an initial state. -/
theorem exists_rowsFilled (hg₁ : P.first.WellFormed) (hg₂ : P.second.WellFormed)
    (hw : P.Shows w (.initial P.first P.config a)) (env : σ) : ∃ E map w' rows v',
      RowsFilled (Suited P.first P.second) (fun _ => P.second.vertexIds) P.first.vertexIds
        (.initial P.first P.config a) E rows v' ∧ map.base = a.size ∧
      (∀ st ∈ E, st.act.Proper P.first P.second) ∧
      P.Follows (a.size ≤ ·) P.initialMap w env E map w' := by
  obtain ⟨E, map, w', ⟨rows, v', hfilled, -, -, hbase⟩, hproper, hfollows⟩ :=
    runs_initialMap hg₁ hg₂ P.within_proper hw (fun _ h => h) env
  exact ⟨E, map, w', rows, v', hfilled, hbase, hproper, hfollows⟩

/-- An initial map that exhausts the arena leaves the rows that were filled before. -/
theorem brokenOff_initialMap (hg₁ : P.first.WellFormed) (hg₂ : P.second.WellFormed)
    (hw : P.Shows w (.initial P.first P.config a)) (ha : a.size = 0) {e : ArenaExhausted}
    {st' : Work × σ} (h : P.initialMap (w, env) = .error (.failed (.exhausted e)) st') :
    ∃ before rows, P.BrokenOff before rows st'.1.arena e := by
  obtain ⟨E, map, w₁, rows, v', hfilled, -, hproper, hfollows⟩ :=
    exists_rowsFilled hg₁ hg₂ hw env
  cases hfollows with
  | through _ eq => cases eq.symm.trans h
  | @stopped E₁ E₂ st env₁ _ _ w₂ n split heard stops eq _ shows =>
    cases eq.symm.trans h
    obtain ⟨k, hst, hrefused⟩ := stops.of_exhausted
    obtain ⟨before, i, after, rows', hsplit, hk, hbefore⟩ :=
      hfilled.of_reserve (fun _ _ _ _ ht => ht.ne_reserve) split hst
    -- the refusal tells how many slots are in use, so no slot was taken away at the end
    have harena : w₂.arena = st.view.arena := by
      have hbreaks := P.fills_breaks.initialMap w env
      have hw₂ : w₂.arena = st.view.arena.truncate n := shows.arena_eq
      rw [Ensures, eq] at hbreaks
      exact hw₂.trans (Arena.truncate_eq_of_refused hrefused (hw₂ ▸ hbreaks))
    have hE₁ : ∀ st ∈ E₁, st.act.Proper P.first P.second :=
      fun st hst => hproper st (by simp [split, hst])
    have hnodup : before.Nodup := by
      have hids := Graph.nodup_vertexIds hg₁
      rw [hsplit] at hids
      exact hids.of_append_left
    refine ⟨before, rows', ⟨i, after, hsplit⟩, ?_, ?_, hbefore.sublist, fun T hT => ?_⟩
    · have hempty : a.slots.toList = [] := List.length_eq_zero_iff.mp ha
      have hslots : st.view.arena.slots.toList = a.slots.toList ++ before.flatMap rows' :=
        hbefore.slots_eq hnodup
      rw [harena, hslots, hempty, List.nil_append]
    · rw [harena, ← P.second.length_vertexIds, ← hk]
      exact hrefused
    · have hrows := hbefore.rows_eq hnodup (heard.gives hT hE₁)
        fun _ _ _ _ _ ht hgives => ht.iff_suits hgives
      intro k hkb
      rw [candidates_nil]
      exact hrows k hkb

/-! ## Finished maps -/

/-- After an initial map was finished, whatever but a fault ends the search leaves the arena
empty. -/
theorem cleared_search (hg₁ : P.first.WellFormed) (hg₂ : P.second.WellFormed)
    (hw : P.Shows w (.initial P.first P.config a)) (ha : a.size = 0) {map : CandidateMap}
    {st' : Work × σ} (h : P.initialMap (w, env) = .ok map st') :
    Ensures P.search (w, env) (fun _ st => st.1.arena.slots = #[])
      fun halt st => (∃ f, halt = .failed (.fault f)) ∨ st.1.arena.slots = #[] := by
  obtain ⟨w₁, env₁⟩ := st'
  -- the initial map is the first thing in an arena without slots
  have hbase : map.base = 0 := by
    obtain ⟨E, map', w', rows, v', -, hbase, -, hfollows⟩ := exists_rowsFilled hg₁ hg₂ hw env
    cases hfollows with
    | through _ eq =>
      cases eq.symm.trans h
      exact hbase.trans ha
    | stopped _ _ _ eq => cases eq.symm.trans h
  have hempty (b : Arena VertexId) : (b.truncate 0).slots = #[] := by
    apply Array.eq_empty_of_size_eq_zero
    exact (Arena.size_truncate b 0).trans (Nat.zero_min _)
  have hexplore : Ensures (P.explore w₁.unpaired.size map 0) (w₁, env₁) (fun _ _ => True)
      fun _ _ => True := by
    rw [Ensures]
    split <;> exact trivial
  have hreleased := hexplore.releasing_of (n := 0) (fun _ _ _ => Nat.zero_le _)
    fun _ _ _ => .inr (Nat.zero_le _)
  -- all that follows the initial map is released
  rw [Ensures, search_eq, bind_ok h, hbase]
  refine Ensures.work (hreleased.mono ?_ ?_)
  · rintro _ st ⟨w', -, hst⟩
    rw [hst]
    exact hempty w'.arena
  · rintro halt st (hfault | ⟨w', -, hst⟩)
    · exact .inl hfault
    · rw [hst]
      exact .inr (hempty w'.arena)

end Problem

end CommonSubgraph
