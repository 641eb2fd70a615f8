import CommonSubgraph.Proofs.Isomorphism
import CommonSubgraph.Proofs.Search.Explored
import CommonSubgraph.Solution

/-!
# Candidates under pure tests

When the caller answers as pure tests do, a filled row is a filter of its source row
(`RowsFilled.rows_eq`): the initial rows hold the partners that suit, and refining by a pair keeps
those that agree with it. So at every level the row of an unpaired vertex is `candidates`, the
partners that suit it and agree with every pair made so far (`View.Exact.initial`,
`View.Exact.refined`), although each was compared with one pair at a time.
-/

namespace CommonSubgraph

variable {ν ε σ : Type}

/-! ## Answers of tests -/

/-- A question at this step is answered as the tests answer it. -/
def Tests.Gives (T : Tests) : Act → Prop
  | .vertices i j b => b = T.vertices i j
  | .edges i₁ i₂ es₁ j₁ j₂ es₂ b => b = T.edges i₁ i₂ es₁ j₁ j₂ es₂
  | _ => True

/-- A caller that answers as the tests do answers proper questions so. -/
theorem Predicate.Answers.within {P : Problem ν ε σ} {T : Tests}
    (h : P.predicate.Answers P.first P.second T) :
    P.Within fun act => act.Proper P.first P.second ∧ T.Gives act where
  exists_vertices i j hi hj := ⟨T.vertices i j, ⟨hi, hj⟩, rfl⟩
  vertices i j b env env' hi hj he := by
    rw [h.vertices_eq i j env hi hj] at he
    cases he
    exact ⟨⟨hi, hj⟩, rfl⟩
  exists_edges _ _ _ _ hi₁ hi₂ hj₁ hj₂ := ⟨_, ⟨⟨hi₁, hi₂, rfl⟩, hj₁, hj₂, rfl⟩, rfl⟩
  edges i₁ i₂ j₁ j₂ b env env' hi₁ hi₂ hj₁ hj₂ he := by
    rw [h.edges_eq i₁ i₂ j₁ j₂ env hi₁ hi₂ hj₁ hj₂] at he
    cases he
    exact ⟨⟨⟨hi₁, hi₂, rfl⟩, hj₁, hj₂, rfl⟩, rfl⟩
  progress _ := ⟨trivial, trivial⟩
  solution pairs := ⟨P.within_proper.solution pairs, trivial⟩
  reserve _ := ⟨trivial, trivial⟩

section

variable {g₁ g₂ : Graph ν ε} {T : Tests} {i j iu ju : VertexId} {acts : List Act} {b : Bool}

/-- Under tests, the trial of a pair accepts it if it suits by itself. -/
theorem Suited.iff_suits (h : Suited g₁ g₂ i j acts b) (hT : ∀ act ∈ acts, T.Gives act) :
    b = true ↔ Suits g₁ g₂ T (i, j) := by
  cases h with
  | loops h => simp [Suits, h]
  | refused h =>
    have hv : false = T.vertices i j := hT (.vertices i j false) (by simp)
    simp [Suits, ← hv]
  | compared h b =>
    have hv : true = T.vertices i j := hT (.vertices i j true) (by simp)
    have he : b = T.edges i i (g₁.joining i i) j j (g₂.joining j j) :=
      hT (.edges i i _ j j _ b) (by simp)
    simp [Suits, h, ← hv, ← he]

/-- Under tests, the trial against another pair accepts a candidate that is free and agrees with
that pair. -/
theorem Matched.iff_agree (h : Matched g₁ g₂ i j iu ju acts b) (hi : i ≠ iu)
    (hT : ∀ act ∈ acts, T.Gives act) :
    b = true ↔ ju ≠ j ∧ Agree g₁ g₂ T (i, j) (iu, ju) := by
  have hg₁ : g₁.touching i iu = g₁.joining i iu ++ g₁.joining iu i := if_neg hi
  cases h with
  | taken h => simp [h]
  | there h => simp [Agree, h]
  | back h h' => simp [Agree, h']
  | apart hne h h' hnil =>
    have hg : g₁.touching i iu = [] := hg₁.trans hnil
    simp [Agree, hne, h, h', hg]
  | compared hne h h' hnil b =>
    have hg₂ : g₂.touching j ju = g₂.joining j ju ++ g₂.joining ju j := if_neg hne.symm
    have he : b = T.edges i iu (g₁.joining i iu ++ g₁.joining iu i) j ju
        (g₂.joining j ju ++ g₂.joining ju j) := hT (.edges i iu _ j ju _ b) (by simp)
    rw [← hg₁, ← hg₂] at he
    rw [← hg₁] at hnil
    simp [Agree, hne, h, h', hnil, ← he]

end

/-! ## Filled rows -/

section

variable {G : Act → Prop} {v v' : View} {E : List Step} {js kept : List VertexId}
variable {trial : VertexId → List Act → Bool → Prop}

/-- A row keeps the candidates that meet what their trials decide. -/
theorem RowFilled.kept_eq {C : VertexId → Prop} [DecidablePred C]
    (h : RowFilled trial js v E kept v') (hG : ∀ st ∈ E, G st.act)
    (hC : ∀ j acts b, trial j acts b → (∀ act ∈ acts, G act) → (b = true ↔ C j)) :
    kept = js.filter fun j => C j := by
  induction h with
  | nil => rfl
  | @drop j js v acts E kept v' tried _ ih =>
    have hacts : ∀ act ∈ acts, G act := fun act hact =>
      hG ⟨v, act⟩ (List.mem_append_left E (List.mem_map_of_mem hact))
    have hj : ¬ C j := fun hj => Bool.false_ne_true ((hC j acts false tried hacts).mpr hj)
    rw [List.filter_cons_of_neg (by simpa using hj)]
    exact ih fun st hst => hG st (List.mem_append_right _ hst)
  | @keep j js v acts E kept v' tried _ ih =>
    have hacts : ∀ act ∈ acts, G act := fun act hact =>
      hG ⟨v, act⟩ (List.mem_append_left E (List.mem_map_of_mem hact))
    have hj : C j := (hC j acts true tried hacts).mp rfl
    rw [List.filter_cons_of_pos (by simpa using hj)]
    exact congrArg (j :: ·) (ih fun st hst => hG st (List.mem_append_right _ hst))

variable {trial : VertexId → VertexId → List Act → Bool → Prop} {source rows : Rows}
variable {is : List VertexId}

/-- Rows are filled with what satisfies the condition that the trials decide, in the order of the
source rows. -/
theorem RowsFilled.rows_eq {C : VertexId → VertexId → Prop} [∀ i, DecidablePred (C i)]
    (h : RowsFilled trial source is v E rows v') (his : is.Nodup) (hG : ∀ st ∈ E, G st.act)
    (hC : ∀ i ∈ is, ∀ j acts b, trial i j acts b → (∀ act ∈ acts, G act) → (b = true ↔ C i j)) :
    ∀ i ∈ is, rows i = (source i).filter fun j => C i j := by
  induction h with
  | nil => exact fun i hi => absurd hi List.not_mem_nil
  | @cons i is v E₁ kept v₁ E₂ rows v₂ row _ ih =>
    obtain ⟨hi, his⟩ := List.nodup_cons.mp his
    intro k hk
    -- no later row is one of `i` again, so the first one stays
    by_cases hki : k = i
    · subst hki
      rw [Function.update_self]
      exact row.kept_eq (fun st hst => hG st (by simp [hst])) (hC k List.mem_cons_self)
    · rw [Function.update_of_ne hki]
      refine ih his (fun st hst => hG st (by simp [hst])) (fun i' hi' => ?_) k ?_
      · exact hC i' (List.mem_cons_of_mem i hi')
      · exact (List.mem_cons.mp hk).resolve_left hki

end

/-! ## Candidates -/

section

variable (g₁ g₂ : Graph ν ε) (T : Tests)

/-- The partners that `i` can still have beside `pairs`. -/
def candidates (pairs : List (VertexId × VertexId)) (i : VertexId) : List VertexId :=
  g₂.vertexIds.filter fun j =>
    j ∉ pairs.map Prod.snd ∧ Suits g₁ g₂ T (i, j) ∧ ∀ p ∈ pairs, Agree g₁ g₂ T p (i, j)

variable {g₁ g₂ T}
variable {pairs : List (VertexId × VertexId)} {i j iu : VertexId} {v v' : View} {E : List Step}
variable {rows rows' : Rows}

/-- A candidate is a free vertex of the second graph that suits the vertex and agrees with all
pairs. -/
theorem mem_candidates_iff : j ∈ candidates g₁ g₂ T pairs i ↔ j ∈ g₂.vertexIds ∧
    j ∉ pairs.map Prod.snd ∧ Suits g₁ g₂ T (i, j) ∧ ∀ p ∈ pairs, Agree g₁ g₂ T p (i, j) := by
  rw [candidates, List.mem_filter, decide_eq_true_iff]

/-- With nothing paired, the candidates are the vertices that suit. -/
theorem candidates_nil (i : VertexId) :
    candidates g₁ g₂ T [] i = g₂.vertexIds.filter fun j => Suits g₁ g₂ T (i, j) := by
  simp [candidates]

/-- One more pair takes away its own vertex and whatever does not agree with it. -/
theorem candidates_concat (pairs : List (VertexId × VertexId)) (i j iu : VertexId) :
    candidates g₁ g₂ T (pairs ++ [(i, j)]) iu =
      (candidates g₁ g₂ T pairs iu).filter fun ju => ju ≠ j ∧ Agree g₁ g₂ T (i, j) (iu, ju) := by
  rw [candidates, candidates, List.filter_filter]
  apply List.filter_congr
  intro ju _
  rw [← Bool.decide_and]
  refine decide_eq_decide.mpr ?_
  simp only [List.map_append, List.map_cons, List.map_nil, List.mem_append, List.mem_singleton,
    not_or, or_imp, forall_and, forall_eq]
  tauto

/-- No candidate stands twice in a row. -/
theorem nodup_candidates (hg : g₂.WellFormed) (pairs : List (VertexId × VertexId)) (i : VertexId) :
    (candidates g₁ g₂ T pairs i).Nodup := (Graph.nodup_vertexIds hg).filter _

/-- A candidate makes a partial isomorphism one pair longer. -/
theorem IsPartialIso.concat (h : IsPartialIso g₁ g₂ T pairs) (hg : g₂.WellFormed)
    (hi : g₁.containsVertex i = true) (hip : i ∉ pairs.map Prod.fst)
    (hj : j ∈ candidates g₁ g₂ T pairs i) : IsPartialIso g₁ g₂ T (pairs ++ [(i, j)]) := by
  obtain ⟨hmem, hjp, hsuits, hagree⟩ := mem_candidates_iff.mp hj
  refine ⟨?_, ?_, ?_, ?_, ?_, ?_⟩
  · simpa [or_imp, forall_and] using ⟨fun a b hab => h.mem_first (a, b) hab, hi⟩
  · have hj := (Graph.mem_vertexIds_iff hg).mp hmem
    simpa [or_imp, forall_and] using ⟨fun a b hab => h.mem_second (a, b) hab, hj⟩
  · rw [List.map_append, List.map_singleton, List.nodup_append_comm]
    exact List.nodup_cons.mpr ⟨hip, h.nodup_first⟩
  · rw [List.map_append, List.map_singleton, List.nodup_append_comm]
    exact List.nodup_cons.mpr ⟨hjp, h.nodup_second⟩
  · simpa [or_imp, forall_and] using ⟨fun a b hab => h.suits (a, b) hab, hsuits⟩
  · refine List.pairwise_append.mpr ⟨h.agree, List.pairwise_singleton _ _, fun p hp q hq => ?_⟩
    rw [List.mem_singleton.mp hq]
    exact hagree p hp

/-- The rows of the unpaired vertices are their candidates. -/
def View.Exact (g₁ g₂ : Graph ν ε) (T : Tests) (v : View) (rows : Rows) : Prop :=
  ∀ i ∈ v.unpaired, rows i = candidates g₁ g₂ T v.pairs i

/-- Candidates are free vertices of the second graph. -/
theorem View.Exact.fits (h : v.Exact g₁ g₂ T rows) (hg : g₂.WellFormed) : v.Fits g₂ rows := by
  intro i hi j hj
  rw [h i hi] at hj
  obtain ⟨hmem, hjp, -⟩ := mem_candidates_iff.mp hj
  exact ⟨(Graph.mem_vertexIds_iff hg).mp hmem, hjp⟩

/-- Rows of candidates are still so when everything was put back. -/
theorem View.Exact.restores {c : Config} (h : v.Exact g₁ g₂ T rows) (hr : v.Restores c v') :
    v'.Exact g₁ g₂ T rows := by
  intro i hi
  rw [hr.pairs_eq]
  exact h i (hr.unpaired_perm.mem_iff.mp hi)

/-- Leaving a vertex out makes no difference to the candidates of the others. -/
theorem View.Exact.leaveOut (h : v.Exact g₁ g₂ T rows) (i : VertexId) :
    (v.leaveOut i).Exact g₁ g₂ T rows := fun k hk => h k (List.mem_of_mem_erase hk)

/-- The initial rows are the candidates beside nothing. -/
theorem View.Exact.initial {c : Config} {a : Arena VertexId} (hg₁ : g₁.WellFormed)
    (h : RowsFilled (Suited g₁ g₂) (fun _ => g₂.vertexIds) g₁.vertexIds (.initial g₁ c a) E rows
      v') (hE : ∀ st ∈ E, T.Gives st.act) : v'.Exact g₁ g₂ T rows := by
  obtain ⟨b, rfl, -⟩ := h.above.1
  intro i hi
  show rows i = candidates g₁ g₂ T [] i
  rw [candidates_nil]
  exact h.rows_eq (Graph.nodup_vertexIds hg₁) hE (fun _ _ _ _ _ ht hT => ht.iff_suits hT) i hi

/-- Refined rows are the candidates beside one more pair. -/
theorem View.Exact.refined (hx : v.Exact g₁ g₂ T rows) (hi : v.unpaired.Nodup)
    (h : RowsFilled (Matched g₁ g₂ i j) rows (v.extend i j).unpaired (v.extend i j) E rows' v')
    (hE : ∀ st ∈ E, T.Gives st.act) : v'.Exact g₁ g₂ T rows' := by
  obtain ⟨b, rfl, -⟩ := h.above.1
  intro iu hiu
  have hmem : ∀ k ∈ (v.extend i j).unpaired, i ≠ k := fun k hk => by
    rintro rfl
    exact hi.not_mem_erase hk
  show rows' iu = candidates g₁ g₂ T (v.pairs ++ [(i, j)]) iu
  rw [candidates_concat, ← hx iu (List.mem_of_mem_erase hiu)]
  exact h.rows_eq (hi.erase i) hE (fun k hk _ _ _ ht hT => ht.iff_agree (hmem k hk) hT) iu hiu

end

/-! ## Solutions of a script -/

/-- The solution that is handed over at a step. -/
def Act.solution? : Act → Option Solution
  | .solution xs ys => some ⟨xs, ys⟩
  | _ => none

/-- The solutions handed over in a script, in order. -/
def delivered (E : List Step) : List Solution := E.filterMap fun st => st.act.solution?

/-- The solutions of two scripts come one after the other. -/
theorem delivered_append (E E' : List Step) : delivered (E ++ E') = delivered E ++ delivered E' :=
  List.filterMap_append

section

variable {v v' : View} {E : List Step} {js kept : List VertexId}
variable {trial : VertexId → List Act → Bool → Prop}

/-- What holds of the acts of all trials holds of those in a filled row. -/
theorem RowFilled.forall_act {Q : Act → Prop} (h : RowFilled trial js v E kept v')
    (ht : ∀ j acts b, trial j acts b → ∀ act ∈ acts, Q act) : ∀ st ∈ E, Q st.act := by
  induction h with
  | nil => exact List.forall_mem_nil _
  | drop tried _ ih | keep tried _ ih =>
    exact List.forall_mem_append.mpr ⟨List.forall_mem_map.mpr (ht _ _ _ tried), ih⟩

variable {trial : VertexId → VertexId → List Act → Bool → Prop} {source rows : Rows}
variable {is : List VertexId}

/-- All that is done while rows are filled is to reserve slots and to ask what the trials ask. -/
theorem RowsFilled.forall_act {Q : Act → Prop} (h : RowsFilled trial source is v E rows v')
    (ht : ∀ i j acts b, trial i j acts b → ∀ act ∈ acts, Q act) (hr : ∀ n, Q (.reserve n)) :
    ∀ st ∈ E, Q st.act := by
  induction h with
  | nil => exact List.forall_mem_nil _
  | @cons i is v E₁ kept v₁ E₂ rows v₂ row _ ih =>
    exact List.forall_mem_cons.mpr
      ⟨hr _, List.forall_mem_append.mpr ⟨row.forall_act (ht i), ih⟩⟩

/-- Filling rows delivers nothing. -/
theorem RowsFilled.delivered_eq (h : RowsFilled trial source is v E rows v')
    (ht : ∀ i j acts b, trial i j acts b → ∀ act ∈ acts, act.solution? = none) :
    delivered E = [] :=
  List.filterMap_eq_nil_iff.mpr (h.forall_act ht fun _ => rfl)

variable {g₁ g₂ : Graph ν ε} {i j iu ju : VertexId} {acts : List Act} {b : Bool}

/-- The trial of a pair by itself delivers nothing. -/
theorem Suited.solution?_eq (h : Suited g₁ g₂ i j acts b) :
    ∀ act ∈ acts, act.solution? = none := by
  cases h <;> simp [Act.solution?]

/-- The trial of a pair against another one delivers nothing. -/
theorem Matched.solution?_eq (h : Matched g₁ g₂ i j iu ju acts b) :
    ∀ act ∈ acts, act.solution? = none := by
  cases h <;> simp [Act.solution?]

end

end CommonSubgraph
