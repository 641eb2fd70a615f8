import CommonSubgraph.Proofs.Search.Explored
import Mathlib.Data.List.ProdSigma

/-!
# What is asked while a candidate map is filled

Every question that is asked while a map is filled belongs to the trial of one candidate, and what
the trial asked before comes right before it (`RowsFilled.exists_trial`). The trials of an initial
map ask about two vertices once at most (`RowsFilled.nodup_vertexPairs`).
-/

namespace CommonSubgraph

variable {ν ε α : Type} {v v' : View} {E E₁ E₂ : List Step} {st : Step} {js kept : List VertexId}

/-- A member of two lists is found in the first of them, or in the second one behind the first. -/
theorem split_append {a : α} {l l' l₁ l₂ : List α} (h : l ++ l' = l₁ ++ a :: l₂) :
    (∃ l₂', l = l₁ ++ a :: l₂') ∨ ∃ l₁', l₁ = l ++ l₁' ∧ l' = l₁' ++ a :: l₂ := by
  rcases List.append_eq_append_iff.mp h with ⟨l₁', h₁, h₂⟩ | ⟨rest, h₁, h₂⟩
  · exact .inr ⟨l₁', h₁, h₂⟩
  cases rest with
  | nil => exact .inr ⟨[], by rw [h₁, List.append_nil, List.append_nil], h₂.symm⟩
  | cons b rest =>
    obtain ⟨rfl, -⟩ := List.cons.inj h₂
    exact .inl ⟨rest, h₁⟩

/-! ## Trials -/

/-- The step belongs to a trial, and what the trial asked before is the last of the steps `E₁`. -/
def InTrial (trial : List Act → Bool → Prop) (E₁ : List Step) (st : Step) : Prop :=
  ∃ acts₁ acts₂ b E₀, trial (acts₁ ++ st.act :: acts₂) b ∧ E₁ = E₀ ++ acts₁.map (Step.mk st.view)

/-- A step belongs to its trial whatever came before the trial. -/
theorem InTrial.behind {trial : List Act → Bool → Prop} (h : InTrial trial E₁ st) (E : List Step) :
    InTrial trial (E ++ E₁) st := by
  obtain ⟨acts₁, acts₂, b, E₀, ht, rfl⟩ := h
  exact ⟨acts₁, acts₂, b, E ++ E₀, ht, (List.append_assoc _ _ _).symm⟩

/-- A step among those of a trial belongs to it. -/
theorem InTrial.of_acts {trial : List Act → Bool → Prop} {acts : List Act} {b : Bool}
    (tried : trial acts b) (h : acts.map (Step.mk v) = E₁ ++ st :: E₂) : InTrial trial E₁ st := by
  obtain ⟨acts₁, rest, rfl, rfl, hrest⟩ := List.map_eq_append_iff.mp h
  obtain ⟨act, acts₂, rfl, rfl, -⟩ := List.map_eq_cons_iff.mp hrest
  exact ⟨acts₁, acts₂, b, [], tried, rfl⟩

/-- A step at which a row is filled belongs to the trial of one of its candidates. -/
theorem RowFilled.exists_trial {trial : VertexId → List Act → Bool → Prop}
    (h : RowFilled trial js v E kept v') (hE : E = E₁ ++ st :: E₂) :
    ∃ j ∈ js, InTrial (trial j) E₁ st := by
  have tail {j : VertexId} {js : List VertexId} {E₁' : List Step} (E₀ : List Step)
      (h : ∃ j ∈ js, InTrial (trial j) E₁' st) :
      ∃ j' ∈ j :: js, InTrial (trial j') (E₀ ++ E₁') st := by
    obtain ⟨j', hj', ht⟩ := h
    exact ⟨j', List.mem_cons_of_mem j hj', ht.behind E₀⟩
  induction h generalizing E₁ with
  | nil => exact absurd hE (List.append_ne_nil_of_right_ne_nil _ (List.cons_ne_nil _ _)).symm
  | @drop j js v acts E kept v' tried _ ih =>
    rcases split_append hE with ⟨rest, hacts⟩ | ⟨E₁', rfl, hE'⟩
    · exact ⟨j, List.mem_cons_self, .of_acts tried hacts⟩
    · exact tail _ (ih hE')
  | @keep j js v acts E kept v' tried _ ih =>
    rcases split_append hE with ⟨rest, hacts⟩ | ⟨E₁', rfl, hE'⟩
    · exact ⟨j, List.mem_cons_self, .of_acts tried hacts⟩
    · exact tail _ (ih hE')

variable {trial : VertexId → VertexId → List Act → Bool → Prop} {source rows : Rows}
variable {is : List VertexId}

/-- A step of a map that is filled reserves slots or belongs to the trial of a candidate. -/
theorem RowsFilled.exists_trial (h : RowsFilled trial source is v E rows v')
    (hE : E = E₁ ++ st :: E₂) : (∃ n, st.act = .reserve n) ∨
      ∃ i ∈ is, ∃ j ∈ source i, InTrial (trial i j) E₁ st := by
  induction h generalizing E₁ with
  | nil => exact absurd hE (List.append_ne_nil_of_right_ne_nil _ (List.cons_ne_nil _ _)).symm
  | @cons i is v F₁ kept v₁ F₂ rows v₂ row _ ih =>
    cases E₁ with
    | nil =>
      obtain ⟨rfl, -⟩ := List.cons.inj hE
      exact .inl ⟨_, rfl⟩
    | cons st₀ E₁ =>
      obtain ⟨rfl, hrest⟩ := List.cons.inj hE
      rcases split_append hrest with ⟨rest, hF₁⟩ | ⟨E₁', rfl, hF₂⟩
      · obtain ⟨j, hj, ht⟩ := row.exists_trial hF₁
        exact .inr ⟨i, List.mem_cons_self, j, hj, ht.behind [_]⟩
      · rcases ih hF₂ with hreserve | ⟨i', hi', j, hj, ht⟩
        · exact .inl hreserve
        · exact .inr ⟨i', List.mem_cons_of_mem i hi', j, hj, ht.behind (_ :: F₁)⟩

/-! ## Questions about vertices -/

/-- The two vertices that are asked about. -/
def Act.vertexPair? : Act → Option (VertexId × VertexId)
  | .vertices i j _ => some (i, j)
  | _ => none

/-- The two vertices of every question about vertices, in order. -/
def vertexPairs (E : List Step) : List (VertexId × VertexId) :=
  E.filterMap fun st => st.act.vertexPair?

/-- The questions of two scripts come one after the other. -/
theorem vertexPairs_append (E E' : List Step) :
    vertexPairs (E ++ E') = vertexPairs E ++ vertexPairs E' := List.filterMap_append

variable {g₁ g₂ : Graph ν ε} {i j : VertexId}

/-- The trial of a pair by itself asks about its two vertices once at most. -/
theorem Suited.vertexPairs_sublist {acts : List Act} {b : Bool} (h : Suited g₁ g₂ i j acts b) :
    (vertexPairs (acts.map (Step.mk v))).Sublist [(i, j)] := by
  cases h with
  | loops => exact List.nil_sublist _
  | refused | compared => exact List.Sublist.refl _

/-- Filling a row asks about its vertex with each candidate once at most. -/
theorem RowFilled.vertexPairs_sublist (h : RowFilled (Suited g₁ g₂ i) js v E kept v') :
    (vertexPairs E).Sublist (js.map (Prod.mk i)) := by
  induction h with
  | nil => exact List.Sublist.refl _
  | drop tried _ ih | keep tried _ ih =>
    rw [vertexPairs_append]
    exact tried.vertexPairs_sublist.append ih

/-- In an initial map each vertex of the first graph is tried with each of the second one once. -/
theorem RowsFilled.vertexPairs_sublist (h : RowsFilled (Suited g₁ g₂) source is v E rows v') :
    (vertexPairs E).Sublist (is.flatMap fun i => (source i).map (Prod.mk i)) := by
  induction h with
  | nil => exact List.Sublist.refl _
  | @cons i is v F₁ kept v₁ F₂ rows v₂ row _ ih =>
    show (vertexPairs (F₁ ++ F₂)).Sublist _
    rw [vertexPairs_append, List.flatMap_cons]
    exact row.vertexPairs_sublist.append ih

/-- Filling the rows of different vertices from different candidates asks about no pair twice. -/
theorem RowsFilled.nodup_vertexPairs
    (h : RowsFilled (Suited g₁ g₂) (fun _ => js) is v E rows v') (his : is.Nodup) (hjs : js.Nodup) :
    (vertexPairs E).Nodup :=
  h.vertexPairs_sublist.nodup (his.product hjs)

end CommonSubgraph
