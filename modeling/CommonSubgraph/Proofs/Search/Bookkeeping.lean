import CommonSubgraph.Proofs.Search.Candidates
import CommonSubgraph.Proofs.Search.Promises
import CommonSubgraph.Proofs.Search.SlotBound

/-!
# The books of a search

A level counts the vertices of the first graph that are decided: those that are paired and those
that are left out. The others are the unpaired ones, so the level and their number add up to the
number of vertices (`View.Booked`). This holds where the caller is told of a level and where it is
handed a solution, with the level that it was told of last (`Searched.atHooks`): every step of
`Explored` keeps it, and a level puts back what the next candidate needs of it.

`Work.InBooks` says the same of a working state, with the sets and lists that are in it.
-/

namespace CommonSubgraph

variable {ν ε σ : Type} {g₁ g₂ : Graph ν ε} {c : Config} {v v' v₁ : View} {E E' : List Step}
variable {level : Nat} {i j : VertexId}

/-! ## Calls that may end the search -/

/-- The levels that a script tells, in order. -/
def levelsOf (E : List Step) : List Nat := Event.levels ((callsOf E).map Call.event)

/-- The levels told by two scripts come one after the other. -/
theorem levelsOf_append (E E' : List Step) : levelsOf (E ++ E') = levelsOf E ++ levelsOf E' := by
  rw [levelsOf, callsOf, List.filterMap_append, List.map_append, Event.levels,
    List.filterMap_append]
  rfl

/-- The caller is told of a level or handed a solution. -/
def Act.IsHook (act : Act) : Prop := ∃ c, act.call? = some c ∧ c.event.isHook = true

/-- Wherever the caller is told of a level or handed a solution, `Q` holds of the level that it was
told of last and of the state. -/
def AtHooks (Q : Nat → View → Prop) (E : List Step) : Prop :=
  ∀ E₁ st E₂, E = E₁ ++ st :: E₂ → st.act.IsHook →
    ∃ level, (levelsOf (E₁ ++ [st])).getLast? = some level ∧ Q level st.view

namespace AtHooks

variable {Q : Nat → View → Prop}

/-- Where there is no such call, nothing has to hold. -/
theorem of_forall_not (h : ∀ st ∈ E, ¬ st.act.IsHook) : AtHooks Q E := by
  rintro E₁ st E₂ rfl hhook
  exact absurd hhook (h st (List.mem_append_right _ List.mem_cons_self))

/-- What holds at the calls of two scripts holds at those of both together, since the second tells
its levels itself. -/
theorem append (h : AtHooks Q E) (h' : AtHooks Q E') : AtHooks Q (E ++ E') := by
  intro E₁ st E₂ hE hhook
  rcases split_append hE with ⟨rest, hE⟩ | ⟨E₁', rfl, hE'⟩
  · exact h E₁ st rest hE hhook
  · obtain ⟨level, hlast, hQ⟩ := h' E₁' st E₂ hE' hhook
    refine ⟨level, ?_, hQ⟩
    rw [List.append_assoc, levelsOf_append, List.getLast?_append, hlast]
    rfl

/-- At a level that is told, `Q` has to hold of it. -/
theorem progress (h : Q level v) : AtHooks Q [⟨v, .progress level⟩] := by
  intro E₁ st E₂ hE _
  obtain ⟨rfl, rfl⟩ := split_eq_singleton hE.symm
  exact ⟨level, rfl, h⟩

/-- At a solution after a level that was told, `Q` has to hold of that level too. -/
theorem solution {xs ys : List VertexId} (h : Q level v) (h' : Q level v') :
    AtHooks Q [⟨v, .progress level⟩, ⟨v', .solution xs ys⟩] := by
  intro E₁ st E₂ hE _
  cases E₁ with
  | nil =>
    obtain ⟨rfl, -⟩ := List.cons.inj hE
    exact ⟨level, rfl, h⟩
  | cons st₀ E₁ =>
    obtain ⟨rfl, hrest⟩ := List.cons.inj hE
    obtain ⟨rfl, rfl⟩ := split_eq_singleton hrest.symm
    exact ⟨level, rfl, h'⟩

end AtHooks

/-- The trial of a pair by itself makes no such call. -/
theorem Suited.not_isHook {acts : List Act} {b : Bool} (h : Suited g₁ g₂ i j acts b) :
    ∀ act ∈ acts, ¬ act.IsHook := by
  cases h <;> simp [Act.IsHook, Act.call?, Call.event, Event.isHook]

/-- The trial of a pair against another one makes no such call. -/
theorem Matched.not_isHook {iu ju : VertexId} {acts : List Act} {b : Bool}
    (h : Matched g₁ g₂ i j iu ju acts b) : ∀ act ∈ acts, ¬ act.IsHook := by
  cases h <;> simp [Act.IsHook, Act.call?, Call.event, Event.isHook]

theorem Act.not_isHook_reserve (n : Nat) : ¬ (Act.reserve n).IsHook := by
  rintro ⟨c, hc, -⟩
  cases hc

/-! ## Levels count decided vertices -/

/-- A vertex that is considered is either unpaired or paired. -/
theorem View.Sound.length_considered (hv : v.Sound g₁ g₂) :
    v.considered.length = v.unpaired.length + v.pairs.length := by
  have hperm : v.considered.Perm (v.unpaired ++ v.pairs.map Prod.fst) := by
    refine (List.perm_ext_iff_of_nodup hv.nodup_considered ?_).mpr fun i => ?_
    · exact List.nodup_append.mpr ⟨hv.nodup_unpaired, hv.nodup_first,
        fun i hi k hk hik => hv.not_paired i hi (hik ▸ hk)⟩
    · rw [List.mem_append, hv.mem_considered_iff]
  rw [hperm.length_eq, List.length_append, List.length_map]

/-- On the level, as many vertices are decided as its number says; in exact mode none of them is
left out. -/
structure View.Booked (g₁ g₂ : Graph ν ε) (c : Config) (level : Nat) (v : View) : Prop
    extends v.Sound g₁ g₂ where
  level_add : level + v.unpaired.length = g₁.vertexCount
  length_considered_eq : c.common = false → v.considered.length = g₁.vertexCount

namespace View.Booked

/-- At the start no vertex is decided. -/
theorem initial (hg₁ : g₁.WellFormed) (g₂ : Graph ν ε) (c : Config) (a : Arena VertexId) :
    (View.initial g₁ c a).Booked g₁ g₂ c 0 where
  toSound := View.sound_initial hg₁ g₂ c a
  level_add := by rw [Nat.zero_add]; exact g₁.length_vertexIds
  length_considered_eq _ := g₁.length_vertexIds

/-- The books stay in order while the arena grows. -/
theorem above (h : v.Booked g₁ g₂ c level) (habove : v.Above v') : v'.Booked g₁ g₂ c level := by
  have hsound := h.toSound.above habove
  obtain ⟨b, rfl, -⟩ := habove
  exact ⟨hsound, h.level_add, h.length_considered_eq⟩

/-- The books stay in order when the pairs are delivered. -/
theorem delivered (h : v.Booked g₁ g₂ c level) : (v.delivered c).Booked g₁ g₂ c level :=
  ⟨⟨h.nodup_considered, h.nodup_unpaired, h.nodup_first, h.nodup_second, h.mem_considered_iff,
    h.not_paired, h.mem_first, h.mem_second⟩, h.level_add, h.length_considered_eq⟩

/-- The books are in order again when everything was put back. -/
theorem restores (h : v.Booked g₁ g₂ c level) (hrest : v.Restores c v') :
    v'.Booked g₁ g₂ c level where
  toSound := h.toSound.restores hrest
  level_add := hrest.unpaired_perm.length_eq ▸ h.level_add
  length_considered_eq hc := hrest.considered_perm.length_eq.trans (h.length_considered_eq hc)

/-- With one vertex decided, the next level leaves one less to decide. -/
theorem succ_add_length_erase (h : v.Booked g₁ g₂ c level) (hi : i ∈ v.unpaired) :
    level + 1 + (v.unpaired.erase i).length = g₁.vertexCount := by
  have hpos : 0 < v.unpaired.length := List.length_pos_of_mem hi
  rw [List.length_erase_of_mem hi, ← h.level_add]
  omega

/-- A pair decides a vertex, and the books of the next level are in order. -/
theorem extend (h : v.Booked g₁ g₂ c level) (hi : i ∈ v.unpaired)
    (hj : g₂.containsVertex j = true) (hjp : j ∉ v.pairs.map Prod.snd) :
    (v.extend i j).Booked g₁ g₂ c (level + 1) where
  toSound := h.toSound.extend hi hj hjp
  level_add := h.succ_add_length_erase hi
  length_considered_eq := h.length_considered_eq

/-- A vertex left out is decided, and the books of the next level are in order. -/
theorem leaveOut (h : v.Booked g₁ g₂ c level) (hi : i ∈ v.unpaired) (hc : c.common = true) :
    (v.leaveOut i).Booked g₁ g₂ c (level + 1) where
  toSound := h.toSound.leaveOut hi
  level_add := h.succ_add_length_erase hi
  length_considered_eq hc' := absurd (hc.symm.trans hc') Bool.noConfusion

end View.Booked

/-- The number of the level that is explored. -/
def Task.number : Task → Nat
  | .level _ level | .tries _ level _ _ => level

/-- At every call of an exploration the books of its level are in order. -/
theorem Explored.atHooks {t : Task} (h : Explored g₁ g₂ c t v E v')
    (hv : v.Booked g₁ g₂ c t.number) (ht : t.Fits g₂ v) :
    AtHooks (fun level v => v.Booked g₁ g₂ c level) E := by
  -- rule by rule; a restored view has the same books, and refining calls no hook
  induction h with
  | reject => exact .progress hv
  | deliver => exact .solution hv hv.delivered
  | exact _ hi _ _ ih => exact (AtHooks.progress hv).append (ih hv (ht.tries hi))
  | common _ hi hc tries _ ih₁ ih₂ =>
    have htries := ht.tries hi
    have hrest := (tries.restores hv.toSound htries).1
    have hmem := hrest.unpaired_perm.mem_iff.mpr (View.mem_of_pick hi).1
    refine (AtHooks.progress hv).append ((ih₁ hv htries).append ?_)
    exact ih₂ ((hv.restores hrest).leaveOut hmem hc) (htries.without hv.toSound hrest).2
  | done => exact .of_forall_not (List.forall_mem_nil _)
  | @next _ _ i j _ _ E₁ _ v₁ _ _ _ _ refined deeper _ ih₂ ih₃ =>
    obtain ⟨hfit, hmem, hjs⟩ := id ht
    obtain ⟨hj, hjp⟩ := hfit i hmem j (hjs j List.mem_cons_self)
    have hv₁ := (hv.extend hmem hj hjp).above refined.above.1
    have ht₁ := (ht.deeper hv.toSound refined).2
    have hrest := View.Restores.retract refined.above.1 (deeper.restores hv₁.toSound ht₁).1 hmem
    have hasked : AtHooks (fun level v => v.Booked g₁ g₂ c level) E₁ := .of_forall_not
      (refined.forall_act (fun _ _ _ _ hm => hm.not_isHook) Act.not_isHook_reserve)
    refine (hasked.append (ih₂ hv₁ ht₁)).append ?_
    exact ih₃ (hv.restores hrest) (ht.rest hv.toSound hrest).2

/-- Wherever a search tells its caller of a level or hands it a solution, the books are right. -/
theorem Searched.atHooks {a : Arena VertexId} (h : Searched g₁ g₂ c a E v')
    (hg₁ : g₁.WellFormed) (hg₂ : g₂.WellFormed) :
    AtHooks (fun level v => v.Booked g₁ g₂ c level) E := by
  obtain ⟨hfilled, hexp⟩ := h
  have hv₁ := (View.Booked.initial hg₁ g₂ c a).above hfilled.above.1
  refine .append (.of_forall_not ?_) (hexp.atHooks hv₁ (View.Fits.initial hg₂ hfilled))
  exact hfilled.forall_act (fun _ _ _ _ hs => hs.not_isHook) Act.not_isHook_reserve

/-! ## The books of a working state -/

/-- The vertices of the first graph that are left out. -/
def Work.leftOut (g : Graph ν ε) (w : Work) : List VertexId :=
  g.vertexIds.filter fun i => i ∉ w.considered.vertices

/-- What a working state comes to on a level. -/
structure Work.InBooks (P : Problem ν ε σ) (level : Nat) (w : Work) : Prop where
  sides : w.xs.size = w.ys.size
  nodup_xs : w.xs.toList.Nodup
  nodup_ys : w.ys.toList.Nodup
  mem_unpaired_iff : ∀ i, i ∈ w.unpaired.vertices ↔ i ∈ w.considered.vertices ∧ i ∉ w.xs
  /-- All vertices of the second graph, in ascending order. -/
  targets_eq : w.targets.vertices = P.second.vertexIds
  ascending : w.targets.vertices.Pairwise fun j j' => j.index < j'.index
  level_eq : level = w.xs.size + (w.leftOut P.first).length
  level_eq_size : P.config.common = false → level = w.xs.size
  level_eq_sub : level = P.first.vertexCount - w.unpaired.size
  level_le : level ≤ P.first.vertexCount
  level_le_min : P.config.common = false →
    level ≤ min P.first.vertexCount P.second.vertexCount

/-- A vertex of the first graph is either considered or left out. -/
theorem View.Sound.length_leftOut (hv : v.Sound g₁ g₂) (hg₁ : g₁.WellFormed) :
    v.considered.length + (g₁.vertexIds.filter fun i => i ∉ v.considered).length =
      g₁.vertexCount := by
  have hkept : v.considered.Perm (g₁.vertexIds.filter fun i => i ∈ v.considered) := by
    refine (List.perm_ext_iff_of_nodup hv.nodup_considered
      ((Graph.nodup_vertexIds hg₁).filter _)).mpr fun i => ?_
    rw [List.mem_filter, decide_eq_true_iff, Graph.mem_vertexIds_iff hg₁]
    exact (and_iff_right_of_imp (hv.mem_first i)).symm
  simp only [hkept.length_eq, decide_not]
  rw [← List.length_eq_length_filter_add, g₁.length_vertexIds]

/-- A view on a level, read in the working state. -/
theorem View.Booked.inBooks {P : Problem ν ε σ} {w : Work}
    (h : v.Booked P.first P.second P.config level) (hw : P.Shows w v) (hg₁ : P.first.WellFormed)
    (hg₂ : P.second.WellFormed) : w.InBooks P level := by
  have hadd := h.level_add
  have hconsidered := h.length_considered
  have hleft : v.considered.length + (w.leftOut P.first).length = P.first.vertexCount := by
    rw [Work.leftOut, hw.considered.vertices_eq]
    exact h.length_leftOut hg₁
  have hsecond : v.pairs.length ≤ P.second.vertexCount := by
    rw [← v.pairs.length_map Prod.snd]
    exact Graph.length_le_vertexCount hg₂ h.nodup_second h.mem_second
  -- in exact mode no vertex is left out, so every level is one more pair
  have hexact (hc : P.config.common = false) : level = v.pairs.length := by
    have := h.length_considered_eq hc
    omega
  refine ⟨hw.size_xs.trans hw.size_ys.symm, ?_, ?_, fun i => ?_, hw.targets.vertices_eq, ?_, ?_,
    ?_, ?_, ?_, ?_⟩
  · rw [hw.xs_eq]
    exact h.nodup_first
  · rw [hw.ys_eq]
    exact h.nodup_second
  · rw [hw.unpaired.vertices_eq, hw.considered.vertices_eq, ← Array.mem_toList_iff, hw.xs_eq,
      h.mem_considered_iff]
    have := h.not_paired i
    tauto
  · rw [hw.targets.vertices_eq]
    exact Graph.pairwise_vertexIds hg₂
  · rw [hw.size_xs]
    omega
  · rw [hw.size_xs]
    exact hexact
  · rw [hw.unpaired.size_eq]
    omega
  · omega
  · intro hc
    rw [le_min_iff]
    exact ⟨by omega, (hexact hc).trans_le hsecond⟩

end CommonSubgraph
