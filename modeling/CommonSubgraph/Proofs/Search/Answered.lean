import CommonSubgraph.Proofs.Search.Enumerates

/-!
# Scripts with the answers of pure tests

A level explored with the answers of pure tests delivers what `Enumerates` says
(`Explored.enumerates`): its rows are the candidates, and what a level puts back makes the tables
and the order of the unpaired vertices come to the same set again. A whole search is the case of
nothing paired (`Searched.enumerates`): it delivers partial isomorphisms of acceptable sizes
(`Searched.sound`), and each one exactly once as far as its size is acceptable to the end
(`Searched.count_eq_one`, `Searched.pairSets`).
-/

namespace CommonSubgraph

variable {ν ε : Type} {g₁ g₂ : Graph ν ε} {T : Tests} {c : Config}
variable {v v' : View} {E : List Step} {rows : Rows} {i : VertexId}
variable {F : Finset (VertexId × VertexId)}

/-- Erasing from a list without repeats erases from its set. -/
theorem toFinset_erase_of_nodup {l : List VertexId} (h : l.Nodup) (i : VertexId) :
    (l.erase i).toFinset = l.toFinset.erase i := by
  ext k
  rw [List.mem_toFinset, h.mem_erase_iff, Finset.mem_erase, List.mem_toFinset]

/-- The open vertices are those that have a candidate. -/
theorem View.Exact.toFinset_openVertices (hx : v.Exact g₁ g₂ T rows) :
    (v.openVertices rows).toFinset = openSet g₁ g₂ T v.pairs v.unpaired.toFinset := by
  ext i
  rw [List.mem_toFinset, View.openVertices, List.mem_filter, openSet, Finset.mem_filter,
    List.mem_toFinset]
  apply and_congr_right
  intro hi
  rw [hx i hi, decide_eq_true_iff, List.length_pos_iff]

/-- With exact rows, a level is feasible if the pairs can grow to an acceptable size. -/
theorem View.Exact.feasible_iff (hx : v.Exact g₁ g₂ T rows) (hn : v.unpaired.Nodup) :
    v.Feasible g₁ c rows ↔ CanGrow g₁ g₂ T c v.pairs v.unpaired.toFinset v.minimum := by
  have hcard : (openSet g₁ g₂ T v.pairs v.unpaired.toFinset).card =
      (v.openVertices rows).length := by
    rw [← hx.toFinset_openVertices]
    exact List.toFinset_card_of_nodup (hn.filter _)
  rw [View.Feasible, CanGrow, hcard, ← Finset.card_pos, hcard, List.length_pos_iff]

/-- The solutions of the lists of pairs `D` are delivered in the script. -/
def Delivers (E : List Step) (D : List (List (VertexId × VertexId))) : Prop :=
  delivered E = D.map Solution.ofPairs

/-- Two scripts, one after the other, deliver what both deliver. -/
theorem Delivers.append {E E' : List Step} {D D' : List (List (VertexId × VertexId))}
    (h : Delivers E D) (h' : Delivers E' D') : Delivers (E ++ E') (D ++ D') := by
  rw [Delivers, delivered_append, h, h', List.map_append]

/-- What is explored has the candidates as its rows. -/
def Task.Exact (g₁ g₂ : Graph ν ε) (T : Tests) (v : View) : Task → Prop
  | .level rows _ => v.Exact g₁ g₂ T rows
  | .tries rows _ i js => v.Exact g₁ g₂ T rows ∧ i ∈ v.unpaired ∧ ∀ j ∈ js, j ∈ rows i

/-- Rows of candidates fit the view they belong to. -/
theorem Task.Exact.fits {t : Task} (h : t.Exact g₁ g₂ T v) (hg₂ : g₂.WellFormed) :
    t.Fits g₂ v := by
  cases t with
  | level => exact View.Exact.fits h hg₂
  | tries => exact ⟨h.1.fits hg₂, h.2⟩

/-- The ways to go on that a task looks at. -/
def Task.branch : Task → Branch
  | .level _ _ => .all
  | .tries _ _ i js => .of i js

/-- A script whose questions are answered by the tests delivers what the enumeration over sets of
pairs lists, in the same order. -/
theorem Explored.enumerates {t : Task} (h : Explored g₁ g₂ c t v E v') (hg₂ : g₂.WellFormed)
    (hv : v.Sound g₁ g₂) (ht : t.Exact g₁ g₂ T v) (hE : ∀ st ∈ E, T.Gives st.act) :
    ∃ D, Delivers E D ∧
      Enumerates g₁ g₂ T c t.branch v.pairs v.unpaired.toFinset v.minimum D v'.minimum := by
  -- rule by rule; a restored view has the same pairs and the same set of unpaired vertices, which
  -- is all that `Enumerates` sees of it
  induction h with
  | @reject rows level v hf ha =>
    refine ⟨[], rfl, .reject ?_ ha⟩
    exact fun hg => hf ((View.Exact.feasible_iff ht hv.nodup_unpaired).mpr hg)
  | @deliver rows level v hf ha =>
    refine ⟨[v.pairs], rfl, .deliver ?_ ha⟩
    exact fun hg => hf ((View.Exact.feasible_iff ht hv.nodup_unpaired).mpr hg)
  | @exact rows level v i E v' _ hi hc _ ih =>
    obtain ⟨hmem, -⟩ := View.mem_of_pick hi
    obtain ⟨D, hD, henum⟩ := ih hv ⟨ht, hmem, fun _ hj => hj⟩
      fun st hst => hE st (List.mem_cons_of_mem _ hst)
    rw [Task.branch, ht i hmem] at henum
    exact ⟨D, hD, .exact (List.mem_toFinset.mpr hmem) hc henum⟩
  | @common rows level v i E₁ v₁ E₂ v₂ _ hi hc tries _ ih₁ ih₂ =>
    obtain ⟨hmem, -⟩ := View.mem_of_pick hi
    have htask : (Task.tries rows level i (rows i)).Exact g₁ g₂ T v := ⟨ht, hmem, fun _ hj => hj⟩
    have hr := (tries.restores hv (htask.fits hg₂)).1
    obtain ⟨D₁, hD₁, henum₁⟩ := ih₁ hv htask
      fun st hst => hE st (List.mem_cons_of_mem _ (List.mem_append_left _ hst))
    obtain ⟨D₂, hD₂, henum₂⟩ := ih₂ ((htask.fits hg₂).without hv hr).1
      (View.Exact.leaveOut (View.Exact.restores ht hr) i)
      fun st hst => hE st (List.mem_cons_of_mem _ (List.mem_append_right _ hst))
    have hset : (v₁.leaveOut i).unpaired.toFinset = v.unpaired.toFinset.erase i := by
      rw [View.leaveOut, toFinset_erase_of_nodup (hv.restores hr).nodup_unpaired,
        List.toFinset_eq_of_perm _ _ hr.unpaired_perm]
    rw [Task.branch, ht i hmem] at henum₁
    rw [Task.branch, hset, View.leaveOut, hr.pairs_eq] at henum₂
    exact ⟨D₁ ++ D₂, hD₁.append hD₂, .common (List.mem_toFinset.mpr hmem) hc henum₁ henum₂⟩
  | done => exact ⟨[], rfl, .done⟩
  | @next rows level i j js v E₁ rows' v₁ E₂ v₂ E₃ v₃ refined deeper _ ih₂ ih₃ =>
    obtain ⟨hx, hmem, hjs⟩ := id ht
    have hfits := ht.fits hg₂
    have habove := refined.above.1
    have hgives {E₀ : List Step} (hsub : E₀ ⊆ E₁ ++ E₂ ++ E₃) : ∀ st ∈ E₀, T.Gives st.act :=
      fun st hst => hE st (hsub hst)
    have hx₁ := hx.refined hv.nodup_unpaired refined (hgives (by simp))
    obtain ⟨hv₁, ht₁⟩ := hfits.deeper hv refined
    have hr := View.Restores.retract habove (deeper.restores hv₁ ht₁).1 hmem
    obtain ⟨hv₂, ht₂⟩ := hfits.rest hv hr
    obtain ⟨D₂, hD₂, henum₂⟩ := ih₂ hv₁ hx₁ (hgives (by simp))
    obtain ⟨D₃, hD₃, henum₃⟩ := ih₃ hv₂ ⟨hx.restores hr, ht₂.2⟩ (hgives (by simp))
    have hD₁ : Delivers E₁ [] := refined.delivered_eq fun _ _ _ _ hm => hm.solution?_eq
    have hset : v₁.unpaired.toFinset = v.unpaired.toFinset.erase i := by
      obtain ⟨b, rfl, -⟩ := habove
      exact toFinset_erase_of_nodup hv.nodup_unpaired i
    rw [hset] at henum₂
    rw [hr.pairs_eq, List.toFinset_eq_of_perm _ _ hr.unpaired_perm] at henum₃
    obtain ⟨b, rfl, -⟩ := habove
    exact ⟨D₂ ++ D₃, (hD₁.append hD₂).append hD₃, .next henum₂ henum₃⟩

/-! ## Whole searches -/

/-- A whole search delivers what the enumeration lists that begins with nothing paired. -/
theorem Searched.enumerates {a : Arena VertexId} (h : Searched g₁ g₂ c a E v')
    (hg₁ : g₁.WellFormed) (hg₂ : g₂.WellFormed) (hE : ∀ st ∈ E, T.Gives st.act) :
    ∃ D, Delivers E D ∧
      Enumerates g₁ g₂ T c .all [] g₁.vertexIds.toFinset c.minimum D v'.minimum := by
  obtain @⟨E₀, rows, v₁, E₁, _, hfilled, hexp⟩ := h
  have habove := hfilled.above.1
  have hx : v₁.Exact g₁ g₂ T rows := View.Exact.initial hg₁ hfilled
    fun st hst => hE st (List.mem_append_left _ hst)
  have hv₁ := (View.sound_initial hg₁ g₂ c a).above habove
  obtain ⟨D, hD, henum⟩ := hexp.enumerates hg₂ hv₁ hx
    fun st hst => hE st (List.mem_append_right _ hst)
  have hD₀ : Delivers E₀ [] := hfilled.delivered_eq fun _ _ _ _ hs => hs.solution?_eq
  obtain ⟨b, rfl, -⟩ := habove
  exact ⟨D, hD₀.append hD, henum⟩

/-- The enumeration begins with a partial isomorphism to which all vertices can be added. -/
theorem extensible_vertexIds (hg₁ : g₁.WellFormed) :
    Extensible g₁ g₂ T [] g₁.vertexIds.toFinset where
  iso := isPartialIso_nil
  mem_first _ hi := (Graph.mem_vertexIds_iff hg₁).mp (List.mem_toFinset.mp hi)
  not_paired _ _ := List.not_mem_nil

/-- A partial isomorphism goes on from no pairs by any vertices. -/
theorem IsPartialIsoSet.completes (hF : IsPartialIsoSet g₁ g₂ T F) (hg₁ : g₁.WellFormed) :
    Completes [] g₁.vertexIds.toFinset F where
  subset _ hp := absurd hp List.not_mem_nil
  within p hp := by
    right
    rw [List.mem_toFinset, Graph.mem_vertexIds_iff hg₁]
    exact hF.mem_first p hp

/-- As sets of pairs, the solutions are the lists that are delivered. -/
theorem Delivers.pairSets {D : List (List (VertexId × VertexId))} (h : Delivers E D) :
    (delivered E).map Solution.pairSet = D.map List.toFinset := by
  rw [h, List.map_map]
  apply List.map_congr_left
  intro ps _
  show (Solution.ofPairs ps).pairs.toFinset = ps.toFinset
  rw [Solution.pairs_ofPairs]

namespace Searched

variable {a : Arena VertexId}

/-- Everything a search delivers is a partial isomorphism of an acceptable size. -/
theorem sound (h : Searched g₁ g₂ c a E v') (hg₁ : g₁.WellFormed) (hg₂ : g₂.WellFormed)
    (hE : ∀ st ∈ E, T.Gives st.act) {s : Solution} (hs : s ∈ delivered E) :
    s = .ofPairs s.pairs ∧ IsPartialIso g₁ g₂ T s.pairs ∧
      c.Accepts g₁.vertexCount c.minimum s.size := by
  obtain ⟨D, hD, henum⟩ := h.enumerates hg₁ hg₂ hE
  rw [hD] at hs
  obtain ⟨ps, hps, rfl⟩ := List.mem_map.mp hs
  obtain ⟨hiso, -, -, ha⟩ := henum.sound hg₂ (extensible_vertexIds hg₁) trivial ps hps
  rw [Solution.pairs_ofPairs, Solution.size_ofPairs]
  exact ⟨rfl, hiso, ha⟩

/-- Under symmetric tests the pairs of everything delivered make a partial isomorphism. -/
theorem isPartialIsoSet (h : Searched g₁ g₂ c a E v') (hg₁ : g₁.WellFormed) (hg₂ : g₂.WellFormed)
    (hE : ∀ st ∈ E, T.Gives st.act) (hT : T.Symmetric g₁ g₂) {s : Solution}
    (hs : s ∈ delivered E) : IsPartialIsoSet g₁ g₂ T s.pairSet ∧ s.pairSet.card = s.size := by
  obtain ⟨heq, hiso, -⟩ := h.sound hg₁ hg₂ hE hs
  refine ⟨hiso.toFinset hT, ?_⟩
  rw [Solution.pairSet, hiso.card_toFinset, ← Solution.size_ofPairs, ← heq]

/-- A partial isomorphism of a size that is acceptable at the end is delivered exactly once. -/
theorem count_eq_one (h : Searched g₁ g₂ c a E v') (hg₁ : g₁.WellFormed) (hg₂ : g₂.WellFormed)
    (hE : ∀ st ∈ E, T.Gives st.act) (hF : IsPartialIsoSet g₁ g₂ T F)
    (ha : c.Accepts g₁.vertexCount v'.minimum F.card) :
    ((delivered E).map Solution.pairSet).count F = 1 := by
  obtain ⟨D, hD, henum⟩ := h.enumerates hg₁ hg₂ hE
  rw [hD.pairSets]
  exact henum.count_eq_one hg₁ hg₂ hF (extensible_vertexIds hg₁) trivial (hF.completes hg₁)
    trivial ha

/-- What is acceptable at first still is at the end, unless solutions raise the minimum. -/
theorem accepts_of_accepts (h : Searched g₁ g₂ c a E v') (hg₁ : g₁.WellFormed)
    (hg₂ : g₂.WellFormed) (hE : ∀ st ∈ E, T.Gives st.act)
    (hm : c.common = true → c.monotonic = false) {size : Nat}
    (ha : c.Accepts g₁.vertexCount c.minimum size) :
    c.Accepts g₁.vertexCount v'.minimum size := by
  obtain ⟨D, -, henum⟩ := h.enumerates hg₁ hg₂ hE
  exact ha.mono fun hc => (henum.minimum_eq (hm hc)).le

/-- Unless solutions raise the minimum, what is delivered are the partial isomorphisms of an
acceptable size, each once. -/
theorem pairSets (h : Searched g₁ g₂ c a E v') (hg₁ : g₁.WellFormed) (hg₂ : g₂.WellFormed)
    (hE : ∀ st ∈ E, T.Gives st.act) (hT : T.Symmetric g₁ g₂)
    (hm : c.common = true → c.monotonic = false) :
    ((delivered E).map Solution.pairSet).Nodup ∧
      ∀ F, F ∈ (delivered E).map Solution.pairSet ↔
        IsPartialIsoSet g₁ g₂ T F ∧ c.Accepts g₁.vertexCount c.minimum F.card := by
  have hsound : ∀ F ∈ (delivered E).map Solution.pairSet,
      IsPartialIsoSet g₁ g₂ T F ∧ c.Accepts g₁.vertexCount c.minimum F.card := by
    intro F hF
    obtain ⟨s, hs, rfl⟩ := List.mem_map.mp hF
    obtain ⟨hiso, hcard⟩ := h.isPartialIsoSet hg₁ hg₂ hE hT hs
    rw [hcard]
    exact ⟨hiso, (h.sound hg₁ hg₂ hE hs).2.2⟩
  -- being delivered once says that it is delivered, and that it is not delivered twice
  have hone : ∀ F, IsPartialIsoSet g₁ g₂ T F ∧ c.Accepts g₁.vertexCount c.minimum F.card →
      ((delivered E).map Solution.pairSet).count F = 1 :=
    fun F hF => h.count_eq_one hg₁ hg₂ hE hF.1 (h.accepts_of_accepts hg₁ hg₂ hE hm hF.2)
  constructor
  · rw [List.nodup_iff_count_eq_one]
    intro F hF
    exact hone F (hsound F hF)
  · intro F
    refine ⟨hsound F, fun hF => ?_⟩
    rw [← List.count_pos_iff, hone F hF]
    exact Nat.one_pos

/-- In monotonic mode sizes rise, and the last minimum in force is the last size. -/
theorem rising (h : Searched g₁ g₂ c a E v') (hg₁ : g₁.WellFormed) (hg₂ : g₂.WellFormed)
    (hE : ∀ st ∈ E, T.Gives st.act) (hc : c.common = true) (hm : c.monotonic = true) :
    ((delivered E).Pairwise fun s t => s.size ≤ t.size) ∧
      (delivered E = [] ∧ v'.minimum = c.minimum ∨
        ∃ s ∈ delivered E, s.size = v'.minimum) := by
  obtain ⟨D, hD, henum⟩ := h.enumerates hg₁ hg₂ hE
  have hrising := henum.rising hc hm
  rw [hD]
  refine ⟨List.pairwise_map.mpr (hrising.pairwise.imp fun hle => ?_), ?_⟩
  · rwa [Solution.size_ofPairs, Solution.size_ofPairs]
  · rcases hrising.eq_or_exists with ⟨rfl, hmin⟩ | ⟨ps, hps, hmin⟩
    · exact .inl ⟨rfl, hmin⟩
    · right
      refine ⟨.ofPairs ps, List.mem_map_of_mem hps, ?_⟩
      rw [Solution.size_ofPairs, hmin]

end Searched

end CommonSubgraph
