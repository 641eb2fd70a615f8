import CommonSubgraph.Proofs.Graph.Vertices
import CommonSubgraph.Proofs.Search.Explored

/-!
# Filling candidate maps

The initial map and every refined map are built by the same two loops: over the vertices that get a
row, and over the candidates tried for it. A candidate that passes its trial is pushed, which a row
with room for it can take (`runs_sift`, `runs_row`); rows come one after the other, each above the
ones before (`runs_rows`). So the scripts of the two programs are those of `RowsFilled`, and the map
they give reads what the trials kept (`runs_initialMap`, `runs_refine`).
-/

namespace CommonSubgraph

variable {ν ε σ α β γ : Type}

namespace Problem

open SearchM

variable {P : Problem ν ε σ} {A : Act → Prop} {keep : Nat → Prop} {w : Work} {v : View}

/-! ## Looking things up -/

/-- A check that is met adds nothing to the script. -/
theorem Runs.check {r : Except Fault α} {a : α} {f : α → SearchM σ β}
    {R : List Step → β → Work → Prop} (hr : r = .ok a) (h : P.Runs A keep (f a) w R) :
    P.Runs A keep (SearchM.check r >>= f) w R := by
  subst hr
  exact h.silent fun _ => rfl

/-- Reading the working state adds nothing to the script. -/
theorem Runs.work {f : Work → SearchM σ β} {R : List Step → β → Work → Prop}
    (h : P.Runs A keep (f w) w R) : P.Runs A keep (SearchM.work >>= f) w R := by
  refine Runs.silent ?_ h
  exact fun _ => rfl

/-- Reading a slot in use adds nothing to the script. -/
theorem Runs.slot {f : VertexId → SearchM σ β} {R : List Step → β → Work → Prop} {k : Nat}
    {j : VertexId} (hj : w.arena.slots[k]? = some j) (h : P.Runs A keep (f j) w R) :
    P.Runs A keep (SearchM.slot k >>= f) w R := by
  apply h.silent
  intro env
  have hget : w.arena.get k = .ok j := by rw [Arena.get, hj]
  have hslot : SearchM.slot k (w, env) = .ok j (w, env) := by
    show SearchM.check (w.arena.get k) (w, env) = _
    rw [hget]
    rfl
  exact bind_ok hslot

/-! ## Trials -/

/-- Whether two vertices are suitable is found out by a trial of the pair by itself. -/
theorem runs_suitable (hg₁ : P.first.WellFormed) (hg₂ : P.second.WellFormed) (hP : P.Within A)
    (hw : P.Shows w v) (hk : keep v.arena.size) {i j : VertexId}
    (hi : P.first.containsVertex i = true) (hj : P.second.containsVertex j = true) :
    P.Runs A keep (P.suitable i j) w fun E b w' =>
      ∃ acts, Suited P.first P.second i j acts b ∧ E = acts.map (Step.mk v) ∧ w' = w := by
  refine .check (Graph.edgesBetween_eq_joining hg₁ hi i) ?_
  refine .check (Graph.edgesBetween_eq_joining hg₂ hj j) ?_
  by_cases hl : (P.first.joining i i).length = (P.second.joining j j).length
  swap
  · rw [if_pos hl]
    exact .pure ⟨[], .loops hl, rfl, rfl⟩
  rw [if_neg (not_not_intro hl)]
  refine (runs_vertices hP hw hk hi hj).bind ?_
  rintro E b w₁ ⟨rfl, rfl⟩
  cases b with
  | false => exact .pure ⟨[.vertices i j false], .refused hl, rfl, rfl⟩
  | true =>
    refine (runs_edges hP hw hk hi hi hj hj (Graph.touching_self _ i).symm
      (Graph.touching_self _ j).symm).mono ?_
    rintro E b w' ⟨rfl, rfl⟩
    exact ⟨_, .compared hl b, rfl, rfl⟩

/-- Whether two vertices are compatible with a pair is found out by a trial against that pair. -/
theorem runs_compatible (hg₁ : P.first.WellFormed) (hg₂ : P.second.WellFormed) (hP : P.Within A)
    (hw : P.Shows w v) (hk : keep v.arena.size) {i j iu ju : VertexId} (hii : i ≠ iu)
    (hjj : ju ≠ j) (hi : P.first.containsVertex i = true) (hj : P.second.containsVertex j = true)
    (hiu : P.first.containsVertex iu = true) (hju : P.second.containsVertex ju = true) :
    P.Runs A keep (P.compatible i j iu ju) w fun E b w' =>
      ∃ acts, Matched P.first P.second i j iu ju acts b ∧ E = acts.map (Step.mk v) ∧ w' = w := by
  refine .check (Graph.edgesBetween_eq_joining hg₁ hi iu) ?_
  refine .check (Graph.edgesBetween_eq_joining hg₂ hj ju) ?_
  by_cases hthere : (P.first.joining i iu).length = (P.second.joining j ju).length
  swap
  · rw [if_pos hthere]
    exact .pure ⟨[], .there hthere, rfl, rfl⟩
  rw [if_neg (not_not_intro hthere)]
  refine .check (Graph.edgesBetween_eq_joining hg₁ hiu i) ?_
  refine .check (Graph.edgesBetween_eq_joining hg₂ hju j) ?_
  by_cases hback : (P.first.joining iu i).length = (P.second.joining ju j).length
  swap
  -- the lists are compared with the edges there in front, and these are as many on both sides
  · have hne : (P.first.joining i iu ++ P.first.joining iu i).length ≠
        (P.second.joining j ju ++ P.second.joining ju j).length := by
      rw [List.length_append, List.length_append]
      omega
    rw [if_pos hne]
    exact .pure ⟨[], .back hthere hback, rfl, rfl⟩
  have heq : (P.first.joining i iu ++ P.first.joining iu i).length =
      (P.second.joining j ju ++ P.second.joining ju j).length := by
    rw [List.length_append, List.length_append, hthere, hback]
  rw [if_neg (not_not_intro heq)]
  by_cases hnil : P.first.joining i iu ++ P.first.joining iu i = []
  · rw [if_pos (List.isEmpty_iff.mpr hnil)]
    exact .pure ⟨[], .apart hjj hthere hback hnil, rfl, rfl⟩
  · rw [if_neg (fun h => hnil (List.isEmpty_iff.mp h))]
    refine (runs_edges hP hw hk hi hiu hj hju (Graph.touching_of_ne _ hii).symm
      (Graph.touching_of_ne _ hjj.symm).symm).mono ?_
    rintro E b w' ⟨rfl, rfl⟩
    exact ⟨_, .compared hjj hthere hback hnil b, rfl, rfl⟩

/-! ## Candidates that are tried -/

/-- Trying the candidate `j` gives the map as it was, or `grown` with `j` in the arena if it passes
its trial. -/
def Sifts (P : Problem ν ε σ) (A : Act → Prop) (keep : Nat → Prop)
    (trial : List Act → Bool → Prop) (m : SearchM σ CandidateMap) (map grown : CandidateMap)
    (j : VertexId) (w : Work) (v : View) : Prop :=
  P.Runs A keep m w fun E map' w' => ∃ acts, E = acts.map (Step.mk v) ∧
    (trial acts false ∧ map' = map ∧ w' = w ∨
      trial acts true ∧ map' = grown ∧ w' = { w with arena := w.arena.push j })

/-- A candidate is kept exactly if it passes its trial. -/
theorem runs_sift {trial : List Act → Bool → Prop} {test : SearchM σ Bool}
    {map grown : CandidateMap} {i j : VertexId} (hw : P.Shows w v)
    (hgrow : map.grow i v.arena.size = .ok grown)
    (htest : P.Runs A keep test w fun E b w' =>
      ∃ acts, trial acts b ∧ E = acts.map (Step.mk v) ∧ w' = w) :
    P.Sifts A keep trial (do if ← test then pushCandidate map i j else return map) map grown j
      w v := by
  refine htest.bind ?_
  rintro E b w₁ ⟨acts, htrial, rfl, rfl⟩
  cases b with
  | false => exact .pure ⟨acts, List.append_nil _, .inl ⟨htrial, rfl, rfl⟩⟩
  | true =>
    have hgrow' : map.grow i w₁.arena.size = .ok grown := by rw [hw.arena_eq, hgrow]
    refine .work (.check hgrow' ?_)
    have hpure : P.Runs A keep (pure grown) { w₁ with arena := w₁.arena.push j }
        fun E' map' w' => ∃ acts', acts.map (Step.mk v) ++ E' = acts'.map (Step.mk v) ∧
          (trial acts' false ∧ map' = map ∧ w' = w₁ ∨
            trial acts' true ∧ map' = grown ∧ w' = { w₁ with arena := w₁.arena.push j }) :=
      .pure ⟨acts, List.append_nil _, .inr ⟨htrial, rfl, rfl⟩⟩
    refine Runs.silent ?_ hpure
    exact fun _ => rfl

/-- Candidates given by `xs` are tried one after the other for the row of `i`, which has room for
all of them. -/
theorem runs_row {trial : VertexId → List Act → Bool → Prop}
    {add : CandidateMap → γ → SearchM σ CandidateMap} {gives : γ → VertexId → Prop} {u : View}
    {i : VertexId}
    (hadd : ∀ x j, gives x j → ∀ w v map grown, P.Shows w v → u.Above v →
      map.grow i v.arena.size = .ok grown → P.Sifts A keep (trial j) (add map x) map grown j w v)
    {xs : List γ} {js : List VertexId} (hx : List.Forall₂ gives xs js) :
    ∀ {w v map rows}, P.Shows w v → u.Above v →
      CandidateMap.Filling map v.arena rows i js.length →
      P.Runs A keep (xs.foldlM add map) w fun E map' w' => ∃ kept v',
        RowFilled trial js v E kept v' ∧ P.Shows w' v' ∧
          map'.Reads v'.arena (Function.update rows i (rows i ++ kept)) ∧
          (∀ k, map'.hasRow k = map.hasRow k) ∧ map'.base = map.base := by
  -- on the candidates: each one uses up the room for one, whether it is kept or not
  induction hx with
  | nil =>
    intro w v map rows hw _ hm
    refine .pure ⟨[], v, .nil, hw, ?_, fun _ => rfl, rfl⟩
    rw [List.append_nil, Function.update_eq_self]
    exact hm.reads
  | @cons x j xs js hxj _ ih =>
    intro w v map rows hw hv hm
    obtain ⟨grown, hgrow, hfill, hrow, hbase⟩ := hm.grow j
    rw [List.foldlM_cons]
    refine (hadd x j hxj w v map grown hw hv hgrow).bind ?_
    rintro E map' w₁ ⟨acts, rfl, ⟨htrial, rfl, rfl⟩ | ⟨htrial, rfl, rfl⟩⟩
    · refine (ih hw hv hm.skip).mono ?_
      rintro E kmap w' ⟨kept, v', hE, hrest⟩
      exact ⟨kept, v', .drop htrial hE, hrest⟩
    · have hw' : P.Shows { w with arena := w.arena.push j } (v.push j) :=
        { hw with arena_eq := congrArg (Arena.push · j) hw.arena_eq }
      refine (ih hw' (hv.trans (.push v j)) hfill).mono ?_
      rintro E kmap w' ⟨kept, v', hE, hs, hr, hrow', hbase'⟩
      refine ⟨j :: kept, v', .keep htrial hE, hs, ?_, fun k => (hrow' k).trans (hrow k),
        hbase'.trans hbase⟩
      rw [Function.update_self, Function.update_idem, List.append_assoc] at hr
      exact hr

/-! ## Rows of several vertices -/

/-- Adding a row for `i` tries the candidates `js` for it and leaves the other rows alone. -/
def AddsRow (P : Problem ν ε σ) (A : Act → Prop) (keep : Nat → Prop)
    (trial : VertexId → List Act → Bool → Prop) (js : List VertexId) (m : SearchM σ CandidateMap)
    (map : CandidateMap) (rows : Rows) (i : VertexId) (w : Work) (v : View) : Prop :=
  P.Runs A keep m w fun E map' w' => ∃ E₁ kept v', E = ⟨v, .reserve js.length⟩ :: E₁ ∧
    RowFilled trial js v E₁ kept v' ∧ P.Shows w' v' ∧
    map'.Reads v'.arena (Function.update rows i (rows i ++ kept)) ∧
    (∀ k, map'.hasRow k = (decide (k = i) || map.hasRow k)) ∧ map'.base = map.base

/-- A row of `n` candidates is started and filled. -/
theorem runs_startedRow {trial : VertexId → List Act → Bool → Prop}
    {add : CandidateMap → γ → SearchM σ CandidateMap} {gives : γ → VertexId → Prop}
    {i : VertexId} (hP : P.Within A) (hw : P.Shows w v) (hk : keep v.arena.size)
    (hadd : ∀ x j, gives x j → ∀ w u map grown, P.Shows w u → v.Above u →
      map.grow i u.arena.size = .ok grown → P.Sifts A keep (trial j) (add map x) map grown j w u)
    {xs : List γ} {js : List VertexId} (hx : List.Forall₂ gives xs js) {n : Nat}
    (hn : n = js.length) {map : CandidateMap} {rows : Rows} (hm : map.Reads v.arena rows)
    (hi : map.hasRow i = false) :
    P.AddsRow A keep trial js (do let map ← startRow map i n; xs.foldlM add map) map rows i w
      v := by
  subst hn
  refine (runs_startRow hP hw hk hi js.length).bind ?_
  rintro E map₁ w₁ ⟨rfl, rfl, rfl⟩
  refine (runs_row hadd hx hw (.refl v) (CandidateMap.filling_started hm hi js.length)).mono ?_
  rintro E₁ map' w' ⟨kept, v', hE, hs, hr, hrow, hbase⟩
  refine ⟨E₁, kept, v', rfl, hE, hs, hr, fun k => ?_, hbase⟩
  rw [hrow k]
  exact map.hasRow_started v.arena i k js.length

/-- Rows are filled one after the other for vertices that have none yet. -/
theorem runs_rows {trial : VertexId → VertexId → List Act → Bool → Prop} {source : Rows}
    {addRow : CandidateMap → VertexId → SearchM σ CandidateMap} {u : View} {is : List VertexId}
    (hadd : ∀ i ∈ is, ∀ w v map rows, P.Shows w v → u.Above v →
      CandidateMap.Reads map v.arena rows → map.hasRow i = false →
      P.AddsRow A keep (trial i) (source i) (addRow map i) map rows i w v)
    (hnodup : is.Nodup) :
    ∀ {w v map rows}, P.Shows w v → u.Above v → CandidateMap.Reads map v.arena rows →
      (∀ i ∈ is, map.hasRow i = false) →
      P.Runs A keep (is.foldlM addRow map) w fun E map' w' => ∃ rows' v',
        RowsFilled trial source is v E rows' v' ∧ P.Shows w' v' ∧
          map'.Reads v'.arena (fun k => rows k ++ rows' k) ∧ map'.base = map.base := by
  induction is with
  | nil =>
    intro w v map rows hw _ hm _
    refine .pure ⟨fun _ => [], v, .nil, hw, ?_, rfl⟩
    simpa only [List.append_nil] using hm
  | cons i is ih =>
    intro w v map rows hw hv hm hnew
    obtain ⟨hi, hnodup⟩ := List.nodup_cons.mp hnodup
    rw [List.foldlM_cons]
    refine (hadd i List.mem_cons_self w v map rows hw hv hm (hnew i List.mem_cons_self)).bind ?_
    rintro E map₁ w₁ ⟨E₁, kept, v₁, rfl, hE₁, hs, hr, hrow, hbase⟩
    have hnew₁ (k : VertexId) (hk : k ∈ is) : map₁.hasRow k = false := by
      have hki : k ≠ i := fun h => hi (h ▸ hk)
      rw [hrow k, hnew k (List.mem_cons_of_mem i hk), decide_eq_false hki]
      rfl
    refine (ih (fun k hk => hadd k (List.mem_cons_of_mem i hk)) hnodup hs (hv.trans hE₁.above.1) hr
      hnew₁).mono ?_
    rintro E map' w' ⟨rows', v', hE, hs', hr', hbase'⟩
    refine ⟨_, v', .cons hE₁ hE, hs', ?_, hbase'.trans hbase⟩
    -- the later rows are those of other vertices, so the row of `i` comes first or last
    have hlast : rows' i = [] :=
      List.eq_nil_iff_forall_not_mem.mpr fun j hj => hi (hE.mem_rows hj).1
    have hrows : (fun k => Function.update rows i (rows i ++ kept) k ++ rows' k) =
        fun k => rows k ++ Function.update rows' i kept k := by
      funext k
      by_cases hk : k = i
      · subst hk
        simp only [Function.update_self, hlast, List.append_nil]
      · simp only [Function.update_of_ne hk]
    rw [← hrows]
    exact hr'

/-- A new map is filled row by row. -/
theorem runs_newMap {trial : VertexId → VertexId → List Act → Bool → Prop} {source : Rows}
    {addRow : CandidateMap → VertexId → SearchM σ CandidateMap} {is : List VertexId}
    (hw : P.Shows w v) (n : Nat)
    (hadd : ∀ i ∈ is, ∀ w u map rows, P.Shows w u → v.Above u →
      CandidateMap.Reads map u.arena rows → map.hasRow i = false →
      P.AddsRow A keep (trial i) (source i) (addRow map i) map rows i w u)
    (hnodup : is.Nodup) :
    P.Runs A keep (do let map ← newMap n; is.foldlM addRow map) w fun E map w' => ∃ rows v',
      RowsFilled trial source is v E rows v' ∧ P.Shows w' v' ∧ map.Reads v'.arena rows ∧
        map.base = v.arena.size := by
  have hm : ((CandidateMap.new w.arena).reserveRows n).Reads v.arena fun _ => [] :=
    hw.arena_eq ▸ CandidateMap.reads_reserveRows_new w.arena n
  have hnew (i : VertexId) : ((CandidateMap.new w.arena).reserveRows n).hasRow i = false := by
    rw [CandidateMap.hasRow, CandidateMap.row?_reserveRows, CandidateMap.row?_new]
    rfl
  refine Runs.silent ?_ ((runs_rows hadd hnodup hw (.refl v) hm fun i _ => hnew i).mono ?_)
  · exact fun _ => rfl
  rintro E map w' ⟨rows, v', hE, hs, hr, hbase⟩
  refine ⟨rows, v', hE, hs, by simpa using hr, ?_⟩
  rw [hbase, ← hw.arena_eq]
  rfl

/-! ## The two maps -/

variable (hg₁ : P.first.WellFormed) (hg₂ : P.second.WellFormed)

include hg₁ hg₂ in
/-- The initial map has a row for every considered vertex, filled from all vertices of the second
graph. -/
theorem runs_initialMap (hP : P.Within A) (hw : P.Shows w v)
    (hk : ∀ n, v.arena.size ≤ n → keep n) :
    P.Runs A keep P.initialMap w fun E map w' => ∃ rows v',
      RowsFilled (Suited P.first P.second) (fun _ => P.second.vertexIds) v.considered v E rows v' ∧
        P.Shows w' v' ∧ map.Reads v'.arena rows ∧ map.base = v.arena.size := by
  refine .work ?_
  dsimp only
  rw [hw.considered.vertices_eq]
  refine runs_newMap hw _ (fun i hi w₁ u map rows hw₁ hu hm hrow => ?_) hw.considered.nodup
  refine .work ?_
  rw [hw₁.targets.vertices_eq]
  have hsame : List.Forall₂ (fun j j' => j = j' ∧ j ∈ P.second.vertexIds) P.second.vertexIds
      P.second.vertexIds := List.forall₂_same.mpr fun j hj => ⟨rfl, hj⟩
  refine runs_startedRow hP hw₁ (hk _ hu.grown.size_le) ?_ hsame hw₁.targets.size_eq hm hrow
  rintro j _ ⟨rfl, hj⟩ w₂ t map₂ grown hw₂ ht hgrow
  refine runs_sift hw₂ hgrow (runs_suitable hg₁ hg₂ hP hw₂ ?_ ?_ ?_)
  · exact hk _ (hu.trans ht).grown.size_le
  · exact Graph.containsVertex_iff.mpr (hw.considered.index_lt hi)
  · exact Graph.containsVertex_iff.mpr (hw.targets.index_lt hj)

include hg₁ hg₂ in
/-- The refined map has a row for every unpaired vertex, filled from its row in the parent. -/
theorem runs_refine (hP : P.Within A) (hw : P.Shows w v) (hk : ∀ n, v.arena.size ≤ n → keep n)
    {parent : CandidateMap} {rows : Rows} (hparent : parent.Reads v.arena rows)
    (hrows : ∀ iu ∈ v.unpaired, ∀ ju ∈ rows iu, P.second.containsVertex ju = true)
    {i j : VertexId} (hi : P.first.containsVertex i = true)
    (hj : P.second.containsVertex j = true) (hiv : i ∉ v.unpaired) :
    P.Runs A keep (P.refine parent i j) w fun E map w' => ∃ rows' v',
      RowsFilled (Matched P.first P.second i j) rows v.unpaired v E rows' v' ∧
        P.Shows w' v' ∧ map.Reads v'.arena rows' ∧ map.base = v.arena.size := by
  refine .work ?_
  dsimp only
  rw [hw.unpaired.vertices_eq]
  refine runs_newMap hw _ (fun iu hiu w₁ u map rows₁ hw₁ hu hm hrow => ?_) hw.unpaired.nodup
  have hii : i ≠ iu := fun h => hiv (h ▸ hiu)
  have hspan : List.Forall₂ (fun k ju => v.arena.slots[k]? = some ju ∧ ju ∈ rows iu)
      (parent.span iu) (rows iu) := by
    refine List.forall₂_iff_get.mpr ⟨(hparent iu).length_eq, fun n h₁ h₂ => ⟨?_, ?_⟩⟩
    · exact (hparent iu).get h₁ h₂
    · exact List.get_mem _ _
  refine runs_startedRow hP hw₁ (hk _ hu.grown.size_le) ?_ hspan (hspan.length_eq) hm hrow
  rintro k ju ⟨hslot, hju⟩ w₂ t map₂ grown hw₂ ht hgrow
  have hv : v.Above t := hu.trans ht
  -- what the parent's row points at has stayed where it was
  have hslot₂ : w₂.arena.slots[k]? = some ju := by
    rw [hw₂.arena_eq]
    obtain ⟨s, hs⟩ := hv.grown.slots
    rw [← Array.getElem?_toList] at hslot ⊢
    obtain ⟨hlt, -⟩ := List.getElem?_eq_some_iff.mp hslot
    rwa [← hs, List.getElem?_append_left hlt]
  refine .slot hslot₂ ?_
  by_cases hjj : ju = j
  · rw [if_pos hjj]
    exact .pure ⟨[], rfl, .inl ⟨.taken hjj, rfl, rfl⟩⟩
  · rw [if_neg hjj]
    refine runs_sift hw₂ hgrow (runs_compatible hg₁ hg₂ hP hw₂ ?_ hii hjj hi hj ?_ ?_)
    · exact hk _ hv.grown.size_le
    · exact Graph.containsVertex_iff.mpr (hw.unpaired.index_lt hiu)
    · exact hrows iu hiu ju hju

end Problem

end CommonSubgraph
