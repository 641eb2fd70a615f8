import CommonSubgraph.Proofs.Graph.DepthFirst
import Mathlib.Data.List.Infix
import Mathlib.Logic.Relation

/-!
# The order in which a search finishes vertices

A depth-first search finishes the target of every edge before its source, except for the back
edges, whose targets it finishes later or which are self-loops. So the edges that are no back edges
lead to earlier and earlier vertices and form no cycle, and every back edge closes one: its source
was reached from its target by edges that are no back edges.
-/

namespace CommonSubgraph

namespace Graph

variable {ν ε : Type} {g : Graph ν ε} {path fin mid fin' order : List VertexId}
  {t u v w : VertexId} {e : EdgeId} {x : Edge ε} {es met met' : List EdgeId}
  {roots : List VertexId}

/-! ## Before and after -/

/-- The vertex `v` is listed, and `t` is listed before it. -/
def Before (order : List VertexId) (t v : VertexId) : Prop :=
  v ∈ order ∧ order.idxOf t < order.idxOf v

/-- Of two vertices, one that is finished already comes before one that is not. -/
theorem idxOf_lt_of_isPrefix (h : fin <+: order) (ht : t ∈ fin) (hv : v ∉ fin) :
    order.idxOf t < order.idxOf v := by
  obtain ⟨later, rfl⟩ := h
  rw [List.idxOf_append_of_mem ht, List.idxOf_append_of_notMem hv]
  exact Nat.lt_add_right _ (List.idxOf_lt_length_iff.mpr ht)

/-- Which of two vertices comes first is settled once the second is finished. -/
theorem before_iff_of_isPrefix (hv : v ∈ fin) (h : fin <+: fin') :
    Before fin' t v ↔ Before fin t v := by
  obtain ⟨later, rfl⟩ := h
  have hlt := List.idxOf_lt_length_iff.mpr hv
  rw [Before, Before, List.idxOf_append_of_mem hv]
  simp only [hv, List.mem_append_left later hv, true_and]
  by_cases ht : t ∈ fin
  · rw [List.idxOf_append_of_mem ht]
  · rw [List.idxOf_append_of_notMem ht, List.idxOf_eq_length ht]
    omega

/-- Of the vertices listed before a new one is added, all are before it and no others. -/
theorem before_concat_iff (hv : v ∉ fin) : Before (fin ++ [v]) t v ↔ t ∈ fin := by
  rw [Before, List.idxOf_append_of_notMem hv]
  simp only [List.mem_concat_self, true_and, List.idxOf_cons_self, Nat.add_zero]
  by_cases ht : t ∈ fin
  · simp only [ht, iff_true, List.idxOf_append_of_mem ht]
    exact List.idxOf_lt_length_iff.mpr ht
  · simp only [ht, iff_false, List.idxOf_append_of_notMem ht]
    omega

/-! ## Back edges and the order -/

/-- The source of an outgoing edge is the vertex at which it is listed. -/
theorem WellFormed.source_of_mem_outEdges (hg : g.WellFormed) (he : e ∈ g.outEdges v)
    (hx : g.findEdge e = some x) : x.source = v := by
  obtain ⟨y, hy, hv⟩ := hg.mem_outEdges_iff.mp he
  rw [hx] at hy
  rw [Option.some.inj hy, hv]

/-- While the edges `es` were followed the vertices beyond `fin` got finished, up to `fin'`, and the
back edges met were `met`: among the edges of each of these vertices those that lead to no earlier
one, and among `es` those that lead to no finished one. -/
structure Classifies (g : Graph ν ε) (es : List EdgeId) (fin fin' : List VertexId)
    (met : List EdgeId) : Prop where
  grows : fin <+: fin'
  nodup : met.Nodup
  mem_or : ∀ e ∈ met, e ∈ es ∨ ∃ x, g.findEdge e = some x ∧ x.source ∈ fin' ∧ x.source ∉ fin
  followed : ∀ e ∈ es, ∀ x, g.findEdge e = some x → (e ∈ met ↔ x.target ∉ fin')
  finished : ∀ e x, g.findEdge e = some x → x.source ∈ fin' → x.source ∉ fin →
    (e ∈ met ↔ ¬ Before fin' x.target x.source)

namespace Classifies

/-- Without edges to follow nothing gets finished and nothing is met. -/
theorem nil : g.Classifies [] fin fin [] where
  grows := List.prefix_refl fin
  nodup := List.nodup_nil
  mem_or _ he := nomatch he
  followed _ he := nomatch he
  finished _ _ _ hs hn := absurd hs hn

/-- Edges of other vertices are not met. -/
theorem not_mem (h : g.Classifies es fin fin' met) (hx : g.findEdge e = some x) (hes : e ∉ es)
    (hs : x.source ∈ fin' → x.source ∈ fin) : e ∉ met := by
  intro hm
  rcases h.mem_or e hm with he | ⟨y, hy, hy', hn⟩
  · exact hes he
  · rw [hx] at hy
    obtain rfl := Option.some.inj hy
    exact hn (hs hy')

/-- One more edge is followed, from a vertex under way to a finished one. -/
theorem cons (h : g.Classifies es fin fin' met) (hx : g.findEdge e = some x) (hes : e ∉ es)
    (hs : x.source ∉ fin') (ht : x.target ∈ fin') : g.Classifies (e :: es) fin fin' met where
  grows := h.grows
  nodup := h.nodup
  mem_or f hf := (h.mem_or f hf).imp_left (List.mem_cons_of_mem e)
  followed f hf y hy := by
    rcases List.mem_cons.mp hf with rfl | hf
    · rw [hx] at hy
      obtain rfl := Option.some.inj hy
      have hnot := h.not_mem hx hes fun hs' => absurd hs' hs
      simp only [hnot, ht, not_true]
    · exact h.followed f hf y hy
  finished := h.finished

/-- One more edge is followed and met, between vertices under way. -/
theorem meet (h : g.Classifies es fin fin' met) (hx : g.findEdge e = some x) (hes : e ∉ es)
    (hs : x.source ∉ fin') (ht : x.target ∉ fin') :
    g.Classifies (e :: es) fin fin' (e :: met) where
  grows := h.grows
  nodup := List.nodup_cons.mpr ⟨h.not_mem hx hes fun hs' => absurd hs' hs, h.nodup⟩
  mem_or f hf := by
    rcases List.mem_cons.mp hf with rfl | hf
    · exact .inl List.mem_cons_self
    · exact (h.mem_or f hf).imp_left (List.mem_cons_of_mem e)
  followed f hf y hy := by
    by_cases hfe : f = e
    · subst hfe
      rw [hx] at hy
      obtain rfl := Option.some.inj hy
      simp only [List.mem_cons_self, ht, not_false_eq_true]
    · have hf' : f ∈ es := (List.mem_cons.mp hf).resolve_left hfe
      rw [List.mem_cons, or_iff_right hfe]
      exact h.followed f hf' y hy
  finished f y hy hs' hn := by
    -- the new edge starts at a vertex that has not finished
    have hfe : f ≠ e := by
      rintro rfl
      rw [hx] at hy
      obtain rfl := Option.some.inj hy
      exact hs hs'
    rw [List.mem_cons, or_iff_right hfe]
    exact h.finished f y hy hs' hn

/-- All edges of a vertex were followed, and it is finished. -/
theorem pop (h : g.Classifies (g.outEdges v) fin fin' met) (hg : g.WellFormed) (hv : v ∉ fin') :
    g.Classifies [] fin (fin' ++ [v]) met where
  grows := h.grows.trans (List.prefix_append _ _)
  nodup := h.nodup
  mem_or e he := by
    refine .inr ((h.mem_or e he).elim (fun ho => ?_) fun ⟨x, hx, hs, hn⟩ => ?_)
    · obtain ⟨x, hx, rfl⟩ := hg.mem_outEdges_iff.mp ho
      exact ⟨x, hx, List.mem_concat_self, fun hs => hv (h.grows.subset hs)⟩
    · exact ⟨x, hx, List.mem_append_left _ hs, hn⟩
  followed _ he := nomatch he
  finished e x hx hs hn := by
    by_cases hsv : x.source = v
    · have ho : e ∈ g.outEdges v := hg.mem_outEdges_iff.mpr ⟨x, hx, hsv⟩
      rw [hsv, before_concat_iff hv]
      exact h.followed e ho x hx
    · have hs' : x.source ∈ fin' := by simpa [hsv] using hs
      rw [before_iff_of_isPrefix hs' (List.prefix_append _ _)]
      exact h.finished e x hx hs' hn

/-- One search after another. -/
theorem append (h : g.Classifies [] fin mid met) (h' : g.Classifies es mid fin' met')
    (hes : ∀ e ∈ es, ∀ x, g.findEdge e = some x → x.source ∉ fin') :
    g.Classifies es fin fin' (met ++ met') := by
  -- an edge met first has its source among the vertices finished first
  have hfirst {e : EdgeId} (he : e ∈ met) :
      ∃ x, g.findEdge e = some x ∧ x.source ∈ mid ∧ x.source ∉ fin :=
    (h.mem_or e he).resolve_left List.not_mem_nil
  have hmid {e : EdgeId} {x : Edge ε} (hx : g.findEdge e = some x) (hs : x.source ∈ mid) :
      e ∉ met' :=
    h'.not_mem hx (fun he => hes e he x hx (h'.grows.subset hs)) fun _ => hs
  constructor
  case grows => exact h.grows.trans h'.grows
  case nodup =>
    refine List.nodup_append.mpr ⟨h.nodup, h'.nodup, ?_⟩
    rintro e he _ he' rfl
    obtain ⟨x, hx, hs, -⟩ := hfirst he
    exact hmid hx hs he'
  case mem_or =>
    intro e he
    rcases List.mem_append.mp he with he | he
    · obtain ⟨x, hx, hs, hn⟩ := hfirst he
      exact .inr ⟨x, hx, h'.grows.subset hs, hn⟩
    · refine (h'.mem_or e he).imp_right fun ⟨x, hx, hs, hn⟩ => ?_
      exact ⟨x, hx, hs, fun hf => hn (h.grows.subset hf)⟩
  case followed =>
    intro e he x hx
    have hnot : e ∉ met := h.not_mem hx List.not_mem_nil fun hs =>
      absurd (h'.grows.subset hs) (hes e he x hx)
    rw [List.mem_append, or_iff_right hnot]
    exact h'.followed e he x hx
  case finished =>
    intro e x hx hs hn
    rw [List.mem_append]
    by_cases hm : x.source ∈ mid
    · rw [or_iff_left (hmid hx hm), before_iff_of_isPrefix hm h'.grows]
      exact h.finished e x hx hm hn
    · have hnot : e ∉ met := h.not_mem hx List.not_mem_nil fun hs => absurd hs hm
      rw [or_iff_right hnot]
      exact h'.finished e x hx hs hm

end Classifies

/-- Following edges meets those back edges that the order of finishing tells. -/
theorem Followed.classifies (h : g.Followed path es fin fin' met) (hg : g.WellFormed)
    (hs : g.Stage path fin) (hnd : es.Nodup)
    (hes : ∀ e ∈ es, ∀ x, g.findEdge e = some x → x.source ∈ path) :
    g.Classifies es fin fin' met := by
  induction h with
  | nil => exact .nil
  | @back path fin fin' es met e t ht hp rest ih =>
    obtain ⟨x, hx, rfl⟩ := target?_eq_some_iff.mp ht
    obtain ⟨hn, hnd⟩ := List.nodup_cons.mp hnd
    have hend := rest.stage hg hs
    -- a back edge leads to a vertex on the path, which finishes after all that is below
    refine (ih hs hnd fun f hf => hes f (List.mem_cons_of_mem e hf)).meet hx hn ?_ (hend.not_mem hp)
    exact hend.not_mem (hes e List.mem_cons_self x hx)
  | @known path fin fin' es met e t ht hf rest ih =>
    obtain ⟨x, hx, rfl⟩ := target?_eq_some_iff.mp ht
    obtain ⟨hn, hnd⟩ := List.nodup_cons.mp hnd
    have hend := rest.stage hg hs
    -- a known vertex has finished already
    refine (ih hs hnd fun f hf => hes f (List.mem_cons_of_mem e hf)).cons hx hn ?_
      (rest.grows.subset hf)
    exact hend.not_mem (hes e List.mem_cons_self x hx)
  | @descend path fin mid fin' es met met' e t ht hp hf below rest ihb ihr =>
    obtain ⟨x, hx, rfl⟩ := target?_eq_some_iff.mp ht
    obtain ⟨hn, hnd⟩ := List.nodup_cons.mp hnd
    have hpush := hs.push (hg.target?_lt ht) hp hf
    have hpop := (below.stage hg hpush).pop
    have hend := rest.stage hg hpop
    have hes' : ∀ f ∈ es, ∀ y, g.findEdge f = some y → y.source ∈ path :=
      fun f hf => hes f (List.mem_cons_of_mem e hf)
    have hbelow := (ihb hpush (hg.nodup_outEdges x.target) fun f hf y hy => by
      rw [hg.source_of_mem_outEdges hf hy]
      exact List.mem_cons_self).pop hg ((below.stage hg hpush).not_mem List.mem_cons_self)
    refine (hbelow.append (ihr hpop hnd hes') fun f hf y hy => ?_).cons hx hn ?_ ?_
    · exact hend.not_mem (hes' f hf y hy)
    · exact hend.not_mem (hes e List.mem_cons_self x hx)
    · exact rest.grows.subset List.mem_concat_self

/-- Searching from several roots meets those back edges that the order of finishing tells. -/
theorem Started.classifies (h : g.Started roots fin fin' met) (hg : g.WellFormed)
    (hr : ∀ r ∈ roots, r.index < g.vertexCount) (hs : g.Stage [] fin) :
    g.Classifies [] fin fin' met := by
  induction h with
  | nil => exact .nil
  | known _ _ ih => exact ih (fun u hu => hr u (List.mem_cons_of_mem _ hu)) hs
  | @search roots fin mid fin' met met' r hf below rest ih =>
    have hpush := hs.push (hr r List.mem_cons_self) List.not_mem_nil hf
    have hend := below.stage hg hpush
    have hbelow := (below.classifies hg hpush (hg.nodup_outEdges r) fun f hf y hy => by
      rw [hg.source_of_mem_outEdges hf hy]
      exact List.mem_cons_self).pop hg (hend.not_mem List.mem_cons_self)
    exact hbelow.append (ih (fun u hu => hr u (List.mem_cons_of_mem r hu)) hend.pop)
      fun _ he => nomatch he

/-! ## Walks along some of the edges -/

/-- An edge among those that `keep` tells leads from `u` to `w`. -/
def LeadsBy (g : Graph ν ε) (keep : EdgeId → Prop) (u w : VertexId) : Prop :=
  ∃ e x, g.findEdge e = some x ∧ keep e ∧ x.source = u ∧ x.target = w

/-- With more edges to go along, more vertices are led to. -/
theorem LeadsBy.mono {keep keep' : EdgeId → Prop} (h : ∀ e, keep e → keep' e) :
    g.LeadsBy keep ≤ g.LeadsBy keep' :=
  fun _ _ ⟨e, x, hx, hk, hs, ht⟩ => ⟨e, x, hx, h e hk, hs, ht⟩

/-- A walk is a number of steps along edges, one at least. -/
theorem walk_iff_transGen : g.Walk u w ↔ Relation.TransGen (g.LeadsBy fun _ => True) u w := by
  constructor
  · intro h
    induction h with
    | @single e x hx => exact .single ⟨e, x, hx, trivial, rfl, rfl⟩
    | @step e x t hx _ ih => exact .head ⟨e, x, hx, trivial, rfl, rfl⟩ ih
  · intro h
    induction h using Relation.TransGen.head_induction_on with
    | single h =>
      obtain ⟨e, x, hx, -, rfl, rfl⟩ := h
      exact .single hx
    | head h _ ih =>
      obtain ⟨e, x, hx, -, rfl, rfl⟩ := h
      exact .step hx ih

/-- Every back edge is closed by edges that the search has finished in order: from its target the
search has come to its source. -/
theorem Followed.closes (h : g.Followed path es fin fin' met) (hg : g.WellFormed)
    (hs : g.Stage path fin) {path' : List VertexId} (hpath : path = v :: path')
    (hes : ∀ e ∈ es, ∀ x, g.findEdge e = some x → x.source = v) (horder : fin' <+: order)
    {keep : EdgeId → Prop}
    (hkeep : ∀ e x, g.findEdge e = some x → order.idxOf x.target < order.idxOf x.source → keep e)
    (hreach : ∀ u ∈ path, Relation.ReflTransGen (g.LeadsBy keep) u v) :
    ∀ e ∈ met, ∀ x, g.findEdge e = some x →
      Relation.ReflTransGen (g.LeadsBy keep) x.target x.source := by
  induction h generalizing v path' with
  | nil => exact fun _ he => nomatch he
  | @back path fin fin' es met e t ht hp rest ih =>
    intro f hf y hy
    rcases List.mem_cons.mp hf with rfl | hf
    · obtain ⟨x, hx, rfl⟩ := target?_eq_some_iff.mp ht
      rw [hx] at hy
      obtain rfl := Option.some.inj hy
      rw [hes f List.mem_cons_self x hx]
      exact hreach _ hp
    · exact ih hs hpath (fun f hf => hes f (List.mem_cons_of_mem e hf)) horder hreach f hf y hy
  | @known path fin fin' es met e t ht hf rest ih =>
    exact ih hs hpath (fun f hf => hes f (List.mem_cons_of_mem e hf)) horder hreach
  | @descend path fin mid fin' es met met' e t ht hp hf below rest ihb ihr =>
    obtain ⟨x, hx, rfl⟩ := target?_eq_some_iff.mp ht
    have hpush := hs.push (hg.target?_lt ht) hp hf
    have hpop := (below.stage hg hpush).pop
    have hsource := hes e List.mem_cons_self x hx
    -- the edge that led down is kept: its target is finished and its source is not
    have hdown : g.LeadsBy keep v x.target := by
      refine ⟨e, x, hx, hkeep e x hx ?_, hsource, rfl⟩
      have hv : x.source ∈ path := hpath ▸ hsource ▸ List.mem_cons_self
      exact idxOf_lt_of_isPrefix horder (rest.grows.subset List.mem_concat_self)
        ((rest.stage hg hpop).not_mem hv)
    intro f hm y hy
    rcases List.mem_append.mp hm with hm | hm
    · refine ihb hpush rfl (fun f hf y hy => hg.source_of_mem_outEdges hf hy) ?_ ?_ f hm y hy
      · exact (List.prefix_append _ _).trans (rest.grows.trans horder)
      · intro u hu
        rcases List.mem_cons.mp hu with rfl | hu
        · exact .refl
        · exact (hreach u hu).tail hdown
    · exact ihr hpop hpath (fun f hf => hes f (List.mem_cons_of_mem e hf)) horder hreach f hm y hy

/-- Every back edge that is met is closed by edges that lead to vertices finished earlier. -/
theorem Started.closes (h : g.Started roots fin fin' met) (hg : g.WellFormed)
    (hr : ∀ r ∈ roots, r.index < g.vertexCount) (hs : g.Stage [] fin) (horder : fin' <+: order)
    {keep : EdgeId → Prop}
    (hkeep : ∀ e x, g.findEdge e = some x → order.idxOf x.target < order.idxOf x.source → keep e) :
    ∀ e ∈ met, ∀ x, g.findEdge e = some x →
      Relation.ReflTransGen (g.LeadsBy keep) x.target x.source := by
  induction h with
  | nil => exact fun _ he => nomatch he
  | known _ _ ih => exact ih (fun u hu => hr u (List.mem_cons_of_mem _ hu)) hs horder
  | @search roots fin mid fin' met met' r hf below rest ih =>
    have hpush := hs.push (hr r List.mem_cons_self) List.not_mem_nil hf
    intro f hm y hy
    rcases List.mem_append.mp hm with hm | hm
    · refine below.closes hg hpush rfl (fun f hf y hy => hg.source_of_mem_outEdges hf hy) ?_ hkeep
        (fun u hu => ?_) f hm y hy
      · exact (List.prefix_append _ _).trans (rest.grows.trans horder)
      · rw [List.mem_singleton.mp hu]
    · exact ih (fun u hu => hr u (List.mem_cons_of_mem r hu)) (below.stage hg hpush).pop horder f hm
        y hy

/-! ## Back edges and cycles -/

/-- The back edges are those that do not lead to a vertex finished before their source, and each is
closed by edges of the other kind. -/
structure Back (g : Graph ν ε) (order : List VertexId) : Prop where
  nodup : g.backEdges.Nodup
  lt : ∀ e ∈ g.backEdges, e.index < g.edgeCount
  mem_iff : ∀ e x, g.findEdge e = some x →
    (e ∈ g.backEdges ↔ order.idxOf x.source ≤ order.idxOf x.target)
  closes : ∀ e ∈ g.backEdges, ∀ x, g.findEdge e = some x →
    Relation.ReflTransGen (g.LeadsBy (· ∉ g.backEdges)) x.target x.source

/-- The search that looks for back edges leaves an order of finishing that tells them. -/
theorem WellFormed.exists_back (hg : g.WellFormed) : ∃ order, g.Back order := by
  obtain ⟨order, h⟩ := hg.exists_started_backEdges
  have hr := index_lt_of_mem_vertexIds hg
  have hc := h.classifies hg hr (.nil g)
  have hmem (e : EdgeId) (x : Edge ε) (hx : g.findEdge e = some x) :
      e ∈ g.backEdges ↔ order.idxOf x.source ≤ order.idxOf x.target := by
    have hs : x.source ∈ order := h.mem <| (mem_vertexIds_iff hg).mpr <|
      containsVertex_iff.mpr (hg.source_lt_of_findEdge hx)
    rw [hc.finished e x hx hs List.not_mem_nil, Before]
    simp only [hs, true_and, Nat.not_lt]
  refine ⟨order, hc.nodup, fun e he => ?_, hmem, ?_⟩
  · obtain ⟨x, hx, -⟩ := (hc.mem_or e he).resolve_left List.not_mem_nil
    exact lt_edgeCount_of_findEdge hx
  · refine h.closes hg hr (.nil g) (List.prefix_refl order) fun e x hx hlt he => ?_
    exact Nat.not_le_of_lt hlt ((hmem e x hx).mp he)

/-- Edges that are no back edges lead to vertices finished earlier and earlier. -/
theorem Back.idxOf_lt (h : g.Back order)
    (hw : Relation.TransGen (g.LeadsBy (· ∉ g.backEdges)) u w) :
    order.idxOf w < order.idxOf u := by
  have hstep {u w : VertexId} (hl : g.LeadsBy (· ∉ g.backEdges) u w) :
      order.idxOf w < order.idxOf u := by
    obtain ⟨e, x, hx, he, rfl, rfl⟩ := hl
    exact Nat.lt_of_not_le fun hle => he ((h.mem_iff e x hx).mpr hle)
  induction hw with
  | single hl => exact hstep hl
  | tail _ hl ih => exact Nat.lt_trans (hstep hl) ih

/-- A graph has a cycle exactly if the search meets a back edge. -/
theorem WellFormed.cyclic_iff (hg : g.WellFormed) : g.Cyclic ↔ g.backEdges ≠ [] := by
  obtain ⟨order, h⟩ := hg.exists_back
  constructor
  · rintro ⟨v, hv⟩ hnil
    refine Nat.lt_irrefl (order.idxOf v) (h.idxOf_lt ?_)
    refine Relation.TransGen.mono (LeadsBy.mono fun e _ => ?_) _ _ (walk_iff_transGen.mp hv)
    rw [hnil]
    exact List.not_mem_nil
  · intro hne
    obtain ⟨e, he⟩ := List.exists_mem_of_ne_nil _ hne
    obtain ⟨x, hx⟩ := exists_findEdge (h.lt e he)
    have hback : Relation.ReflTransGen (g.LeadsBy fun _ => True) x.target x.source :=
      Relation.ReflTransGen.mono (LeadsBy.mono fun _ _ => trivial) _ _ (h.closes e he x hx)
    exact ⟨x.source, walk_iff_transGen.mpr (.head' ⟨e, x, hx, trivial, rfl, rfl⟩ hback)⟩

end Graph

end CommonSubgraph
