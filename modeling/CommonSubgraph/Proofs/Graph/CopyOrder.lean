import CommonSubgraph.Proofs.Graph.Copies
import Mathlib.Data.List.Perm.Lattice

/-!
# The order of the edges in a copy

The edges of a copy are numbered as they are made: vertex by vertex in the order of the list, and at
each vertex in the order of its outgoing edges (`Graph.CopiedBefore`). This need not be their order
in the graph. Where it is, the copy on all vertices has the same edge under every name
(`WellFormed.induced_edge_order`); an edge out of a later vertex that was inserted before one out of
an earlier vertex is copied after it, even if all vertices are listed in ascending order
(`induced_reverses_crossed`).
-/

namespace CommonSubgraph

namespace Graph

variable {ν ε : Type} {g g' : Graph ν ε} {ids : List VertexId} {e f : EdgeId} {x : Edge ε}

/-- Both ends of the edge `e` are listed. -/
def Within (g : Graph ν ε) (ids : List VertexId) (e : EdgeId) : Prop :=
  ∃ x, g.findEdge e = some x ∧ x.source ∈ ids ∧ x.target ∈ ids

/-- The edge `e` stands before `f` if one goes through the listed vertices in order, and at each
through its outgoing edges. -/
def CopiedBefore (g : Graph ν ε) (ids : List VertexId) (e f : EdgeId) : Prop :=
  ∃ s t, g.source? e = some s ∧ g.source? f = some t ∧ (ids.idxOf s < ids.idxOf t ∨
    s = t ∧ (g.outEdges s).idxOf e < (g.outEdges s).idxOf f)

/-- The edges between listed vertices and the edges of `g'` correspond under `c`: ends to the
positions at which they are listed, and values to themselves. -/
structure Copying (g : Graph ν ε) (ids : List VertexId) (g' : Graph ν ε) (c : EdgeId → EdgeId) :
    Prop where
  maps : ∀ e x, g.findEdge e = some x → x.source ∈ ids → x.target ∈ ids → ∃ y,
    g'.findEdge (c e) = some y ∧ ids[y.source.index]? = some x.source ∧
      ids[y.target.index]? = some x.target ∧ y.value = x.value
  injective : ∀ e f, g.Within ids e → g.Within ids f → c e = c f → e = f
  surjective : ∀ e', g'.containsEdge e' = true → ∃ e, g.Within ids e ∧ c e = e'

/-- Of two edges at most one is copied before the other. -/
theorem CopiedBefore.asymm (h : g.CopiedBefore ids e f) : ¬ g.CopiedBefore ids f e := by
  obtain ⟨s, t, hs, ht, hlt⟩ := h
  rintro ⟨t', s', ht', hs', hlt'⟩
  obtain rfl := Option.some.inj (hs.symm.trans hs')
  obtain rfl := Option.some.inj (ht.symm.trans ht')
  rcases hlt with hlt | ⟨rfl, hlt⟩
  · rcases hlt' with hlt' | ⟨rfl, -⟩
    · exact Nat.lt_asymm hlt hlt'
    · exact Nat.lt_irrefl _ hlt
  · rcases hlt' with hlt' | ⟨-, hlt'⟩
    · exact Nat.lt_irrefl _ hlt'
    · exact Nat.lt_asymm hlt hlt'

/-! ## Positions in a list -/

/-- The entries of a list without repeats stand in the order of their positions. -/
theorem pairwise_idxOf_lt {α : Type} [DecidableEq α] {l : List α} (hl : l.Nodup) :
    l.Pairwise fun a b => l.idxOf a < l.idxOf b := by
  refine List.pairwise_iff_getElem.mpr fun i j hi hj hij => ?_
  rwa [hl.idxOf_getElem i hi, hl.idxOf_getElem j hj]

/-- In a list that is sorted by a relation that never holds both ways, the positions are compared by
the relation. -/
theorem idxOf_lt_idxOf_iff {α : Type} [DecidableEq α] {l : List α} {r : α → α → Prop}
    (hl : l.Pairwise r) (hr : ∀ a b, r a b → ¬ r b a) {a b : α} (ha : a ∈ l) (hb : b ∈ l) :
    l.idxOf a < l.idxOf b ↔ r a b := by
  have hlt {c d : α} (hc : c ∈ l) (hd : d ∈ l) (h : l.idxOf c < l.idxOf d) : r c d := by
    have := List.pairwise_iff_getElem.mp hl _ _ (List.idxOf_lt_length_of_mem hc)
      (List.idxOf_lt_length_of_mem hd) h
    rwa [List.getElem_idxOf, List.getElem_idxOf] at this
  refine ⟨hlt ha hb, fun hab => ?_⟩
  rcases Nat.lt_trichotomy (l.idxOf a) (l.idxOf b) with h | h | h
  · exact h
  · obtain rfl := (List.idxOf_inj ha).mp h
    exact absurd hab (hr a a hab)
  · exact absurd (hlt hb ha h) (hr a b hab)

/-! ## The edges in the order in which they are copied -/

/-- The edges between listed vertices, vertex by vertex. -/
def copiedEdges (g : Graph ν ε) (ids : List VertexId) : List EdgeId :=
  (ids.flatMap g.outEdges).filter fun e => (g.target? e).any (· ∈ ids)

/-- What is inserted into the copy for the edge `e`. -/
def copiedArc (g : Graph ν ε) (ids : List VertexId) (e : EdgeId) :
    Option (VertexId × VertexId × ε) :=
  (g.findEdge e).map fun x =>
    (VertexId.ofNat (ids.idxOf x.source), VertexId.ofNat (ids.idxOf x.target), x.value)

/-- The edge to which `e` is copied. -/
def copyOf (g : Graph ν ε) (ids : List VertexId) (e : EdgeId) : EdgeId :=
  EdgeId.ofNat ((g.copiedEdges ids).idxOf e)

/-- The edges that are copied are those between listed vertices. -/
theorem WellFormed.mem_copiedEdges_iff (h : g.WellFormed) :
    e ∈ g.copiedEdges ids ↔ g.Within ids e := by
  rw [copiedEdges, List.mem_filter, List.mem_flatMap]
  constructor
  · rintro ⟨⟨v, hv, he⟩, ht⟩
    obtain ⟨x, hx, rfl⟩ := h.mem_outEdges_iff.mp he
    rw [target?, hx, Option.map_some, Option.any_some, decide_eq_true_iff] at ht
    exact ⟨x, hx, hv, ht⟩
  · rintro ⟨x, hx, hs, ht⟩
    refine ⟨⟨x.source, hs, h.mem_outEdges_iff.mpr ⟨x, hx, rfl⟩⟩, ?_⟩
    rw [target?, hx, Option.map_some, Option.any_some]
    exact decide_eq_true ht

/-- No edge is copied twice if no vertex is listed twice. -/
theorem WellFormed.nodup_copiedEdges (h : g.WellFormed) (hnd : ids.Nodup) :
    (g.copiedEdges ids).Nodup :=
  (h.nodup_flatMap_outEdges hnd).filter _

/-- The copied edges stand in the order that was described. -/
theorem WellFormed.pairwise_copiedEdges (h : g.WellFormed) (hnd : ids.Nodup) :
    (g.copiedEdges ids).Pairwise (g.CopiedBefore ids) := by
  refine List.Pairwise.filter _ (List.pairwise_flatMap.mpr ⟨fun v _ => ?_, ?_⟩)
  · refine (pairwise_idxOf_lt (h.nodup_outEdges v)).imp_of_mem fun he hf hlt => ?_
    exact ⟨v, v, h.source?_of_mem_outEdges he, h.source?_of_mem_outEdges hf, .inr ⟨rfl, hlt⟩⟩
  · refine (pairwise_idxOf_lt hnd).imp fun hlt e he f hf => ?_
    exact ⟨_, _, h.source?_of_mem_outEdges he, h.source?_of_mem_outEdges hf, .inl hlt⟩

/-- What is inserted into the copy at one vertex is what belongs to its outgoing edges between
listed vertices. -/
theorem WellFormed.map_some_edgesWithin (h : g.WellFormed) (ids : List VertexId) (v : VertexId) :
    (g.edgesWithin ids v).map some =
      ((g.outEdges v).filter fun e => (g.target? e).any (· ∈ ids)).map (g.copiedArc ids) := by
  rw [edgesWithin, List.map_filterMap, ← List.filterMap_eq_map, List.filterMap_filter]
  refine List.filterMap_congr fun e he => ?_
  obtain ⟨x, hx, rfl⟩ := h.mem_outEdges_iff.mp he
  simp only [hx, target?, copiedArc, Option.map_some, Option.any_some, decide_eq_true_eq,
    Function.comp_apply, Option.bind_eq_bind, Option.bind_some]
  by_cases ht : x.target ∈ ids
  · rw [if_pos ht, idxOf?_of_mem ht]
    rfl
  · rw [if_neg ht, List.idxOf?_eq_none_iff.mpr ht]
    rfl

/-- What is inserted into the copy is what belongs to the copied edges, in their order. -/
theorem WellFormed.map_some_copied (h : g.WellFormed) (ids : List VertexId) :
    (ids.flatMap (g.edgesWithin ids)).map some = (g.copiedEdges ids).map (g.copiedArc ids) := by
  rw [copiedEdges, List.filter_flatMap, List.map_flatMap, List.map_flatMap]
  exact List.flatMap_congr fun v _ => h.map_some_edgesWithin ids v

/-! ## The copies -/

section

variable (h : g.WellFormed) (hi : g.induced ids = .ok g')

include h hi

/-- The copy has as many edges as are copied. -/
theorem WellFormed.edgeCount_induced : g'.edgeCount = (g.copiedEdges ids).length := by
  obtain ⟨values, -, -, -, -, hins⟩ := h.induced_eq_ok hi
  have htable := (tables_insertEdges hins).2
  have hlength := congrArg List.length (h.map_some_copied ids)
  rw [List.length_map, List.length_map] at hlength
  rw [edges_ofVertexValues, List.nil_append] at htable
  rw [edgeCount, ← Array.length_toList, htable, List.length_mapIdx, hlength]

/-- The table of the copy holds the copied edges in order. -/
theorem WellFormed.edges_induced {k : Nat} (he : (g.copiedEdges ids)[k]? = some e)
    (hx : g.findEdge e = some x) : g'.edges[k]? = some ⟨EdgeId.ofNat k,
      VertexId.ofNat (ids.idxOf x.source), VertexId.ofNat (ids.idxOf x.target), x.value⟩ := by
  obtain ⟨values, -, -, hzero, -, hins⟩ := h.induced_eq_ok hi
  have htable := (tables_insertEdges hins).2
  -- the arc at position `k` is the one of the edge at position `k`
  have harc : (ids.flatMap (g.edgesWithin ids))[k]? =
      some (VertexId.ofNat (ids.idxOf x.source), VertexId.ofNat (ids.idxOf x.target), x.value) := by
    have := congrArg (·[k]?) (h.map_some_copied ids)
    rw [List.getElem?_map, List.getElem?_map, he, Option.map_some, copiedArc, hx] at this
    obtain ⟨p, hp, hpx⟩ := Option.map_eq_some_iff.mp this
    rw [hp, hpx]
    rfl
  rw [edges_ofVertexValues, List.nil_append] at htable
  rw [← Array.getElem?_toList, htable, List.getElem?_mapIdx, harc, hzero, Nat.zero_add]
  rfl

/-- An edge is copied to the number of its position among the copied edges. -/
theorem WellFormed.index_copyOf (he : g.Within ids e) :
    (g.copyOf ids e).index = (g.copiedEdges ids).idxOf e := by
  have hlt := List.idxOf_lt_length_of_mem (h.mem_copiedEdges_iff.mpr he)
  rw [← h.edgeCount_induced hi] at hlt
  exact EdgeId.index_ofNat (Nat.lt_of_lt_of_le hlt (h.induced hi).edgeCount_le)

/-- The edges between listed vertices and those of the copy correspond. -/
theorem WellFormed.copying (hl : g.Listable ids) : Copying g ids g' (g.copyOf ids) := by
  -- there are no more copies than vertices, so every position has a name
  have hle : ids.length ≤ UInt32.size := Nat.le_trans (hl.length_le h) h.vertexCount_le
  have hlisted {v : VertexId} (hv : v ∈ ids) :
      ids[(VertexId.ofNat (ids.idxOf v)).index]? = some v := by
    have hlt := List.idxOf_lt_length_of_mem hv
    rw [VertexId.index_ofNat (Nat.lt_of_lt_of_le hlt hle), List.getElem?_idxOf hv]
  constructor
  case maps =>
    intro e x hx hs ht
    have hin : g.Within ids e := ⟨x, hx, hs, ht⟩
    have hcopy := h.edges_induced hi (List.getElem?_idxOf (h.mem_copiedEdges_iff.mpr hin)) hx
    rw [← h.index_copyOf hi hin] at hcopy
    exact ⟨_, hcopy, hlisted hs, hlisted ht, rfl⟩
  case injective =>
    intro e f he hf hc
    have hindex := congrArg EdgeId.index hc
    rw [h.index_copyOf hi he, h.index_copyOf hi hf] at hindex
    exact (List.idxOf_inj (h.mem_copiedEdges_iff.mpr he)).mp hindex
  case surjective =>
    intro e' he'
    have hlt : e'.index < (g.copiedEdges ids).length :=
      h.edgeCount_induced hi ▸ of_decide_eq_true he'
    refine ⟨(g.copiedEdges ids)[e'.index], h.mem_copiedEdges_iff.mp (List.getElem_mem hlt), ?_⟩
    rw [copyOf, (h.nodup_copiedEdges hl.nodup).idxOf_getElem e'.index hlt, EdgeId.ofNat_index]

/-- The copies of two edges are numbered in the order in which the edges are copied. -/
theorem WellFormed.copyOf_lt_iff (hl : g.Listable ids) (he : g.Within ids e)
    (hf : g.Within ids f) :
    (g.copyOf ids e).index < (g.copyOf ids f).index ↔ g.CopiedBefore ids e f := by
  rw [h.index_copyOf hi he, h.index_copyOf hi hf]
  exact idxOf_lt_idxOf_iff (h.pairwise_copiedEdges hl.nodup) (fun _ _ => CopiedBefore.asymm)
    (h.mem_copiedEdges_iff.mpr he) (h.mem_copiedEdges_iff.mpr hf)

end

/-! ## The copy of all vertices -/

/-- All vertices of a well-formed graph can be listed. -/
theorem WellFormed.listable_vertexIds (h : g.WellFormed) : g.Listable g.vertexIds :=
  ⟨nodup_vertexIds h, fun _ hv => (mem_vertexIds_iff h).mp hv⟩

/-- Between all the vertices are all the edges. -/
theorem WellFormed.within_vertexIds_iff (h : g.WellFormed) :
    g.Within g.vertexIds e ↔ e.index < g.edgeCount := by
  constructor
  · rintro ⟨x, hx, -⟩
    exact lt_edgeCount_of_findEdge hx
  · intro he
    obtain ⟨x, hx⟩ := exists_findEdge he
    refine ⟨x, hx, (mem_vertexIds_iff h).mpr ?_, (mem_vertexIds_iff h).mpr ?_⟩
    · exact decide_eq_true (h.source_lt_of_findEdge hx)
    · exact decide_eq_true (h.target_lt_of_findEdge hx)

/-- The edges of a graph are listed in the order of their numbers. -/
theorem WellFormed.pairwise_edgeIds (h : g.WellFormed) :
    g.edgeIds.Pairwise fun e f => e.index < f.index ∧ f.index < g.edgeCount := by
  have hindex {k : Nat} (hk : k ∈ List.range g.edgeCount) : (EdgeId.ofNat k).index = k :=
    EdgeId.index_ofNat (Nat.lt_of_lt_of_le (List.mem_range.mp hk) h.edgeCount_le)
  refine List.pairwise_map.mpr (List.pairwise_lt_range.imp_of_mem fun hj hk hlt => ?_)
  rw [hindex hj, hindex hk]
  exact ⟨hlt, List.mem_range.mp hk⟩

/-- If the edges are copied in the order of their names, they are all copied in that order. -/
theorem WellFormed.copiedEdges_vertexIds (h : g.WellFormed)
    (hord : ∀ e f : EdgeId, e.index < f.index → f.index < g.edgeCount →
      g.CopiedBefore g.vertexIds e f) : g.copiedEdges g.vertexIds = g.edgeIds := by
  have hnd := nodup_vertexIds h
  have hsorted : g.edgeIds.Pairwise (g.CopiedBefore g.vertexIds) :=
    h.pairwise_edgeIds.imp fun he => hord _ _ he.1 he.2
  have hnodup : g.edgeIds.Nodup := hsorted.imp fun hef => by
    rintro rfl
    exact hef.asymm hef
  refine List.Perm.eq_of_pairwise (fun e f _ _ hef hfe => absurd hfe hef.asymm)
    (h.pairwise_copiedEdges hnd) hsorted ?_
  refine (List.perm_ext_iff_of_nodup (h.nodup_copiedEdges hnd) hnodup).mpr fun e => ?_
  rw [h.mem_copiedEdges_iff, h.within_vertexIds_iff, mem_edgeIds_iff h]

/-- A copy of all vertices has the same table of edges if the edges are copied in the order of their
numbers. -/
theorem WellFormed.edges_induced_vertexIds (h : g.WellFormed)
    (hi : g.induced g.vertexIds = .ok g') (hall : g.copiedEdges g.vertexIds = g.edgeIds) :
    g'.edges = g.edges := by
  have hcount : g'.edges.size = g.edges.size := by
    rw [← edgeCount, h.edgeCount_induced hi, hall, length_edgeIds, edgeCount]
  have hname {v : VertexId} (hv : v.index < g.vertexCount) :
      VertexId.ofNat (g.vertexIds.idxOf v) = v := by
    have hmem := (mem_vertexIds_iff h).mpr (containsVertex_iff.mpr hv)
    refine Eq.trans ?_ (VertexId.ofNat_index v)
    exact (h.listable_vertexIds.ofNat_idxOf_eq_iff h hmem (getElem?_vertexIds hv)).mpr rfl
  refine Array.ext_getElem? fun k => ?_
  by_cases hk : k < g.edges.size
  · have hx : g.findEdge (EdgeId.ofNat k) = some g.edges[k] := by
      rw [findEdge, EdgeId.index_ofNat (Nat.lt_of_lt_of_le hk h.edgeCount_le),
        Array.getElem?_eq_getElem hk]
    have he : (g.copiedEdges g.vertexIds)[k]? = some (EdgeId.ofNat k) := by
      rw [hall, edgeIds, List.getElem?_map, edgeCount, List.getElem?_range hk, Option.map_some]
    rw [h.edges_induced hi he hx, hname (h.source_lt_of_findEdge hx),
      hname (h.target_lt_of_findEdge hx), Array.getElem?_eq_getElem hk, ← h.id_of_findEdge hx]
  · rw [Array.getElem?_eq_none (by omega), Array.getElem?_eq_none (by omega)]

/-- Edges are copied vertex by vertex, and each vertex's in the order in which it lists them. So the
copy of all vertices keeps the table of edges if that is the order of the names. -/
theorem WellFormed.induced_edge_order (h : g.WellFormed) (hl : g.Listable ids) :
    ∃ g' c, g.induced ids = .ok g' ∧ Copying g ids g' c ∧
      (∀ e f, g.Within ids e → g.Within ids f →
        ((c e).index < (c f).index ↔ g.CopiedBefore ids e f)) ∧
      (ids = g.vertexIds → (∀ e f : EdgeId, e.index < f.index → f.index < g.edgeCount →
        g.CopiedBefore ids e f) → g'.edges = g.edges) := by
  obtain ⟨g', hi⟩ := hl.exists_induced
  refine ⟨g', g.copyOf ids, hi, h.copying hi hl, fun e f he hf => h.copyOf_lt_iff hi hl he hf, ?_⟩
  rintro rfl hord
  exact h.edges_induced_vertexIds hi (h.copiedEdges_vertexIds hord)

/-- An edge back, followed by an edge forth. -/
def crossed : Graph Unit Nat :=
  ofParts [(), ()]
    [(VertexId.ofNat 1, VertexId.ofNat 0, 10), (VertexId.ofNat 0, VertexId.ofNat 1, 20)]

/-- The graph with one edge back and one forth is well-formed. -/
theorem wellFormed_crossed : crossed.WellFormed := wellFormed_ofParts (by decide) (by decide)

/-- Listed in descending order, the two vertices have their edges copied in order. -/
theorem induced_edge_order_crossed : crossed.WellFormed ∧
    crossed.Listable [VertexId.ofNat 1, VertexId.ofNat 0] ∧ ∃ g' c,
      crossed.induced [VertexId.ofNat 1, VertexId.ofNat 0] = .ok g' ∧
      Copying crossed [VertexId.ofNat 1, VertexId.ofNat 0] g' c ∧
      (c (EdgeId.ofNat 0)).index < (c (EdgeId.ofNat 1)).index := by
  have hl : crossed.Listable [VertexId.ofNat 1, VertexId.ofNat 0] :=
    ⟨by decide, by decide +kernel⟩
  obtain ⟨g', c, hi, hc, hiff, -⟩ := wellFormed_crossed.induced_edge_order hl
  refine ⟨wellFormed_crossed, hl, g', c, hi, hc, (hiff _ _ ?_ ?_).mpr ?_⟩
  · exact ⟨⟨EdgeId.ofNat 0, VertexId.ofNat 1, VertexId.ofNat 0, 10⟩, by decide +kernel⟩
  · exact ⟨⟨EdgeId.ofNat 1, VertexId.ofNat 0, VertexId.ofNat 1, 20⟩, by decide +kernel⟩
  · exact ⟨VertexId.ofNat 1, VertexId.ofNat 0, by decide +kernel⟩

/-- The same edges, the one forth before the one back. -/
def uncrossed : Graph Unit Nat :=
  ofParts [(), ()]
    [(VertexId.ofNat 0, VertexId.ofNat 1, 20), (VertexId.ofNat 1, VertexId.ofNat 0, 10)]

/-- Listed in ascending order, the vertices have their edges copied in reverse, and no way of
matching the edges to their copies keeps the order. -/
theorem induced_reverses_crossed : crossed.WellFormed ∧ ∃ g',
    crossed.induced crossed.vertexIds = .ok g' ∧ g'.edges ≠ crossed.edges ∧
      ∀ c, Copying crossed crossed.vertexIds g' c →
        (c (EdgeId.ofNat 1)).index < (c (EdgeId.ofNat 0)).index := by
  have hvalue : ∀ e y, uncrossed.findEdge e = some y →
      y.value = if e.index = 0 then 20 else 10 := by
    intro e y hy
    obtain ⟨hk, rfl⟩ := Array.getElem?_eq_some_iff.mp hy
    have hall : ∀ k (hk : k < uncrossed.edges.size),
        uncrossed.edges[k].value = if k = 0 then 20 else 10 := by decide +kernel
    exact hall e.index hk
  refine ⟨wellFormed_crossed, uncrossed, by rfl, by decide +kernel, fun c hc => ?_⟩
  obtain ⟨y, hy, -, -, hback⟩ := hc.maps (EdgeId.ofNat 0)
    ⟨EdgeId.ofNat 0, VertexId.ofNat 1, VertexId.ofNat 0, 10⟩ (by decide +kernel)
    (by decide +kernel) (by decide +kernel)
  obtain ⟨z, hz, -, -, hforth⟩ := hc.maps (EdgeId.ofNat 1)
    ⟨EdgeId.ofNat 1, VertexId.ofNat 0, VertexId.ofNat 1, 20⟩ (by decide +kernel)
    (by decide +kernel) (by decide +kernel)
  rw [hvalue _ y hy] at hback
  rw [hvalue _ z hz] at hforth
  have hpos : (c (EdgeId.ofNat 0)).index ≠ 0 := fun h0 => by simp [h0] at hback
  have hzero : (c (EdgeId.ofNat 1)).index = 0 := by_contra fun h0 => by simp [h0] at hforth
  omega

end Graph

end CommonSubgraph
