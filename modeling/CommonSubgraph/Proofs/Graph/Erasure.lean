import CommonSubgraph.Proofs.Graph.Incidence

/-!
# Erasing an edge

Erasing the edge `e` takes its name out of all lists and then gives it to the last edge of the
table. What the last edge was called no edge is called afterwards, so the names that remain
correspond one to one to those of the edges kept: `g.renumber e` maps old names to new ones, and
`g.former e` maps them back.

In a well-formed graph both of these describe all lists and the whole table at once
(`WellFormed.outEdges_eraseEdge`, `WellFormed.inEdges_eraseEdge`, `WellFormed.findEdge_eraseEdge`),
whichever vertices the two edges join. That the graph stays well-formed is read off them.
-/

namespace CommonSubgraph

namespace Graph

variable {ν ε : Type} {g g' : Graph ν ε} {v : VertexId} {e f : EdgeId} {x : Edge ε} {a : ε}

/-! ## Old and new names -/

/-- The name of the last edge. -/
def lastEdge (g : Graph ν ε) : EdgeId := EdgeId.ofNat (g.edgeCount - 1)

/-- What the edge `f` is called once `e` is erased. -/
def renumber (g : Graph ν ε) (e f : EdgeId) : EdgeId := if f = g.lastEdge then e else f

/-- What the edge was called before `e` was erased that is now called `f`. -/
def former (g : Graph ν ε) (e f : EdgeId) : EdgeId := if f = e then g.lastEdge else f

/-- The last edge of a graph with edges has the highest number. -/
theorem WellFormed.index_lastEdge (h : g.WellFormed) (hpos : 0 < g.edgeCount) :
    g.lastEdge.index = g.edgeCount - 1 := by
  have hle := h.edgeCount_le
  exact EdgeId.index_ofNat (by omega)

/-- An edge is the last one exactly if its number is the highest. -/
theorem WellFormed.eq_lastEdge_iff (h : g.WellFormed) (he : e.index < g.edgeCount) :
    e = g.lastEdge ↔ e.index + 1 = g.edgeCount := by
  rw [← EdgeId.index_inj, h.index_lastEdge (by omega)]
  omega

/-- No edge that stays has the last name afterwards. -/
theorem renumber_ne_lastEdge (he : f ≠ e) : g.renumber e f ≠ g.lastEdge := by
  unfold renumber
  split
  · next hl => exact fun hel => he (hl.trans hel.symm)
  · next hl => exact hl

/-- Nothing was called `e` before and is called otherwise now. -/
theorem former_ne (hf : f ≠ g.lastEdge) : g.former e f ≠ e := by
  unfold former
  split
  · next he => exact fun hl => hf (he.trans hl.symm)
  · next he => exact he

/-- What an edge is called after the erasure leads back to what it was called before. -/
theorem former_renumber (he : f ≠ e) : g.former e (g.renumber e f) = f := by
  unfold former renumber
  by_cases hf : f = g.lastEdge
  · rw [if_pos hf, if_pos rfl, hf]
  · rw [if_neg hf, if_neg he]

/-- What an edge was called before the erasure leads on to what it is called now. -/
theorem renumber_former (hf : f ≠ g.lastEdge) : g.renumber e (g.former e f) = f := by
  unfold former renumber
  by_cases he : f = e
  · rw [if_pos he, if_pos rfl, he]
  · rw [if_neg he, if_neg hf]

/-- A list without `e` holds the new name as often as it held the old one. -/
theorem count_map_renumber (hf : f ≠ g.lastEdge) (l : List EdgeId) :
    ((l.filter (· ≠ e)).map (g.renumber e)).count f = l.count (g.former e f) := by
  have hne : g.former e f ≠ e := former_ne hf
  have hiff : ∀ a, a ≠ e → (g.renumber e a = f ↔ a = g.former e f) := by
    intro a ha
    constructor
    · rintro rfl
      exact (former_renumber ha).symm
    · rintro rfl
      exact renumber_former hf
  induction l with
  | nil => rfl
  | cons a l ih =>
    by_cases ha : a = e
    · rw [List.filter_cons_of_neg (by simpa using ha), ih, ha, List.count_cons_of_ne hne.symm]
    · rw [List.filter_cons_of_pos (by simpa using ha), List.map_cons, List.count_cons,
        List.count_cons, ih]
      simp only [beq_iff_eq, hiff a ha]

/-! ## The two steps -/

/-- It makes no difference whether an edge is filtered out only where it is in the list. -/
theorem ite_filter_ne {p : Prop} [Decidable p] {l : List EdgeId} (h : e ∈ l → p) :
    (if p then l.filter (· ≠ e) else l) = l.filter (· ≠ e) := by
  split
  · rfl
  · next hp =>
    refine (List.filter_eq_self.mpr fun f hf => decide_eq_true ?_).symm
    rintro rfl
    exact hp (h hf)

/-- Renaming an edge that is not in a list changes nothing. -/
theorem map_rename_of_not_mem {old new : EdgeId} {l : List EdgeId} (h : old ∉ l) :
    (l.map fun f => if f = old then new else f) = l := by
  conv_rhs => rw [← List.map_id l]
  refine List.map_congr_left fun f hf => if_neg ?_
  rintro rfl
  exact h hf

/-- It makes no difference whether an edge is renamed only where it is in the list. -/
theorem ite_map_rename {p : Prop} [Decidable p] {old new : EdgeId} {l : List EdgeId}
    (h : old ∈ l → p) :
    (if p then l.map fun f => if f = old then new else f else l) =
      l.map fun f => if f = old then new else f := by
  split
  · rfl
  · next hp => exact (map_rename_of_not_mem fun hf => hp (h hf)).symm

/-- Detaching an edge takes it out of the outgoing edges of its source. -/
theorem outEdges_detach (g : Graph ν ε) (e : EdgeId) (s t v : VertexId) (E : Array (Edge ε)) :
    (Graph.mk (detach g.vertices e s t) E).outEdges v =
      if s = v then (g.outEdges v).filter (· ≠ e) else g.outEdges v := by
  simp only [outEdges, findVertex, detach, Array.getElem?_modify, VertexId.index_inj]
  cases g.vertices[v.index]? <;> split_ifs <;> simp

/-- Detaching an edge takes it out of the incoming edges of its target. -/
theorem inEdges_detach (g : Graph ν ε) (e : EdgeId) (s t v : VertexId) (E : Array (Edge ε)) :
    (Graph.mk (detach g.vertices e s t) E).inEdges v =
      if t = v then (g.inEdges v).filter (· ≠ e) else g.inEdges v := by
  simp only [inEdges, findVertex, detach, Array.getElem?_modify, VertexId.index_inj]
  cases g.vertices[v.index]? <;> split_ifs <;> simp

/-- Renaming an edge at its ends renames it among the outgoing edges of its source. -/
theorem outEdges_rename (V : Array (Vertex ν)) (old new : EdgeId) (s t v : VertexId)
    (E : Array (Edge ε)) :
    (Graph.mk (rename V old new s t) E).outEdges v =
      if s = v then ((Graph.mk V E).outEdges v).map fun f => if f = old then new else f
      else (Graph.mk V E).outEdges v := by
  simp only [outEdges, findVertex, rename, Array.getElem?_modify, VertexId.index_inj]
  cases V[v.index]? <;> split_ifs <;> simp

/-- Renaming an edge at its ends renames it among the incoming edges of its target. -/
theorem inEdges_rename (V : Array (Vertex ν)) (old new : EdgeId) (s t v : VertexId)
    (E : Array (Edge ε)) :
    (Graph.mk (rename V old new s t) E).inEdges v =
      if t = v then ((Graph.mk V E).inEdges v).map fun f => if f = old then new else f
      else (Graph.mk V E).inEdges v := by
  simp only [inEdges, findVertex, rename, Array.getElem?_modify, VertexId.index_inj]
  cases V[v.index]? <;> split_ifs <;> simp

/-- What does not depend on the lists of a vertex stays as it is. -/
theorem map_detach {β : Type} {label : Vertex ν → β}
    (hl : ∀ y out inc, label ⟨y.id, y.value, out, inc⟩ = label y) (V : Array (Vertex ν))
    (e : EdgeId) (s t : VertexId) : (detach V e s t).map label = V.map label := by
  refine Array.ext_getElem? fun k => ?_
  simp only [detach, Array.getElem?_map, Array.getElem?_modify]
  split <;> split <;> simp only [Option.map_map, Function.comp_def, hl]

/-- Renaming an edge leaves everything about the vertices but their lists of edges. -/
theorem map_rename {β : Type} {label : Vertex ν → β}
    (hl : ∀ y out inc, label ⟨y.id, y.value, out, inc⟩ = label y) (V : Array (Vertex ν))
    (old new : EdgeId) (s t : VertexId) : (rename V old new s t).map label = V.map label := by
  refine Array.ext_getElem? fun k => ?_
  simp only [rename, Array.getElem?_map, Array.getElem?_modify]
  split <;> split <;> simp only [Option.map_map, Function.comp_def, hl]

/-! ## The graph after the erasure -/

/-- What an erasure leaves: the edge `e` was there, and the last edge has moved into its place. -/
theorem WellFormed.eraseEdge_eq_ok_iff (h : g.WellFormed) : g.eraseEdge e = .ok (g', a) ↔
    ∃ removed last, g.findEdge e = some removed ∧ g.findEdge g.lastEdge = some last ∧
      a = removed.value ∧
      g' = ⟨if e = g.lastEdge then detach g.vertices e removed.source removed.target
          else rename (detach g.vertices e removed.source removed.target) g.lastEdge e
            last.source last.target,
        (g.edges.setIfInBounds e.index { last with id := e }).pop⟩ := by
  unfold eraseEdge
  cases hr : g.edges[e.index]? with
  | none =>
    have hn : g.findEdge e = none := hr
    simp [hn]
  | some removed =>
    have hf : g.findEdge e = some removed := hr
    have hlt := lt_edgeCount_of_findEdge hf
    obtain ⟨last, hl⟩ : ∃ last, g.findEdge g.lastEdge = some last :=
      exists_findEdge (by rw [h.index_lastEdge (by omega)]; omega)
    have hb : g.edges.back? = some last := by
      rw [Array.back?, ← hl, findEdge, h.index_lastEdge (by omega)]
      rfl
    simp only [hb, hf, hl, h.id_of_findEdge hl, ← h.eq_lastEdge_iff hlt, Except.ok.injEq,
      Prod.mk.injEq]
    constructor
    · rintro ⟨rfl, rfl⟩
      exact ⟨removed, last, rfl, rfl, rfl, rfl⟩
    · rintro ⟨_, _, hr, hl, rfl, rfl⟩
      cases hr
      cases hl
      exact ⟨rfl, rfl⟩

/-- An edge that is there can be erased. -/
theorem WellFormed.exists_eraseEdge (h : g.WellFormed) (hx : g.findEdge e = some x) :
    ∃ g', g.eraseEdge e = .ok (g', x.value) := by
  have hlt := lt_edgeCount_of_findEdge hx
  obtain ⟨last, hl⟩ : ∃ last, g.findEdge g.lastEdge = some last :=
    exists_findEdge (by rw [h.index_lastEdge (by omega)]; omega)
  exact ⟨_, h.eraseEdge_eq_ok_iff.mpr ⟨x, last, hx, hl, rfl, rfl⟩⟩

section

variable (h : g.WellFormed) (he : g.eraseEdge e = .ok (g', a))

include h he

/-- Only an edge of the graph can be erased. -/
theorem WellFormed.lt_of_eraseEdge : e.index < g.edgeCount := by
  obtain ⟨_, _, hr, -⟩ := h.eraseEdge_eq_ok_iff.mp he
  exact lt_edgeCount_of_findEdge hr

/-- An erasure leaves all vertices there. -/
theorem WellFormed.vertexCount_eraseEdge : g'.vertexCount = g.vertexCount := by
  obtain ⟨_, _, -, -, -, rfl⟩ := h.eraseEdge_eq_ok_iff.mp he
  simp only [vertexCount]
  split <;> simp [detach, rename]

/-- An erasure leaves everything about the vertices but their lists of edges. -/
theorem WellFormed.map_vertices_eraseEdge {β : Type} {label : Vertex ν → β}
    (hl : ∀ y out inc, label ⟨y.id, y.value, out, inc⟩ = label y) :
    g'.vertices.map label = g.vertices.map label := by
  obtain ⟨_, _, -, -, -, rfl⟩ := h.eraseEdge_eq_ok_iff.mp he
  simp only
  split
  · rw [map_detach hl]
  · rw [map_rename hl, map_detach hl]

/-- An erasure leaves one edge less. -/
theorem WellFormed.edgeCount_eraseEdge : g'.edgeCount = g.edgeCount - 1 := by
  obtain ⟨_, _, -, -, -, rfl⟩ := h.eraseEdge_eq_ok_iff.mp he
  simp [edgeCount]

/-- The table afterwards: the last name is gone, and `e` names the edge that had it. -/
theorem WellFormed.findEdge_eraseEdge (f : EdgeId) : g'.findEdge f =
    if f = g.lastEdge then none
    else (g.findEdge (g.former e f)).map fun x => { x with id := f } := by
  have hlt := h.lt_of_eraseEdge he
  obtain ⟨_, last, -, hl, -, rfl⟩ := h.eraseEdge_eq_ok_iff.mp he
  have hi : f = g.lastEdge ↔ f.index = g.edgeCount - 1 := by
    rw [← EdgeId.index_inj, h.index_lastEdge (by omega)]
  -- dropping the last entry of a table makes a difference at that entry only
  have hpop (E : Array (Edge ε)) (hE : E.size = g.edgeCount) :
      E.pop[f.index]? = if f = g.lastEdge then none else E[f.index]? := by
    rw [Array.getElem?_pop, hE]
    by_cases hf : f = g.lastEdge
    · rw [if_pos hf, if_neg (Nat.not_lt.mpr (Nat.le_of_eq (hi.mp hf).symm))]
    · have hne : f.index ≠ g.edgeCount - 1 := fun hx => hf (hi.mpr hx)
      rw [if_neg hf]
      split
      · rfl
      · exact (Array.getElem?_eq_none (by omega)).symm
  rw [findEdge, hpop _ (Array.size_setIfInBounds ..), former]
  by_cases hfl : f = g.lastEdge
  · rw [if_pos hfl, if_pos hfl]
  · rw [if_neg hfl, if_neg hfl, Array.getElem?_setIfInBounds]
    by_cases hfe : f = e
    · subst hfe
      have hlt : f.index < g.edges.size := hlt
      rw [if_pos rfl, if_pos hlt, if_pos rfl, hl]
      rfl
    · have hne : e.index ≠ f.index := fun hx => hfe (EdgeId.index_inj.mp hx).symm
      rw [if_neg hne, if_neg hfe]
      show g.findEdge f = _
      cases hx : g.findEdge f with
      | none => rfl
      | some x => rw [Option.map_some, ← h.id_of_findEdge hx]

/-- Every list of outgoing edges afterwards: `e` is gone, and the last edge has its name. -/
theorem WellFormed.outEdges_eraseEdge (v : VertexId) :
    g'.outEdges v = ((g.outEdges v).filter (· ≠ e)).map (g.renumber e) := by
  obtain ⟨removed, last, hr, hl, -, rfl⟩ := h.eraseEdge_eq_ok_iff.mp he
  have hsource {f : EdgeId} {x : Edge ε} (hx : g.findEdge f = some x) (hf : f ∈ g.outEdges v) :
      x.source = v := by
    obtain ⟨y, hy, hv⟩ := h.mem_outEdges_iff.mp hf
    rw [hx] at hy
    exact Option.some.inj hy ▸ hv
  by_cases hlast : e = g.lastEdge
  · have hnot : g.lastEdge ∉ (g.outEdges v).filter (· ≠ e) := by simp [hlast]
    rw [if_pos hlast, outEdges_detach, ite_filter_ne (hsource hr)]
    exact (map_rename_of_not_mem hnot).symm
  · rw [if_neg hlast, outEdges_rename, outEdges_detach, ite_filter_ne (hsource hr)]
    exact ite_map_rename fun hf => hsource hl (List.mem_of_mem_filter hf)

/-- Every list of incoming edges afterwards: `e` is gone, and the last edge has its name. -/
theorem WellFormed.inEdges_eraseEdge (v : VertexId) :
    g'.inEdges v = ((g.inEdges v).filter (· ≠ e)).map (g.renumber e) := by
  obtain ⟨removed, last, hr, hl, -, rfl⟩ := h.eraseEdge_eq_ok_iff.mp he
  have htarget {f : EdgeId} {x : Edge ε} (hx : g.findEdge f = some x) (hf : f ∈ g.inEdges v) :
      x.target = v := by
    obtain ⟨y, hy, hv⟩ := h.mem_inEdges_iff.mp hf
    rw [hx] at hy
    exact Option.some.inj hy ▸ hv
  by_cases hlast : e = g.lastEdge
  · have hnot : g.lastEdge ∉ (g.inEdges v).filter (· ≠ e) := by simp [hlast]
    rw [if_pos hlast, inEdges_detach, ite_filter_ne (htarget hr)]
    exact (map_rename_of_not_mem hnot).symm
  · rw [if_neg hlast, inEdges_rename, inEdges_detach, ite_filter_ne (htarget hr)]
    exact ite_map_rename fun hf => htarget hl (List.mem_of_mem_filter hf)

/-- The entries of a list are edges of the smaller table afterwards. -/
theorem WellFormed.lt_of_mem_map_renumber {l : List EdgeId} (hl : ∀ f ∈ l, f.index < g.edgeCount)
    (hf : f ∈ (l.filter (· ≠ e)).map (g.renumber e)) : f.index < g'.edgeCount := by
  have hlt := h.lt_of_eraseEdge he
  rw [h.edgeCount_eraseEdge he]
  obtain ⟨k, hk, rfl⟩ := List.mem_map.mp hf
  obtain ⟨hkl, hke⟩ := List.mem_filter.mp hk
  have hk' := hl k hkl
  have hne : k ≠ e := of_decide_eq_true hke
  unfold renumber
  split
  · next hlast =>
    have : ¬ e.index + 1 = g.edgeCount := fun hx =>
      hne (hlast.trans ((h.eq_lastEdge_iff hlt).mpr hx).symm)
    omega
  · next hlast =>
    have : ¬ k.index + 1 = g.edgeCount := fun hx => hlast ((h.eq_lastEdge_iff hk').mpr hx)
    omega

/-- Erasing an edge keeps a graph well-formed. -/
theorem WellFormed.eraseEdge : g'.WellFormed := by
  have hvertices := h.vertexCount_eraseEdge he
  have hout := h.outEdges_eraseEdge he
  have hin := h.inEdges_eraseEdge he
  apply WellFormed.of_findEdge
  case hv => exact hvertices ▸ h.vertexCount_le
  case he =>
    rw [h.edgeCount_eraseEdge he]
    exact Nat.le_trans (Nat.sub_le ..) h.edgeCount_le
  case hids => exact h.vertex_id_of_map_eq (h.map_vertices_eraseEdge he fun _ _ _ => rfl)
  case hedge =>
    intro f y hy
    rw [h.findEdge_eraseEdge he] at hy
    by_cases hf : f = g.lastEdge
    · rw [if_pos hf] at hy
      cases hy
    · rw [if_neg hf, Option.map_eq_some_iff] at hy
      obtain ⟨x, hx, rfl⟩ := hy
      have hsource := h.source_lt_of_findEdge hx
      have htarget := h.target_lt_of_findEdge hx
      rw [← hvertices] at hsource htarget
      refine ⟨rfl, hsource, htarget, fun v => ?_, fun v => ?_⟩
      · rw [hout, count_map_renumber hf, h.count_outEdges_of_findEdge hx]
      · rw [hin, count_map_renumber hf, h.count_inEdges_of_findEdge hx]
  case hout =>
    intro v f hf
    exact h.lt_of_mem_map_renumber he (h.outEdges_lt v) (hout v ▸ hf)
  case hin =>
    intro v f hf
    exact h.lt_of_mem_map_renumber he (h.inEdges_lt v) (hin v ▸ hf)

end

end Graph

end CommonSubgraph
