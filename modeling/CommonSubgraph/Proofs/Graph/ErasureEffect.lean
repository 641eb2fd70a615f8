import CommonSubgraph.Isomorphism
import CommonSubgraph.Proofs.Graph.Erasure
import CommonSubgraph.Proofs.Graph.Insertion
import CommonSubgraph.Proofs.Graph.Vertices

/-!
# What an erasure changes and what it leaves

Erasing an edge takes it out of the graph and gives its number to the last edge. Everything else
stays (`Graph.EdgeErased`): the other edges keep their places in the table, the vertices their names
and values, and between any two vertices the edges that remain are listed in the order they had.
An edge that is not there cannot be erased, and the graph is then left alone.

The last edge inserted is at the end of the table and of two lists, and no other list holds it. So
erasing it undoes its insertion (`WellFormed.eraseEdge_insertEdge`).
-/

namespace CommonSubgraph

namespace Graph

variable {ν ε : Type} {g g' g₀ : Graph ν ε} {s t u v w : VertexId} {e f : EdgeId} {a : ε}

/-- The graph that an edit of `g` leaves: the one it answers, or `g` itself if it is refused. -/
def afterEdit {α : Type} (g : Graph ν ε) : Except GraphError (Graph ν ε × α) → Graph ν ε
  | .ok (g', _) => g'
  | .error _ => g

/-- An edge that is not there is not erased. -/
theorem eraseEdge_of_containsEdge_eq_false (h : g.containsEdge e = false) :
    g.eraseEdge e = .error (.unknownEdge e) := by
  have hnone : g.edges[e.index]? = none :=
    Array.getElem?_eq_none (Nat.le_of_not_lt (of_decide_eq_false h))
  rw [eraseEdge, hnone]

/-! ## The frame of an erasure -/

/-- The edge `e` of `g` is gone, the last edge has taken over its number, and everything else is as
it was in `g`. -/
structure EdgeErased (g : Graph ν ε) (e : EdgeId) (g' : Graph ν ε) : Prop where
  wellFormed : g'.WellFormed
  edgeCount_eq : g'.edgeCount + 1 = g.edgeCount
  kept : ∀ k < g'.edgeCount, k ≠ e.index → g'.edges[k]? = g.edges[k]?
  moved : e.index < g'.edgeCount → ∃ last, g.edges[g'.edgeCount]? = some last ∧
    g'.edges[e.index]? = some { last with id := e }
  findVertex_eq : ∀ v, g'.findVertex v = (g.findVertex v).map fun y =>
    { y with
      outEdges := (y.outEdges.filter (· ≠ e)).map (g.renumber e)
      inEdges := (y.inEdges.filter (· ≠ e)).map (g.renumber e) }
  edgesBetween_eq : ∀ u w, g.containsVertex u = true → ∃ es, g.edgesBetween u w = .ok es ∧
    g'.edgesBetween u w = .ok ((es.filter (· ≠ e)).map (g.renumber e))

section

variable (h : g.WellFormed) (he : g.eraseEdge e = .ok (g', a))

include h he

/-- What is found at a vertex after an erasure is what was there, without the erased edge and with
the last one renamed. -/
theorem WellFormed.findVertex_eraseEdge (v : VertexId) :
    g'.findVertex v = (g.findVertex v).map fun y =>
      { y with
        outEdges := (y.outEdges.filter (· ≠ e)).map (g.renumber e)
        inEdges := (y.inEdges.filter (· ≠ e)).map (g.renumber e) } := by
  have hlabel : (g'.findVertex v).map (fun y => (y.id, y.value)) =
      (g.findVertex v).map fun y => (y.id, y.value) := by
    rw [findVertex, findVertex, ← Array.getElem?_map, ← Array.getElem?_map,
      h.map_vertices_eraseEdge he fun _ _ _ => rfl]
  have hout := h.outEdges_eraseEdge he v
  have hin := h.inEdges_eraseEdge he v
  cases hy : g.findVertex v with
  | none =>
    rw [hy, Option.map_none, Option.map_eq_none_iff] at hlabel
    rw [hlabel, Option.map_none]
  | some y =>
    rw [hy, Option.map_some, Option.map_eq_some_iff] at hlabel
    obtain ⟨y', hy', hsame⟩ := hlabel
    obtain ⟨hid, hvalue⟩ := Prod.mk.inj hsame
    simp only [outEdges, inEdges, hy, hy'] at hout hin
    rw [hy', Option.map_some, Option.some.injEq]
    cases y'
    simp_all [← Array.toList_inj]

/-- An edge that stays leads where it led. -/
theorem WellFormed.target?_eraseEdge (hne : f ≠ e) :
    g'.target? (g.renumber e f) = g.target? f := by
  rw [target?, target?, h.findEdge_eraseEdge he, if_neg (renumber_ne_lastEdge hne),
    former_renumber hne, Option.map_map]
  rfl

/-- The edges between two vertices after an erasure are those that were there, the erased one apart,
under their new names. -/
theorem WellFormed.joining_eraseEdge (u w : VertexId) :
    g'.joining u w = ((g.joining u w).filter (· ≠ e)).map (g.renumber e) := by
  rw [joining, joining, h.outEdges_eraseEdge he, List.filter_map, List.filter_filter,
    List.filter_filter]
  refine congrArg _ (List.filter_congr fun f _ => ?_)
  by_cases hne : f = e
  · simp [hne]
  · simp [hne, h.target?_eraseEdge he hne]

/-- An erasure has the effect that it should have, and no other. -/
theorem WellFormed.edgeErased : EdgeErased g e g' := by
  have hlt := h.lt_of_eraseEdge he
  have hcount : g'.edgeCount + 1 = g.edgeCount := by
    rw [h.edgeCount_eraseEdge he]
    omega
  -- the last edge of the table goes to the place of `e` and is renamed to it
  have hedges : ∃ last, g.edges[g'.edgeCount]? = some last ∧
      g'.edges = (g.edges.setIfInBounds e.index { last with id := e }).pop := by
    obtain ⟨_, last, -, hl, -, hg'⟩ := h.eraseEdge_eq_ok_iff.mp he
    rw [findEdge, h.index_lastEdge (by omega), ← hcount, Nat.add_sub_cancel] at hl
    exact ⟨last, hl, congrArg Graph.edges hg'⟩
  obtain ⟨last, hlast, hedges⟩ := hedges
  have hsize : g.edges.size = g'.edgeCount + 1 := hcount.symm
  constructor
  case wellFormed => exact h.eraseEdge he
  case edgeCount_eq => exact hcount
  case kept =>
    intro k hk hne
    rw [hedges, Array.getElem?_pop, Array.size_setIfInBounds, hsize, Nat.add_sub_cancel, if_pos hk,
      Array.getElem?_setIfInBounds_ne (Ne.symm hne)]
  case moved =>
    intro hk
    refine ⟨last, hlast, ?_⟩
    rw [hedges, Array.getElem?_pop, Array.size_setIfInBounds, hsize, Nat.add_sub_cancel, if_pos hk,
      Array.getElem?_setIfInBounds_self_of_lt hlt]
  case findVertex_eq => exact h.findVertex_eraseEdge he
  case edgesBetween_eq =>
    intro u w hu
    have hu' : g'.containsVertex u = true := by
      rw [containsVertex_iff, h.vertexCount_eraseEdge he]
      exact containsVertex_iff.mp hu
    refine ⟨g.joining u w, edgesBetween_eq_joining h hu w, ?_⟩
    rw [edgesBetween_eq_joining (h.eraseEdge he) hu', h.joining_eraseEdge he]

end

/-! ## Undoing an insertion -/

/-- Filtering a new entry out of an array to which it was added gives the array back. -/
theorem filter_push_ne {l : Array EdgeId} (h : e ∉ l) : (l.push e).filter (· ≠ e) = l := by
  rw [← Array.toList_inj, Array.toList_filter, Array.toList_push, List.filter_append,
    List.filter_cons_of_neg (by simp), List.filter_nil, List.append_nil, List.filter_eq_self]
  intro f hf
  refine decide_eq_true fun hfe => h ?_
  exact hfe ▸ Array.mem_toList_iff.mp hf

/-- Detaching an edge that was just put at the end of two lists gives the lists back. -/
theorem detach_modify_push {V : Array (Vertex ν)}
    (hs : ∀ y, V[s.index]? = some y → e ∉ y.outEdges)
    (ht : ∀ y, V[t.index]? = some y → e ∉ y.inEdges) :
    detach ((V.modify s.index fun y => { y with outEdges := y.outEdges.push e }).modify t.index
      fun y => { y with inEdges := y.inEdges.push e }) e s t = V := by
  refine Array.ext_getElem? fun n => ?_
  simp only [detach, Array.getElem?_modify]
  cases hy : V[n]? with
  | none => split <;> split <;> rfl
  | some y =>
    have hout (hsn : s.index = n) : (y.outEdges.push e).filter (· ≠ e) = y.outEdges :=
      filter_push_ne (hs y (hsn ▸ hy))
    have hin (htn : t.index = n) : (y.inEdges.push e).filter (· ≠ e) = y.inEdges :=
      filter_push_ne (ht y (htn ▸ hy))
    by_cases hsn : s.index = n <;> by_cases htn : t.index = n
    · simp only [if_pos hsn, if_pos htn, Option.map_some, hout hsn, hin htn]
    · simp only [if_pos hsn, if_neg htn, Option.map_some, hout hsn]
    · simp only [if_neg hsn, if_pos htn, Option.map_some, hin htn]
    · simp only [if_neg hsn, if_neg htn, Option.map_some]

/-- Erasing the edge that was inserted last gives back the graph there was before. -/
theorem WellFormed.eraseEdge_insertEdge (h : g.WellFormed)
    (he : g₀.insertEdge s t a = .ok (g, e)) : g.eraseEdge e = .ok (g₀, a) := by
  have hcount := edgeCount_insertEdge he
  have hout := outEdges_insertEdge he s
  have hin := inEdges_insertEdge he t
  obtain ⟨-, -, hname, hg⟩ := (insertEdge_eq_ok_iff a).mp he
  have hlast : e = g.lastEdge := by rw [hname, lastEdge, hcount, Nat.add_sub_cancel]
  have hindex : e.index = g₀.edgeCount := by
    rw [hlast, h.index_lastEdge (by omega), hcount, Nat.add_sub_cancel]
  have hx : g.findEdge e = some ⟨e, s, t, a⟩ := by
    rw [findEdge, hindex, hg]
    exact Array.getElem?_push_size
  -- the lists of `g` hold the new edge once, so those of `g₀` did not hold it
  have hfresh {l : List EdgeId} (hl : (l ++ [e]).count e = 1) : e ∉ l := by
    rw [List.count_append, List.count_singleton_self] at hl
    exact List.count_eq_zero.mp (by omega)
  have hs : e ∉ g₀.outEdges s := by
    refine hfresh ?_
    rw [if_pos rfl] at hout
    rw [← hout, h.count_outEdges_of_findEdge hx, if_pos rfl]
  have ht : e ∉ g₀.inEdges t := by
    refine hfresh ?_
    rw [if_pos rfl] at hin
    rw [← hin, h.count_inEdges_of_findEdge hx, if_pos rfl]
  refine h.eraseEdge_eq_ok_iff.mpr ⟨_, _, hx, hlast ▸ hx, rfl, ?_⟩
  have hvertices : detach g.vertices e s t = g₀.vertices := by
    rw [hg]
    refine detach_modify_push (fun y hy => ?_) fun y hy => ?_
    · rw [outEdges, show g₀.findVertex s = some y from hy] at hs
      exact fun hm => hs (Array.mem_toList_iff.mpr hm)
    · rw [inEdges, show g₀.findVertex t = some y from hy] at ht
      exact fun hm => ht (Array.mem_toList_iff.mpr hm)
  have hedges : (g.edges.setIfInBounds e.index ⟨e, s, t, a⟩).pop = g₀.edges := by
    rw [hindex, hg]
    refine Array.ext_getElem? fun k => ?_
    rw [edgeCount, Array.getElem?_pop, Array.size_setIfInBounds, Array.size_push,
      Nat.add_sub_cancel]
    by_cases hk : k < g₀.edges.size
    · rw [if_pos hk, Array.getElem?_setIfInBounds_ne (Nat.ne_of_gt hk),
        Array.getElem?_push_lt hk, Array.getElem?_eq_getElem hk]
    · rw [if_neg hk, Array.getElem?_eq_none (Nat.le_of_not_lt hk)]
  rw [if_pos hlast, hvertices, hedges]

/-! ## The effect of an erasure -/

/-- An edge that is not there cannot be erased, and the graph stays as it is. Erasing one that is
there answers its value, hands its number to the last edge and leaves all else alone. Erasing the
edge that an insertion has just answered gives back the graph there was before, whatever graph this
was. -/
theorem WellFormed.eraseEdge_exact (h : g.WellFormed) (e : EdgeId) :
    (g.containsEdge e = false →
      g.eraseEdge e = .error (.unknownEdge e) ∧ g.afterEdit (g.eraseEdge e) = g) ∧
    (g.containsEdge e = true → ∃ x g', g.findEdge e = some x ∧
      g.eraseEdge e = .ok (g', x.value) ∧ g.afterEdit (g.eraseEdge e) = g' ∧
      EdgeErased g e g') ∧
    ∀ (g₀ : Graph ν ε) (s t : VertexId) (a : ε), g₀.insertEdge s t a = .ok (g, e) →
      g.eraseEdge e = .ok (g₀, a) := by
  refine ⟨fun hout => ?_, fun hin => ?_, fun g₀ s t a he => h.eraseEdge_insertEdge he⟩
  · have hr := eraseEdge_of_containsEdge_eq_false hout
    exact ⟨hr, by rw [hr, afterEdit]⟩
  · obtain ⟨x, hx⟩ := exists_findEdge (of_decide_eq_true hin)
    obtain ⟨g', he⟩ := h.exists_eraseEdge hx
    exact ⟨x, g', hx, he, by rw [he, afterEdit], h.edgeErased he⟩

/-- Two parallel edges, two self-loops at their target, and an edge back from it. -/
def tangled : Graph Unit Nat :=
  ofParts [(), ()] (([(0, 1, 10), (1, 1, 11), (0, 1, 12), (1, 1, 13), (1, 0, 14)] :
    List (Nat × Nat × Nat)).map fun p => (VertexId.ofNat p.1, VertexId.ofNat p.2.1, p.2.2))

/-- The first self-loop is erased, and the edge back takes over its number. -/
theorem eraseEdge_exact_tangled : tangled.WellFormed ∧ ∃ g',
    tangled.eraseEdge (EdgeId.ofNat 1) = .ok (g', 11) ∧ EdgeErased tangled (EdgeId.ofNat 1) g' := by
  have hg : tangled.WellFormed := wellFormed_ofParts (by decide) (by decide)
  obtain ⟨-, herase, -⟩ := hg.eraseEdge_exact (EdgeId.ofNat 1)
  obtain ⟨x, g', hx, he, -, herased⟩ := herase (by decide +kernel)
  have hvalue : (tangled.findEdge (EdgeId.ofNat 1)).map Edge.value = some 11 := by decide +kernel
  rw [hx, Option.map_some, Option.some.injEq] at hvalue
  exact ⟨hg, g', hvalue ▸ he, herased⟩

end Graph

end CommonSubgraph
