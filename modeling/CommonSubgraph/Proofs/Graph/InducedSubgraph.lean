import CommonSubgraph.Isomorphism
import CommonSubgraph.Proofs.Graph.Copies
import CommonSubgraph.Proofs.Graph.Erasure

/-!
# The copy on listed vertices is the induced subgraph

The vertices of the copy carry the values of the listed vertices in the order of the list, and
between any two of them lie copies of just the edges that lie between the listed ones, in their
order (`Graph.IsInduced`). The names of the edges play no part in this, since the copies are made
along the lists at the vertices. A list that names a vertex twice, or one that is not there, is
refused (`WellFormed.induced_exact`).

What is joined in a graph built edge by edge is the sequence of the insertions there
(`WellFormed.map_edgeValue?_joining_insertEdges`). Of the edges that are copied, those that go
between two given positions are all inserted for one entry of the list, so they are in the order of
the edges out of the vertex listed there.
-/

namespace CommonSubgraph

namespace Graph

variable {ν ε : Type} {g g' : Graph ν ε} {ids : List VertexId} {s t u v w : VertexId} {e : EdgeId}
  {x : ε}

/-- The value at the vertex `v`, if there is such a vertex. -/
def vertexValue? (g : Graph ν ε) (v : VertexId) : Option ν := (g.findVertex v).map Vertex.value

/-- The value of the edge `e`, if there is such an edge. -/
def edgeValue? (g : Graph ν ε) (e : EdgeId) : Option ε := (g.findEdge e).map Edge.value

/-- The graph `g'` is the subgraph of `g` on the listed vertices, in the order of the list. -/
structure IsInduced (g : Graph ν ε) (ids : List VertexId) (g' : Graph ν ε) : Prop where
  wellFormed : g'.WellFormed
  vertexCount_eq : g'.vertexCount = ids.length
  value_eq : ∀ k v, ids[k]? = some v → ∃ x, g.vertexValue? v = some x ∧
    g'.vertexValue? (VertexId.ofNat k) = some x
  edgesBetween_eq : ∀ a b u w, ids[a]? = some u → ids[b]? = some w → ∃ es es',
    g.edgesBetween u w = .ok es ∧
    g'.edgesBetween (VertexId.ofNat a) (VertexId.ofNat b) = .ok es' ∧
    es'.map g'.edgeValue? = es.map g.edgeValue?
  between : ∀ e, g'.containsEdge e = true → ∃ a b es', a < ids.length ∧ b < ids.length ∧
    g'.edgesBetween (VertexId.ofNat a) (VertexId.ofNat b) = .ok es' ∧ e ∈ es'

/-! ## Values at the vertices -/

/-- Inserting an edge leaves the values at the vertices. -/
theorem vertexValue?_insertEdge (he : g.insertEdge s t x = .ok (g', e)) (v : VertexId) :
    g'.vertexValue? v = g.vertexValue? v := by
  rw [vertexValue?, vertexValue?, findVertex_insertEdge he, Option.map_map]
  rfl

/-- Inserting edges leaves the values at the vertices. -/
theorem vertexValue?_insertEdges {l : List (VertexId × VertexId × ε)}
    (hl : g.insertEdges l = .ok g') (v : VertexId) : g'.vertexValue? v = g.vertexValue? v := by
  induction l generalizing g with
  | nil => rw [Except.ok.inj hl]
  | cons p rest ih =>
    obtain ⟨g₁, e, he, hrest⟩ := insertEdges_cons_eq_ok_iff.mp hl
    rw [ih hrest, vertexValue?_insertEdge he]

/-- A graph built from values has them at its vertices in order. -/
theorem vertexValue?_ofVertexValues (values : List ν) (v : VertexId) :
    (ofVertexValues values : Graph ν ε).vertexValue? v = values[v.index]? := by
  induction values using List.reverseRecOn with
  | nil => rfl
  | append_singleton values a ih =>
    have hcount : (ofVertexValues values : Graph ν ε).vertexCount = values.length :=
      vertexCount_ofVertexValues values
    rw [ofVertexValues, List.foldl_concat, vertexValue?, findVertex_insertVertex,
      ← ofVertexValues, hcount]
    by_cases hv : v.index = values.length
    · rw [if_pos hv, hv, List.getElem?_concat_length, Option.map_some]
    · rw [if_neg hv, ← vertexValue?, ih]
      by_cases hlt : v.index < values.length
      · rw [List.getElem?_append_left hlt]
      · rw [List.getElem?_eq_none (by omega), List.getElem?_eq_none]
        rw [List.length_append, List.length_singleton]
        omega

/-! ## Values of the edges between two vertices -/

/-- An insertion puts its value after those that are there, if it is between these vertices. -/
theorem WellFormed.map_edgeValue?_joining_insertEdge (h : g.WellFormed)
    (hn : g.edgeCount < UInt32.size) (he : g.insertEdge s t x = .ok (g', e)) (u w : VertexId) :
    (g'.joining u w).map g'.edgeValue? =
      (g.joining u w).map g.edgeValue? ++ if s = u ∧ t = w then [some x] else [] := by
  have hname := ((insertEdge_eq_ok_iff x).mp he).2.2.1
  -- the new name is not among those listed so far, so looking these up gives what it gave
  have hold : ∀ f ∈ g.outEdges u, g'.findEdge f = g.findEdge f := by
    intro f hf
    have hne : f ≠ e := by
      rintro rfl
      have hlt := h.outEdges_lt u f hf
      rw [hname, EdgeId.index_ofNat hn] at hlt
      exact Nat.lt_irrefl _ hlt
    rw [findEdge_insertEdge hn he, if_neg hne]
  have hnew : g'.findEdge e = some ⟨e, s, t, x⟩ := by
    rw [findEdge_insertEdge hn he, if_pos rfl]
  have hkept : ((g.outEdges u).filter fun f => g'.target? f = some w).map g'.edgeValue? =
      (g.joining u w).map g.edgeValue? := by
    rw [joining, List.filter_congr fun f hf => by rw [target?, hold f hf, ← target?]]
    refine List.map_congr_left fun f hf => ?_
    rw [edgeValue?, hold f (List.mem_of_mem_filter hf), ← edgeValue?]
  rw [joining, outEdges_insertEdge he]
  by_cases hs : u = s
  · rw [if_pos hs, List.filter_append, List.map_append, hkept]
    by_cases ht : t = w
    · simp [target?, edgeValue?, hnew, hs, ht]
    · simp [target?, hnew, ht]
  · rw [if_neg hs, hkept, if_neg fun hst => hs hst.1.symm, List.append_nil]

/-- Inserting edges adds the values of those between two vertices behind the ones that are there, in
order. -/
theorem WellFormed.map_edgeValue?_joining_insertEdges (h : g.WellFormed)
    {l : List (VertexId × VertexId × ε)} (hn : g.edgeCount + l.length ≤ UInt32.size)
    (hl : g.insertEdges l = .ok g') (u w : VertexId) :
    (g'.joining u w).map g'.edgeValue? = (g.joining u w).map g.edgeValue? ++
      (l.filter fun p => p.1 = u ∧ p.2.1 = w).map fun p => some p.2.2 := by
  induction l generalizing g with
  | nil => rw [Except.ok.inj hl, List.filter_nil, List.map_nil, List.append_nil]
  | cons p rest ih =>
    obtain ⟨g₁, e, he, hrest⟩ := insertEdges_cons_eq_ok_iff.mp hl
    rw [List.length_cons] at hn
    have hlt : g.edgeCount < UInt32.size := by omega
    have hn₁ : g₁.edgeCount + rest.length ≤ UInt32.size := by
      rw [edgeCount_insertEdge he]
      omega
    rw [ih (h.insertEdge hlt he) hn₁ hrest, h.map_edgeValue?_joining_insertEdge hlt he,
      List.append_assoc, List.filter_cons]
    by_cases hp : p.1 = u ∧ p.2.1 = w
    · simp [hp]
    · simp [hp]

/-! ## The copied edges between two positions -/

/-- Only one entry of a list without repetitions adds to the whole. -/
theorem flatMap_eq_of_forall_ne {α β : Type} {l : List α} {f : α → List β} {a : α} (hl : l.Nodup)
    (ha : a ∈ l) (hf : ∀ b ∈ l, b ≠ a → f b = []) : l.flatMap f = f a := by
  obtain ⟨before, after, rfl⟩ := List.append_of_mem ha
  rw [List.nodup_middle, List.nodup_cons, List.mem_append, not_or] at hl
  have hbefore : before.flatMap f = [] := List.flatMap_eq_nil_iff.mpr fun b hb =>
    hf b (List.mem_append_left _ hb) fun hba => hl.1.1 (hba ▸ hb)
  have hafter : after.flatMap f = [] := List.flatMap_eq_nil_iff.mpr fun b hb =>
    hf b (List.mem_append_right _ (List.mem_cons_of_mem a hb)) fun hba => hl.1.2 (hba ▸ hb)
  rw [List.flatMap_append, List.flatMap_cons, hbefore, hafter, List.nil_append, List.append_nil]

/-- Of the edges copied for `u`, those to the position of `w` are the edges from `u` to `w`. -/
theorem Listable.map_edgesWithin_between (hl : g.Listable ids) (h : g.WellFormed) {a b : Nat}
    (ha : ids[a]? = some u) (hb : ids[b]? = some w) :
    ((g.edgesWithin ids u).filter fun p =>
      p.1 = VertexId.ofNat a ∧ p.2.1 = VertexId.ofNat b).map (fun p => some p.2.2) =
      (g.joining u w).map g.edgeValue? := by
  have hw : w ∈ ids := List.mem_of_getElem? hb
  have hsource : VertexId.ofNat (ids.idxOf u) = VertexId.ofNat a :=
    (hl.ofNat_idxOf_eq_iff h (List.mem_of_getElem? ha) ha).mpr rfl
  rw [edgesWithin, joining, List.filter_filterMap, List.map_filterMap, ← List.filterMap_eq_map,
    List.filterMap_filter]
  refine List.filterMap_congr fun e he => ?_
  obtain ⟨y, hy, -⟩ := h.mem_outEdges_iff.mp he
  simp only [target?, edgeValue?, hy, Option.map_some, Option.bind_eq_bind, Option.bind_some,
    Option.some.injEq, decide_eq_true_eq, Function.comp_apply]
  -- an edge to a vertex that is not listed is left out on both sides
  by_cases ht : y.target ∈ ids
  · have htarget := hl.ofNat_idxOf_eq_iff h ht hb
    rw [idxOf?_of_mem ht]
    by_cases hyw : y.target = w
    · obtain rfl := hyw
      simp [hsource, htarget]
    · simp [hsource, htarget, hyw]
  · have hyw : y.target ≠ w := fun hyw => ht (hyw ▸ hw)
    rw [List.idxOf?_eq_none_iff.mpr ht, if_neg hyw]
    rfl

/-- Between two positions of a copy lie copies of the edges between the vertices listed there. -/
theorem WellFormed.map_edgeValue?_joining_induced (h : g.WellFormed) (hi : g.induced ids = .ok g')
    {a b : Nat} (ha : ids[a]? = some u) (hb : ids[b]? = some w) :
    (g'.joining (VertexId.ofNat a) (VertexId.ofNat b)).map g'.edgeValue? =
      (g.joining u w).map g.edgeValue? := by
  obtain ⟨values, hv, hwf, hzero, hn, hins⟩ := h.induced_eq_ok hi
  obtain ⟨hl, -⟩ := listable_of_listedValues hv
  have hempty (s : VertexId) : (ofVertexValues values : Graph ν ε).outEdges s = [] :=
    List.eq_nil_iff_forall_not_mem.mpr fun e he =>
      Nat.not_lt_zero _ (hzero ▸ hwf.outEdges_lt s e he)
  -- what is copied for another vertex than `u` has another source
  have hother : ∀ v ∈ ids, v ≠ u → ((g.edgesWithin ids v).filter fun p =>
      p.1 = VertexId.ofNat a ∧ p.2.1 = VertexId.ofNat b) = [] := by
    intro v hv hne
    refine List.filter_eq_nil_iff.mpr fun p hp => ?_
    obtain ⟨k, y, -, rfl⟩ := exists_of_mem_edgesWithin hp
    rw [decide_eq_true_eq, hl.ofNat_idxOf_eq_iff h hv ha]
    exact fun hvu => hne hvu.1
  rw [hwf.map_edgeValue?_joining_insertEdges hn hins, joining, hempty, List.filter_nil,
    List.map_nil, List.nil_append, List.filter_flatMap,
    flatMap_eq_of_forall_ne hl.nodup (List.mem_of_getElem? ha) hother,
    hl.map_edgesWithin_between h ha hb]

/-- A copied vertex carries the value of the one listed at its position. -/
theorem WellFormed.vertexValue?_induced (h : g.WellFormed) (hi : g.induced ids = .ok g') {k : Nat}
    (hk : ids[k]? = some v) : ∃ a, g.vertexValue? v = some a ∧
      g'.vertexValue? (VertexId.ofNat k) = some a := by
  obtain ⟨values, hv, -, -, -, hins⟩ := h.induced_eq_ok hi
  obtain ⟨hl, hvalues⟩ := listable_of_listedValues hv
  have hlt : k < UInt32.size := by
    have hle := Nat.le_trans (hl.length_le h) h.vertexCount_le
    exact Nat.lt_of_lt_of_le (List.getElem?_eq_some_iff.mp hk).1 hle
  have hlisted : some (g.vertexValue? v) = values[k]?.map some := by
    have := congrArg (·[k]?) hvalues
    rwa [List.getElem?_map, hk, List.getElem?_map] at this
  obtain ⟨a, ha, hsome⟩ := Option.map_eq_some_iff.mp hlisted.symm
  refine ⟨a, hsome.symm, ?_⟩
  rw [vertexValue?_insertEdges hins, vertexValue?_ofVertexValues, VertexId.index_ofNat hlt, ha]

/-- A copy of listed vertices is the subgraph on them. -/
theorem WellFormed.isInduced (h : g.WellFormed) (hi : g.induced ids = .ok g') :
    IsInduced g ids g' := by
  have hg' := h.induced hi
  have hcount := vertexCount_induced hi
  obtain ⟨values, hv, -⟩ := h.induced_eq_ok hi
  obtain ⟨hl, -⟩ := listable_of_listedValues hv
  have hposition {k : Nat} (hk : k < ids.length) : g'.containsVertex (VertexId.ofNat k) = true := by
    rw [containsVertex_iff, hg'.index_ofNat (hcount ▸ hk), hcount]
    exact hk
  constructor
  case wellFormed => exact hg'
  case vertexCount_eq => exact hcount
  case value_eq => exact fun k v hk => h.vertexValue?_induced hi hk
  case edgesBetween_eq =>
    intro a b u w ha hb
    have hu := hl.contains u (List.mem_of_getElem? ha)
    have hlt := (List.getElem?_eq_some_iff.mp ha).1
    exact ⟨_, _, edgesBetween_eq_joining h hu w, edgesBetween_eq_joining hg' (hposition hlt) _,
      h.map_edgeValue?_joining_induced hi ha hb⟩
  case between =>
    intro e he
    obtain ⟨y, hy⟩ := exists_findEdge (of_decide_eq_true he)
    have hs : y.source.index < ids.length := hcount ▸ hg'.source_lt_of_findEdge hy
    have ht : y.target.index < ids.length := hcount ▸ hg'.target_lt_of_findEdge hy
    refine ⟨_, _, _, hs, ht, edgesBetween_eq_joining hg' (hposition hs) _, ?_⟩
    -- an edge of the copy stands among the edges between its own ends
    rw [VertexId.ofNat_index, VertexId.ofNat_index, joining, List.mem_filter, target?, hy]
    exact ⟨hg'.mem_outEdges_iff.mpr ⟨y, hy, rfl⟩, decide_eq_true rfl⟩

/-- A list of vertices is refused for its first entry that cannot be listed, and for nothing
else. -/
theorem induced_eq_error_iff {err : GraphError} :
    g.induced ids = .error err ↔ g.Refused ids err := by
  cases hv : g.listedValues [] ids with
  | ok values =>
    obtain ⟨hl, -⟩ := listable_of_listedValues hv
    obtain ⟨g', hg'⟩ := hl.exists_induced
    rw [hg']
    exact ⟨nofun, fun hr => absurd hr hl.not_refused⟩
  | error err' =>
    have hr := refused_of_listedValues hv
    have hi : g.induced ids = .error err' := by
      rw [Graph.induced, hv]
      rfl
    rw [hi, Except.error.injEq]
    constructor
    · rintro rfl
      exact hr
    · exact hr.unique

/-- Different vertices of a graph can be copied, and the copy is the subgraph on them; otherwise the
first entry that is no vertex or stands earlier in the list is the error. -/
theorem WellFormed.induced_exact (h : g.WellFormed) (ids : List VertexId) :
    (g.Listable ids → ∃ g', g.induced ids = .ok g' ∧ IsInduced g ids g') ∧
      (¬ g.Listable ids → ∃ err, g.Refused ids err ∧ g.induced ids = .error err) := by
  constructor
  · intro hl
    obtain ⟨g', hi⟩ := hl.exists_induced
    exact ⟨g', hi, h.isInduced hi⟩
  · intro hl
    cases hi : g.induced ids with
    | ok g' =>
      obtain ⟨values, hv, -⟩ := h.induced_eq_ok hi
      exact absurd (listable_of_listedValues hv).1 hl
    | error err => exact ⟨err, induced_eq_error_iff.mp hi, rfl⟩

/-- Three edges from vertex 0 to vertex 1, a self-loop at vertex 1, and an edge back; the last edge
has taken over the number of one that was erased. -/
def reordered : Graph Nat Nat :=
  match (ofParts [7, 8, 9] (([(2, 0, 1), (0, 1, 10), (1, 1, 11), (0, 1, 12), (1, 0, 13),
    (0, 1, 14)] : List (Nat × Nat × Nat)).map fun p =>
      (VertexId.ofNat p.1, VertexId.ofNat p.2.1, p.2.2))).eraseEdge (EdgeId.ofNat 0) with
  | .ok (g, _) => g
  | .error _ => empty

/-- The graph of the example is well-formed. -/
theorem wellFormed_reordered : reordered.WellFormed := by
  rw [reordered]
  split
  · next he => exact (wellFormed_ofParts (by decide) (by decide)).eraseEdge he
  · exact wellFormed_empty

/-- Vertices 1 and 0 are copied in this order. With them, vertex 5 is refused before the second
vertex 0 is. -/
theorem induced_exact_reordered : reordered.WellFormed ∧
    (∃ g', reordered.induced [VertexId.ofNat 1, VertexId.ofNat 0] = .ok g' ∧
      IsInduced reordered [VertexId.ofNat 1, VertexId.ofNat 0] g') ∧
    ∃ err, reordered.Refused
        [VertexId.ofNat 1, VertexId.ofNat 0, VertexId.ofNat 5, VertexId.ofNat 0] err ∧
      reordered.induced
        [VertexId.ofNat 1, VertexId.ofNat 0, VertexId.ofNat 5, VertexId.ofNat 0] = .error err :=
  ⟨wellFormed_reordered,
    (wellFormed_reordered.induced_exact _).1 ⟨by decide, by decide +kernel⟩,
    (wellFormed_reordered.induced_exact _).2 fun hl => absurd hl.nodup (by decide)⟩

end Graph

end CommonSubgraph
