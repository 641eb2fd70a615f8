import CommonSubgraph.Graph.Basic
import Mathlib.Data.List.Count
import Mathlib.Data.List.Induction

/-!
# Graphs that were built are well-formed

Adding a vertex or an edge keeps a graph well-formed as long as there is a name left for it. So
every graph that `Graph.ofEdges` answers is well-formed unless it has too many vertices or edges.
Edges between vertices that are there can always be added, so there is such a graph if the ends of
all edges name one of its vertices (`exists_ofEdges`).
-/

namespace CommonSubgraph

namespace Graph

variable {ν ε : Type} {g g' : Graph ν ε} {s t v : VertexId} {e : EdgeId}

/-! ## Adding a vertex -/

/-- A new vertex is found behind the others, which are as they were. -/
theorem findVertex_insertVertex (g : Graph ν ε) (x : ν) (v : VertexId) :
    (g.insertVertex x).1.findVertex v =
      if v.index = g.vertexCount then some ⟨VertexId.ofNat g.vertexCount, x, #[], #[]⟩
      else g.findVertex v :=
  Array.getElem?_push

/-- A new vertex has no outgoing edges, and those of the others are as they were. -/
theorem outEdges_insertVertex (g : Graph ν ε) (x : ν) (v : VertexId) :
    (g.insertVertex x).1.outEdges v = g.outEdges v := by
  rw [outEdges, outEdges, findVertex_insertVertex]
  by_cases h : v.index = g.vertexCount
  · have hv : g.findVertex v = none := Array.getElem?_eq_none (Nat.le_of_eq h.symm)
    rw [if_pos h, hv]
  · rw [if_neg h]

/-- A new vertex has no incoming edges, and those of the others are as they were. -/
theorem inEdges_insertVertex (g : Graph ν ε) (x : ν) (v : VertexId) :
    (g.insertVertex x).1.inEdges v = g.inEdges v := by
  rw [inEdges, inEdges, findVertex_insertVertex]
  by_cases h : v.index = g.vertexCount
  · have hv : g.findVertex v = none := Array.getElem?_eq_none (Nat.le_of_eq h.symm)
    rw [if_pos h, hv]
  · rw [if_neg h]

theorem vertexCount_insertVertex (g : Graph ν ε) (x : ν) :
    (g.insertVertex x).1.vertexCount = g.vertexCount + 1 := Array.size_push _

/-- Adding a vertex keeps a graph well-formed as long as there is a name for it. -/
theorem WellFormed.insertVertex (h : g.WellFormed) (hn : g.vertexCount < UInt32.size) (x : ν) :
    (g.insertVertex x).1.WellFormed where
  vertexCount_le := by
    rw [vertexCount_insertVertex]
    exact hn
  edgeCount_le := h.edgeCount_le
  vertex_id k hk := by
    simp only [Graph.insertVertex, Array.getElem_push]
    split
    · next hlt => exact h.vertex_id k hlt
    · next hge =>
      have hlt : k < g.vertexCount + 1 := (vertexCount_insertVertex g x) ▸ hk
      have hle : g.vertexCount ≤ k := Nat.le_of_not_lt hge
      rw [Nat.le_antisymm hle (Nat.le_of_lt_succ hlt)]
  edge_id := h.edge_id
  source_lt k hk := by
    rw [vertexCount_insertVertex]
    exact Nat.lt_succ_of_lt (h.source_lt k hk)
  target_lt k hk := by
    rw [vertexCount_insertVertex]
    exact Nat.lt_succ_of_lt (h.target_lt k hk)
  outEdges_lt v e he := h.outEdges_lt v e (outEdges_insertVertex g x v ▸ he)
  inEdges_lt v e he := h.inEdges_lt v e (inEdges_insertVertex g x v ▸ he)
  count_outEdges k hk v := by
    rw [outEdges_insertVertex]
    exact h.count_outEdges k hk v
  count_inEdges k hk v := by
    rw [inEdges_insertVertex]
    exact h.count_inEdges k hk v

/-! ## Adding an edge -/

/-- The two tables after an edge from `s` to `t` was added. -/
theorem insertEdge_eq_ok_iff (x : ε) : g.insertEdge s t x = .ok (g', e) ↔
    g.containsVertex s = true ∧ g.containsVertex t = true ∧ e = EdgeId.ofNat g.edgeCount ∧
      g' = ⟨(g.vertices.modify s.index fun y => { y with outEdges := y.outEdges.push e }).modify
          t.index fun y => { y with inEdges := y.inEdges.push e },
        g.edges.push ⟨e, s, t, x⟩⟩ := by
  unfold insertEdge
  cases hs : g.containsVertex s with
  | false => simp
  | true =>
    cases ht : g.containsVertex t with
    | false => simp
    | true =>
      simp only [Bool.not_true, Bool.false_eq_true, if_false, Except.ok.injEq, Prod.mk.injEq,
        true_and]
      constructor
      · rintro ⟨rfl, rfl⟩
        exact ⟨rfl, rfl⟩
      · rintro ⟨rfl, rfl⟩
        exact ⟨rfl, rfl⟩

/-- Between two vertices of the graph an edge can always be inserted. -/
theorem exists_insertEdge (hs : s.index < g.vertexCount) (ht : t.index < g.vertexCount) (x : ε) :
    ∃ g', g.insertEdge s t x = .ok (g', EdgeId.ofNat g.edgeCount) :=
  ⟨_, (insertEdge_eq_ok_iff x).mpr ⟨decide_eq_true hs, decide_eq_true ht, rfl, rfl⟩⟩

section

variable {x : ε}

/-- A new edge stands behind the others in the table. -/
theorem edges_insertEdge (he : g.insertEdge s t x = .ok (g', e)) :
    g'.edges = g.edges.push ⟨EdgeId.ofNat g.edgeCount, s, t, x⟩ := by
  obtain ⟨-, -, rfl, rfl⟩ := (insertEdge_eq_ok_iff x).mp he
  rfl

/-- There is one edge more. -/
theorem edgeCount_insertEdge (he : g.insertEdge s t x = .ok (g', e)) :
    g'.edgeCount = g.edgeCount + 1 := by
  rw [edgeCount, edges_insertEdge he]
  exact Array.size_push _

/-- There are as many vertices as before. -/
theorem vertexCount_insertEdge (he : g.insertEdge s t x = .ok (g', e)) :
    g'.vertexCount = g.vertexCount := by
  obtain ⟨-, -, -, rfl⟩ := (insertEdge_eq_ok_iff x).mp he
  simp only [vertexCount, Array.size_modify]

/-- The table after the edge was added. -/
theorem findEdge_insertEdge (hn : g.edgeCount < UInt32.size)
    (he : g.insertEdge s t x = .ok (g', e)) (f : EdgeId) :
    g'.findEdge f = if f = e then some ⟨e, s, t, x⟩ else g.findEdge f := by
  obtain ⟨-, -, rfl, rfl⟩ := (insertEdge_eq_ok_iff x).mp he
  have hi : f = EdgeId.ofNat g.edgeCount ↔ f.index = g.edges.size := by
    rw [← EdgeId.index_inj, EdgeId.index_ofNat hn, edgeCount]
  simp only [findEdge, Array.getElem?_push, hi]

/-- The vertex `v` after the edge was added, with what was added to its two lists. -/
theorem findVertex_insertEdge (he : g.insertEdge s t x = .ok (g', e)) (v : VertexId) :
    g'.findVertex v = (g.findVertex v).map fun y =>
      { y with
        outEdges := if v = s then y.outEdges.push e else y.outEdges
        inEdges := if v = t then y.inEdges.push e else y.inEdges } := by
  obtain ⟨-, -, -, rfl⟩ := (insertEdge_eq_ok_iff x).mp he
  have hindex (u : VertexId) : u.index = v.index ↔ v = u := VertexId.index_inj.trans eq_comm
  simp only [findVertex, Array.getElem?_modify, hindex]
  cases g.vertices[v.index]? <;> split_ifs <;> rfl

/-- The new edge comes last among the outgoing edges of its source. -/
theorem outEdges_insertEdge (he : g.insertEdge s t x = .ok (g', e)) (v : VertexId) :
    g'.outEdges v = if v = s then g.outEdges v ++ [e] else g.outEdges v := by
  have hs := ((insertEdge_eq_ok_iff x).mp he).1
  rw [outEdges, outEdges, findVertex_insertEdge he]
  cases hv : g.findVertex v with
  | none =>
    have hne : v ≠ s := by
      rintro rfl
      exact Nat.not_le_of_lt (of_decide_eq_true hs) (Array.getElem?_eq_none_iff.mp hv)
    simp [hne]
  | some y => by_cases hvs : v = s <;> simp only [Option.map_some, if_pos, if_neg, hvs,
      not_false_eq_true, Array.toList_push]

/-- The new edge comes last among the incoming edges of its target. -/
theorem inEdges_insertEdge (he : g.insertEdge s t x = .ok (g', e)) (v : VertexId) :
    g'.inEdges v = if v = t then g.inEdges v ++ [e] else g.inEdges v := by
  have ht := ((insertEdge_eq_ok_iff x).mp he).2.1
  rw [inEdges, inEdges, findVertex_insertEdge he]
  cases hv : g.findVertex v with
  | none =>
    have hne : v ≠ t := by
      rintro rfl
      exact Nat.not_le_of_lt (of_decide_eq_true ht) (Array.getElem?_eq_none_iff.mp hv)
    simp [hne]
  | some y => by_cases hvt : v = t <;> simp only [Option.map_some, if_pos, if_neg, hvt,
      not_false_eq_true, Array.toList_push]

/-- An edge of the new graph is an old one or the new one. -/
theorem forall_edges_insertEdge (he : g.insertEdge s t x = .ok (g', e)) {p : Nat → Edge ε → Prop}
    (hold : ∀ k (hk : k < g.edges.size), p k g.edges[k])
    (hnew : p g.edgeCount ⟨EdgeId.ofNat g.edgeCount, s, t, x⟩) :
    ∀ k (hk : k < g'.edges.size), p k g'.edges[k] := by
  intro k hk
  have hle : k ≤ g.edgeCount :=
    Nat.le_of_lt_succ (Nat.lt_of_lt_of_eq hk (edgeCount_insertEdge he))
  simp only [edges_insertEdge he, Array.getElem_push]
  split
  · next hlt => exact hold k hlt
  · next hge =>
    obtain rfl : k = g.edgeCount := Nat.le_antisymm hle (Nat.le_of_not_lt hge)
    exact hnew

/-- Adding the new edge to a list leaves the number of times that an old one stands in it. -/
theorem count_concat_new_of_lt {l : List EdgeId} (hn : g.edgeCount < UInt32.size) {k : Nat}
    (hlt : k < g.edgeCount) (p : Prop) [Decidable p] :
    (if p then l ++ [EdgeId.ofNat g.edgeCount] else l).count (EdgeId.ofNat k) =
      l.count (EdgeId.ofNat k) := by
  have hne : EdgeId.ofNat g.edgeCount ≠ EdgeId.ofNat k := by
    intro h
    have hi := congrArg EdgeId.index h
    rw [EdgeId.index_ofNat (Nat.lt_trans hlt hn), EdgeId.index_ofNat hn] at hi
    exact Nat.ne_of_gt hlt hi
  split
  · rw [List.count_append, List.count_singleton, if_neg (by simpa using hne), Nat.add_zero]
  · rfl

/-- The new edge stands once in the lists of edges of the graph to which it is added. -/
theorem count_concat_new_self {l : List EdgeId} (hl : ∀ f ∈ l, f.index < g.edgeCount)
    (hn : g.edgeCount < UInt32.size) (p : Prop) [Decidable p] :
    (if p then l ++ [EdgeId.ofNat g.edgeCount] else l).count (EdgeId.ofNat g.edgeCount) =
      if p then 1 else 0 := by
  have hzero : l.count (EdgeId.ofNat g.edgeCount) = 0 := by
    refine List.count_eq_zero_of_not_mem fun hm => ?_
    have hlt := hl _ hm
    rw [EdgeId.index_ofNat hn] at hlt
    exact Nat.lt_irrefl _ hlt
  split
  · rw [List.count_append, hzero, List.count_singleton_self]
  · exact hzero

/-- The edges in a list to which the new one may be added have numbers of the larger graph. -/
theorem lt_of_mem_concat_new {l : List EdgeId} (hl : ∀ f ∈ l, f.index < g.edgeCount)
    (hn : g.edgeCount < UInt32.size) {p : Prop} [Decidable p] {f : EdgeId}
    (hf : f ∈ if p then l ++ [EdgeId.ofNat g.edgeCount] else l) : f.index < g.edgeCount + 1 := by
  split at hf
  · rcases List.mem_append.mp hf with hf | hf
    · exact Nat.lt_succ_of_lt (hl f hf)
    · rw [List.mem_singleton.mp hf, EdgeId.index_ofNat hn]
      exact Nat.lt_succ_self _
  · exact Nat.lt_succ_of_lt (hl f hf)

/-- Adding an edge between two vertices of the graph keeps it well-formed as long as there is a name
for the edge. -/
theorem WellFormed.insertEdge (h : g.WellFormed) (hn : g.edgeCount < UInt32.size)
    (he : g.insertEdge s t x = .ok (g', e)) : g'.WellFormed := by
  have hedges := edgeCount_insertEdge he
  have hvertices := vertexCount_insertEdge he
  have hout := outEdges_insertEdge he
  have hin := inEdges_insertEdge he
  obtain ⟨hs, ht, rfl, hg'⟩ := (insertEdge_eq_ok_iff x).mp he
  -- in the table and in the lists the new edge is the last; the rest is as it was
  constructor
  case vertexCount_le => exact hvertices ▸ h.vertexCount_le
  case edgeCount_le => exact hedges ▸ hn
  case vertex_id =>
    intro k hk
    have hk' : k < g.vertices.size := Nat.lt_of_lt_of_eq hk hvertices
    have hold := h.vertex_id k hk'
    simp only [hg', Array.getElem_modify]
    split <;> split <;> exact hold
  case edge_id =>
    exact forall_edges_insertEdge (p := fun k y => y.id = EdgeId.ofNat k) he h.edge_id rfl
  case source_lt =>
    rw [hvertices]
    exact forall_edges_insertEdge (p := fun _ y => y.source.index < g.vertexCount) he h.source_lt
      (of_decide_eq_true hs)
  case target_lt =>
    rw [hvertices]
    exact forall_edges_insertEdge (p := fun _ y => y.target.index < g.vertexCount) he h.target_lt
      (of_decide_eq_true ht)
  case outEdges_lt =>
    intro v f hf
    rw [hout] at hf
    rw [hedges]
    exact lt_of_mem_concat_new (h.outEdges_lt v) hn hf
  case inEdges_lt =>
    intro v f hf
    rw [hin] at hf
    rw [hedges]
    exact lt_of_mem_concat_new (h.inEdges_lt v) hn hf
  case count_outEdges =>
    refine forall_edges_insertEdge (p := fun k y => ∀ v, (g'.outEdges v).count (EdgeId.ofNat k) =
      if y.source = v then 1 else 0) he (fun k hk v => ?_) fun v => ?_
    · rw [hout, count_concat_new_of_lt hn hk, h.count_outEdges k hk]
    · rw [hout, count_concat_new_self (h.outEdges_lt v) hn]
      simp only [eq_comm]
  case count_inEdges =>
    refine forall_edges_insertEdge (p := fun k y => ∀ v, (g'.inEdges v).count (EdgeId.ofNat k) =
      if y.target = v then 1 else 0) he (fun k hk v => ?_) fun v => ?_
    · rw [hin, count_concat_new_of_lt hn hk, h.count_inEdges k hk]
    · rw [hin, count_concat_new_self (h.inEdges_lt v) hn]
      simp only [eq_comm]

end

/-! ## Building -/

/-- Edges between vertices that are there can all be added, and go to the end of the table in
order. -/
theorem exists_insertEdges {l : List (VertexId × VertexId × ε)}
    (hl : ∀ p ∈ l, p.1.index < g.vertexCount ∧ p.2.1.index < g.vertexCount) :
    ∃ g', g.insertEdges l = .ok g' ∧ g'.vertexCount = g.vertexCount ∧
      g'.edges.toList = g.edges.toList ++
        l.mapIdx fun k p => ⟨EdgeId.ofNat (g.edgeCount + k), p.1, p.2.1, p.2.2⟩ := by
  induction l generalizing g with
  | nil => exact ⟨g, rfl, rfl, by rw [List.mapIdx_nil, List.append_nil]⟩
  | cons p rest ih =>
    obtain ⟨s, t, x⟩ := p
    obtain ⟨hs, ht⟩ := hl _ List.mem_cons_self
    obtain ⟨g₁, he⟩ := exists_insertEdge hs ht x
    have hcount := vertexCount_insertEdge he
    obtain ⟨g', hg', hv, hedges⟩ := ih (g := g₁) fun p hp =>
      hcount.symm ▸ hl p (List.mem_cons_of_mem _ hp)
    refine ⟨g', ?_, hv.trans hcount, ?_⟩
    · rw [Graph.insertEdges, he]
      exact hg'
    · rw [hedges, edges_insertEdge he, edgeCount_insertEdge he, Array.toList_push,
        List.mapIdx_cons, List.append_assoc]
      simp only [Nat.add_right_comm _ 1, Nat.add_assoc]
      rfl

/-- Several edges are inserted by inserting the first and then the rest. -/
theorem insertEdges_cons_eq_ok_iff {x : ε} {rest : List (VertexId × VertexId × ε)} :
    g.insertEdges ((s, t, x) :: rest) = .ok g' ↔
      ∃ g₁ e, g.insertEdge s t x = .ok (g₁, e) ∧ g₁.insertEdges rest = .ok g' := by
  rw [Graph.insertEdges]
  cases g.insertEdge s t x with
  | error _ => exact ⟨nofun, nofun⟩
  | ok r =>
    constructor
    · exact fun h => ⟨r.1, r.2, rfl, h⟩
    · rintro ⟨g₁, e, hr, h⟩
      cases hr
      exact h

/-- Edges that could all be added join vertices that are there. -/
theorem lt_of_insertEdges {l : List (VertexId × VertexId × ε)} (hl : g.insertEdges l = .ok g') :
    ∀ p ∈ l, p.1.index < g.vertexCount ∧ p.2.1.index < g.vertexCount := by
  induction l generalizing g with
  | nil => exact nofun
  | cons p rest ih =>
    obtain ⟨g₁, e, he, hrest⟩ := insertEdges_cons_eq_ok_iff.mp hl
    obtain ⟨hs, ht, -⟩ := (insertEdge_eq_ok_iff p.2.2).mp he
    refine List.forall_mem_cons.mpr ⟨⟨of_decide_eq_true hs, of_decide_eq_true ht⟩, ?_⟩
    rw [← vertexCount_insertEdge he]
    exact ih hrest

/-- The tables after edges were added. -/
theorem tables_insertEdges {l : List (VertexId × VertexId × ε)} (hl : g.insertEdges l = .ok g') :
    g'.vertexCount = g.vertexCount ∧ g'.edges.toList = g.edges.toList ++
      l.mapIdx fun k p => ⟨EdgeId.ofNat (g.edgeCount + k), p.1, p.2.1, p.2.2⟩ := by
  obtain ⟨g₁, hg₁, htables⟩ := exists_insertEdges (lt_of_insertEdges hl)
  obtain rfl := Except.ok.inj (hg₁.symm.trans hl)
  exact htables

/-- A graph built from values has a vertex for each. -/
theorem vertexCount_ofVertexValues (values : List ν) :
    (ofVertexValues values : Graph ν ε).vertexCount = values.length := by
  induction values using List.reverseRecOn with
  | nil => rfl
  | append_singleton values x ih =>
    rw [ofVertexValues, List.foldl_append, List.length_append]
    exact (vertexCount_insertVertex _ x).trans (congrArg (· + 1) ih)

/-- A graph built from values has no edges. -/
theorem edges_ofVertexValues (values : List ν) :
    (ofVertexValues values : Graph ν ε).edges = #[] := by
  induction values using List.reverseRecOn with
  | nil => rfl
  | append_singleton values x ih =>
    rw [ofVertexValues, List.foldl_append]
    exact ih

/-- Inserting edges keeps a graph well-formed as long as there are names for all of them. -/
theorem WellFormed.insertEdges (h : g.WellFormed) {l : List (VertexId × VertexId × ε)}
    (hn : g.edgeCount + l.length ≤ UInt32.size) (hl : g.insertEdges l = .ok g') :
    g'.WellFormed := by
  induction l generalizing g with
  | nil => exact Except.ok.inj hl ▸ h
  | cons p rest ih =>
    obtain ⟨g₁, e, he, hrest⟩ := insertEdges_cons_eq_ok_iff.mp hl
    rw [List.length_cons] at hn
    refine ih (h.insertEdge (by omega) he) ?_ hrest
    rw [edgeCount_insertEdge he]
    omega

/-- The graph asked for is built if the ends of all edges name vertices. -/
theorem exists_ofEdges (a : ν) (b : ε) {n : Nat} {pairs : List (Nat × Nat)}
    (hpairs : ∀ p ∈ pairs, p.1 % UInt32.size < n ∧ p.2 % UInt32.size < n) :
    ∃ g : Graph ν ε, ofEdges a b n pairs = .ok g ∧ g.vertexCount = n ∧
      g.edges.toList =
        pairs.mapIdx fun k p => ⟨EdgeId.ofNat k, VertexId.ofNat p.1, VertexId.ofNat p.2, b⟩ := by
  have hcount : (ofVertexValues (List.replicate n a) : Graph ν ε).vertexCount = n := by
    rw [vertexCount_ofVertexValues, List.length_replicate]
  have hempty := edges_ofVertexValues (ε := ε) (List.replicate n a)
  obtain ⟨g, hg, hv, hedges⟩ := exists_insertEdges (g := ofVertexValues (List.replicate n a))
    (l := pairs.map fun p => (VertexId.ofNat p.1, VertexId.ofNat p.2, b)) (by
      simpa only [hcount, List.forall_mem_map, VertexId.index_ofNat_mod] using hpairs)
  refine ⟨g, hg, hv.trans hcount, ?_⟩
  rw [hedges, edgeCount, hempty]
  refine List.ext_getElem? fun k => ?_
  simp [List.getElem?_mapIdx, Function.comp_def]

/-- A graph built from values is well-formed as long as there are names for its vertices. -/
theorem wellFormed_ofVertexValues (values : List ν) (hn : values.length ≤ UInt32.size) :
    (ofVertexValues values : Graph ν ε).WellFormed ∧
      (ofVertexValues values : Graph ν ε).edgeCount = 0 := by
  have step : ∀ (l : List ν) (g : Graph ν ε), g.WellFormed → g.edgeCount = 0 →
      g.vertexCount + l.length ≤ UInt32.size →
      (l.foldl (fun g x => (g.insertVertex x).1) g).WellFormed ∧
        (l.foldl (fun g x => (g.insertVertex x).1) g).edgeCount = 0 := by
    intro l
    induction l with
    | nil => exact fun g hg he _ => ⟨hg, he⟩
    | cons x rest ih =>
      intro g hg he hle
      rw [List.length_cons] at hle
      refine ih _ (hg.insertVertex (by omega) x) he ?_
      rw [vertexCount_insertVertex]
      omega
  refine step values empty wellFormed_empty rfl ?_
  show 0 + values.length ≤ UInt32.size
  omega

/-- A graph built from pairs of numbers is well-formed as long as there are names for its vertices
and edges. -/
theorem wellFormed_ofEdges {a : ν} {b : ε} {n : Nat} {pairs : List (Nat × Nat)}
    (hn : n ≤ UInt32.size) (hpairs : pairs.length ≤ UInt32.size)
    (h : ofEdges a b n pairs = .ok g) : g.WellFormed := by
  obtain ⟨hwf, hedges⟩ := wellFormed_ofVertexValues (ε := ε) (List.replicate n a)
    (by rwa [List.length_replicate])
  refine hwf.insertEdges ?_ h
  rw [hedges, List.length_map, Nat.zero_add]
  exact hpairs

/-! ## Graphs from all their parts -/

/-- The graph with the given values at its vertices and the listed edges, empty if an end is
missing. -/
def ofParts (values : List ν) (arcs : List (VertexId × VertexId × ε)) : Graph ν ε :=
  match (ofVertexValues values).insertEdges arcs with
  | .ok g => g
  | .error _ => empty

/-- A graph built from all its parts is well-formed as long as there are names for them. -/
theorem wellFormed_ofParts {values : List ν} {arcs : List (VertexId × VertexId × ε)}
    (hvalues : values.length ≤ UInt32.size) (harcs : arcs.length ≤ UInt32.size) :
    (ofParts values arcs).WellFormed := by
  obtain ⟨hwf, hedges⟩ := wellFormed_ofVertexValues (ε := ε) values hvalues
  rw [ofParts]
  cases h : (ofVertexValues values).insertEdges arcs with
  | ok g =>
    refine hwf.insertEdges ?_ h
    rwa [hedges, Nat.zero_add]
  | error _ => exact wellFormed_empty

/-! ## Graphs without values -/

/-- The graph of `n` vertices with the listed edges and no values, empty if an end is missing. -/
def plain (n : Nat) (pairs : List (Nat × Nat)) : Graph Unit Unit :=
  match ofEdges () () n pairs with
  | .ok g => g
  | .error _ => empty

/-- A graph without values is well-formed as long as there are names for its vertices and edges. -/
theorem wellFormed_plain {n : Nat} {pairs : List (Nat × Nat)} (hn : n ≤ UInt32.size)
    (hpairs : pairs.length ≤ UInt32.size) : (plain n pairs).WellFormed := by
  rw [plain]
  cases h : ofEdges () () n pairs with
  | ok g => exact wellFormed_ofEdges hn hpairs h
  | error _ => exact wellFormed_empty

end Graph

end CommonSubgraph
