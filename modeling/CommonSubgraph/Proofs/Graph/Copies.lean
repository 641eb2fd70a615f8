import CommonSubgraph.Graph.Induced
import CommonSubgraph.Proofs.Graph.Incidence
import CommonSubgraph.Proofs.Graph.Insertion
import CommonSubgraph.Proofs.Graph.Vertices
import Mathlib.Algebra.Order.BigOperators.Group.List
import Mathlib.Algebra.Order.Group.Nat

/-!
# Listed vertices and the copies made of them

A list of vertices can be copied if it names different vertices of the graph (`Graph.Listable`), and
is otherwise refused for the first entry that does not fit (`Graph.Refused`). A list that can be
copied is no longer than the graph has vertices, and the edges out of its vertices are no more than
the graph has edges. So there are enough names for the copies of both, and the copy is well-formed.
-/

namespace CommonSubgraph

namespace Graph

variable {ν ε : Type} {g g' : Graph ν ε} {ids : List VertexId} {values : List ν}

/-- The edges that a well-formed graph lists are those that it has. -/
theorem mem_edgeIds_iff (h : g.WellFormed) {e : EdgeId} :
    e ∈ g.edgeIds ↔ e.index < g.edgeCount := by
  rw [edgeIds, List.mem_map]
  refine ⟨?_, fun he => ⟨e.index, List.mem_range.mpr he, EdgeId.ofNat_index e⟩⟩
  rintro ⟨k, hk, rfl⟩
  have hlt := List.mem_range.mp hk
  rwa [EdgeId.index_ofNat (Nat.lt_of_lt_of_le hlt h.edgeCount_le)]

/-- As many edges are listed as there are. -/
theorem length_edgeIds (g : Graph ν ε) : g.edgeIds.length = g.edgeCount := by
  rw [edgeIds, List.length_map, List.length_range]

/-! ## The listed vertices -/

/-- Every entry is a vertex of the graph, and none repeats an earlier one. -/
structure Listable (g : Graph ν ε) (ids : List VertexId) : Prop where
  nodup : ids.Nodup
  contains : ∀ v ∈ ids, g.containsVertex v = true

/-- Why the entry `v` cannot be listed after the entries `before`. -/
inductive Unlistable (g : Graph ν ε) (before : List VertexId) (v : VertexId) : GraphError → Prop
  | unknown (hv : g.containsVertex v = false) : Unlistable g before v (.unknownVertex v)
  | repeated (hv : g.containsVertex v = true) (hm : v ∈ before) :
      Unlistable g before v (.duplicateVertex v)

/-- Some entry cannot be listed after those before it, and the first such is the error. -/
def Refused (g : Graph ν ε) (ids : List VertexId) (err : GraphError) : Prop :=
  ∃ k v, ids[k]? = some v ∧ g.Listable (ids.take k) ∧ Unlistable g (ids.take k) v err

/-- Whoever lists values names different vertices of the graph, none of them seen before. -/
theorem listedValues_eq_ok {seen : List VertexId} (h : g.listedValues seen ids = .ok values) :
    ids.map (fun v => (g.findVertex v).map Vertex.value) = values.map some ∧ ids.Nodup ∧
      ∀ v ∈ ids, v ∉ seen ∧ g.containsVertex v = true := by
  induction ids generalizing seen values with
  | nil =>
    obtain rfl := Except.ok.inj h
    simp
  | cons v rest ih =>
    rw [listedValues] at h
    cases hx : g.findVertex v with
    | none =>
      rw [hx] at h
      cases h
    | some x =>
      simp only [hx] at h
      split at h
      · cases h
      · next hseen =>
        cases hrest : g.listedValues (v :: seen) rest with
        | error _ =>
          rw [hrest] at h
          cases h
        | ok others =>
          rw [hrest] at h
          obtain rfl := Except.ok.inj h
          obtain ⟨hvalues, hnd, hall⟩ := ih hrest
          have hv : v ∉ rest := fun hm => (hall v hm).1 List.mem_cons_self
          refine ⟨by simp [hx, hvalues], List.nodup_cons.mpr ⟨hv, hnd⟩, fun w hw => ?_⟩
          rcases List.mem_cons.mp hw with rfl | hw
          · exact ⟨hseen, decide_eq_true (Array.getElem?_eq_some_iff.mp hx).1⟩
          · obtain ⟨hns, hc⟩ := hall w hw
            exact ⟨fun hm => hns (List.mem_cons_of_mem v hm), hc⟩

/-- If no values can be listed, that is for the first entry that cannot stand where it does. -/
theorem listedValues_eq_error {seen : List VertexId} {err : GraphError}
    (h : g.listedValues seen ids = .error err) : ∃ k v, ids[k]? = some v ∧
      (ids.take k).Nodup ∧ (∀ u ∈ ids.take k, u ∉ seen ∧ g.containsVertex u = true) ∧
      Unlistable g (ids.take k ++ seen) v err := by
  -- on the entries; those before the faulty one move to `seen` one by one
  induction ids generalizing seen with
  | nil => cases h
  | cons v rest ih =>
    rw [listedValues] at h
    cases hx : g.findVertex v with
    | none =>
      rw [hx] at h
      cases h
      have hv : g.containsVertex v = false :=
        decide_eq_false (Nat.not_lt_of_le (Array.getElem?_eq_none_iff.mp hx))
      exact ⟨0, v, rfl, List.nodup_nil, nofun, .unknown hv⟩
    | some x =>
      have hv : g.containsVertex v = true := decide_eq_true (Array.getElem?_eq_some_iff.mp hx).1
      simp only [hx] at h
      split at h
      · next hseen =>
        cases h
        exact ⟨0, v, rfl, List.nodup_nil, nofun, .repeated hv hseen⟩
      · next hseen =>
        cases hrest : g.listedValues (v :: seen) rest with
        | ok others =>
          rw [hrest] at h
          cases h
        | error err' =>
          rw [hrest] at h
          cases h
          obtain ⟨k, w, hw, hnd, hall, hun⟩ := ih hrest
          have hfresh : v ∉ rest.take k := fun hm => (hall v hm).1 List.mem_cons_self
          refine ⟨k + 1, w, hw, ?_, ?_, ?_⟩
          · exact List.nodup_cons.mpr ⟨hfresh, hnd⟩
          · refine List.forall_mem_cons.mpr ⟨⟨hseen, hv⟩, fun u hu => ?_⟩
            obtain ⟨hns, hc⟩ := hall u hu
            exact ⟨fun hm => hns (List.mem_cons_of_mem v hm), hc⟩
          · cases hun with
            | unknown hw => exact .unknown hw
            | repeated hw hm => exact .repeated hw (by simpa [or_left_comm] using hm)

/-- Values are listed of listable vertices only, and are then those of the vertices in order. -/
theorem listable_of_listedValues (h : g.listedValues [] ids = .ok values) :
    g.Listable ids ∧ ids.map (fun v => (g.findVertex v).map Vertex.value) = values.map some := by
  obtain ⟨hvalues, hnd, hall⟩ := listedValues_eq_ok h
  exact ⟨⟨hnd, fun v hv => (hall v hv).2⟩, hvalues⟩

/-- There is a value for every listed vertex. -/
theorem length_of_listedValues (h : g.listedValues [] ids = .ok values) :
    values.length = ids.length := by
  simpa only [List.length_map] using congrArg List.length (listable_of_listedValues h).2.symm

/-- An error in the listing is that of the first entry that cannot be listed. -/
theorem refused_of_listedValues {err : GraphError} (h : g.listedValues [] ids = .error err) :
    g.Refused ids err := by
  obtain ⟨k, v, hv, hnd, hall, hun⟩ := listedValues_eq_error h
  exact ⟨k, v, hv, ⟨hnd, fun u hu => (hall u hu).2⟩, List.append_nil (ids.take k) ▸ hun⟩

/-- In a list of different vertices of the graph no entry is a fault. -/
theorem Listable.not_unlistable (h : g.Listable ids) {k : Nat} {v : VertexId} {err : GraphError}
    (hv : ids[k]? = some v) : ¬ Unlistable g (ids.take k) v err := by
  rintro (hun | ⟨-, hm⟩)
  · rw [h.contains v (List.mem_of_getElem? hv)] at hun
    cases hun
  · obtain ⟨hk, rfl⟩ := List.getElem?_eq_some_iff.mp hv
    obtain ⟨j, hj, hjk⟩ := List.mem_take_iff_getElem.mp hm
    have := (h.nodup.getElem_inj_iff).mp hjk
    omega

/-- A list of different vertices of the graph is not refused. -/
theorem Listable.not_refused (h : g.Listable ids) {err : GraphError} : ¬ g.Refused ids err := by
  rintro ⟨k, v, hv, -, hun⟩
  exact h.not_unlistable hv hun

/-- There is one reason at most why an entry cannot be listed. -/
theorem Unlistable.unique {before : List VertexId} {v : VertexId} {err err' : GraphError}
    (h : Unlistable g before v err) (h' : Unlistable g before v err') : err = err' := by
  cases h with
  | unknown hv =>
    cases h' with
    | unknown _ => rfl
    | repeated hv' _ => cases hv.symm.trans hv'
  | repeated hv hm =>
    cases h' with
    | unknown hv' => cases hv.symm.trans hv'
    | repeated _ _ => rfl

/-- The entries before the first that is refused can be listed, so there is only one such. -/
theorem Refused.unique {err err' : GraphError} (h : g.Refused ids err) (h' : g.Refused ids err') :
    err = err' := by
  have hle {j k : Nat} {v : VertexId} {e : GraphError} (hk : g.Listable (ids.take k))
      (hv : ids[j]? = some v) (hun : Unlistable g (ids.take j) v e) : k ≤ j := by
    by_contra hlt
    have hjk : j < k := Nat.lt_of_not_le hlt
    have hv' : (ids.take k)[j]? = some v := by rwa [List.getElem?_take_of_lt hjk]
    have hun' : Unlistable g ((ids.take k).take j) v e := by
      rwa [List.take_take, Nat.min_eq_left (Nat.le_of_lt hjk)]
    exact hk.not_unlistable hv' hun'
  obtain ⟨j, v, hv, hj, hun⟩ := h
  obtain ⟨k, w, hw, hk, hun'⟩ := h'
  obtain rfl : j = k := Nat.le_antisymm (hle hj hw hun') (hle hk hv hun)
  obtain rfl := Option.some.inj (hv.symm.trans hw)
  exact hun.unique hun'

/-- A list of different vertices of the graph has a list of values. -/
theorem Listable.exists_listedValues (h : g.Listable ids) :
    ∃ values, g.listedValues [] ids = .ok values := by
  cases hv : g.listedValues [] ids with
  | ok values => exact ⟨values, rfl⟩
  | error err =>
    exact absurd (refused_of_listedValues hv) h.not_refused

/-- No more vertices can be listed than there are. -/
theorem Listable.length_le (h : g.Listable ids) (hg : g.WellFormed) :
    ids.length ≤ g.vertexCount := by
  rw [← length_vertexIds]
  exact h.nodup.length_le_of_subset fun v hm => (mem_vertexIds_iff hg).mpr (h.contains v hm)

/-- An entry is found where it stands first. -/
theorem idxOf?_of_mem {v : VertexId} (h : v ∈ ids) : ids.idxOf? v = some (ids.idxOf v) := by
  obtain ⟨k, hk⟩ := Option.isSome_iff_exists.mp (List.isSome_idxOf?.mpr h)
  rw [List.idxOf_eq_getD_idxOf?, hk, Option.getD_some]

/-- The name that the copy of a listed vertex has is that of its position. -/
theorem Listable.ofNat_idxOf_eq_iff (h : g.Listable ids) (hg : g.WellFormed) {k : Nat}
    {u v : VertexId} (hv : v ∈ ids) (hk : ids[k]? = some u) :
    VertexId.ofNat (ids.idxOf v) = VertexId.ofNat k ↔ v = u := by
  have hle : ids.length ≤ UInt32.size := Nat.le_trans (h.length_le hg) hg.vertexCount_le
  obtain ⟨hlt, rfl⟩ := List.getElem?_eq_some_iff.mp hk
  have hv' : ids.idxOf v < ids.length := List.idxOf_lt_length_iff.mpr hv
  rw [← VertexId.index_inj, VertexId.index_ofNat (Nat.lt_of_lt_of_le hv' hle),
    VertexId.index_ofNat (Nat.lt_of_lt_of_le hlt hle)]
  constructor
  · rintro rfl
    exact (List.getElem_idxOf hv').symm
  · rintro rfl
    exact h.nodup.idxOf_getElem k hlt

/-! ## The edges between them -/

/-- Different vertices of a well-formed graph share no outgoing edge. -/
theorem WellFormed.nodup_flatMap_outEdges (h : g.WellFormed) (hnd : ids.Nodup) :
    (ids.flatMap g.outEdges).Nodup := by
  refine List.nodup_flatMap.mpr ⟨fun v _ => h.nodup_outEdges v, hnd.imp fun hne e hv hw => hne ?_⟩
  have hsource := (h.source?_of_mem_outEdges hv).symm.trans (h.source?_of_mem_outEdges hw)
  exact Option.some.inj hsource

/-- Different vertices of a graph have together no more outgoing edges than the graph has edges. -/
theorem WellFormed.length_flatMap_outEdges_le (h : g.WellFormed) (hnd : ids.Nodup) :
    (ids.flatMap g.outEdges).length ≤ g.edgeCount := by
  rw [← length_edgeIds]
  refine (h.nodup_flatMap_outEdges hnd).length_le_of_subset fun e he => ?_
  obtain ⟨v, -, hv⟩ := List.mem_flatMap.mp he
  exact (mem_edgeIds_iff h).mpr (h.outEdges_lt v e hv)

/-- A copied edge leads from the position of its source to the position of a listed vertex. -/
theorem exists_of_mem_edgesWithin {v : VertexId} {p : VertexId × VertexId × ε}
    (hp : p ∈ g.edgesWithin ids v) : ∃ k x, k < ids.length ∧
      p = (VertexId.ofNat (ids.idxOf v), VertexId.ofNat k, x) := by
  obtain ⟨e, -, he⟩ := List.mem_filterMap.mp hp
  simp only [Option.bind_eq_bind, Option.bind_eq_some_iff] at he
  obtain ⟨y, -, k, hk, hp⟩ := he
  obtain ⟨hk, -⟩ := List.idxOf?_eq_some_iff.mp hk
  exact ⟨k, y.value, hk, (Option.some.inj hp).symm⟩

/-- No more edges are copied at a vertex than go out of it. -/
theorem length_edgesWithin_le (g : Graph ν ε) (ids : List VertexId) (v : VertexId) :
    (g.edgesWithin ids v).length ≤ (g.outEdges v).length :=
  List.length_filterMap_le ..

/-- No more edges are copied than there are. -/
theorem WellFormed.length_copied_le (h : g.WellFormed) (hnd : ids.Nodup) :
    (ids.flatMap (g.edgesWithin ids)).length ≤ g.edgeCount := by
  refine Nat.le_trans ?_ (h.length_flatMap_outEdges_le hnd)
  rw [List.length_flatMap, List.length_flatMap]
  exact List.sum_le_sum fun v _ => g.length_edgesWithin_le ids v

/-- A copy is the graph of the listed values into which the copied edges are inserted, and there are
names for all of them. -/
theorem WellFormed.induced_eq_ok (h : g.WellFormed) (hi : g.induced ids = .ok g') : ∃ values,
    g.listedValues [] ids = .ok values ∧ (ofVertexValues values : Graph ν ε).WellFormed ∧
      (ofVertexValues values : Graph ν ε).edgeCount = 0 ∧
      (ofVertexValues values : Graph ν ε).edgeCount + (ids.flatMap (g.edgesWithin ids)).length ≤
        UInt32.size ∧
      (ofVertexValues values).insertEdges (ids.flatMap (g.edgesWithin ids)) = .ok g' := by
  rw [Graph.induced] at hi
  cases hv : g.listedValues [] ids with
  | error _ =>
    rw [hv] at hi
    cases hi
  | ok values =>
    rw [hv] at hi
    obtain ⟨hl, -⟩ := listable_of_listedValues hv
    have hle : values.length ≤ UInt32.size :=
      length_of_listedValues hv ▸ Nat.le_trans (hl.length_le h) h.vertexCount_le
    obtain ⟨hwf, hedges⟩ := wellFormed_ofVertexValues (ε := ε) values hle
    refine ⟨values, rfl, hwf, hedges, ?_, hi⟩
    rw [hedges, Nat.zero_add]
    exact Nat.le_trans (h.length_copied_le hl.nodup) h.edgeCount_le

/-- Listable vertices are copied: all ends of the copied edges are positions of the list. -/
theorem Listable.exists_induced (hl : g.Listable ids) : ∃ g', g.induced ids = .ok g' := by
  obtain ⟨values, hv⟩ := hl.exists_listedValues
  have hends : ∀ p ∈ ids.flatMap (g.edgesWithin ids),
      p.1.index < (ofVertexValues values : Graph ν ε).vertexCount ∧
        p.2.1.index < (ofVertexValues values : Graph ν ε).vertexCount := by
    intro p hp
    obtain ⟨v, hmem, hp⟩ := List.mem_flatMap.mp hp
    obtain ⟨k, x, hk, rfl⟩ := exists_of_mem_edgesWithin hp
    rw [vertexCount_ofVertexValues, length_of_listedValues hv, VertexId.index_ofNat_mod,
      VertexId.index_ofNat_mod]
    exact ⟨Nat.lt_of_le_of_lt (Nat.mod_le ..) (List.idxOf_lt_length_iff.mpr hmem),
      Nat.lt_of_le_of_lt (Nat.mod_le ..) hk⟩
  obtain ⟨g', hg', -⟩ := exists_insertEdges hends
  refine ⟨g', ?_⟩
  rw [Graph.induced, hv]
  exact hg'

/-- The copy has as many vertices as are listed. -/
theorem vertexCount_induced (hi : g.induced ids = .ok g') : g'.vertexCount = ids.length := by
  rw [Graph.induced] at hi
  cases hv : g.listedValues [] ids with
  | error _ =>
    rw [hv] at hi
    cases hi
  | ok values =>
    rw [hv] at hi
    rw [(tables_insertEdges hi).1, vertexCount_ofVertexValues, length_of_listedValues hv]

/-- The copy of a well-formed graph on some of its vertices is well-formed. -/
theorem WellFormed.induced (h : g.WellFormed) (hi : g.induced ids = .ok g') : g'.WellFormed := by
  obtain ⟨values, -, hwf, -, hn, hl⟩ := h.induced_eq_ok hi
  exact hwf.insertEdges hn hl

end Graph

end CommonSubgraph
