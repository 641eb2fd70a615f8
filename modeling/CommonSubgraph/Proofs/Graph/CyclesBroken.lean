import CommonSubgraph.Proofs.Graph.FinishingOrder
import CommonSubgraph.Proofs.Graph.History
import Mathlib.Data.List.Perm.Basic

/-!
# Breaking cycles

The back edges are erased from the highest number down. An erasure gives the number that has become
free to the last edge and leaves the edges with smaller numbers alone, so each edge still due is
called as before when its turn comes (`Graph.Erases`). What is left are the edges that are no back
edges. They form no cycle, and each of the others closes one when it is put back
(`WellFormed.breakCycles_irredundant`).
-/

namespace CommonSubgraph

/-- An edge without its name: where it leads, and its value. -/
def Edge.arc {ε : Type} (x : Edge ε) : VertexId × VertexId × ε := (x.source, x.target, x.value)

/-- A vertex without the edges at it. -/
def Vertex.label {ν : Type} (x : Vertex ν) : VertexId × ν := (x.id, x.value)

namespace Graph

variable {ν ε : Type} {g g' h h' : Graph ν ε} {u w : VertexId} {e f : EdgeId} {a : ε} {x : Edge ε}
  {es : List EdgeId}

/-- The edges without their names, in the order of their numbers. -/
def arcs (g : Graph ν ε) : List (VertexId × VertexId × ε) := g.edges.toList.map Edge.arc

/-- There is an arc for every edge. -/
theorem length_arcs (g : Graph ν ε) : g.arcs.length = g.edgeCount := by
  rw [arcs, List.length_map, Array.length_toList, edgeCount]

/-! ## One erasure -/

open scoped List in
/-- What stands at position `k` leaves a list, and the last element takes its place. -/
theorem perm_cons_dropLast_set {α β : Type} {l : List α} {k : Nat} {x last new : α} {f : α → β}
    (hx : l[k]? = some x) (hlast : l.getLast? = some last) (hf : f new = f last) :
    l.map f ~ f x :: ((l.set k new).dropLast).map f := by
  obtain ⟨init, rfl⟩ := List.getLast?_eq_some_iff.mp hlast
  obtain ⟨hk, hxk⟩ := List.getElem?_eq_some_iff.mp hx
  rw [List.length_append, List.length_singleton] at hk
  by_cases hlt : k < init.length
  · rw [List.getElem_append_left hlt] at hxk
    have hset := (List.set_perm_cons_eraseIdx hlt new).map f
    have hinit := (List.getElem_cons_eraseIdx_perm hlt).map f
    rw [List.map_cons] at hset hinit
    rw [List.set_append_left k new hlt, List.dropLast_concat, List.map_append, ← hxk]
    calc init.map f ++ [f last]
      _ ~ f last :: init.map f := List.perm_append_singleton _ _
      _ ~ f last :: f init[k] :: (init.eraseIdx k).map f := hinit.symm.cons _
      _ ~ f init[k] :: f last :: (init.eraseIdx k).map f := .swap ..
      _ ~ f init[k] :: (init.set k new).map f := (hf ▸ hset.symm).cons _
  · have hk : k = init.length := by omega
    subst hk
    rw [List.getElem_append_right (Nat.le_refl _)] at hxk
    simp only [Nat.sub_self, List.getElem_cons_zero] at hxk
    subst hxk
    simp

section

variable (hg : g.WellFormed) (he : g.eraseEdge e = .ok (g', a))

include hg he

/-- Erasing an edge takes its arc away and leaves the others, perhaps in another order. -/
theorem WellFormed.arcs_eraseEdge (hx : g.findEdge e = some x) :
    g.arcs.Perm (x.arc :: g'.arcs) := by
  obtain ⟨_, last, -, hl, -, rfl⟩ := hg.eraseEdge_eq_ok_iff.mp he
  have hlt := lt_edgeCount_of_findEdge hx
  have hlast : g.edges.toList.getLast? = some last := by
    rw [← hl, findEdge, hg.index_lastEdge (by omega), List.getLast?_eq_getElem?]
    simp [edgeCount]
  have hfind : g.edges.toList[e.index]? = some x := by simpa [findEdge] using hx
  have hperm : (g.edges.toList.map Edge.arc).Perm
      (x.arc :: (g.edges.toList.set e.index { last with id := e }).dropLast.map Edge.arc) :=
    perm_cons_dropLast_set hfind hlast rfl
  simpa [arcs] using hperm

/-- Edges with smaller numbers are called as before. -/
theorem WellFormed.findEdge_eraseEdge_of_lt (hf : f.index < e.index) :
    g'.findEdge f = g.findEdge f := by
  have hlt := hg.lt_of_eraseEdge he
  have hlast : f ≠ g.lastEdge := by
    rintro rfl
    rw [hg.index_lastEdge (by omega)] at hf
    omega
  have hne : f ≠ e := by
    rintro rfl
    exact Nat.lt_irrefl _ hf
  rw [hg.findEdge_eraseEdge he, if_neg hlast, former, if_neg hne]
  cases hx : g.findEdge f with
  | none => rfl
  | some y => rw [Option.map_some, ← hg.id_of_findEdge hx]

/-- Among the edges that are not due, the erased one apart, the erasure only renames. -/
theorem WellFormed.leadsBy_eraseEdge (hes : ∀ f ∈ es, f.index < e.index) :
    g'.LeadsBy (· ∉ es) u w ↔ g.LeadsBy (· ∉ e :: es) u w := by
  have hlt := hg.lt_of_eraseEdge he
  have hfind := hg.findEdge_eraseEdge he
  -- neither the erased edge nor the last one is due
  have hnot : e ∉ es := fun hm => Nat.lt_irrefl _ (hes e hm)
  have hlast : g.lastEdge ∉ es := fun hm => by
    have := hes _ hm
    rw [hg.index_lastEdge (by omega)] at this
    omega
  constructor
  · rintro ⟨f, y, hy, hf, rfl, rfl⟩
    rw [hfind] at hy
    by_cases hfl : f = g.lastEdge
    · rw [if_pos hfl] at hy
      cases hy
    · rw [if_neg hfl, Option.map_eq_some_iff] at hy
      obtain ⟨z, hz, rfl⟩ := hy
      refine ⟨g.former e f, z, hz, ?_, rfl, rfl⟩
      refine List.mem_cons.not.mpr (not_or.mpr ⟨former_ne hfl, ?_⟩)
      rw [former]
      split
      · exact hlast
      · exact hf
  · rintro ⟨f, y, hy, hf, rfl, rfl⟩
    obtain ⟨hfe, hf⟩ := not_or.mp (List.mem_cons.not.mp hf)
    refine ⟨g.renumber e f, { y with id := g.renumber e f }, ?_, ?_, rfl, rfl⟩
    · rw [hfind, former_renumber hfe, hy, Option.map_some, if_neg (renumber_ne_lastEdge hfe)]
    · rw [renumber]
      split
      · exact hnot
      · exact hf

end

/-! ## Several erasures -/

/-- Erasing the edges `es` of `g` in turn leads from `h` to `h'`: when its turn comes, each is the
edge that has its name in `g`, and it is erased. -/
inductive Erases (g : Graph ν ε) : Graph ν ε → List EdgeId → Graph ν ε → Prop
  | nil {h : Graph ν ε} : Erases g h [] h
  | cons {h h₁ h' : Graph ν ε} {e : EdgeId} {es : List EdgeId} {x : Edge ε}
      (hx : g.findEdge e = some x) (hh : h.findEdge e = some x)
      (he : h.eraseEdge e = .ok (h₁, x.value)) (rest : Erases g h₁ es h') : Erases g h (e :: es) h'

/-- From the highest number down, each edge is called as before when its turn comes. -/
theorem WellFormed.exists_erases (hh : h.WellFormed)
    (hdown : es.Pairwise fun e f => f.index < e.index) (hlt : ∀ e ∈ es, e.index < g.edgeCount)
    (hsame : ∀ e ∈ es, h.findEdge e = g.findEdge e) : ∃ h', g.Erases h es h' := by
  induction es generalizing h with
  | nil => exact ⟨h, .nil⟩
  | cons e rest ih =>
    obtain ⟨hbelow, hrest⟩ := List.pairwise_cons.mp hdown
    obtain ⟨x, hx⟩ := exists_findEdge (hlt e List.mem_cons_self)
    have hhx := (hsame e List.mem_cons_self).trans hx
    obtain ⟨h₁, he⟩ := hh.exists_eraseEdge hhx
    obtain ⟨h', hall⟩ := ih (hh.eraseEdge he) hrest
      (fun f hf => hlt f (List.mem_cons_of_mem e hf)) fun f hf => by
        rw [hh.findEdge_eraseEdge_of_lt he (hbelow f hf)]
        exact hsame f (List.mem_cons_of_mem e hf)
    exact ⟨h', .cons hx hhx he hall⟩

namespace Erases

/-- Erasing the edges in turn never fails. -/
theorem eraseEdges_eq (he : g.Erases h es h') : h.eraseEdges es = .ok h' := by
  induction he with
  | nil => rfl
  | cons _ _ he _ ih =>
    rw [eraseEdges, he]
    exact ih

/-- Erasures keep a graph well-formed. -/
theorem wellFormed (he : g.Erases h es h') (hh : h.WellFormed) : h'.WellFormed := by
  induction he with
  | nil => exact hh
  | cons _ _ he _ ih => exact ih (hh.eraseEdge he)

/-- Erasures leave the vertices and their values as they are. -/
theorem map_label_eq (he : g.Erases h es h') (hh : h.WellFormed) :
    h'.vertices.map Vertex.label = h.vertices.map Vertex.label := by
  induction he with
  | nil => rfl
  | cons _ _ he _ ih =>
    exact (ih (hh.eraseEdge he)).trans (hh.map_vertices_eraseEdge he fun _ _ _ => rfl)

/-- What is left after the erasures, with the erased arcs, is what there was. -/
theorem arcs_perm (he : g.Erases h es h') (hh : h.WellFormed) :
    h.arcs.Perm ((es.filterMap g.findEdge).map Edge.arc ++ h'.arcs) := by
  induction he with
  | nil => exact .refl _
  | cons hx hhx he _ ih =>
    rw [List.filterMap_cons_some hx, List.map_cons, List.cons_append]
    exact (hh.arcs_eraseEdge he hhx).trans ((ih (hh.eraseEdge he)).cons _)

/-- What is left leads where the edges lead that were not erased. -/
theorem leadsBy_iff (he : g.Erases h es h') (hh : h.WellFormed)
    (hdown : es.Pairwise fun e f => f.index < e.index) :
    h'.LeadsBy (fun _ => True) u w ↔ h.LeadsBy (· ∉ es) u w := by
  induction he with
  | nil => simp
  | cons _ _ he _ ih =>
    obtain ⟨hbelow, hrest⟩ := List.pairwise_cons.mp hdown
    exact (ih (hh.eraseEdge he) hrest).trans (hh.leadsBy_eraseEdge he hbelow)

end Erases

/-! ## Breaking cycles -/

/-- The edges to be erased are the back edges. -/
theorem mem_doomed_iff : e ∈ g.doomed ↔ e ∈ g.backEdges :=
  (List.mergeSort_perm ..).mem_iff

/-- The edges are erased in descending order of their numbers, so that no erasure renumbers one that
is still to come. -/
theorem pairwise_doomed (hnd : g.backEdges.Nodup) :
    g.doomed.Pairwise fun e f => f.index < e.index := by
  have hle : g.doomed.Pairwise fun e f => decide (f.index ≤ e.index) = true :=
    List.pairwise_mergeSort
      (fun a b c hab hbc => by simp only [decide_eq_true_eq] at *; omega)
      (fun a b => by simp only [Bool.or_eq_true, decide_eq_true_eq]; omega) g.backEdges
  have hne : g.doomed.Nodup := (List.mergeSort_perm ..).nodup_iff.mpr hnd
  refine (hle.and hne).imp fun ⟨hab, hab'⟩ => ?_
  refine Nat.lt_of_le_of_ne (of_decide_eq_true hab) fun hi => hab' (EdgeId.index_inj.mp hi.symm)

/-- An edge from the end of a route back to where the route began closes it. -/
theorem exists_insertEdge_walk {s t : VertexId} (hn : g.edgeCount < UInt32.size)
    (hs : s.index < g.vertexCount) (ht : t.index < g.vertexCount)
    (hroute : Relation.ReflTransGen (g.LeadsBy fun _ => True) t s) (a : ε) :
    ∃ g' f, g.insertEdge s t a = .ok (g', f) ∧ g'.Walk s s := by
  obtain ⟨g', he⟩ := exists_insertEdge hs ht a
  refine ⟨g', _, he, ?_⟩
  have hfind := findEdge_insertEdge hn he
  have hnew : g'.LeadsBy (fun _ => True) s t :=
    ⟨_, _, (hfind _).trans (if_pos rfl), trivial, rfl, rfl⟩
  refine walk_iff_transGen.mpr (.head' hnew (Relation.ReflTransGen.mono ?_ _ _ hroute))
  rintro u w ⟨f, y, hy, -, rfl, rfl⟩
  have hold : f ≠ EdgeId.ofNat g.edgeCount := by
    rintro rfl
    have := lt_edgeCount_of_findEdge hy
    rw [EdgeId.index_ofNat hn] at this
    exact Nat.lt_irrefl _ this
  exact ⟨f, y, (hfind f).trans ((if_neg hold).trans hy), trivial, rfl, rfl⟩

/-- The edges `erased` of `g` were erased and `g'` is left, a graph without cycles to which none of
them can be given back without closing one. -/
structure CyclesBroken (g g' : Graph ν ε) (erased : List EdgeId) : Prop where
  erases : g.Erases g erased g'
  wellFormed : g'.WellFormed
  acyclic : ¬ g'.Cyclic
  labels_eq : g'.vertices.map Vertex.label = g.vertices.map Vertex.label
  arcs_perm : g.arcs.Perm ((erased.filterMap g.findEdge).map Edge.arc ++ g'.arcs)
  closes : ∀ e ∈ erased, ∀ x, g.findEdge e = some x →
    ∃ g'' f, g'.insertEdge x.source x.target x.value = .ok (g'', f) ∧ g''.Walk x.source x.source

/-- Erasing all back edges leaves a graph without cycles, to which none of them can be given
back. -/
theorem Erases.cyclesBroken (he : g.Erases g g.doomed g') (hg : g.WellFormed) :
    CyclesBroken g g' g.doomed := by
  obtain ⟨order, hback⟩ := hg.exists_back
  -- a step along an edge that was kept is a step along no back edge
  have hkept (u w : VertexId) :
      g'.LeadsBy (fun _ => True) u w ↔ g.LeadsBy (· ∉ g.backEdges) u w := by
    simpa only [mem_doomed_iff] using he.leadsBy_iff hg (pairwise_doomed hback.nodup)
  have hlabels := he.map_label_eq hg
  have harcs := he.arcs_perm hg
  have hvertices : g'.vertexCount = g.vertexCount := by
    simpa [vertexCount] using congrArg Array.size hlabels
  constructor
  case erases => exact he
  case wellFormed => exact he.wellFormed hg
  case acyclic =>
    rintro ⟨v, hv⟩
    have hkeep : Relation.TransGen (g.LeadsBy (· ∉ g.backEdges)) v v :=
      Relation.TransGen.mono (fun u w => (hkept u w).mp) _ _ (walk_iff_transGen.mp hv)
    -- along the other edges every step leads to a vertex that finished earlier
    exact Nat.lt_irrefl _ (hback.idxOf_lt hkeep)
  case labels_eq => exact hlabels
  case arcs_perm => exact harcs
  case closes =>
    intro e hm x hx
    have hroute := hback.closes e (mem_doomed_iff.mp hm) x hx
    refine exists_insertEdge_walk ?_ ?_ ?_ ?_ x.value
    · -- one edge at least was erased, so there is a name left
      have hlen := harcs.length_eq
      have hpos : 0 < (g.doomed.filterMap g.findEdge).length :=
        List.length_pos_of_mem (List.mem_filterMap.mpr ⟨e, hm, hx⟩)
      have hle := hg.edgeCount_le
      rw [List.length_append, List.length_map, length_arcs, length_arcs] at hlen
      omega
    · exact hvertices ▸ hg.source_lt_of_findEdge hx
    · exact hvertices ▸ hg.target_lt_of_findEdge hx
    · exact Relation.ReflTransGen.mono (fun u w => (hkept u w).mpr) _ _ hroute

/-- Breaking cycles succeeds, answers how many edges it erased and leaves a graph without cycles to
which none of these edges can be given back; it erases none just if there was no cycle, and then
changes nothing. -/
theorem WellFormed.breakCycles_irredundant (hg : g.WellFormed) :
    ∃ g' n, g.breakCycles = .ok (g', n) ∧ n = g.doomed.length ∧ CyclesBroken g g' g.doomed ∧
      (n = 0 ↔ ¬ g.Cyclic) ∧ (n = 0 → g' = g) := by
  obtain ⟨order, hback⟩ := hg.exists_back
  obtain ⟨g', he⟩ := hg.exists_erases (g := g) (pairwise_doomed hback.nodup)
    (fun e hm => hback.lt e (mem_doomed_iff.mp hm)) fun _ _ => rfl
  refine ⟨g', g.doomed.length, ?_, rfl, he.cyclesBroken hg, ?_, fun hzero => ?_⟩
  · rw [breakCycles]
    change (do return (← g.eraseEdges g.doomed, g.doomed.length)) = _
    rw [he.eraseEdges_eq]
    rfl
  · have hlen : g.doomed.length = g.backEdges.length := List.length_mergeSort _
    rw [hg.cyclic_iff, hlen, List.length_eq_zero_iff, ne_eq, not_not]
  · rw [List.length_eq_zero_iff.mp hzero] at he
    cases he
    rfl

/-- A self-loop, parallel edges and two cycles that share an edge. -/
def entangled : Graph Unit Unit := plain 4 [(0, 1), (2, 2), (1, 2), (2, 0), (2, 0), (2, 3), (3, 1)]

/-- Four edges have to go here: the self-loop, both of the parallel edges, and one that closes a
longer cycle. -/
theorem breakCycles_irredundant_entangled : entangled.WellFormed ∧ ∃ g',
    entangled.breakCycles = .ok (g', 4) ∧ CyclesBroken entangled g' entangled.doomed := by
  have hg : entangled.WellFormed := wellFormed_plain (by decide) (by decide)
  obtain ⟨g', n, hb, hn, hbroken, -⟩ := hg.breakCycles_irredundant
  have hfour : n = 4 := by
    rw [hn, doomed, List.length_mergeSort]
    decide +kernel
  exact ⟨hg, g', hfour ▸ hb, hbroken⟩

end Graph

end CommonSubgraph
