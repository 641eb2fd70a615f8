import CommonSubgraph.Graph.Cycle
import CommonSubgraph.Proofs.Graph.Copies
import CommonSubgraph.Proofs.Graph.Erasure
import CommonSubgraph.Proofs.Graph.Values
import Mathlib.Data.List.GetD
import Mathlib.Data.List.Sort

/-!
# Graphs and how they came about

Erasing edges changes what the others are called, so the order in which the edges of a graph were
inserted cannot be seen from their names. A `Graph.History` keeps it beside the graph: it remembers
every insertion that ever took place and, for each edge that is left, which of them it came in with.
An insertion is added at the end of both lists, and an erasure moves the last edge to the number
that has become free.

`g.Reached H` says that editing an empty graph led to `g` and that `H` is the history of this. Such
a graph is consistent (`Reached.faithful`): numbers have no gaps, every edge is listed once at
its source, once at its target and nowhere else, and each list is in the order of insertion, with
nothing missing that was inserted there and not erased.

A history that fits a graph (`History.Fits`) goes on fitting through every edit. That is proved for
one insertion, one erasure and for edits that only replace values, and follows for breaking cycles,
which is a list of erasures, and for copying, which is a list of insertions.
-/

namespace CommonSubgraph

namespace Graph

variable {ν ε : Type} {g g' : Graph ν ε} {s t v : VertexId} {e f : EdgeId} {a : ε}

/-! ## Histories -/

/-- Which edges were ever inserted, and which of them are left. -/
structure History where
  /-- The source and the target of every edge ever inserted, in the order of insertion. -/
  inserted : List (VertexId × VertexId)
  /-- For each edge that is left, by its number, the number of the insertion it came in with. -/
  origins : List Nat
deriving DecidableEq

namespace History

variable {H : History}

/-- The history in which nothing happened. -/
def empty : History := ⟨[], []⟩

/-- An edge from `s` to `t` was inserted. -/
def insert (H : History) (s t : VertexId) : History :=
  ⟨H.inserted ++ [(s, t)], H.origins ++ [H.inserted.length]⟩

/-- The edge `e` was erased, and the last edge took over its number. -/
def erase (H : History) (e : EdgeId) : History :=
  { H with origins := (H.origins.set e.index (H.origins.getLastD 0)).dropLast }

/-- Several edges were inserted. -/
def insertAll (H : History) (l : List (VertexId × VertexId × ε)) : History :=
  l.foldl (fun H p => H.insert p.1 p.2.1) H

/-- Several edges were erased. -/
def eraseAll (H : History) (es : List EdgeId) : History := es.foldl erase H

/-- The insertion that the edge `e` came in with. -/
def origin (H : History) (e : EdgeId) : Nat := H.origins.getD e.index 0

/-- The insertions of edges out of `v` that were not erased, the earliest first. -/
def outgoing (H : History) (v : VertexId) : List Nat :=
  (List.range H.inserted.length).filter fun n =>
    n ∈ H.origins ∧ H.inserted[n]?.map Prod.fst = some v

/-- The insertions of edges into `v` that were not erased, the earliest first. -/
def incoming (H : History) (v : VertexId) : List Nat :=
  (List.range H.inserted.length).filter fun n =>
    n ∈ H.origins ∧ H.inserted[n]?.map Prod.snd = some v

/-- An insertion leaves the origins of the earlier edges. -/
theorem origin_insert_of_lt (h : e.index < H.origins.length) :
    (H.insert s t).origin e = H.origin e := by
  simp only [origin, insert, List.getD_eq_getElem?_getD, List.getElem?_append_left h]

/-- The new edge comes in with the insertion just made. -/
theorem origin_insert_of_eq (h : e.index = H.origins.length) :
    (H.insert s t).origin e = H.inserted.length := by
  simp only [origin, insert, List.getD_eq_getElem?_getD, h, List.getElem?_concat_length,
    Option.getD_some]

/-- The insertions that are left are the origins of edges. -/
theorem mem_origins_iff {n : Nat} :
    n ∈ H.origins ↔ ∃ k < H.origins.length, H.origins.getD k 0 = n := by
  rw [List.mem_iff_getElem]
  constructor
  · rintro ⟨k, hk, rfl⟩
    exact ⟨k, hk, List.getD_eq_getElem _ _ hk⟩
  · rintro ⟨k, hk, rfl⟩
    exact ⟨k, hk, (List.getD_eq_getElem _ _ hk).symm⟩

end History

/-! ## Histories that fit -/

/-- The history tells where the edges of the graph came from, and the graph lists them in the order
of their insertion. -/
structure History.Fits (H : History) (g : Graph ν ε) : Prop where
  length_eq : H.origins.length = g.edgeCount
  origin_inj : ∀ e f, e.index < g.edgeCount → f.index < g.edgeCount →
    H.origin e = H.origin f → e = f
  ends_eq : ∀ e x, g.findEdge e = some x → H.inserted[H.origin e]? = some (x.source, x.target)
  pairwise_out : ∀ v, (g.outEdges v).Pairwise fun e f => H.origin e < H.origin f
  pairwise_in : ∀ v, (g.inEdges v).Pairwise fun e f => H.origin e < H.origin f

variable {H : History}

/-- Every edge came in with some insertion. -/
theorem History.Fits.origin_lt (hf : H.Fits g) (he : e.index < g.edgeCount) :
    H.origin e < H.inserted.length := by
  obtain ⟨x, hx⟩ := exists_findEdge he
  exact (List.getElem?_eq_some_iff.mp (hf.ends_eq e x hx)).1

/-- A history fits every graph of the same shape. -/
theorem History.Fits.sameShape {g' : Graph ν ε} (hf : H.Fits g) (h : SameShape g g') :
    H.Fits g' where
  length_eq := h.edgeCount_eq ▸ hf.length_eq
  origin_inj := h.edgeCount_eq ▸ hf.origin_inj
  ends_eq e x' hx' := by
    obtain ⟨x, hx, -, hs, ht⟩ := h.exists_findEdge hx'
    rw [← hs, ← ht]
    exact hf.ends_eq e x hx
  pairwise_out v := h.outEdges_eq v ▸ hf.pairwise_out v
  pairwise_in v := h.inEdges_eq v ▸ hf.pairwise_in v

/-- The history in which nothing happened fits a graph without edges. -/
theorem History.fits_of_no_edges (h : g.WellFormed) (he : g.edgeCount = 0) :
    History.empty.Fits g := by
  have hnone {l : List EdgeId} (hl : ∀ e ∈ l, e.index < g.edgeCount) : l = [] :=
    List.eq_nil_iff_forall_not_mem.mpr fun e hm => by
      have := hl e hm
      omega
  constructor
  case length_eq => exact he.symm
  case origin_inj => intro e f hlt; omega
  case ends_eq =>
    intro e x hx
    have := lt_edgeCount_of_findEdge hx
    omega
  case pairwise_out => exact fun v => hnone (h.outEdges_lt v) ▸ List.Pairwise.nil
  case pairwise_in => exact fun v => hnone (h.inEdges_lt v) ▸ List.Pairwise.nil

/-- Adding a vertex is nothing to the history of the edges. -/
theorem History.Fits.insertVertex (hf : H.Fits g) (x : ν) : H.Fits (g.insertVertex x).1 where
  length_eq := hf.length_eq
  origin_inj := hf.origin_inj
  ends_eq := hf.ends_eq
  pairwise_out v := outEdges_insertVertex g x v ▸ hf.pairwise_out v
  pairwise_in v := inEdges_insertVertex g x v ▸ hf.pairwise_in v

/-! ## One insertion -/

/-- A list of old edges that is in order stays so, and the new edge can be put behind it. -/
theorem History.Fits.pairwise_insert (hf : H.Fits g) (hi : e.index = g.edgeCount)
    {l : List EdgeId} (hl : ∀ f ∈ l, f.index < g.edgeCount)
    (hp : l.Pairwise fun e f => H.origin e < H.origin f) (p : Prop) [Decidable p] :
    (if p then l ++ [e] else l).Pairwise fun e f =>
      (H.insert s t).origin e < (H.insert s t).origin f := by
  have hold (f : EdgeId) (hm : f ∈ l) : (H.insert s t).origin f = H.origin f :=
    History.origin_insert_of_lt (hf.length_eq ▸ hl f hm)
  have hp' : l.Pairwise fun e f => (H.insert s t).origin e < (H.insert s t).origin f :=
    hp.imp_of_mem fun hm hm' hlt => by rwa [hold _ hm, hold _ hm']
  split
  · refine List.pairwise_append.mpr ⟨hp', List.pairwise_singleton .., fun f hm f' hm' => ?_⟩
    rw [List.mem_singleton.mp hm', hold f hm, History.origin_insert_of_eq (hf.length_eq ▸ hi)]
    exact hf.origin_lt (hl f hm)
  · exact hp'

/-- A history that fits a graph fits it after an edge was inserted into both. -/
theorem History.Fits.insertEdge (hf : H.Fits g) (h : g.WellFormed)
    (hn : g.edgeCount < UInt32.size) (he : g.insertEdge s t a = .ok (g', e)) :
    (H.insert s t).Fits g' := by
  have hi : e.index = g.edgeCount := by
    obtain ⟨-, -, rfl, -⟩ := (insertEdge_eq_ok_iff a).mp he
    exact EdgeId.index_ofNat hn
  have hcount := edgeCount_insertEdge he
  have hnew : (H.insert s t).origin e = H.inserted.length :=
    History.origin_insert_of_eq (hf.length_eq ▸ hi)
  have hold {f : EdgeId} (hlt : f.index < g.edgeCount) :
      (H.insert s t).origin f = H.origin f ∧ H.origin f < H.inserted.length :=
    ⟨History.origin_insert_of_lt (hf.length_eq ▸ hlt), hf.origin_lt hlt⟩
  -- an edge is the new one or an old one
  have hcases {f : EdgeId} (hlt : f.index < g'.edgeCount) : f = e ∨ f.index < g.edgeCount := by
    rw [← EdgeId.index_inj]
    omega
  constructor
  case length_eq =>
    rw [hcount, ← hf.length_eq]
    exact List.length_append
  case origin_inj =>
    intro f f' hlt hlt' heq
    rcases hcases hlt with rfl | hlt <;> rcases hcases hlt' with rfl | hlt'
    · rfl
    · obtain ⟨ho, hb⟩ := hold hlt'
      omega
    · obtain ⟨ho, hb⟩ := hold hlt
      omega
    · rw [(hold hlt).1, (hold hlt').1] at heq
      exact hf.origin_inj f f' hlt hlt' heq
  case ends_eq =>
    intro f x hx
    rw [findEdge_insertEdge hn he] at hx
    by_cases hfe : f = e
    · rw [if_pos hfe] at hx
      obtain rfl := Option.some.inj hx
      rw [hfe, hnew]
      exact List.getElem?_concat_length
    · rw [if_neg hfe] at hx
      obtain ⟨ho, hb⟩ := hold (lt_edgeCount_of_findEdge hx)
      rw [ho, ← hf.ends_eq f x hx]
      exact List.getElem?_append_left hb
  case pairwise_out =>
    intro v
    rw [outEdges_insertEdge he]
    exact hf.pairwise_insert hi (h.outEdges_lt v) (hf.pairwise_out v) (v = s)
  case pairwise_in =>
    intro v
    rw [inEdges_insertEdge he]
    exact hf.pairwise_insert hi (h.inEdges_lt v) (hf.pairwise_in v) (v = t)

/-! ## One erasure -/

section

variable (hf : H.Fits g) (h : g.WellFormed) (he : g.eraseEdge e = .ok (g', a))

include hf h he

/-- The edge now called `f` came in as the one that was called so before. -/
theorem History.Fits.origin_erase (hlt : f.index < g'.edgeCount) :
    (H.erase e).origin f = H.origin (g.former e f) := by
  have hcount := h.edgeCount_eraseEdge he
  have hlt' := h.lt_of_eraseEdge he
  have hlen := hf.length_eq
  have hlast := h.index_lastEdge (by omega)
  have hset : f.index < (H.origins.set e.index (H.origins.getLastD 0)).dropLast.length := by
    rw [List.length_dropLast, List.length_set]
    omega
  rw [History.origin, History.erase, List.getD_eq_getElem _ _ hset, List.getElem_dropLast,
    List.getElem_set, former, History.origin]
  by_cases hfe : f = e
  · rw [if_pos (by rw [hfe]), if_pos hfe, hlast, ← hlen, List.getLastD_eq_getLast?,
      List.getLast?_eq_getElem?, List.getD_eq_getElem?_getD]
  · have hne : e.index ≠ f.index := fun hx => hfe (EdgeId.index_inj.mp hx).symm
    rw [if_neg hne, if_neg hfe, List.getD_eq_getElem]

/-- A list that is in order stays so when `e` leaves it and the last edge is renamed. -/
theorem History.Fits.pairwise_erase {l : List EdgeId} (hl : ∀ f ∈ l, f.index < g.edgeCount)
    (hp : l.Pairwise fun e f => H.origin e < H.origin f) :
    ((l.filter (· ≠ e)).map (g.renumber e)).Pairwise fun e' f =>
      (H.erase e).origin e' < (H.erase e).origin f := by
  have horigin (f : EdgeId) (hm : f ∈ l.filter (· ≠ e)) :
      (H.erase e).origin (g.renumber e f) = H.origin f := by
    have hne : f ≠ e := of_decide_eq_true (List.mem_filter.mp hm).2
    rw [hf.origin_erase h he (h.lt_of_mem_map_renumber he hl (List.mem_map_of_mem hm)),
      former_renumber hne]
  refine List.pairwise_map.mpr ((hp.filter _).imp_of_mem fun hm hm' hlt => ?_)
  rwa [horigin _ hm, horigin _ hm']

/-- A history that fits a graph fits it after an edge was erased from both. -/
theorem History.Fits.eraseEdge : (H.erase e).Fits g' := by
  have hcount := h.edgeCount_eraseEdge he
  have horigin {f : EdgeId} (hlt : f.index < g'.edgeCount) := hf.origin_erase h he hlt
  have hlast := h.index_lastEdge (Nat.lt_of_le_of_lt (Nat.zero_le _) (h.lt_of_eraseEdge he))
  -- the last name is gone, and every other name left stands for an edge of before
  have hne {f : EdgeId} (hlt : f.index < g'.edgeCount) : f ≠ g.lastEdge := by
    rintro rfl
    omega
  have hformer {f : EdgeId} (hlt : f.index < g'.edgeCount) :
      (g.former e f).index < g.edgeCount := by
    unfold former
    split <;> omega
  constructor
  case length_eq =>
    rw [hcount, ← hf.length_eq, History.erase, List.length_dropLast, List.length_set]
  case origin_inj =>
    intro f f' hlt hlt' heq
    rw [horigin hlt, horigin hlt'] at heq
    have hsame := hf.origin_inj _ _ (hformer hlt) (hformer hlt') heq
    rw [← renumber_former (hne hlt), hsame, renumber_former (hne hlt')]
  case ends_eq =>
    intro f x hx
    have hlt := lt_edgeCount_of_findEdge hx
    rw [h.findEdge_eraseEdge he, if_neg (hne hlt), Option.map_eq_some_iff] at hx
    obtain ⟨y, hy, rfl⟩ := hx
    rw [horigin hlt]
    exact hf.ends_eq _ y hy
  case pairwise_out =>
    intro v
    rw [h.outEdges_eraseEdge he]
    exact hf.pairwise_erase h he (h.outEdges_lt v) (hf.pairwise_out v)
  case pairwise_in =>
    intro v
    rw [h.inEdges_eraseEdge he]
    exact hf.pairwise_erase h he (h.inEdges_lt v) (hf.pairwise_in v)

end

/-! ## Several insertions, several erasures -/

/-- What holds of a graph with its history and is kept by every insertion for which there is a name
holds after a list of insertions. -/
theorem insertEdges_induction {P : Graph ν ε → History → Prop}
    (step : ∀ {g g' : Graph ν ε} {H : History} {s t : VertexId} {a : ε} {e : EdgeId}, P g H →
      g.edgeCount < UInt32.size → g.insertEdge s t a = .ok (g', e) → P g' (H.insert s t))
    (h : P g H) {l : List (VertexId × VertexId × ε)}
    (hn : g.edgeCount + l.length ≤ UInt32.size) (hl : g.insertEdges l = .ok g') :
    P g' (H.insertAll l) := by
  induction l generalizing g H with
  | nil => exact Except.ok.inj hl ▸ h
  | cons p rest ih =>
    obtain ⟨g₁, e, he, hrest⟩ := insertEdges_cons_eq_ok_iff.mp hl
    rw [List.length_cons] at hn
    refine ih (step h (by omega) he) ?_ hrest
    rw [edgeCount_insertEdge he]
    omega

/-- A history that fits a graph fits it after several edges were erased from both. -/
theorem History.Fits.eraseEdges (hf : H.Fits g) (h : g.WellFormed) {es : List EdgeId}
    (he : g.eraseEdges es = .ok g') : g'.WellFormed ∧ (H.eraseAll es).Fits g' := by
  induction es generalizing g H with
  | nil => exact Except.ok.inj he ▸ ⟨h, hf⟩
  | cons e rest ih =>
    rw [Graph.eraseEdges] at he
    cases hr : g.eraseEdge e with
    | error _ =>
      rw [hr] at he
      cases he
    | ok r =>
      obtain ⟨g₁, a⟩ := r
      rw [hr] at he
      exact ih (hf.eraseEdge h hr) (h.eraseEdge hr) he

/-! ## Graphs reached by editing -/

/-- The edges that breaking cycles erases, in the order in which it does. -/
def doomed (g : Graph ν ε) : List EdgeId := g.backEdges.mergeSort fun e f => f.index ≤ e.index

/-- Breaking cycles erases the doomed edges in turn. -/
theorem eraseEdges_doomed {n : Nat} (h : g.breakCycles = .ok (g', n)) :
    g.eraseEdges g.doomed = .ok g' := by
  rw [breakCycles] at h
  change (do return (← g.eraseEdges g.doomed, g.doomed.length)) = _ at h
  cases he : g.eraseEdges g.doomed with
  | error _ =>
    rw [he] at h
    cases h
  | ok g₁ =>
    rw [he] at h
    exact congrArg Except.ok (Prod.mk.inj (Except.ok.inj h)).1

/-- Editing the empty graph led to `g`, and `H` tells how. No vertex and no edge is inserted when
there is no name left for it. A copy has a history of its own. -/
inductive Reached : Graph ν ε → History → Prop
  | empty : Reached empty .empty
  | insertVertex {g : Graph ν ε} {H : History} (h : Reached g H)
      (hn : g.vertexCount < UInt32.size) (x : ν) : Reached (g.insertVertex x).1 H
  | insertEdge {g g' : Graph ν ε} {H : History} {s t : VertexId} {a : ε} {e : EdgeId}
      (h : Reached g H) (hn : g.edgeCount < UInt32.size)
      (he : g.insertEdge s t a = .ok (g', e)) : Reached g' (H.insert s t)
  | eraseEdge {g g' : Graph ν ε} {H : History} {e : EdgeId} {a : ε} (h : Reached g H)
      (he : g.eraseEdge e = .ok (g', a)) : Reached g' (H.erase e)
  | setVertexValue {g g' : Graph ν ε} {H : History} {v : VertexId} {x y : ν} (h : Reached g H)
      (hs : g.setVertexValue v x = some (g', y)) : Reached g' H
  | setEdgeValue {g g' : Graph ν ε} {H : History} {e : EdgeId} {a b : ε} (h : Reached g H)
      (hs : g.setEdgeValue e a = some (g', b)) : Reached g' H
  | breakCycles {g g' : Graph ν ε} {H : History} {n : Nat} (h : Reached g H)
      (hb : g.breakCycles = .ok (g', n)) : Reached g' (H.eraseAll g.doomed)
  | induced {g g' : Graph ν ε} {H : History} {ids : List VertexId} (h : Reached g H)
      (hi : g.induced ids = .ok g') :
      Reached g' (History.empty.insertAll (ids.flatMap (g.edgesWithin ids)))

/-- Every edit keeps the graph well-formed and its history fitting. -/
theorem Reached.fits (h : g.Reached H) : g.WellFormed ∧ H.Fits g := by
  induction h with
  | empty => exact ⟨wellFormed_empty, History.fits_of_no_edges wellFormed_empty rfl⟩
  | insertVertex _ hn x ih => exact ⟨ih.1.insertVertex hn x, ih.2.insertVertex x⟩
  | insertEdge _ hn he ih => exact ⟨ih.1.insertEdge hn he, ih.2.insertEdge ih.1 hn he⟩
  | eraseEdge _ he ih => exact ⟨ih.1.eraseEdge he, ih.2.eraseEdge ih.1 he⟩
  | setVertexValue _ hs ih =>
    have hshape := sameShape_setVertexValue hs
    exact ⟨hshape.wellFormed ih.1, ih.2.sameShape hshape⟩
  | setEdgeValue _ hs ih =>
    have hshape := sameShape_setEdgeValue hs
    exact ⟨hshape.wellFormed ih.1, ih.2.sameShape hshape⟩
  | breakCycles _ hb ih => exact ih.2.eraseEdges ih.1 (eraseEdges_doomed hb)
  | induced _ hi ih =>
    obtain ⟨values, -, hwf, hzero, hn, hl⟩ := ih.1.induced_eq_ok hi
    refine insertEdges_induction (P := fun g H => g.WellFormed ∧ H.Fits g) ?_
      ⟨hwf, History.fits_of_no_edges hwf hzero⟩ hn hl
    exact fun h hlt he => ⟨h.1.insertEdge hlt he, h.2.insertEdge h.1 hlt he⟩

/-- Every graph that is built from a list of edges is reached, unless there are too many. -/
theorem reached_ofEdges {x : ν} {a : ε} {n : Nat} {pairs : List (Nat × Nat)}
    (hn : n ≤ UInt32.size) (hpairs : pairs.length ≤ UInt32.size)
    (h : ofEdges x a n pairs = .ok g) : g.Reached (History.empty.insertAll
      (pairs.map fun p => (VertexId.ofNat p.1, VertexId.ofNat p.2, a))) := by
  have vertices (k : Nat) (hk : k ≤ UInt32.size) :
      (ofVertexValues (List.replicate k x) : Graph ν ε).Reached .empty ∧
        (ofVertexValues (List.replicate k x) : Graph ν ε).vertexCount = k := by
    induction k with
    | zero => exact ⟨.empty, rfl⟩
    | succ k ih =>
      obtain ⟨hr, hc⟩ := ih (Nat.le_of_succ_le hk)
      rw [List.replicate_succ', ofVertexValues, List.foldl_concat]
      refine ⟨hr.insertVertex (hc.symm ▸ hk) x, ?_⟩
      rw [vertexCount_insertVertex]
      exact congrArg (· + 1) hc
  obtain ⟨-, hzero⟩ := wellFormed_ofVertexValues (ε := ε) (List.replicate n x)
    (by rwa [List.length_replicate])
  refine insertEdges_induction .insertEdge (vertices n hn).1 ?_ h
  rw [hzero, List.length_map, Nat.zero_add]
  exact hpairs

/-! ## What holds of them -/

/-- Numbers have no gaps, every edge is listed once at its source, once at its target and nowhere
else, and the lists of every vertex are those of its insertions that were not erased, in order. -/
structure Faithful (g : Graph ν ε) (H : History) : Prop where
  index_vertex : ∀ k (hk : k < g.vertices.size), g.vertices[k].id.index = k
  index_edge : ∀ k (hk : k < g.edges.size), g.edges[k].id.index = k
  count_outEdges : ∀ k (hk : k < g.edges.size) (v : VertexId),
    (g.outEdges v).count g.edges[k].id = if g.edges[k].source = v then 1 else 0
  count_inEdges : ∀ k (hk : k < g.edges.size) (v : VertexId),
    (g.inEdges v).count g.edges[k].id = if g.edges[k].target = v then 1 else 0
  outEdges_valid : ∀ v, ∀ e ∈ g.outEdges v, g.containsEdge e = true
  inEdges_valid : ∀ v, ∀ e ∈ g.inEdges v, g.containsEdge e = true
  length_origins : H.origins.length = g.edgeCount
  nodup_origins : H.origins.Nodup
  ends_eq : ∀ k (hk : k < g.edges.size),
    H.inserted[H.origin g.edges[k].id]? = some (g.edges[k].source, g.edges[k].target)
  map_origin_outEdges : ∀ v, (g.outEdges v).map H.origin = H.outgoing v
  map_origin_inEdges : ∀ v, (g.inEdges v).map H.origin = H.incoming v

/-- The insertions that are left are those of the edges of the graph. -/
theorem History.Fits.mem_origins_iff (hf : H.Fits g) (h : g.WellFormed) {n : Nat} :
    n ∈ H.origins ↔ ∃ e : EdgeId, e.index < g.edgeCount ∧ H.origin e = n := by
  rw [History.mem_origins_iff, hf.length_eq]
  constructor
  · rintro ⟨k, hk, rfl⟩
    have hi := EdgeId.index_ofNat (Nat.lt_of_lt_of_le hk h.edgeCount_le)
    exact ⟨EdgeId.ofNat k, hi.symm ▸ hk, by rw [History.origin, hi]⟩
  · rintro ⟨e, he, rfl⟩
    exact ⟨e.index, he, rfl⟩

/-- No two edges came in with the same insertion. -/
theorem History.Fits.nodup_origins (hf : H.Fits g) (h : g.WellFormed) : H.origins.Nodup := by
  have hindex {k : Nat} (hk : k < H.origins.length) : (EdgeId.ofNat k).index = k :=
    EdgeId.index_ofNat (Nat.lt_of_lt_of_le (hf.length_eq ▸ hk) h.edgeCount_le)
  have horigin {k : Nat} (hk : k < H.origins.length) :
      H.origin (EdgeId.ofNat k) = H.origins[k] := by
    rw [History.origin, hindex hk, List.getD_eq_getElem _ _ hk]
  refine List.nodup_iff_pairwise_ne.mpr (List.pairwise_iff_getElem.mpr ?_)
  intro i j hi hj hlt heq
  rw [← horigin hi, ← horigin hj] at heq
  have hsame := hf.origin_inj _ _ (by rw [hindex hi]; exact hf.length_eq ▸ hi)
    (by rw [hindex hj]; exact hf.length_eq ▸ hj) heq
  rw [← hindex hi, ← hindex hj, hsame] at hlt
  exact Nat.lt_irrefl _ hlt

/-- The origins of a list of edges in order are the surviving insertions of just these edges. -/
theorem History.Fits.map_origin_eq (hf : H.Fits g) (h : g.WellFormed) {l : List EdgeId}
    (hp : l.Pairwise fun e f => H.origin e < H.origin f) {v : VertexId}
    (pick : VertexId × VertexId → VertexId)
    (hl : ∀ e, e ∈ l ↔ ∃ x, g.findEdge e = some x ∧ pick (x.source, x.target) = v) :
    l.map H.origin = (List.range H.inserted.length).filter fun n =>
      n ∈ H.origins ∧ H.inserted[n]?.map pick = some v := by
  refine List.Pairwise.eq_of_mem_iff (r := (· < ·)) (List.pairwise_map.mpr hp)
    (List.pairwise_lt_range.filter _) fun n => ?_
  rw [List.mem_map, List.mem_filter, List.mem_range, decide_eq_true_iff, hf.mem_origins_iff h]
  constructor
  · rintro ⟨e, he, rfl⟩
    obtain ⟨x, hx, hv⟩ := (hl e).mp he
    have hlt := lt_edgeCount_of_findEdge hx
    refine ⟨hf.origin_lt hlt, ⟨e, hlt, rfl⟩, ?_⟩
    rw [hf.ends_eq e x hx, Option.map_some, hv]
  · rintro ⟨-, ⟨e, hlt, rfl⟩, hv⟩
    obtain ⟨x, hx⟩ := exists_findEdge hlt
    rw [hf.ends_eq e x hx, Option.map_some, Option.some.injEq] at hv
    exact ⟨e, (hl e).mpr ⟨x, hx, hv⟩, rfl⟩

/-- Whatever edits led to a graph, its table and its lists agree, and its lists are in the order in
which their edges were inserted. -/
theorem Reached.faithful (h : g.Reached H) : g.Faithful H := by
  obtain ⟨hg, hf⟩ := h.fits
  have hid (k : Nat) (hk : k < g.edges.size) : g.edges[k].id.index = k := by
    rw [hg.edge_id k hk, EdgeId.index_ofNat (Nat.lt_of_lt_of_le hk hg.edgeCount_le)]
  have hfind (k : Nat) (hk : k < g.edges.size) : g.findEdge g.edges[k].id = some g.edges[k] := by
    rw [findEdge, hid k hk]
    exact Array.getElem?_eq_getElem hk
  constructor
  case index_vertex =>
    intro k hk
    rw [hg.vertex_id k hk, VertexId.index_ofNat (Nat.lt_of_lt_of_le hk hg.vertexCount_le)]
  case index_edge => exact hid
  case count_outEdges => exact fun k hk => hg.count_outEdges_of_findEdge (hfind k hk)
  case count_inEdges => exact fun k hk => hg.count_inEdges_of_findEdge (hfind k hk)
  case outEdges_valid => exact fun v e he => decide_eq_true (hg.outEdges_lt v e he)
  case inEdges_valid => exact fun v e he => decide_eq_true (hg.inEdges_lt v e he)
  case length_origins => exact hf.length_eq
  case nodup_origins => exact hf.nodup_origins hg
  case ends_eq => exact fun k hk => hf.ends_eq _ _ (hfind k hk)
  case map_origin_outEdges =>
    exact fun v => hf.map_origin_eq hg (hf.pairwise_out v) Prod.fst fun e => hg.mem_outEdges_iff
  case map_origin_inEdges =>
    exact fun v => hf.map_origin_eq hg (hf.pairwise_in v) Prod.snd fun e => hg.mem_inEdges_iff

/-- Five edges of which the first and then the self-loop is erased: vertex `1` lists its edges `1`
and `0` in the order in which they were inserted, as the second and the fifth. -/
theorem faithful_after_erasures : ∃ (g : Graph Unit Unit) (H : History), g.Reached H ∧
    g.outEdges (VertexId.ofNat 1) = [EdgeId.ofNat 1, EdgeId.ofNat 0] ∧
    H.outgoing (VertexId.ofNat 1) = [1, 4] ∧ g.Faithful H := by
  let pairs := [(0, 1), (1, 2), (0, 1), (1, 1), (1, 2)]
  have hrun : ((ofEdges () () 3 pairs).toOption.bind fun g₀ =>
      (g₀.eraseEdge (EdgeId.ofNat 0)).toOption.bind fun r₁ =>
      (r₁.1.eraseEdge (EdgeId.ofNat 3)).toOption.bind fun r₂ =>
      some (r₂.1.outEdges (VertexId.ofNat 1))) =
      some [EdgeId.ofNat 1, EdgeId.ofNat 0] := by decide +kernel
  have ok {α β : Type} {x : Except α β} {y : β} (h : x.toOption = some y) : x = .ok y := by
    cases x with
    | error _ => cases h
    | ok z => rw [Option.some.inj h]
  obtain ⟨g₀, h₀, hrun⟩ := Option.bind_eq_some_iff.mp hrun
  obtain ⟨⟨g₁, a⟩, h₁, hrun⟩ := Option.bind_eq_some_iff.mp hrun
  obtain ⟨⟨g₂, b⟩, h₂, hrun⟩ := Option.bind_eq_some_iff.mp hrun
  have hr := ((reached_ofEdges (by decide) (by decide) (ok h₀)).eraseEdge (ok h₁)).eraseEdge (ok h₂)
  exact ⟨g₂, _, hr, Option.some.inj hrun, by decide +kernel, hr.faithful⟩

end Graph

end CommonSubgraph
