import CommonSubgraph.Graph.Component
import CommonSubgraph.Proofs.Graph.Incidence
import CommonSubgraph.Proofs.Graph.Vertices
import CommonSubgraph.Proofs.OrderedSet.Lists

/-!
# Floods reach what is joined to their root

While a flood is under way, the worklist holds vertices that have no number yet and are joined to
the root, and every neighbour of a vertex that got its number from this flood has one or waits
(`Flooding`). Each step numbers one more vertex, so as many steps as there are vertices empty the
worklist; then no edge leads out of what was numbered, which is all that is joined to the root
(`WellFormed.flood`).
-/

namespace CommonSubgraph

namespace Graph

variable {ν ε : Type} {g : Graph ν ε} {u v w root : VertexId} {c : Nat} {s t before : Flood}

/-! ## Joined vertices -/

/-- If one vertex is joined to a second and this to a third, the first is joined to the third. -/
theorem Joined.trans (huv : g.Joined u v) (hvw : g.Joined v w) : g.Joined u w := by
  induction huv with
  | refl _ => exact hvw
  | forward h _ ih => exact .forward h (ih hvw)
  | backward h _ ih => exact .backward h (ih hvw)

/-- Vertices are joined in either direction. -/
theorem Joined.symm (h : g.Joined u v) : g.Joined v u := by
  induction h with
  | refl v => exact .refl v
  | forward h _ ih => exact ih.trans (.backward h (.refl _))
  | backward h _ ih => exact ih.trans (.forward h (.refl _))

/-- Neighbours are the other ends of edges in either direction. -/
theorem WellFormed.mem_neighbours_iff (hg : g.WellFormed) : u ∈ g.neighbours v ↔
    ∃ e x, g.findEdge e = some x ∧
      (x.source = v ∧ x.target = u ∨ x.target = v ∧ x.source = u) := by
  simp only [neighbours, List.mem_append, List.mem_filterMap, target?, source?,
    Option.map_eq_some_iff, hg.mem_outEdges_iff, hg.mem_inEdges_iff]
  constructor
  · rintro (⟨e, ⟨x, hx, hv⟩, y, hy, hu⟩ | ⟨e, ⟨x, hx, hv⟩, y, hy, hu⟩)
    · obtain rfl := Option.some.inj (hx.symm.trans hy)
      exact ⟨e, x, hx, .inl ⟨hv, hu⟩⟩
    · obtain rfl := Option.some.inj (hx.symm.trans hy)
      exact ⟨e, x, hx, .inr ⟨hv, hu⟩⟩
  · rintro ⟨e, x, hx, ⟨hv, hu⟩ | ⟨hv, hu⟩⟩
    · exact .inl ⟨e, ⟨x, hx, hv⟩, x, hx, hu⟩
    · exact .inr ⟨e, ⟨x, hx, hv⟩, x, hx, hu⟩

/-- Every neighbour is a vertex of the graph. -/
theorem WellFormed.neighbour_lt (hg : g.WellFormed) (hu : u ∈ g.neighbours v) :
    u.index < g.vertexCount := by
  obtain ⟨e, x, hx, ⟨-, rfl⟩ | ⟨-, rfl⟩⟩ := hg.mem_neighbours_iff.mp hu
  · exact hg.target_lt_of_findEdge hx
  · exact hg.source_lt_of_findEdge hx

/-- A vertex is joined to its neighbours. -/
theorem WellFormed.joined_neighbour (hg : g.WellFormed) (hu : u ∈ g.neighbours v) :
    g.Joined v u := by
  obtain ⟨e, x, hx, ⟨rfl, rfl⟩ | ⟨rfl, rfl⟩⟩ := hg.mem_neighbours_iff.mp hu
  · exact .forward hx (.refl _)
  · exact .backward hx (.refl _)

/-- What holds of a vertex and passes on to neighbours holds of everything joined to it. -/
theorem WellFormed.joined_induction (hg : g.WellFormed) {P : VertexId → Prop}
    (hstep : ∀ v, P v → ∀ u ∈ g.neighbours v, P u) (h : g.Joined v u) (hv : P v) : P u := by
  induction h with
  | refl _ => exact hv
  | forward h _ ih => exact ih (hstep _ hv _ (hg.mem_neighbours_iff.mpr ⟨_, _, h, .inl ⟨rfl, rfl⟩⟩))
  | backward h _ ih =>
    exact ih (hstep _ hv _ (hg.mem_neighbours_iff.mpr ⟨_, _, h, .inr ⟨rfl, rfl⟩⟩))

/-! ## One step of a flood -/

namespace Flood

/-- The number given to the vertex `v` so far, if any. -/
def label (s : Flood) (v : VertexId) : Option Nat := s.labels[v.index]?.join

/-- The number of a vertex depends on the table of numbers alone. -/
theorem label_congr (h : t.labels = s.labels) : t.label v = s.label v := by rw [label, label, h]

/-- The vertices of `w` wait, in this order, and there is room for the numbers of all vertices. -/
structure Waits (s : Flood) (g : Graph ν ε) (w : List VertexId) : Prop where
  lists : s.worklist.Lists g.vertexCount w
  size_eq : s.labels.size = g.vertexCount

namespace Waits

variable {w : List VertexId}

/-- The first vertex on the worklist is the one that waits first. -/
theorem first?_eq (h : s.Waits g w) : s.worklist.first? = w.head?.map VertexId.index := by
  rw [h.lists.represents.first?_eq, List.head?_map]

/-- A vertex is put on the worklist only if it has no number yet, and it is not put there twice. -/
theorem enqueue (h : s.Waits g w) (hv : v.index < g.vertexCount) :
    ∃ w', (s.enqueue v.index).Waits g w' ∧ (s.enqueue v.index).labels = s.labels ∧
      ∀ u, u ∈ w' ↔ u ∈ w ∨ u = v ∧ s.label u = none := by
  obtain ⟨worklist, labels⟩ := s
  have hd : v.index < worklist.domain := h.lists.domain_eq ▸ hv
  rw [Flood.enqueue]
  split
  · next hseen =>
    refine ⟨w, h, rfl, fun u => ⟨.inl, ?_⟩⟩
    rintro (hu | ⟨rfl, hnone⟩)
    · exact hu
    · rw [show labels[u.index]?.join = none from hnone] at hseen
      cases hseen
  · next hseen =>
    have hnone : (Flood.mk worklist labels).label v = none :=
      Option.not_isSome_iff_eq_none.mp hseen
    refine ⟨_, ⟨h.lists.put ⟨v.index, hd⟩ rfl, h.size_eq⟩, rfl, fun u => ?_⟩
    split
    · next hm =>
      refine ⟨.inl, ?_⟩
      rintro (hu | ⟨rfl, -⟩)
      · exact hu
      · exact hm
    · rw [List.mem_append, List.mem_singleton]
      exact or_congr_right ⟨fun hu => ⟨hu, hu ▸ hnone⟩, And.left⟩

/-- Of several vertices those without a number get on the worklist. -/
theorem enqueueAll {near : List VertexId} (h : s.Waits g w)
    (hnear : ∀ v ∈ near, v.index < g.vertexCount) :
    ∃ w', ((near.map VertexId.index).foldl Flood.enqueue s).Waits g w' ∧
      ((near.map VertexId.index).foldl Flood.enqueue s).labels = s.labels ∧
      ∀ u, u ∈ w' ↔ u ∈ w ∨ u ∈ near ∧ s.label u = none := by
  induction near generalizing s w with
  | nil => exact ⟨w, h, rfl, fun u => by simp⟩
  | cons v rest ih =>
    obtain ⟨w₁, h₁, hlabels₁, hmem₁⟩ := h.enqueue (hnear v List.mem_cons_self)
    obtain ⟨w₂, h₂, hlabels₂, hmem₂⟩ := ih h₁ fun u hu => hnear u (List.mem_cons_of_mem v hu)
    refine ⟨w₂, h₂, hlabels₂.trans hlabels₁, fun u => ?_⟩
    rw [hmem₂, hmem₁, label_congr hlabels₁, List.mem_cons, or_and_right, or_assoc]

/-- Taking the first vertex off the worklist leaves the others waiting. -/
theorem dequeue (h : s.Waits g (v :: w)) : (s.dequeue v.index).Waits g w := by
  obtain ⟨worklist, labels⟩ := s
  refine ⟨?_, h.size_eq⟩
  have herase := h.lists.erase v
  rwa [List.erase_cons_head] at herase

/-- Numbering a vertex leaves the worklist as it is. -/
theorem setLabel (h : s.Waits g w) : (s.setLabel v.index c).Waits g w := by
  obtain ⟨worklist, labels⟩ := s
  exact ⟨h.lists, Array.size_setIfInBounds.trans h.size_eq⟩

end Waits

/-- How many vertices have no number yet. -/
def pending (s : Flood) : Nat := s.labels.countP Option.isNone

/-- Number `v`, which stands at the front of the worklist, and put its neighbours on. -/
def spread (s : Flood) (g : Graph ν ε) (c : Nat) (v : VertexId) : Flood :=
  ((g.neighbours v).map VertexId.index).foldl enqueue ((s.dequeue v.index).setLabel v.index c)

/-- After a step of a flood, the neighbours without a number wait as well. -/
theorem Waits.spread {rest : List VertexId} (hg : g.WellFormed) (h : s.Waits g (v :: rest)) :
    ∃ w', (s.spread g c v).Waits g w' ∧
      (s.spread g c v).labels = s.labels.setIfInBounds v.index (some c) ∧
      ∀ u, u ∈ w' ↔ u ∈ rest ∨ u ∈ g.neighbours v ∧ (s.spread g c v).label u = none := by
  have hstart : ((s.dequeue v.index).setLabel v.index c).Waits g rest := h.dequeue.setLabel
  obtain ⟨w', hw', hlabels, hmem⟩ := hstart.enqueueAll fun u => hg.neighbour_lt
  refine ⟨w', hw', hlabels, fun u => ?_⟩
  rw [hmem, Flood.spread, label_congr hlabels]

/-- Numbering a vertex changes the number of no other one. -/
theorem label_of_setIfInBounds (hlabels : t.labels = s.labels.setIfInBounds v.index (some c))
    (hv : v.index < s.labels.size) (u : VertexId) :
    t.label u = if u = v then some c else s.label u := by
  simp only [label, hlabels, Array.getElem?_setIfInBounds]
  by_cases huv : u = v
  · subst huv
    rw [if_pos rfl, if_pos hv, if_pos rfl]
    rfl
  · rw [if_neg fun hi => huv (VertexId.index_inj.mp hi.symm), if_neg huv]

/-- Numbering a vertex leaves one less without a number. -/
theorem pending_of_setIfInBounds (hlabels : t.labels = s.labels.setIfInBounds v.index (some c))
    (hv : v.index < s.labels.size) (hnone : s.label v = none) : t.pending + 1 = s.pending := by
  have hat : s.labels[v.index] = none := by
    rwa [label, Array.getElem?_eq_getElem hv] at hnone
  have hpos : 0 < s.pending :=
    Array.countP_pos_iff.mpr ⟨none, hat ▸ Array.getElem_mem hv, rfl⟩
  have hcount : t.pending = s.pending - 1 := by
    rw [pending, hlabels, Array.setIfInBounds_def, dif_pos hv, Array.countP_set, hat]
    rfl
  omega

end Flood

/-! ## A whole flood -/

/-- With nothing on the worklist a flood is over. -/
theorem flood_nil (g : Graph ν ε) (h : s.Waits g []) (n : Nat) : g.flood c n s = s := by
  cases n with
  | zero => rfl
  | succ n => rw [flood, h.first?_eq]; rfl

/-- A flood goes on with the vertex that waits first. -/
theorem flood_cons (g : Graph ν ε) {rest : List VertexId} (h : s.Waits g (v :: rest))
    (hv : s.label v = none) (n : Nat) : g.flood c (n + 1) s = g.flood c n (s.spread g c v) := by
  have hseen : (s.dequeue v.index).seen v.index = false := congrArg Option.isSome hv
  rw [flood, h.first?_eq]
  simp only [List.head?_cons, Option.map_some, VertexId.ofNat_index, hseen]
  rfl

/-- The vertices `w` wait in a flood from `root` that gives the number `c` and began with the
numbers of `before`. -/
structure Flooding (g : Graph ν ε) (c : Nat) (root : VertexId) (before s : Flood)
    (w : List VertexId) : Prop where
  waits : s.Waits g w
  fresh : ∀ v, g.Joined root v → before.label v = none
  waiting : ∀ v ∈ w, s.label v = none ∧ g.Joined root v
  label_eq : ∀ v, s.label v = before.label v ∨ g.Joined root v ∧ s.label v = some c
  spreads : ∀ v, g.Joined root v → s.label v = some c →
    ∀ u ∈ g.neighbours v, u ∈ w ∨ s.label u = some c
  root_mem : root ∈ w ∨ s.label root = some c

namespace Flooding

variable {w rest : List VertexId}

/-- A vertex joined to the root has the number of the flood or none. -/
theorem label_joined (h : g.Flooding c root before s w) (hv : g.Joined root v) :
    s.label v = none ∨ s.label v = some c :=
  (h.label_eq v).imp (fun hs => hs.trans (h.fresh v hv)) And.right

/-- A flood begins with its root waiting. -/
theorem start (h : s.Waits g []) (hroot : root.index < g.vertexCount)
    (hfresh : ∀ v, g.Joined root v → s.label v = none) :
    ∃ w, g.Flooding c root s (s.enqueue root.index) w := by
  obtain ⟨w, hw, hlabels, hmem⟩ := h.enqueue hroot
  have hlabel (v : VertexId) : (s.enqueue root.index).label v = s.label v :=
    Flood.label_congr hlabels
  refine ⟨w, ?_⟩
  constructor
  case waits => exact hw
  case fresh => exact hfresh
  case waiting =>
    intro v hv
    obtain hv | ⟨rfl, hnone⟩ := (hmem v).mp hv
    · exact absurd hv List.not_mem_nil
    · exact ⟨(hlabel _).trans hnone, .refl _⟩
  case label_eq => exact fun v => .inl (hlabel v)
  case spreads =>
    intro v hv hc
    rw [hlabel, hfresh v hv] at hc
    cases hc
  case root_mem => exact .inl ((hmem root).mpr (.inr ⟨rfl, hfresh root (.refl root)⟩))

/-- The vertex that waits first has a place in the table. -/
theorem index_lt (h : g.Flooding c root before s (v :: rest)) : v.index < s.labels.size :=
  h.waits.size_eq.symm ▸ h.waits.lists.index_lt List.mem_cons_self

/-- A step of a flood leaves one vertex less without a number. -/
theorem pending_spread (hg : g.WellFormed) (h : g.Flooding c root before s (v :: rest)) :
    (s.spread g c v).pending + 1 = s.pending := by
  obtain ⟨-, -, hlabels, -⟩ := h.waits.spread hg
  exact Flood.pending_of_setIfInBounds hlabels h.index_lt (h.waiting v List.mem_cons_self).1

/-- A step of a flood numbers a vertex that is joined to the root, and everything else that is said
of a flood stays true. -/
theorem spread (hg : g.WellFormed) (h : g.Flooding c root before s (v :: rest)) :
    ∃ w, g.Flooding c root before (s.spread g c v) w := by
  obtain ⟨-, hjoined⟩ := h.waiting v List.mem_cons_self
  obtain ⟨w, hw, hlabels, hmem⟩ := h.waits.spread hg
  have hlabel := Flood.label_of_setIfInBounds hlabels h.index_lt
  have hself : (s.spread g c v).label v = some c := (hlabel v).trans (if_pos rfl)
  have hkeep {u : VertexId} (hu : s.label u = some c) : (s.spread g c v).label u = some c := by
    rw [hlabel u, hu, ite_self]
  -- what was waiting still is, but for `v`, which has its number now
  have hwait {u : VertexId} (hu : u ∈ v :: rest ∨ s.label u = some c) :
      u ∈ w ∨ (s.spread g c v).label u = some c := by
    obtain hu | hu := hu
    · obtain rfl | hu := List.mem_cons.mp hu
      · exact .inr hself
      · exact .inl ((hmem u).mpr (.inl hu))
    · exact .inr (hkeep hu)
  refine ⟨w, ?_⟩
  constructor
  case waits => exact hw
  case fresh => exact h.fresh
  case waiting =>
    intro u hu
    obtain hu | ⟨hu, hnew⟩ := (hmem u).mp hu
    · have hne : u ≠ v := by
        rintro rfl
        exact (List.nodup_cons.mp h.waits.lists.nodup).1 hu
      rw [hlabel u, if_neg hne]
      exact h.waiting u (List.mem_cons_of_mem v hu)
    · exact ⟨hnew, hjoined.trans (hg.joined_neighbour hu)⟩
  case label_eq =>
    intro u
    by_cases huv : u = v
    · exact .inr ⟨huv ▸ hjoined, huv ▸ hself⟩
    · rw [hlabel u, if_neg huv]
      exact h.label_eq u
  case spreads =>
    intro u hu hc t ht
    by_cases huv : u = v
    · -- the neighbours of `v` were put on the worklist just now
      obtain hnone | hold := h.label_joined (hu.trans (hg.joined_neighbour ht))
      · by_cases htv : t = v
        · exact .inr (htv ▸ hself)
        · refine .inl ((hmem t).mpr (.inr ⟨huv ▸ ht, ?_⟩))
          rw [hlabel t, if_neg htv, hnone]
      · exact .inr (hkeep hold)
    · rw [hlabel u, if_neg huv] at hc
      exact hwait (h.spreads u hu hc t ht)
  case root_mem => exact hwait h.root_mem

/-- A flood with a step for each vertex without a number empties the worklist. -/
theorem run (hg : g.WellFormed) (h : g.Flooding c root before s w) {n : Nat}
    (hn : s.pending ≤ n) : g.Flooding c root before (g.flood c n s) [] := by
  induction n generalizing s w with
  | zero =>
    cases w with
    | nil => exact h
    | cons v rest =>
      have := h.pending_spread hg
      omega
  | succ n ih =>
    cases w with
    | nil =>
      rw [flood_nil g h.waits]
      exact h
    | cons v rest =>
      obtain ⟨w', h'⟩ := h.spread hg
      have hpending := h.pending_spread hg
      rw [flood_cons g h.waits (h.waiting v List.mem_cons_self).1]
      exact ih h' (by omega)

/-- When nothing waits any more, all vertices joined to the root have the number of the flood. -/
theorem label_of_joined (hg : g.WellFormed) (h : g.Flooding c root before s [])
    (hv : g.Joined root v) : s.label v = some c := by
  have hroot : s.label root = some c := h.root_mem.resolve_left List.not_mem_nil
  refine (hg.joined_induction (P := fun v => g.Joined root v ∧ s.label v = some c)
    (fun v hv u hu => ?_) hv ⟨.refl root, hroot⟩).2
  exact ⟨hv.1.trans (hg.joined_neighbour hu),
    (h.spreads v hv.1 hv.2 u hu).resolve_left List.not_mem_nil⟩

end Flooding

/-- A flood numbers what is joined to its root and nothing else, and its worklist runs empty. -/
theorem WellFormed.flood (hg : g.WellFormed) (h : s.Waits g [])
    (hroot : root.index < g.vertexCount) (hfresh : ∀ v, g.Joined root v → s.label v = none) :
    (g.flood c g.vertexCount (s.enqueue root.index)).Waits g [] ∧
      (∀ v, g.Joined root v →
        (g.flood c g.vertexCount (s.enqueue root.index)).label v = some c) ∧
      ∀ v, ¬ g.Joined root v →
        (g.flood c g.vertexCount (s.enqueue root.index)).label v = s.label v := by
  obtain ⟨w, hstart⟩ := Flooding.start (c := c) h hroot hfresh
  have hpending : (s.enqueue root.index).pending ≤ g.vertexCount :=
    hstart.waits.size_eq ▸ Array.countP_le_size
  have hend := hstart.run hg hpending
  exact ⟨hend.waits, fun v hv => hend.label_of_joined hg hv,
    fun v hv => (hend.label_eq v).resolve_right fun hj => hv hj.1⟩

/-- Before the first flood nothing waits. -/
theorem waits_noFlood (g : Graph ν ε) : g.noFlood.Waits g [] :=
  ⟨.empty _, Array.size_replicate⟩

/-- Before the first flood no vertex has a number. -/
theorem label_noFlood (g : Graph ν ε) (v : VertexId) : g.noFlood.label v = none := by
  rw [Flood.label, noFlood, Array.getElem?_replicate]
  split <;> rfl

end Graph

end CommonSubgraph
