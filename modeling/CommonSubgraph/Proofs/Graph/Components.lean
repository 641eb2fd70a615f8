import CommonSubgraph.Proofs.Graph.Flooding
import CommonSubgraph.Proofs.Graph.Insertion
import Mathlib.Data.List.Nodup

/-!
# Weak components are exact

One flood from the first vertex settles whether all vertices are joined. To number the components,
floods start from the lowest vertex without a number, so their roots ascend and each is the lowest
vertex of its component (`Numbered`). What is left is to read the numbers back as classes of
vertices (`Components.Exact`).
-/

namespace CommonSubgraph

namespace Graph

variable {ν ε : Type} {g : Graph ν ε} {v root : VertexId} {c k : Nat} {s : Flood}

/-! ## Connectivity -/

/-- No label is missing once every vertex of the graph has a number. -/
theorem WellFormed.all_isSome_iff (hg : g.WellFormed) (h : s.Waits g []) :
    s.labels.all Option.isSome = true ↔ ∀ v : VertexId, v.index < g.vertexCount →
      s.label v ≠ none := by
  rw [Array.all_eq_true]
  constructor
  · intro hall v hv hnone
    have hlt : v.index < s.labels.size := h.size_eq.symm ▸ hv
    have hget : s.labels[v.index] = none := by
      rwa [Flood.label, Array.getElem?_eq_getElem hlt] at hnone
    have hsome := hall v.index hlt
    rw [hget] at hsome
    cases hsome
  · intro hall i hi
    have hindex := hg.index_ofNat (h.size_eq ▸ hi)
    have hsome := hall (VertexId.ofNat i) (hindex.symm ▸ h.size_eq ▸ hi)
    rw [Flood.label, hindex, Array.getElem?_eq_getElem hi] at hsome
    exact Option.isSome_iff_ne_none.mpr hsome

/-- A graph is connected if and only if every two of its vertices are joined. -/
theorem WellFormed.isConnected_iff (hg : g.WellFormed) :
    g.isConnected = true ↔ ∀ u ∈ g.vertexIds, ∀ v ∈ g.vertexIds, g.Joined u v := by
  simp only [mem_vertexIds_iff hg, containsVertex_iff]
  by_cases hempty : g.vertexCount = 0
  · have hconnected : g.isConnected = true := by simp [isConnected, isEmpty, hempty]
    exact ⟨fun _ u hu => absurd hu (by omega), fun _ => hconnected⟩
  · have hzero : (VertexId.ofNat 0).index = 0 := hg.index_ofNat (by omega)
    have hroot : (VertexId.ofNat 0).index < g.vertexCount := by omega
    obtain ⟨hwaits, hjoined, hother⟩ := hg.flood (c := 0) (waits_noFlood g) hroot
      fun v _ => label_noFlood g v
    rw [hzero] at hwaits hjoined hother
    have hconnected : g.isConnected = true ↔
        ∀ v : VertexId, v.index < g.vertexCount → g.Joined (VertexId.ofNat 0) v := by
      rw [isConnected, isEmpty, beq_eq_false_iff_ne.mpr hempty, Bool.false_or,
        hg.all_isSome_iff hwaits]
      refine forall₂_congr fun v _ => ⟨fun hv => by_contra fun hn => ?_, fun hv => ?_⟩
      · exact hv ((hother v hn).trans (label_noFlood g v))
      · rw [hjoined v hv]
        nofun
    rw [hconnected]
    exact ⟨fun h u hu v hv => (h u hu).symm.trans (h v hv), fun h => h _ hroot⟩

/-! ## Numbering the components -/

/-- The components told by the numbers given, `count` of them. -/
def Flood.components (s : Flood) (count : Nat) : Components :=
  ⟨count, s.labels.map fun label => label.getD count⟩

/-- The roots of the floods so far, one for each number that was given, with all vertices below `k`
numbered. -/
structure Numbered (g : Graph ν ε) (k : Nat) (s : Flood) (roots : List VertexId) : Prop where
  waits : s.Waits g []
  rising : roots.Pairwise fun u v => u.index < v.index
  lt : ∀ r ∈ roots, r.index < k
  label_iff : ∀ v c, s.label v = some c ↔ ∃ r, roots[c]? = some r ∧ g.Joined r v
  lowest : ∀ r ∈ roots, ∀ v, g.Joined r v → r.index ≤ v.index
  covered : ∀ v : VertexId, v.index < k → ∃ c, s.label v = some c

/-- A list is longer by its last element. -/
theorem getElem?_concat_eq_some_iff {α : Type} {l : List α} {a b : α} :
    (l ++ [a])[k]? = some b ↔ l[k]? = some b ∨ k = l.length ∧ a = b := by
  obtain hlt | rfl | hgt := Nat.lt_trichotomy k l.length
  · simp [List.getElem?_append_left hlt, Nat.ne_of_lt hlt]
  · simp
  · have hlong : (l ++ [a]).length ≤ k := by
      rw [List.length_append]
      exact hgt
    simp [List.getElem?_eq_none hlong, List.getElem?_eq_none (Nat.le_of_lt hgt), Nat.ne_of_gt hgt]

namespace Numbered

variable {roots : List VertexId}

/-- Before the first flood nothing is numbered. -/
theorem start (g : Graph ν ε) : g.Numbered 0 g.noFlood [] where
  waits := waits_noFlood g
  rising := .nil
  lt r hr := absurd hr List.not_mem_nil
  label_iff v c := by simp [label_noFlood]
  lowest r hr := absurd hr List.not_mem_nil
  covered v hv := absurd hv (Nat.not_lt_zero _)

/-- The next vertex has a number already. -/
theorem skip (h : g.Numbered k s roots) (hv : v.index = k) (hc : s.label v = some c) :
    g.Numbered (k + 1) s roots where
  waits := h.waits
  rising := h.rising
  lt r hr := Nat.lt_succ_of_lt (h.lt r hr)
  label_iff := h.label_iff
  lowest := h.lowest
  covered u hu := by
    obtain hlt | heq := Nat.lt_succ_iff_lt_or_eq.mp hu
    · exact h.covered u hlt
    · exact ⟨c, VertexId.index_inj.mp (heq.trans hv.symm) ▸ hc⟩

/-- The next vertex is the lowest of a new component. -/
theorem flood (hg : g.WellFormed) (h : g.Numbered k s roots) (hk : k < g.vertexCount)
    (hv : root.index = k) (hnone : s.label root = none) :
    g.Numbered (k + 1) (g.flood roots.length g.vertexCount (s.enqueue root.index))
      (roots ++ [root]) := by
  -- a vertex that is joined to the root has no number yet, or the root would have one
  have hfresh (v : VertexId) (hj : g.Joined root v) : s.label v = none := by
    refine Option.eq_none_iff_forall_ne_some.mpr fun c hc => ?_
    obtain ⟨r, hr, hrv⟩ := (h.label_iff v c).mp hc
    rw [(h.label_iff root c).mpr ⟨r, hr, hrv.trans hj.symm⟩] at hnone
    cases hnone
  obtain ⟨hwaits, hjoined, hother⟩ := hg.flood (c := roots.length) h.waits (hv ▸ hk) hfresh
  constructor
  case waits => exact hwaits
  case rising =>
    refine List.pairwise_append.mpr ⟨h.rising, List.pairwise_singleton _ _, fun r hr v hm => ?_⟩
    rw [List.mem_singleton.mp hm, hv]
    exact h.lt r hr
  case lt =>
    intro r hr
    obtain hr | hr := List.mem_append.mp hr
    · exact Nat.lt_succ_of_lt (h.lt r hr)
    · rw [List.mem_singleton.mp hr, hv]
      exact Nat.lt_succ_self k
  case label_iff =>
    intro v c
    have hsplit : (∃ r, (roots ++ [root])[c]? = some r ∧ g.Joined r v) ↔
        s.label v = some c ∨ c = roots.length ∧ g.Joined root v := by
      simp only [getElem?_concat_eq_some_iff, or_and_right, exists_or, ← h.label_iff, and_assoc,
        exists_and_left, exists_eq_left']
    rw [hsplit]
    by_cases hj : g.Joined root v
    · simp [hjoined v hj, hfresh v hj, hj, eq_comm]
    · simp [hother v hj, hj]
  case lowest =>
    intro r hr v hj
    obtain hr | hr := List.mem_append.mp hr
    · exact h.lowest r hr v hj
    · rw [List.mem_singleton.mp hr] at hj ⊢
      rw [hv]
      -- lower vertices have numbers, and what is joined to the root has none
      refine Nat.le_of_not_lt fun hlt => ?_
      obtain ⟨c, hc⟩ := h.covered v hlt
      rw [hfresh v hj] at hc
      cases hc
  case covered =>
    intro v hlt
    by_cases hj : g.Joined root v
    · exact ⟨_, hjoined v hj⟩
    · rw [hother v hj]
      refine h.covered v (Nat.lt_of_le_of_ne (Nat.le_of_lt_succ hlt) fun heq => hj ?_)
      rw [VertexId.index_inj.mp (heq.trans hv.symm)]
      exact .refl root

/-- Going on to the next vertex floods from it if it has no number yet, and numbers all up to it in
either case. -/
theorem floodFrom (hg : g.WellFormed) (h : g.Numbered k s roots) (hk : k < g.vertexCount) :
    ∃ t roots', g.floodFrom (s, roots.length) k = (t, roots'.length) ∧
      g.Numbered (k + 1) t roots' := by
  have hindex : (VertexId.ofNat k).index = k := hg.index_ofNat hk
  have hseen : s.seen k = (s.label (VertexId.ofNat k)).isSome := by
    rw [Flood.seen, Flood.label, hindex]
  rw [Graph.floodFrom, hseen]
  cases hlabel : s.label (VertexId.ofNat k) with
  | some c => exact ⟨s, roots, rfl, h.skip hindex hlabel⟩
  | none =>
    have hflood := h.flood hg hk hindex hlabel
    rw [hindex] at hflood
    exact ⟨_, _, by rw [List.length_append]; rfl, hflood⟩

/-- The floods from the first vertices number all of these. -/
theorem all (hg : g.WellFormed) (hk : k ≤ g.vertexCount) : ∃ s roots,
    (List.range k).foldl g.floodFrom (g.noFlood, 0) = (s, roots.length) ∧
      g.Numbered k s roots := by
  induction k with
  | zero => exact ⟨g.noFlood, [], rfl, start g⟩
  | succ k ih =>
    obtain ⟨s, roots, hs, h⟩ := ih (by omega)
    obtain ⟨t, roots', ht, h'⟩ := h.floodFrom hg (by omega)
    refine ⟨t, roots', ?_, h'⟩
    rw [List.range_succ, List.foldl_append, hs]
    exact ht

/-- Every vertex has a number after the last flood. -/
theorem componentOf_eq_some_iff (h : g.Numbered g.vertexCount s roots) :
    (s.components roots.length).componentOf[v.index]? = some c ↔
      ∃ r, roots[c]? = some r ∧ g.Joined r v := by
  rw [← h.label_iff, Flood.components, Array.getElem?_map, Flood.label]
  by_cases hv : v.index < g.vertexCount
  · obtain ⟨d, hd⟩ := h.covered v hv
    have hget : s.labels[v.index]? = some (some d) := Option.join_eq_some_iff.mp hd
    simp [hget]
  · have hnone : s.labels[v.index]? = none :=
      Array.getElem?_eq_none (h.waits.size_eq.symm ▸ Nat.le_of_not_lt hv)
    simp [hnone]

end Numbered

namespace Components

/-- The vertex `v` has the number `c`, and none below it has. -/
def Lowest (cs : Components) (c : Nat) (v : VertexId) : Prop :=
  cs.componentOf[v.index]? = some c ∧
    ∀ u : VertexId, cs.componentOf[u.index]? = some c → v.index ≤ u.index

/-- The classes of the vertices of `g` that are joined, numbered in the order of their lowest
vertices. -/
structure Exact (cs : Components) (g : Graph ν ε) : Prop where
  size_eq : cs.componentOf.size = g.vertexCount
  numbered : ∀ v ∈ g.vertexIds, ∃ c < cs.count, cs.componentOf[v.index]? = some c
  same_iff : ∀ u ∈ g.vertexIds, ∀ v ∈ g.vertexIds,
    cs.componentOf[u.index]? = cs.componentOf[v.index]? ↔ g.Joined u v
  used : ∀ c < cs.count, ∃ v ∈ g.vertexIds, cs.componentOf[v.index]? = some c
  ordered : ∀ c d, c < d → d < cs.count →
    ∃ u v, cs.Lowest c u ∧ cs.Lowest d v ∧ u.index < v.index
  ascending : ∀ c, (cs.members c).Pairwise fun u v => u.index < v.index
  mem_members_iff : ∀ c < cs.count, ∀ v,
    v ∈ cs.members c ↔ v ∈ g.vertexIds ∧ cs.componentOf[v.index]? = some c
  members_perm : ((List.range cs.count).flatMap cs.members).Perm g.vertexIds

end Components

/-- The members of a component are the vertices with its number. -/
theorem WellFormed.mem_members_iff (hg : g.WellFormed) {cs : Components}
    (hsize : cs.componentOf.size = g.vertexCount) :
    v ∈ cs.members c ↔ v ∈ g.vertexIds ∧ cs.componentOf[v.index]? = some c := by
  simp only [Components.members, hsize, mem_vertexIds_iff hg, containsVertex_iff, List.mem_map,
    List.mem_filter, List.mem_range, decide_eq_true_eq]
  constructor
  · rintro ⟨i, ⟨hi, hc⟩, rfl⟩
    rw [hg.index_ofNat hi]
    exact ⟨hi, hc⟩
  · exact fun hv => ⟨v.index, hv, VertexId.ofNat_index v⟩

/-- The members of a component are listed in ascending order. -/
theorem WellFormed.pairwise_members (hg : g.WellFormed) {cs : Components}
    (hsize : cs.componentOf.size = g.vertexCount) (c : Nat) :
    (cs.members c).Pairwise fun u v => u.index < v.index := by
  refine (pairwise_vertexIds hg).sublist (List.Sublist.map _ ?_)
  rw [hsize]
  exact List.filter_sublist

/-- The members of the components are all vertices if each vertex has a number. -/
theorem WellFormed.members_perm (hg : g.WellFormed) {cs : Components}
    (hsize : cs.componentOf.size = g.vertexCount)
    (hnumbered : ∀ v ∈ g.vertexIds, ∃ c < cs.count, cs.componentOf[v.index]? = some c) :
    ((List.range cs.count).flatMap cs.members).Perm g.vertexIds := by
  have hnodup : ((List.range cs.count).flatMap cs.members).Nodup := by
    refine List.nodup_flatMap.mpr ⟨fun c _ => ?_, List.nodup_range.imp fun hne v hc hd => hne ?_⟩
    · exact (hg.pairwise_members hsize c).imp fun hlt he => Nat.ne_of_lt hlt (congrArg _ he)
    · have hc := ((hg.mem_members_iff hsize).mp hc).2
      have hd := ((hg.mem_members_iff hsize).mp hd).2
      exact Option.some.inj (hc.symm.trans hd)
  refine (List.perm_ext_iff_of_nodup hnodup (nodup_vertexIds hg)).mpr fun v => ?_
  simp only [List.mem_flatMap, List.mem_range, hg.mem_members_iff hsize]
  constructor
  · rintro ⟨c, -, hv, -⟩
    exact hv
  · intro hv
    obtain ⟨c, hlt, hc⟩ := hnumbered v hv
    exact ⟨c, hlt, hv, hc⟩

/-- The root of a flood is the lowest vertex with its number. -/
theorem Numbered.lowest_root {roots : List VertexId} {r : VertexId}
    (h : g.Numbered g.vertexCount s roots) (hr : roots[c]? = some r) :
    (s.components roots.length).Lowest c r := by
  refine ⟨h.componentOf_eq_some_iff.mpr ⟨r, hr, .refl r⟩, fun u hu => ?_⟩
  obtain ⟨r', hr', hj⟩ := h.componentOf_eq_some_iff.mp hu
  obtain rfl := Option.some.inj (hr.symm.trans hr')
  exact h.lowest r (List.mem_of_getElem? hr) u hj

/-- Once all vertices are numbered, the numbers tell the components exactly. -/
theorem Numbered.exact {roots : List VertexId} (hg : g.WellFormed)
    (h : g.Numbered g.vertexCount s roots) :
    (s.components roots.length).Exact g := by
  have hmem (v : VertexId) : v ∈ g.vertexIds ↔ v.index < g.vertexCount :=
    (mem_vertexIds_iff hg).trans containsVertex_iff
  have hsize : (s.components roots.length).componentOf.size = g.vertexCount :=
    Array.size_map.trans h.waits.size_eq
  -- the number of a vertex is the position of the root that it is joined to
  have hnumbered (v : VertexId) (hv : v ∈ g.vertexIds) : ∃ c < roots.length,
      (s.components roots.length).componentOf[v.index]? = some c := by
    obtain ⟨c, hc⟩ := h.covered v ((hmem v).mp hv)
    obtain ⟨r, hr, hj⟩ := (h.label_iff v c).mp hc
    exact ⟨c, (List.getElem?_eq_some_iff.mp hr).1, h.componentOf_eq_some_iff.mpr ⟨r, hr, hj⟩⟩
  have hlowest (c : Nat) (hc : c < roots.length) := h.lowest_root (List.getElem?_eq_getElem hc)
  constructor
  case size_eq => exact hsize
  case numbered => exact hnumbered
  case same_iff =>
    intro u hu v hv
    obtain ⟨c, -, hc⟩ := hnumbered u hu
    obtain ⟨r, hr, hj⟩ := h.componentOf_eq_some_iff.mp hc
    rw [hc, eq_comm, h.componentOf_eq_some_iff]
    constructor
    · rintro ⟨r', hr', hj'⟩
      obtain rfl := Option.some.inj (hr.symm.trans hr')
      exact hj.symm.trans hj'
    · exact fun huv => ⟨r, hr, hj.trans huv⟩
  case used =>
    intro c hc
    exact ⟨roots[c], (hmem _).mpr (h.lt _ (List.getElem_mem hc)), (hlowest c hc).1⟩
  case ordered =>
    intro c d hcd hd
    have hc : c < roots.length := Nat.lt_trans hcd hd
    exact ⟨roots[c], roots[d], hlowest c hc, hlowest d hd,
      List.pairwise_iff_getElem.mp h.rising c d hc hd hcd⟩
  case ascending => exact hg.pairwise_members hsize
  case mem_members_iff => exact fun c _ v => hg.mem_members_iff hsize
  case members_perm => exact hg.members_perm hsize hnumbered

/-- At most one number is given just if all vertices have the same. -/
theorem Components.Exact.count_le_one_iff {cs : Components} (h : cs.Exact g) :
    cs.count ≤ 1 ↔ ∀ u ∈ g.vertexIds, ∀ v ∈ g.vertexIds, g.Joined u v := by
  constructor
  · intro hle u hu v hv
    obtain ⟨c, hc, hcu⟩ := h.numbered u hu
    obtain ⟨d, hd, hdv⟩ := h.numbered v hv
    rw [← h.same_iff u hu v hv, hcu, hdv, show c = d by omega]
  · intro hall
    refine Nat.le_of_not_lt fun hlt => ?_
    obtain ⟨u, hu, hcu⟩ := h.used 0 (by omega)
    obtain ⟨v, hv, hcv⟩ := h.used 1 hlt
    have hsame := (h.same_iff u hu v hv).mpr (hall u hu v hv)
    rw [hcu, hcv] at hsame
    cases hsame

/-- The components found are the classes of joined vertices, and a graph is found to be connected
just if it has at most one of them. -/
theorem WellFormed.components_exact (hg : g.WellFormed) :
    g.components.Exact g ∧ (g.isConnected = true ↔ g.components.count ≤ 1) := by
  obtain ⟨s, roots, hfold, h⟩ := Numbered.all hg (Nat.le_refl g.vertexCount)
  have hexact : g.components.Exact g := by
    rw [components, hfold]
    exact h.exact hg
  exact ⟨hexact, hg.isConnected_iff.trans hexact.count_le_one_iff.symm⟩

/-- Edges against their direction, parallel edges, a self-loop and a vertex without edges. -/
def scattered : Graph Unit Unit := plain 6 [(4, 1), (4, 1), (0, 4), (2, 2), (5, 2)]

/-- Three components, of which the second one is found from an edge against its direction and the
third from a vertex without edges. -/
theorem components_exact_scattered : scattered.WellFormed ∧
    scattered.components = ⟨3, #[0, 0, 1, 2, 0, 1]⟩ ∧ scattered.components.Exact scattered ∧
      scattered.isConnected = false := by
  have hg : scattered.WellFormed := wellFormed_plain (by decide) (by decide)
  obtain ⟨hexact, hconnected⟩ := hg.components_exact
  have hcomponents : scattered.components = ⟨3, #[0, 0, 1, 2, 0, 1]⟩ := by decide +kernel
  refine ⟨hg, hcomponents, hexact, Bool.eq_false_iff.mpr fun h => ?_⟩
  have hle := hconnected.mp h
  rw [hcomponents] at hle
  exact absurd hle (by decide)

end Graph

end CommonSubgraph
