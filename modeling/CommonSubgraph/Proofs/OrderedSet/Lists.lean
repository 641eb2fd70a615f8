import CommonSubgraph.OrderedSet.Lemmas
import Mathlib.Data.List.Nodup

/-!
# Ordered sets of vertices

A set of positions read as the vertices at them: `s.Lists n l` says that the members of the set over
`0, …, n - 1` are the vertices `l` in order. Inserting appends a vertex, erasing deletes it where it
stands, and filling the set gives all vertices in ascending order.
-/

namespace CommonSubgraph

/-- The set has the domain `0, …, n - 1`, and its members are those of `l` in order. -/
structure OrderedSet.Lists (s : OrderedSet) (n : Nat) (l : List VertexId) : Prop where
  domain_eq : s.domain = n
  represents : s.Represents (l.map VertexId.index)

namespace OrderedSet.Lists

variable {s : OrderedSet} {n : Nat} {l : List VertexId} {i : VertexId}

theorem index_injective : Function.Injective VertexId.index :=
  fun _ _ h => VertexId.index_inj.mp h

/-- The vertices of a set are those of its list, in order. -/
theorem vertices_eq (h : s.Lists n l) : s.vertices = l := by
  rw [OrderedSet.vertices, h.represents.values_eq, List.map_map]
  exact (List.map_congr_left fun v _ => VertexId.ofNat_index v).trans (List.map_id l)

/-- No vertex stands twice in the list of a set. -/
theorem nodup (h : s.Lists n l) : l.Nodup := List.Nodup.of_map _ h.represents.nodup

/-- A set has as many members as its list. -/
theorem size_eq (h : s.Lists n l) : s.size = l.length := by
  rw [h.represents.size_eq, List.length_map]

/-- The vertices of the list have numbers in the domain. -/
theorem index_lt (h : s.Lists n l) (hi : i ∈ l) : i.index < n :=
  h.domain_eq ▸ h.represents.lt_domain _ (List.mem_map_of_mem hi)

/-- A vertex is a member if it stands in the list. -/
theorem contains_iff (h : s.Lists n l) : s.contains i.index = true ↔ i ∈ l := by
  rw [h.represents.contains_iff]
  exact List.mem_map_of_injective index_injective

/-- Erasing a vertex takes it out of the list and leaves the others in order. -/
theorem erase (h : s.Lists n l) (i : VertexId) : (s.erase i.index).1.Lists n (l.erase i) := by
  obtain ⟨-, hd, hr⟩ := h.represents.erase i.index
  refine ⟨hd.trans h.domain_eq, ?_⟩
  rwa [List.map_erase index_injective]

/-- A vertex of the domain that is no member can be inserted and comes last. -/
theorem insert (h : s.Lists n l) (hi : i ∉ l) (hn : i.index < n) :
    ∃ t b, s.insert i.index = .ok (t, b) ∧ t.Lists n (l ++ [i]) := by
  obtain ⟨t, ht, hd, hr⟩ := h.represents.insert (v := i.index) (h.domain_eq ▸ hn)
  have hm : i.index ∉ l.map VertexId.index :=
    fun hm => hi ((List.mem_map_of_injective index_injective).mp hm)
  rw [if_neg hm] at hr
  exact ⟨t, _, ht, hd.trans h.domain_eq, by simpa using hr⟩

/-- Putting a vertex appends it unless it is there. -/
theorem put (h : s.Lists n l) (v : Fin s.domain) (hi : i.index = v.val) :
    (s.put v).Lists n (if i ∈ l then l else l ++ [i]) := by
  refine ⟨(domain_put s v).trans h.domain_eq, ?_⟩
  have hr := h.represents.put v
  rw [← hi] at hr
  simp only [List.mem_map_of_injective index_injective] at hr
  split
  · next hm => rwa [if_pos hm] at hr
  · next hm => simpa [hm] using hr

/-- Inserting everything leaves all vertices in ascending order. -/
theorem insertAll (h : s.Lists n l) (hn : n ≤ UInt32.size) :
    s.insertAll.Lists n ((List.range n).map VertexId.ofNat) := by
  obtain ⟨hd, hr⟩ := h.represents.insertAll
  have he : ((List.range n).map VertexId.ofNat).map VertexId.index = List.range n := by
    rw [List.map_map]
    refine (List.map_congr_left fun k hk => ?_).trans (List.map_id _)
    exact VertexId.index_ofNat (Nat.lt_of_lt_of_le (List.mem_range.mp hk) hn)
  exact ⟨hd.trans h.domain_eq, by rwa [he, ← h.domain_eq]⟩

/-- The empty set has the empty list. -/
theorem empty (n : Nat) : (OrderedSet.empty n).Lists n [] :=
  ⟨rfl, represents_empty n⟩

end OrderedSet.Lists

end CommonSubgraph
