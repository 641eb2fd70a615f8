import CommonSubgraph.Proofs.Graph.Insertion

/-!
# Edges between numbered vertices

A graph may be given by the number of its vertices and a pair of numbers for each edge. It is built
if every number names one of the vertices, and otherwise the first pair with a number that does not
is the error (`ofEdges_exact`).

It is the name that counts, which is made of the low 32 bits of a number. So a number of `2 ^ 32` or
more is taken for a small one, and may be accepted although no vertex has this position
(`ofEdges_accepts_wide`).
-/

namespace CommonSubgraph

namespace Graph

variable {ν ε : Type} {g : Graph ν ε} {s t v : VertexId} {n : Nat} {pairs : List (Nat × Nat)}
  {e : GraphError}

/-- Both numbers name a vertex of a graph of `n` vertices. -/
def EndsNamed (n : Nat) (p : Nat × Nat) : Prop :=
  p.1 % UInt32.size < n ∧ p.2 % UInt32.size < n

instance (n : Nat) (p : Nat × Nat) : Decidable (EndsNamed n p) :=
  inferInstanceAs (Decidable (_ ∧ _))

/-- The pair names the vertex `v`, which a graph of `n` vertices does not have. Of two such vertices
it is the source. -/
inductive EndMissing (n : Nat) : Nat × Nat → VertexId → Prop
  | source {s t : Nat} (hs : n ≤ s % UInt32.size) : EndMissing n (s, t) (VertexId.ofNat s)
  | target {s t : Nat} (hs : s % UInt32.size < n) (ht : n ≤ t % UInt32.size) :
      EndMissing n (s, t) (VertexId.ofNat t)

/-- The pair at position `k` is the first with an end that is missing, and this end is `v`. -/
structure FirstMissing (n : Nat) (pairs : List (Nat × Nat)) (k : Nat) (v : VertexId) : Prop where
  missing : ∃ p, pairs[k]? = some p ∧ EndMissing n p v
  named : ∀ p ∈ pairs.take k, EndsNamed n p

/-- As long as numbers are no larger than names, they name the vertices at their own positions. -/
theorem endsNamed_iff_lt {p : Nat × Nat} (h : p.1 < UInt32.size ∧ p.2 < UInt32.size) :
    EndsNamed n p ↔ p.1 < n ∧ p.2 < n := by
  rw [EndsNamed, Nat.mod_eq_of_lt h.1, Nat.mod_eq_of_lt h.2]

/-- A number names a vertex if its low 32 bits are below the number of vertices. -/
theorem containsVertex_ofNat_iff {k : Nat} :
    g.containsVertex (VertexId.ofNat k) = true ↔ k % UInt32.size < g.vertexCount := by
  rw [containsVertex, decide_eq_true_iff, VertexId.index_ofNat_mod]

/-- An edge is refused for its source or, if that is there, for its target. -/
theorem endMissing_of_insertEdge {p : Nat × Nat} {b : ε}
    (h : g.insertEdge (VertexId.ofNat p.1) (VertexId.ofNat p.2) b = .error e) :
    ∃ v, EndMissing g.vertexCount p v ∧ e = .unknownVertex v := by
  rw [insertEdge] at h
  by_cases hs : p.1 % UInt32.size < g.vertexCount
  · by_cases ht : p.2 % UInt32.size < g.vertexCount
    · rw [containsVertex_ofNat_iff.mpr hs, containsVertex_ofNat_iff.mpr ht] at h
      cases h
    · rw [containsVertex_ofNat_iff.mpr hs,
        Bool.eq_false_iff.mpr (containsVertex_ofNat_iff.not.mpr ht)] at h
      cases h
      exact ⟨_, .target hs (Nat.le_of_not_lt ht), rfl⟩
  · rw [Bool.eq_false_iff.mpr (containsVertex_ofNat_iff.not.mpr hs)] at h
    cases h
    exact ⟨_, .source (Nat.le_of_not_lt hs), rfl⟩

/-- Edges that cannot be inserted are refused for the first end that is missing. -/
theorem firstMissing_of_insertEdges {b : ε} (h : g.insertEdges
      (pairs.map fun p => (VertexId.ofNat p.1, VertexId.ofNat p.2, b)) = .error e) :
    ∃ k v, FirstMissing g.vertexCount pairs k v ∧ e = .unknownVertex v := by
  induction pairs generalizing g with
  | nil => cases h
  | cons p rest ih =>
    rw [List.map_cons, insertEdges] at h
    cases he : g.insertEdge (VertexId.ofNat p.1) (VertexId.ofNat p.2) b with
    | error e' =>
      rw [he] at h
      cases h
      obtain ⟨v, hv, rfl⟩ := endMissing_of_insertEdge he
      exact ⟨0, v, ⟨⟨p, rfl, hv⟩, List.forall_mem_nil _⟩, rfl⟩
    | ok r =>
      obtain ⟨g₁, f⟩ := r
      rw [he] at h
      obtain ⟨hs, ht, -⟩ := (insertEdge_eq_ok_iff b).mp he
      have hp : EndsNamed g.vertexCount p :=
        ⟨containsVertex_ofNat_iff.mp hs, containsVertex_ofNat_iff.mp ht⟩
      obtain ⟨k, v, hfirst, rfl⟩ := ih h
      rw [vertexCount_insertEdge he] at hfirst
      exact ⟨k + 1, v, ⟨hfirst.missing, List.forall_mem_cons.mpr ⟨hp, hfirst.named⟩⟩, rfl⟩

section

variable {a : ν} {b : ε}

/-- If a graph is built from pairs, all their numbers name vertices. -/
theorem endsNamed_of_ofEdges (h : ofEdges a b n pairs = .ok g) : ∀ p ∈ pairs, EndsNamed n p := by
  have hends := lt_of_insertEdges h
  rw [vertexCount_ofVertexValues, List.length_replicate, List.forall_mem_map] at hends
  intro p hp
  have hpair := hends p hp
  rwa [VertexId.index_ofNat_mod, VertexId.index_ofNat_mod] at hpair

/-- If no graph is built from pairs, the error is the first end that is missing. -/
theorem firstMissing_of_ofEdges (h : ofEdges a b n pairs = .error e) :
    ∃ k v, FirstMissing n pairs k v ∧ e = .unknownVertex v := by
  have hfirst := firstMissing_of_insertEdges h
  rwa [vertexCount_ofVertexValues, List.length_replicate] at hfirst

end

/-- A graph of `n` vertices is built if all pairs name two of them, and has their edges in order;
otherwise the first end that is missing is the error. A number names the vertex at the position that
its low 32 bits tell, which is its own position if it is below `2 ^ 32`. -/
theorem ofEdges_exact (a : ν) (b : ε) (n : Nat) (pairs : List (Nat × Nat)) :
    ((∃ g, ofEdges a b n pairs = .ok g) ↔ ∀ p ∈ pairs, EndsNamed n p) ∧
      ((∀ p ∈ pairs, p.1 < UInt32.size ∧ p.2 < UInt32.size) →
        ((∃ g, ofEdges a b n pairs = .ok g) ↔ ∀ p ∈ pairs, p.1 < n ∧ p.2 < n)) ∧
      (∀ g, ofEdges a b n pairs = .ok g → g.vertexCount = n ∧ g.edgeCount = pairs.length ∧
        ∀ k p, pairs[k]? = some p → ∃ x, g.edges[k]? = some x ∧ x.id = EdgeId.ofNat k ∧
          x.source.index = p.1 % UInt32.size ∧ x.target.index = p.2 % UInt32.size) ∧
      ∀ e, ofEdges a b n pairs = .error e →
        ∃ k v, FirstMissing n pairs k v ∧ e = .unknownVertex v := by
  have hbuilt : (∃ g, ofEdges a b n pairs = .ok g) ↔ ∀ p ∈ pairs, EndsNamed n p := by
    refine ⟨fun ⟨g, hg⟩ => endsNamed_of_ofEdges hg, fun hall => ?_⟩
    obtain ⟨g, hg, -⟩ := exists_ofEdges a b hall
    exact ⟨g, hg⟩
  refine ⟨hbuilt, fun hnarrow => ?_, fun g hg => ?_, fun e he => firstMissing_of_ofEdges he⟩
  · exact hbuilt.trans (forall₂_congr fun p hp => endsNamed_iff_lt (hnarrow p hp))
  · obtain ⟨g', hg', hv, hedges⟩ := exists_ofEdges a b (endsNamed_of_ofEdges hg)
    cases hg.symm.trans hg'
    refine ⟨hv, ?_, fun k p hp => ?_⟩
    · rw [edgeCount, ← Array.length_toList, hedges, List.length_mapIdx]
    · refine ⟨⟨EdgeId.ofNat k, VertexId.ofNat p.1, VertexId.ofNat p.2, b⟩, ?_, rfl,
        VertexId.index_ofNat_mod p.1, VertexId.index_ofNat_mod p.2⟩
      rw [← Array.getElem?_toList, hedges, List.getElem?_mapIdx, hp, Option.map_some]

/-- The second pair names vertex `1` by a number beyond all names, and the third has no source. -/
theorem ofEdges_exact_third_missing :
    (∃ g : Graph Unit Unit, ofEdges () () 2 [(1, 0), (4294967297, 1)] = .ok g ∧
      g.vertexCount = 2 ∧ g.edgeCount = 2) ∧
    ∃ k v, FirstMissing 2 [(1, 0), (4294967297, 1), (7, 9)] k v ∧ v = VertexId.ofNat 7 := by
  obtain ⟨hok, -, hgraph, -⟩ := ofEdges_exact () () 2 [(1, 0), (4294967297, 1)]
  obtain ⟨-, -, -, herror⟩ := ofEdges_exact () () 2 [(1, 0), (4294967297, 1), (7, 9)]
  have hrun : ofEdges () () 2 [(1, 0), (4294967297, 1), (7, 9)] =
      .error (.unknownVertex (VertexId.ofNat 7)) := by decide +kernel
  obtain ⟨g, hg⟩ := hok.mpr (by decide)
  obtain ⟨hv, he, -⟩ := hgraph g hg
  obtain ⟨k, v, hfirst, hname⟩ := herror _ hrun
  exact ⟨⟨g, hg, hv, he⟩, k, v, hfirst, (GraphError.unknownVertex.inj hname).symm⟩

/-- A number beyond all names is taken for the vertex that its low 32 bits tell, so a graph of one
vertex is built although the source is no position in it. -/
theorem ofEdges_accepts_wide :
    ¬ ((∃ g : Graph Unit Unit, ofEdges () () 1 [(4294967296, 0)] = .ok g) ↔
      ∀ p ∈ [(4294967296, 0)], p.1 < 1 ∧ p.2 < 1) := by
  intro h
  have hnamed : ∀ p ∈ [(4294967296, 0)], EndsNamed 1 p := by decide
  obtain ⟨g, hg, -⟩ := exists_ofEdges () () hnamed
  exact absurd (h.mp ⟨g, hg⟩) (by decide)

end Graph

end CommonSubgraph
