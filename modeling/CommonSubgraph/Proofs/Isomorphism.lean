import CommonSubgraph.Proofs.Graph.Vertices
import CommonSubgraph.Solution
import Mathlib.Data.Finset.Card

/-!
# Partial isomorphisms as sets of pairs

A partial isomorphism is the same one in whatever order its pairs were made. `IsPartialIsoSet`
says what a set of pairs has to meet; under tests that do not care which of two pairs came first,
the pairs of a partial isomorphism make such a set (`IsPartialIso.toFinset`). A set with as many
pairs as there are vertices on one side uses up that side (`IsPartialIsoSet.exists_of_card_eq`).
-/

namespace CommonSubgraph

variable {ν ε σ : Type}

section

variable (g₁ g₂ : Graph ν ε) (T : Tests)

/-- The pairs of a set make an isomorphism between parts of two graphs. -/
structure IsPartialIsoSet (F : Finset (VertexId × VertexId)) : Prop where
  mem_first : ∀ p ∈ F, g₁.containsVertex p.1 = true
  mem_second : ∀ p ∈ F, g₂.containsVertex p.2 = true
  inj_first : ∀ p ∈ F, ∀ q ∈ F, p.1 = q.1 → p = q
  inj_second : ∀ p ∈ F, ∀ q ∈ F, p.2 = q.2 → p = q
  suits : ∀ p ∈ F, Suits g₁ g₂ T p
  agree : ∀ p ∈ F, ∀ q ∈ F, p ≠ q → Agree g₁ g₂ T p q

instance (F : Finset (VertexId × VertexId)) : Decidable (IsPartialIsoSet g₁ g₂ T F) :=
  decidable_of_iff
    ((∀ p ∈ F, g₁.containsVertex p.1 = true) ∧ (∀ p ∈ F, g₂.containsVertex p.2 = true) ∧
      (∀ p ∈ F, ∀ q ∈ F, p.1 = q.1 → p = q) ∧ (∀ p ∈ F, ∀ q ∈ F, p.2 = q.2 → p = q) ∧
      (∀ p ∈ F, Suits g₁ g₂ T p) ∧ ∀ p ∈ F, ∀ q ∈ F, p ≠ q → Agree g₁ g₂ T p q)
    ⟨fun ⟨h₁, h₂, h₃, h₄, h₅, h₆⟩ => ⟨h₁, h₂, h₃, h₄, h₅, h₆⟩,
      fun ⟨h₁, h₂, h₃, h₄, h₅, h₆⟩ => ⟨h₁, h₂, h₃, h₄, h₅, h₆⟩⟩

end

/-- The pairs of a solution, in no order. -/
def Solution.pairSet (s : Solution) : Finset (VertexId × VertexId) := s.pairs.toFinset

/-- The solution with the given pairs. -/
def Solution.ofPairs (pairs : List (VertexId × VertexId)) : Solution :=
  ⟨pairs.map Prod.fst, pairs.map Prod.snd⟩

@[simp] theorem Solution.pairs_ofPairs (pairs : List (VertexId × VertexId)) :
    (ofPairs pairs).pairs = pairs := by
  rw [ofPairs, Solution.pairs, List.zip_map']
  exact List.map_id pairs

@[simp] theorem Solution.size_ofPairs (pairs : List (VertexId × VertexId)) :
    (ofPairs pairs).size = pairs.length := List.length_map _

/-- The two sides of a solution made from pairs are equally long. -/
theorem Solution.length_eq_of_ofPairs {s : Solution} (h : s = .ofPairs s.pairs) :
    s.xs.length = s.ys.length := by
  rw [h, ofPairs, List.length_map, List.length_map]

variable {g₁ g₂ : Graph ν ε} {T : Tests} {pairs : List (VertexId × VertexId)}
variable {F : Finset (VertexId × VertexId)} {i : VertexId}

/-! ## Lists and sets -/

/-- A partial isomorphism has no pair twice. -/
theorem IsPartialIso.nodup (h : IsPartialIso g₁ g₂ T pairs) : pairs.Nodup :=
  List.Nodup.of_map _ h.nodup_first

/-- The set of the pairs has as many as the list. -/
theorem IsPartialIso.card_toFinset (h : IsPartialIso g₁ g₂ T pairs) :
    pairs.toFinset.card = pairs.length := List.toFinset_card_of_nodup h.nodup

/-- Whichever of two pairs came first, between their vertices there are as many edges on one side as
on the other. -/
theorem IsPartialIso.length_joining_eq (h : IsPartialIso g₁ g₂ T pairs)
    {p q : VertexId × VertexId} (hp : p ∈ pairs) (hq : q ∈ pairs) :
    (g₁.joining p.1 q.1).length = (g₂.joining p.2 q.2).length := by
  have hearlier := h.agree.imp fun ha => ha.1
  have hlater := h.agree.imp fun ha => ha.2.1
  exact hearlier.forall_of_forall_of_flip (fun p hp => (h.suits p hp).1) hlater hp hq

/-- The pairs of a partial isomorphism make one as a set, if the tests are symmetric. -/
theorem IsPartialIso.toFinset (h : IsPartialIso g₁ g₂ T pairs) (hT : T.Symmetric g₁ g₂) :
    IsPartialIsoSet g₁ g₂ T pairs.toFinset := by
  have hfst : ∀ p ∈ pairs, ∀ q ∈ pairs, p.1 = q.1 → p = q := fun p hp q hq =>
    List.inj_on_of_nodup_map h.nodup_first hp hq
  have hsnd : ∀ p ∈ pairs, ∀ q ∈ pairs, p.2 = q.2 → p = q := fun p hp q hq =>
    List.inj_on_of_nodup_map h.nodup_second hp hq
  -- of two pairs either may be the earlier one
  have hagree : ∀ p ∈ pairs, ∀ q ∈ pairs, p ≠ q → Agree g₁ g₂ T p q := by
    have hearlier : pairs.Pairwise fun p q => p ≠ q → Agree g₁ g₂ T p q := by
      refine h.agree.imp ?_
      exact fun ha _ => ha
    have hlater : pairs.Pairwise fun q p => p ≠ q → Agree g₁ g₂ T p q := by
      refine h.agree.imp_of_mem fun {q p} hq hp ha hne => ha.symm hT ?_ ?_
      · exact fun he => hne (hfst p hp q hq he.symm)
      · exact fun he => hne (hsnd p hp q hq he.symm)
    intro p hp q hq
    exact hearlier.forall_of_forall_of_flip (fun _ _ hne => absurd rfl hne) hlater hp hq
  simp only [← List.mem_toFinset] at hfst hsnd hagree
  exact ⟨fun p hp => h.mem_first p (List.mem_toFinset.mp hp),
    fun p hp => h.mem_second p (List.mem_toFinset.mp hp), hfst, hsnd,
    fun p hp => h.suits p (List.mem_toFinset.mp hp), hagree⟩

/-- The empty set of pairs is a partial isomorphism. -/
theorem isPartialIsoSet_empty (g₁ g₂ : Graph ν ε) (T : Tests) : IsPartialIsoSet g₁ g₂ T ∅ := by
  constructor <;> simp

/-! ## Sizes -/

/-- A partial isomorphism has no more pairs than the second graph has vertices. -/
theorem IsPartialIsoSet.card_le_second (h : IsPartialIsoSet g₁ g₂ T F) (hg : g₂.WellFormed) :
    F.card ≤ g₂.vertexCount := by
  rw [← Graph.length_vertexIds, ← List.toFinset_card_of_nodup (Graph.nodup_vertexIds hg)]
  refine Finset.card_le_card_of_injOn Prod.snd (fun p hp => ?_) fun p hp q hq =>
    h.inj_second p hp q hq
  exact List.mem_toFinset.mpr ((Graph.mem_vertexIds_iff hg).mpr (h.mem_second p hp))

/-- With as many pairs as the first graph has vertices, every vertex is in one. -/
theorem IsPartialIsoSet.exists_of_card_eq (h : IsPartialIsoSet g₁ g₂ T F) (hg : g₁.WellFormed)
    (hcard : F.card = g₁.vertexCount) (hi : g₁.containsVertex i = true) : ∃ j, (i, j) ∈ F := by
  have hsub : F.image Prod.fst ⊆ g₁.vertexIds.toFinset := by
    intro k hk
    obtain ⟨p, hp, rfl⟩ := Finset.mem_image.mp hk
    exact List.mem_toFinset.mpr ((Graph.mem_vertexIds_iff hg).mpr (h.mem_first p hp))
  have himage : (F.image Prod.fst).card = F.card :=
    Finset.card_image_of_injOn fun p hp q hq => h.inj_first p hp q hq
  have heq : F.image Prod.fst = g₁.vertexIds.toFinset := by
    refine Finset.eq_of_subset_of_card_le hsub ?_
    rw [List.toFinset_card_of_nodup (Graph.nodup_vertexIds hg), Graph.length_vertexIds, himage,
      hcard]
  have hmem : i ∈ F.image Prod.fst :=
    heq ▸ List.mem_toFinset.mpr ((Graph.mem_vertexIds_iff hg).mpr hi)
  obtain ⟨⟨_, j⟩, hp, rfl⟩ := Finset.mem_image.mp hmem
  exact ⟨j, hp⟩

/-- A set is total if and only if it has as many pairs as the first graph has vertices. -/
theorem IsPartialIsoSet.card_eq_iff (h : IsPartialIsoSet g₁ g₂ T F) (hg : g₁.WellFormed) :
    F.card = g₁.vertexCount ↔ ∀ i, g₁.containsVertex i = true → ∃ j, (i, j) ∈ F := by
  constructor
  · intro hcard i hi
    exact h.exists_of_card_eq hg hcard hi
  · intro htotal
    have himage : F.image Prod.fst = g₁.vertexIds.toFinset := by
      ext k
      rw [List.mem_toFinset, Graph.mem_vertexIds_iff hg, Finset.mem_image]
      constructor
      · rintro ⟨p, hp, rfl⟩
        exact h.mem_first p hp
      · intro hk
        obtain ⟨j, hj⟩ := htotal k hk
        exact ⟨(k, j), hj, rfl⟩
    rw [← Finset.card_image_of_injOn fun p hp q hq => h.inj_first p hp q hq, himage,
      List.toFinset_card_of_nodup (Graph.nodup_vertexIds hg), Graph.length_vertexIds]

/-! ## Structure alone -/

/-- Tests that accept everything. -/
def Tests.structural : Tests := ⟨fun _ _ => true, fun _ _ _ _ _ _ => true⟩

/-- Tests that accept everything are symmetric. -/
theorem Tests.symmetric_structural (g₁ g₂ : Graph ν ε) : Tests.structural.Symmetric g₁ g₂ :=
  fun _ _ _ _ _ _ => rfl

/-- The structural predicate asks the tests that accept everything. -/
theorem Predicate.answers_structural (g₁ g₂ : Graph ν ε) :
    (Predicate.structural : Predicate ν ε σ).Answers g₁ g₂ Tests.structural where
  vertices_eq _ _ _ _ _ := rfl
  edges_eq _ _ _ _ _ _ _ _ _ := rfl

end CommonSubgraph
