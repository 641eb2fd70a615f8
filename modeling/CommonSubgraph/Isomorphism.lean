import CommonSubgraph.Callback

/-!
# Partial isomorphisms

What a search looks for, said without searching. A list of pairs is a partial isomorphism of two
graphs (`IsPartialIso`) if it pairs different vertices with different vertices, every pair suits by
itself (`Suits`), and every two pairs agree (`Agree`): between their vertices there are as many
edges in each direction in one graph as in the other, and where there is an edge the caller accepts
it.

The caller is a pair of tests here, which answer a question always in the same way; a predicate that
asks them and does nothing else is described by `Predicate.Answers`. That the earlier of two pairs
is the accepted one makes no difference to tests that are `Tests.Symmetric`.

`Graph.joining` is the same list of edges as `Graph.edgesBetween` wherever that does not fault
(`Graph.edgesBetween_eq_joining`).
-/

namespace CommonSubgraph

variable {ν ε σ : Type}

/-! ## Edges between two vertices -/

namespace Graph

/-- The edges from `s` to `t` in the order of insertion, none if there is no vertex `s`. -/
def joining (g : Graph ν ε) (s t : VertexId) : List EdgeId :=
  (g.outEdges s).filter fun e => g.target? e = some t

/-- The edges from `s` to `t`, followed by those from `t` to `s` if that is another vertex. -/
def touching (g : Graph ν ε) (s t : VertexId) : List EdgeId :=
  if s = t then g.joining s t else g.joining s t ++ g.joining t s

/-- Selecting among edges of the graph never faults and picks those that end at `t`. -/
theorem selectInto_eq_ok (g : Graph ν ε) (t : VertexId) {es : List EdgeId}
    (h : ∀ e ∈ es, e.index < g.edgeCount) :
    g.selectInto t es = .ok (es.filter fun e => g.target? e = some t) := by
  induction es with
  | nil => rfl
  | cons e rest ih =>
    have he : e.index < g.edges.size := h e List.mem_cons_self
    have hf : g.findEdge e = some g.edges[e.index] := Array.getElem?_eq_getElem he
    rw [selectInto, ih fun x hx => h x (List.mem_cons_of_mem e hx), edge, hf]
    by_cases ht : g.edges[e.index].target = t <;>
      simp [bind, Except.bind, pure, Except.pure, target?, hf, ht]

/-- For a vertex of a well-formed graph, looking up the edges to another one never faults and gives
them in the order in which they are listed. -/
theorem edgesBetween_eq_joining {g : Graph ν ε} (h : g.WellFormed) {s : VertexId}
    (hs : g.containsVertex s = true) (t : VertexId) : g.edgesBetween s t = .ok (g.joining s t) := by
  obtain ⟨x, hx⟩ : ∃ x, g.findVertex s = some x :=
    ⟨_, Array.getElem?_eq_getElem (of_decide_eq_true hs)⟩
  have ho : g.outEdges s = x.outEdges.toList := by rw [outEdges, hx]
  have hlt : ∀ e ∈ x.outEdges.toList, e.index < g.edgeCount := ho ▸ h.outEdges_lt s
  rw [edgesBetween, vertex, hx, joining, ho]
  exact selectInto_eq_ok g t hlt

end Graph

/-! ## Tests -/

/-- Answers on which vertices and edges may correspond that depend on nothing but the question. -/
structure Tests where
  /-- May a vertex of the first graph be paired with one of the second? -/
  vertices : (v₁ v₂ : VertexId) → Bool
  /-- With `i₁` and `j₁` paired, may `i₂` and `j₂` be paired too, as far as the edges go? -/
  edges : (i₁ i₂ : VertexId) → (edges₁ : List EdgeId) → (j₁ j₂ : VertexId) →
    (edges₂ : List EdgeId) → Bool

/-- The predicate answers questions on `g₁` and `g₂` as the tests do and does nothing else. -/
structure Predicate.Answers (p : Predicate ν ε σ) (g₁ g₂ : Graph ν ε) (T : Tests) : Prop where
  vertices_eq : ∀ i j s, g₁.containsVertex i = true → g₂.containsVertex j = true →
    p.vertices g₁ i g₂ j s = .ok (T.vertices i j) s
  edges_eq : ∀ i₁ i₂ j₁ j₂ s, g₁.containsVertex i₁ = true → g₁.containsVertex i₂ = true →
    g₂.containsVertex j₁ = true → g₂.containsVertex j₂ = true →
    p.edges g₁ i₁ i₂ (g₁.touching i₁ i₂) g₂ j₁ j₂ (g₂.touching j₁ j₂) s =
      .ok (T.edges i₁ i₂ (g₁.touching i₁ i₂) j₁ j₂ (g₂.touching j₁ j₂)) s

section

variable (g₁ g₂ : Graph ν ε) (T : Tests)

/-- The tests accept two pairs, or refuse them, whichever of the two is the accepted one. -/
def Tests.Symmetric : Prop :=
  ∀ i₁ i₂ j₁ j₂, i₁ ≠ i₂ → j₁ ≠ j₂ →
    T.edges i₁ i₂ (g₁.touching i₁ i₂) j₁ j₂ (g₂.touching j₁ j₂) =
      T.edges i₂ i₁ (g₁.touching i₂ i₁) j₂ j₁ (g₂.touching j₂ j₁)

/-! ## Pairs that go together -/

/-- The pair can be made: it has as many self-loops on one side as on the other, and the tests
accept its vertices and its self-loops. -/
def Suits (p : VertexId × VertexId) : Prop :=
  (g₁.joining p.1 p.1).length = (g₂.joining p.2 p.2).length ∧
    T.vertices p.1 p.2 = true ∧
    T.edges p.1 p.1 (g₁.joining p.1 p.1) p.2 p.2 (g₂.joining p.2 p.2) = true

instance (p : VertexId × VertexId) : Decidable (Suits g₁ g₂ T p) :=
  inferInstanceAs (Decidable (_ ∧ _ ∧ _))

/-- The pair `q` can be made beside the pair `p`: in each direction there are as many edges on one
side as on the other, and where there are any the tests accept them. -/
def Agree (p q : VertexId × VertexId) : Prop :=
  (g₁.joining p.1 q.1).length = (g₂.joining p.2 q.2).length ∧
    (g₁.joining q.1 p.1).length = (g₂.joining q.2 p.2).length ∧
    (g₁.touching p.1 q.1 ≠ [] →
      T.edges p.1 q.1 (g₁.touching p.1 q.1) p.2 q.2 (g₂.touching p.2 q.2) = true)

instance (p q : VertexId × VertexId) : Decidable (Agree g₁ g₂ T p q) :=
  inferInstanceAs (Decidable (_ ∧ _ ∧ (_ → _)))

/-! ## Partial isomorphisms -/

/-- The pairs make an isomorphism between parts of two graphs. -/
structure IsPartialIso (pairs : List (VertexId × VertexId)) : Prop where
  mem_first : ∀ p ∈ pairs, g₁.containsVertex p.1 = true
  mem_second : ∀ p ∈ pairs, g₂.containsVertex p.2 = true
  nodup_first : (pairs.map Prod.fst).Nodup
  nodup_second : (pairs.map Prod.snd).Nodup
  suits : ∀ p ∈ pairs, Suits g₁ g₂ T p
  agree : pairs.Pairwise (Agree g₁ g₂ T)

instance (pairs : List (VertexId × VertexId)) : Decidable (IsPartialIso g₁ g₂ T pairs) :=
  decidable_of_iff
    ((∀ p ∈ pairs, g₁.containsVertex p.1 = true) ∧ (∀ p ∈ pairs, g₂.containsVertex p.2 = true) ∧
      (pairs.map Prod.fst).Nodup ∧ (pairs.map Prod.snd).Nodup ∧
      (∀ p ∈ pairs, Suits g₁ g₂ T p) ∧ pairs.Pairwise (Agree g₁ g₂ T))
    ⟨fun ⟨h₁, h₂, h₃, h₄, h₅, h₆⟩ => ⟨h₁, h₂, h₃, h₄, h₅, h₆⟩,
      fun ⟨h₁, h₂, h₃, h₄, h₅, h₆⟩ => ⟨h₁, h₂, h₃, h₄, h₅, h₆⟩⟩

variable {g₁ g₂ T}

/-- Two pairs agree in either order if the tests are symmetric. -/
theorem Agree.symm (h : T.Symmetric g₁ g₂) {p q : VertexId × VertexId} (hp : p.1 ≠ q.1)
    (hq : p.2 ≠ q.2) (ha : Agree g₁ g₂ T p q) : Agree g₁ g₂ T q p := by
  refine ⟨ha.2.1, ha.1, fun hne => ?_⟩
  rw [← h p.1 q.1 p.2 q.2 hp hq]
  refine ha.2.2 fun he => hne ?_
  simp_all [Graph.touching, Ne.symm hp]

/-- No pairs at all are a partial isomorphism. -/
theorem isPartialIso_nil : IsPartialIso g₁ g₂ T [] := by
  constructor <;> simp

end

end CommonSubgraph
