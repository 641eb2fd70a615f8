import CommonSubgraph.Proofs.Graph.DepthFirst
import Mathlib.Logic.Relation

/-!
# Depth-first search with an explicit stack

The search as a machine that takes one step at a time and has no bound: it keeps the vertices under
way in a stack, each with the number of its edges followed so far (`Scan`). An observer that has
seen enough ends it at once. From every well-formed graph it comes to its end, with what
`Graph.gatherBackEdges` answers (`WellFormed.exists_scan_end`).
-/

namespace CommonSubgraph

namespace Graph

variable {ν ε β : Type} {g : Graph ν ε} {path fin fin' : List VertexId} {v : VertexId}
  {es met : List EdgeId} {roots : List VertexId} {s : Trail β} {observe : Observer β}

/-- A search under way. -/
structure Scan (β : Type) where
  /-- The vertices from which a search may still have to start. -/
  roots : List VertexId
  /-- The vertices under way, the newest first, and how many edges of each were followed. -/
  stack : List (VertexId × Nat)
  trail : Trail β

namespace Scan

/-- Follow the edge `e`. -/
def follow (g : Graph ν ε) (observe : Observer β) (e : EdgeId) : Scan β → Scan β
  | ⟨roots, stack, s⟩ =>
    match g.target? e with
    | none => ⟨roots, stack, s⟩
    | some t =>
      match s.mark t with
      | .onPath =>
        let (gathered, goOn) := observe e s.gathered
        if goOn then ⟨roots, stack, { s with gathered }⟩ else ⟨[], [], { s with gathered }⟩
      | .unvisited => ⟨roots, (t, 0) :: stack, s.setMark t .onPath⟩
      | .done => ⟨roots, stack, s⟩

/-- One step: look at the next edge of the newest vertex under way, finish that vertex if there is
none, or look at the next root. Without a vertex under way and without a root the search is over. -/
def next (g : Graph ν ε) (observe : Observer β) : Scan β → Option (Scan β)
  | ⟨[], [], _⟩ => none
  | ⟨r :: roots, [], s⟩ =>
    some (if s.mark r = .unvisited then ⟨roots, [(r, 0)], s.setMark r .onPath⟩ else ⟨roots, [], s⟩)
  | ⟨roots, (v, k) :: below, s⟩ =>
    match (g.outEdges v)[k]? with
    | none => some ⟨roots, below, s.setMark v .done⟩
    | some e => some (follow g observe e ⟨roots, (v, k + 1) :: below, s⟩)

/-- Some number of steps leads from one scan to the other. -/
def Reaches (g : Graph ν ε) (observe : Observer β) : Scan β → Scan β → Prop :=
  Relation.ReflTransGen fun c c' => c.next g observe = some c'

/-- What a search leaves: the roots and the stack given, or nothing if it was stopped. -/
def left (roots : List VertexId) (stack : List (VertexId × Nat)) :
    EStateM.Result Unit (Trail β) Unit → Scan β
  | .ok _ s => ⟨roots, stack, s⟩
  | .error _ s => ⟨[], [], s⟩

end Scan

open Scan

/-- While a vertex has an edge left, the next step follows that edge and moves the cursor. -/
theorem next_of_drop {k : Nat} {e : EdgeId} {es : List EdgeId} {below : List (VertexId × Nat)}
    (h : (g.outEdges v).drop k = e :: es) : next g observe ⟨roots, (v, k) :: below, s⟩ =
      some (Scan.follow g observe e ⟨roots, (v, k + 1) :: below, s⟩) := by
  have he : (g.outEdges v)[k]? = some e := by
    rw [← List.head?_drop, h]
    rfl
  cases roots <;> simp only [next, he]

/-- Moving the cursor on drops the edge it was at. -/
theorem drop_succ_of_drop {k : Nat} {e : EdgeId} {es : List EdgeId}
    (h : (g.outEdges v).drop k = e :: es) : (g.outEdges v).drop (k + 1) = es := by
  rw [← List.drop_drop, h]
  rfl

/-- What following an edge does depends on the mark of the vertex that it leads to. -/
theorem Scan.follow_eq {e : EdgeId} {t : VertexId} {stack : List (VertexId × Nat)}
    (ht : g.target? e = some t) : Scan.follow g observe e ⟨roots, stack, s⟩ =
      match s.mark t with
      | .onPath => left roots stack (report observe e s)
      | .unvisited => ⟨roots, (t, 0) :: stack, s.setMark t .onPath⟩
      | .done => ⟨roots, stack, s⟩ := by
  simp only [Scan.follow, ht]
  cases s.mark t with
  | onPath =>
    show _ = left roots stack (if (observe e s.gathered).2 then _ else _)
    cases h : (observe e s.gathered).2 <;> simp [left]
  | unvisited => rfl
  | done => rfl

/-- Two searches one after the other: the second goes on from what the first leaves. -/
theorem Arrives.andThen {path' roots' : List VertexId} {met' : List EdgeId} {b : β}
    {stack stack' : List (VertexId × Nat)} {c : Scan β} {r : EStateM.Result Unit (Trail β) Unit}
    (h : g.Arrives observe b met path fin r) (hr : Reaches g observe c (left roots stack r))
    (hnext : ∀ s : Trail β, s.Shows g path fin →
      ∃ r', g.Arrives observe s.gathered met' path' fin' r' ∧
        Reaches g observe ⟨roots, stack, s⟩ (left roots' stack' r')) :
    ∃ r', g.Arrives observe b (met ++ met') path' fin' r' ∧
      Reaches g observe c (left roots' stack' r') := by
  cases r with
  | error _ s => exact ⟨.error () s, h.of_stop, hr⟩
  | ok _ s =>
    obtain ⟨r', h', hr'⟩ := hnext s h.shows
    exact ⟨r', h.append h', hr.trans hr'⟩

/-- What the recursive search does below a vertex, the scan does in some number of steps, with the
vertex taken off the stack in the end. -/
theorem Followed.scan (h : g.Followed path es fin fin' met) (hg : g.WellFormed)
    (hs : g.Stage path fin) (hm : s.Shows g path fin) {v : VertexId} {path' : List VertexId}
    {k : Nat} (hpath : path = v :: path') (hes : (g.outEdges v).drop k = es)
    (roots : List VertexId) (below : List (VertexId × Nat)) :
    ∃ r, g.Arrives observe s.gathered met path' (fin' ++ [v]) r ∧
      Reaches g observe ⟨roots, (v, k) :: below, s⟩ (left roots below r) := by
  -- on the edges that are followed; the scan looks at the same edge with its cursor at `k`
  induction h generalizing s v path' k below with
  | @nil path fin =>
    subst hpath
    have hnone : (g.outEdges v)[k]? = none := by
      rw [← List.head?_drop, hes]
      rfl
    refine ⟨.ok () (s.setMark v .done), .goOn rfl (hm.pop hs), .single ?_⟩
    cases roots <;> simp only [next, hnone, left]
  | @back path fin fin' es met e t ht hp rest ih =>
    have hmark := (hm.mark_eq t (hg.target?_lt ht)).trans (if_pos hp)
    have hreport : g.Arrives observe s.gathered [e] path fin (report observe e s) := .report hm
    refine hreport.andThen (.single ?_) fun s₁ hm₁ =>
      ih hs hm₁ hpath (drop_succ_of_drop hes) below
    rw [next_of_drop hes, Scan.follow_eq ht, hmark]
  | @known path fin fin' es met e t ht hf rest ih =>
    have hp : t ∉ path := fun hp => hs.not_mem hp hf
    have hmark := hm.mark_eq t (hg.target?_lt ht)
    rw [if_neg hp, if_pos hf] at hmark
    obtain ⟨r, hr, hreach⟩ := ih hs hm hpath (drop_succ_of_drop hes) below
    refine ⟨r, hr, .head ?_ hreach⟩
    rw [next_of_drop hes, Scan.follow_eq ht, hmark]
  | @descend path fin mid fin' es met met' e t ht hp hf hbelow rest ihb ihr =>
    have hlt := hg.target?_lt ht
    have hpush := hs.push hlt hp hf
    have hmark := hm.mark_eq t hlt
    rw [if_neg hp, if_neg hf] at hmark
    obtain ⟨r, hr, hreach⟩ := ihb hpush (hm.push hlt) rfl List.drop_zero ((v, k + 1) :: below)
    refine hr.andThen (.head ?_ hreach) fun s₁ hm₁ =>
      ihr (hbelow.stage hg hpush).pop hm₁ hpath (drop_succ_of_drop hes) below
    rw [next_of_drop hes, Scan.follow_eq ht, hmark]

/-- The searches from all roots are some number of steps of the scan, and so leave what it
leaves. -/
theorem Started.scan (h : g.Started roots fin fin' met) (hg : g.WellFormed)
    (hr : ∀ r ∈ roots, r.index < g.vertexCount) (hs : g.Stage [] fin) (hm : s.Shows g [] fin) :
    ∃ r, g.Arrives observe s.gathered met [] fin' r ∧
      Reaches g observe ⟨roots, [], s⟩ (left [] [] r) := by
  induction h generalizing s with
  | nil => exact ⟨.ok () s, .goOn rfl hm, .refl⟩
  | @known roots fin fin' met r hf rest ih =>
    have hmark := hm.mark_eq r (hr r List.mem_cons_self)
    rw [if_neg List.not_mem_nil, if_pos hf] at hmark
    obtain ⟨out, hout, hreach⟩ := ih (fun u hu => hr u (List.mem_cons_of_mem r hu)) hs hm
    refine ⟨out, hout, .head ?_ hreach⟩
    rw [next, if_neg (by rw [hmark]; nofun)]
  | @search roots fin mid fin' met met' r hf below rest ih =>
    have hlt := hr r List.mem_cons_self
    have hpush := hs.push hlt List.not_mem_nil hf
    have hmark := hm.mark_eq r hlt
    rw [if_neg List.not_mem_nil, if_neg hf] at hmark
    obtain ⟨out, hout, hreach⟩ := below.scan hg hpush (hm.push hlt) rfl List.drop_zero roots []
    refine hout.andThen (.head ?_ hreach) fun s₁ hm₁ =>
      ih (fun u hu => hr u (List.mem_cons_of_mem r hu)) (below.stage hg hpush).pop hm₁
    rw [next, if_pos hmark]

/-- The search from all vertices, with `b` gathered at the start. -/
def Scan.start (g : Graph ν ε) (b : β) : Scan β :=
  ⟨g.vertexIds, [], ⟨Array.replicate g.vertexCount .unvisited, b⟩⟩

/-- The search of a well-formed graph comes to its end, whatever its observer. -/
theorem WellFormed.exists_scan_end (hg : g.WellFormed) (observe : Observer β) (b : β) :
    ∃ s, Reaches g observe (Scan.start g b) ⟨[], [], s⟩ ∧
      s.gathered = g.gatherBackEdges observe b := by
  obtain ⟨fin, h⟩ := hg.exists_started_backEdges
  obtain ⟨r, hr, hreach⟩ : ∃ r, g.Arrives observe b g.backEdges [] fin r ∧
      Reaches g observe (Scan.start g b) (left [] [] r) :=
    h.scan hg (index_lt_of_mem_vertexIds hg) (.nil g) (shows_unvisited g b)
  rw [hg.gatherBackEdges_eq]
  cases hr with
  | @goOn s hsee _ => exact ⟨s, hreach, by rw [show seeAll observe g.backEdges b = _ from hsee]⟩
  | @stop s hsee => exact ⟨s, hreach, by rw [show seeAll observe g.backEdges b = _ from hsee]⟩

end Graph

end CommonSubgraph
