import CommonSubgraph.Proofs.Graph.Erasure
import CommonSubgraph.Proofs.Search.SameCounts
import CommonSubgraph.Proofs.Solver.Gathering
import CommonSubgraph.Proofs.Solver.History

/-!
# Runs do not depend on the numbering of edges

With a ready-made predicate, a run on two graphs goes as one on any other two graphs that have the
same values at their vertices and the same counts of edges: the processors are given the same
solutions in the same order, and the runs come to the same end with the same use of the arena
(`Solver.Reachable.run_eq_renumbered`). All that is asked of the processors is that they answer
alike, which they do if their answers depend on nothing but the solutions and what they keep of
them.

Two problems are compared over a third one, which has the graphs of the first and the caller of the
second: it is like the first for callers that answer alike (`Problem.AlikeBy`), and its search is
the program of the second (`Problem.SameAnswers.search_eq`).
-/

namespace CommonSubgraph

variable {ν ε ε' σ σ' τ α : Type}

/-! ## Callers on other graphs -/

/-- The predicates that come ready-made, for values `ν` at vertices. -/
inductive Predicate.BuiltIn (ν : Type) where
  | structural
  | equalValues (decEq : DecidableEq ν)

/-- The predicate for edges with any values and any state of a caller. -/
def Predicate.BuiltIn.predicate : BuiltIn ν → Predicate ν ε σ
  | structural => .structural
  | equalValues _ => .equalValues

/-- On their own graphs, the processors answer every solution alike from states related by `R`,
which leaves them in related states. -/
def Processor.AlikeOn (q : Processor ν ε σ) (g₁ g₂ : Graph ν ε) (q' : Processor ν ε' σ')
    (h₁ h₂ : Graph ν ε') (R : σ → σ' → Prop) : Prop :=
  ∀ xs ys x y, R x y → EndAlike R (q.process g₁ xs g₂ ys x) (q'.process h₁ xs h₂ ys y)

/-- The processor, which takes any graphs for `h₁` and `h₂`. -/
def Processor.shown (q' : Processor ν ε' σ') (h₁ h₂ : Graph ν ε') : Processor ν ε σ' where
  process _ xs _ ys := q'.process h₁ xs h₂ ys

namespace Predicate.BuiltIn

variable {g₁ g₂ : Graph ν ε} {h₁ h₂ : Graph ν ε'} {R : σ → σ' → Prop} {x : σ} {y : σ'}

/-- What is answered where vertices correspond by their values. -/
theorem equalValues_vertices [DecidableEq ν] (g₁ : Graph ν ε) (i : VertexId) (g₂ : Graph ν ε)
    (j : VertexId) : (Predicate.equalValues : Predicate ν ε σ).vertices g₁ i g₂ j =
      Callback.ofExcept (match (g₁.findVertex i).map Vertex.value,
          (g₂.findVertex j).map Vertex.value with
        | some v, some w => .ok (decide (v = w))
        | _, _ => .error .indexOutOfRange) := by
  funext x
  simp only [Predicate.equalValues, Graph.vertex]
  cases g₁.findVertex i with
  | none => rfl
  | some v => cases g₂.findVertex j <;> rfl

/-- A computation without a caller ends alike from related states. -/
theorem endAlike_ofExcept (r : Except Fault α) (hR : R x y) :
    EndAlike R (Callback.ofExcept r x) (Callback.ofExcept r y) := by
  cases r with
  | ok a => exact .ok hR
  | error f => exact .error hR

/-- Callers in related states get the same answers. -/
theorem endAlike_vertices (b : BuiltIn ν) (g₁ : Graph ν ε) (i : VertexId) (g₂ : Graph ν ε)
    (j : VertexId) (hR : R x y) :
    EndAlike R (b.predicate.vertices g₁ i g₂ j x) (b.predicate.vertices g₁ i g₂ j y) := by
  cases b with
  | structural => exact .ok hR
  | equalValues =>
    simp only [predicate, equalValues_vertices]
    exact endAlike_ofExcept _ hR

/-- The answers on vertices depend on their values only. -/
theorem vertices_eq (b : BuiltIn ν) (hs₁ : g₁.SameCounts h₁) (hs₂ : g₂.SameCounts h₂)
    (i j : VertexId) : (b.predicate.vertices h₁ i h₂ j : Callback σ Bool) =
      b.predicate.vertices g₁ i g₂ j := by
  cases b with
  | structural => rfl
  | equalValues =>
    simp only [predicate, equalValues_vertices, hs₁.map_value_findVertex, hs₂.map_value_findVertex]

/-- The predicates that come ready-made accept all edges that stand beside each other. -/
theorem edges_eq (b : BuiltIn ν) (g₁ : Graph ν ε) (i₁ i₂ : VertexId) (es₁ : List EdgeId)
    (g₂ : Graph ν ε) (j₁ j₂ : VertexId) (es₂ : List EdgeId) :
    (b.predicate.edges g₁ i₁ i₂ es₁ g₂ j₁ j₂ es₂ : Callback σ Bool) = pure true := by
  cases b <;> rfl

/-- The predicates that come ready-made never end a search. -/
theorem progress_eq (b : BuiltIn ν) (level : Nat) :
    ((b.predicate : Predicate ν ε σ).progress level) = pure .proceed := by
  cases b <;> rfl

end Predicate.BuiltIn

namespace Problem

variable {P : Problem ν ε σ} {P' : Problem ν ε' σ'} {b : Predicate.BuiltIn ν} {R : σ → σ' → Prop}

/-- The problem with the graphs of `P` and the caller of `P'`, which is not told of that. -/
def between (P : Problem ν ε σ) (P' : Problem ν ε' σ') (b : Predicate.BuiltIn ν) :
    Problem ν ε σ' :=
  P.recast b.predicate (P'.processor.shown P'.first P'.second)

/-- A problem with related callers is answered as it is with the caller of the other one. -/
theorem alikeBy_between (hb : P.predicate = b.predicate)
    (hq : P.processor.AlikeOn P.first P.second P'.processor P'.first P'.second R) :
    P.AlikeBy (P.between P' b) R where
  first_eq := rfl
  second_eq := rfl
  config_eq := rfl
  vertices i j x y hR := by
    rw [hb]
    exact b.endAlike_vertices P.first i P.second j hR
  edges i₁ i₂ es₁ j₁ j₂ es₂ x y hR := by
    simp only [hb, between, recast, Predicate.BuiltIn.edges_eq]
    exact .ok hR
  progress level x y hR := by
    simp only [hb, between, recast, Predicate.BuiltIn.progress_eq]
    exact .ok hR
  process xs ys x y hR := hq xs ys x y hR

/-- The predicate that comes ready-made gives the same answers on graphs with the same counts. -/
theorem sameAnswers_between (hb : P'.predicate = b.predicate) (hc : P'.config = P.config)
    (hfirst : P.first.SameCounts P'.first) (hsecond : P.second.SameCounts P'.second)
    (hg₁ : P.first.WellFormed) (hg₂ : P.second.WellFormed) (hh₁ : P'.first.WellFormed)
    (hh₂ : P'.second.WellFormed) : (P.between P' b).SameAnswers P' where
  first_count := hfirst.vertexCount_eq
  second_count := hsecond.vertexCount_eq
  first := hfirst.foundAlike hg₁ hh₁
  second := hsecond.foundAlike hg₂ hh₂
  config_eq := hc
  vertices i j := by
    rw [hb]
    exact b.vertices_eq hfirst hsecond i j
  edges i₁ i₂ es₁ es₁' j₁ j₂ es₂ es₂' := by
    simp only [hb, between, recast, Predicate.BuiltIn.edges_eq]
  progress level := by
    simp only [hb, between, recast, Predicate.BuiltIn.progress_eq]
  process xs ys := rfl

/-! ## Noting the solutions -/

/-- States that go together with the same notes. -/
def NotedBy (R : σ → σ' → Prop) (x : σ × τ) (y : σ' × τ) : Prop := R x.1 y.1 ∧ x.2 = y.2

/-- Callbacks that end alike do so with the same notes beside them. -/
theorem endAlike_onFst {m : Callback σ α} {m' : Callback σ' α} {x : σ} {y : σ'}
    (h : EndAlike R (m x) (m' y)) (t : τ) :
    EndAlike (NotedBy R) (m.onFst (x, t)) (m'.onFst (y, t)) := by
  simp only [Callback.onFst]
  generalize m x = r at h ⊢
  generalize m' y = r' at h ⊢
  cases h with
  | ok h => exact .ok ⟨h, rfl⟩
  | error h => exact .error ⟨h, rfl⟩

/-- Callers that answer alike do so with their solutions noted, and the same is noted. -/
theorem AlikeBy.noting {Q : Problem ν ε σ'} (h : P.AlikeBy Q R) :
    P.noting.AlikeBy Q.noting (NotedBy R) where
  first_eq := h.first_eq
  second_eq := h.second_eq
  config_eq := h.config_eq
  vertices i j := by
    rintro ⟨x, t⟩ ⟨y, _⟩ ⟨hR, rfl⟩
    exact endAlike_onFst (h.vertices i j x y hR) t
  edges i₁ i₂ es₁ j₁ j₂ es₂ := by
    rintro ⟨x, t⟩ ⟨y, _⟩ ⟨hR, rfl⟩
    exact endAlike_onFst (h.edges i₁ i₂ es₁ j₁ j₂ es₂ x y hR) t
  progress level := by
    rintro ⟨x, t⟩ ⟨y, _⟩ ⟨hR, rfl⟩
    exact endAlike_onFst (h.progress level x y hR) t
  process xs ys := by
    rintro ⟨x, t⟩ ⟨y, _⟩ ⟨hR, rfl⟩
    exact endAlike_onFst (h.process xs ys x y hR) (t ++ [(⟨xs, ys⟩ : Solution)])

/-- Problems with the same answers have them with their solutions noted. -/
theorem SameAnswers.noting {Q : Problem ν ε σ'} (h : Q.SameAnswers P') :
    Q.noting.SameAnswers P'.noting where
  first_count := h.first_count
  second_count := h.second_count
  first := h.first
  second := h.second
  config_eq := h.config_eq
  vertices i j := congrArg Callback.onFst (h.vertices i j)
  edges i₁ i₂ es₁ es₁' j₁ j₂ es₂ es₂' :=
    congrArg Callback.onFst (h.edges i₁ i₂ es₁ es₁' j₁ j₂ es₂ es₂')
  progress level := congrArg Callback.onFst (h.progress level)
  process xs ys := by
    funext ⟨x, t⟩
    exact congrFun (congrArg Callback.onFst (h.process xs ys)) (x, t ++ [(⟨xs, ys⟩ : Solution)])

end Problem

/-! ## Runs -/

namespace Problem.SameAnswers

variable {P : Problem ν ε σ} {P' : Problem ν ε' σ}

/-- The arena depends on the counts of the graphs only. -/
theorem newArena_eq (h : P.SameAnswers P') : Solver.newArena P' = Solver.newArena P := by
  rw [Solver.newArena, Solver.newArena, h.config_eq, h.second_count]

/-- A new search starts with the same work. -/
theorem work_begun (h : P.SameAnswers P') (env : σ) :
    (Solver.begun P' env).work = (Solver.begun P env).work := by
  simp only [Solver.begun, h.config_eq, h.first_count, h.second_count]

end Problem.SameAnswers

namespace Solver

/-- The runs come to one end with the same counts, and leave their callers in related states. -/
structure EndsAlike (R : σ → σ' → Prop) (s : Solver ν ε σ) (s' : Solver ν ε' σ') : Prop where
  result_eq : s'.run.1 = s.run.1
  status_eq : s'.run.2.status = s.run.2.status
  found_eq : s'.run.2.found = s.run.2.found
  highWater_eq : s'.run.2.highWater = s.run.2.highWater
  env : R s.run.2.env s'.run.2.env

variable {s : Solver ν ε σ} {s' : Solver ν ε' σ'} {Q : Problem ν ε σ'} {R : σ → σ' → Prop}

/-- A run by its search, if that is seen through `f`. -/
theorem run_of_search (hs : s.Coherent) (ha : s.HasArena) {f : τ → Work × σ}
    {r : EStateM.Result Halt τ Unit}
    (hr : s.problem.search ((begun s.problem s.env).work, s.env) = seen f r) :
    s.run = (begun s.problem s.env).ended (seen f r) ∧ s.run.2.work = (f (endState r)).1 ∧
      s.run.2.env = (f (endState r)).2 := by
  have hrun : s.run = (begun s.problem s.env).ended (seen f r) := by
    rw [← hr, run_of_ready (hs.reset_eq ha)]
    rfl
  obtain ⟨st, hst⟩ := (begun s.problem s.env).ended_snd (seen f r)
  rw [endState_seen] at hst
  rw [hrun, hst]
  exact ⟨rfl, rfl, rfl⟩

/-- Runs of coherent solvers with related callers and the same answers end alike. -/
theorem Coherent.endsAlike (hs : s.Coherent) (hs' : s'.Coherent) (ha : s.HasArena)
    (halike : s.problem.AlikeBy Q R) (hsame : Q.SameAnswers s'.problem)
    (henv : R s.env s'.env) : s.EndsAlike R s' := by
  have ha' : s'.HasArena := by
    obtain ⟨a, ha⟩ := ha
    exact ⟨a, hsame.newArena_eq.trans (halike.newArena_eq.trans ha)⟩
  have hwork : (begun s'.problem s'.env).work = (begun s.problem s.env).work :=
    (hsame.work_begun s'.env).trans (halike.work_begun s.env s'.env)
  -- one outcome is seen by both runs, once with each caller
  obtain ⟨r, hr, hr', -, hR⟩ := halike.recorded (begun s.problem s.env).work henv
  have hsearch : s.problem.search ((begun s.problem s.env).work, s.env) =
      seen (beside Prod.fst ∘ beside Prod.fst) r := by
    rw [← Problem.recorded_erases _ _ _ [], hr, seen_seen]
  have hsearch' : s'.problem.search ((begun s'.problem s'.env).work, s'.env) =
      seen (beside Prod.fst ∘ beside Prod.snd) r := by
    rw [hsame.search_eq, hwork, ← Problem.recorded_erases _ _ _ [], hr', seen_seen]
  obtain ⟨hrun, hw, he⟩ := run_of_search hs ha hsearch
  obtain ⟨hrun', hw', he'⟩ := run_of_search hs' ha' hsearch'
  obtain ⟨hresult, hstatus⟩ := ended_seen (begun s'.problem s'.env) (begun s.problem s.env)
    (beside Prod.fst ∘ beside Prod.snd) (beside Prod.fst ∘ beside Prod.fst) r
  constructor
  case result_eq => rwa [hrun, hrun']
  case status_eq => rwa [hrun, hrun']
  case found_eq =>
    rw [found, found, hw, hw']
    rfl
  case highWater_eq =>
    rw [highWater, highWater, hw, hw']
    rfl
  case env =>
    rw [he, he']
    exact hR

/-- A run with a ready-made predicate does not depend on the numbers, the values and the order of
edges, only on how many lead from one vertex to another. -/
theorem Reachable.run_eq_renumbered {b : Predicate.BuiltIn ν} (hs : s.Reachable)
    (hs' : s'.Reachable) (hg₁ : s.problem.first.WellFormed) (hg₂ : s.problem.second.WellFormed)
    (hh₁ : s'.problem.first.WellFormed) (hh₂ : s'.problem.second.WellFormed)
    (hfirst : s.problem.first.SameCounts s'.problem.first)
    (hsecond : s.problem.second.SameCounts s'.problem.second) (hc : s'.config = s.config)
    (ha : s.HasArena) (hp : s.problem.predicate = b.predicate)
    (hp' : s'.problem.predicate = b.predicate)
    (hq : s.problem.processor.AlikeOn s.problem.first s.problem.second s'.problem.processor
      s'.problem.first s'.problem.second R)
    (henv : R s.env s'.env) : s'.deliveries = s.deliveries ∧ s.EndsAlike R s' := by
  have hcoherent := hs.coherent hg₁ hg₂
  have hcoherent' := hs'.coherent hh₁ hh₂
  have halike : s.problem.AlikeBy (s.problem.between s'.problem b) R :=
    Problem.alikeBy_between hp hq
  have hsame : (s.problem.between s'.problem b).SameAnswers s'.problem :=
    Problem.sameAnswers_between hp' hc hfirst hsecond hg₁ hg₂ hh₁ hh₂
  have hnoting : s.noting.EndsAlike (Problem.NotedBy R) s'.noting :=
    hcoherent.noting.endsAlike hcoherent'.noting ha halike.noting hsame.noting ⟨henv, rfl⟩
  exact ⟨hnoting.env.2.symm, hcoherent.endsAlike hcoherent' ha halike hsame henv⟩

end Solver

/-! ## Edges in another order -/

/-- The edges of `Graph.looped` in another order and with values. -/
def Graph.shuffled : Graph Unit Nat :=
  ofParts [(), (), ()] [(⟨2⟩, ⟨2⟩, 5), (⟨0⟩, ⟨1⟩, 8), (⟨1⟩, ⟨2⟩, 5), (⟨0⟩, ⟨1⟩, 3)]

/-- The edges of `Graph.longer` with values, in the order that is left after a loop was erased. -/
def Graph.thinned : Graph Unit Nat :=
  match (ofParts [(), (), (), ()] [(⟨0⟩, ⟨0⟩, 1), (⟨1⟩, ⟨2⟩, 2), (⟨3⟩, ⟨3⟩, 3), (⟨1⟩, ⟨2⟩, 5),
    (⟨0⟩, ⟨1⟩, 8), (⟨2⟩, ⟨3⟩, 5)]).eraseEdge ⟨0⟩ with
  | .ok (g, _) => g
  | .error _ => empty

theorem Graph.wellFormed_shuffled : shuffled.WellFormed :=
  wellFormed_ofParts (by decide) (by decide)

theorem Graph.wellFormed_thinned : thinned.WellFormed := by
  rw [thinned]
  split
  · next g x h => exact (wellFormed_ofParts (by decide) (by decide)).eraseEdge h
  · exact wellFormed_empty

namespace Solver

/-- A new solver that compares values and collects three solutions. -/
def gathering [DecidableEq ν] (g₁ g₂ : Graph ν ε) : Solver ν ε Collection :=
  ofArena ⟨g₁, g₂, .equalValues, Collection.processor, .default⟩ (.empty (some 3))
    (Arena.new (Config.default.arenaCapacity g₂.vertexCount) none)

theorem reachable_gathering [DecidableEq ν] {g₁ g₂ : Graph ν ε} (hg₂ : g₂.WellFormed) :
    (gathering g₁ g₂).Reachable :=
  .new (new_of_newArena (newArena_eq hg₂ rfl) _)

theorem config_gathering [DecidableEq ν] (g₁ g₂ : Graph ν ε) :
    (gathering g₁ g₂).config = .default := rfl

theorem env_gathering [DecidableEq ν] (g₁ g₂ : Graph ν ε) :
    (gathering g₁ g₂).env = .empty (some 3) := rfl

theorem hasArena_gathering [DecidableEq ν] {g₁ g₂ : Graph ν ε} (hg₂ : g₂.WellFormed) :
    (gathering g₁ g₂).HasArena :=
  ⟨_, newArena_eq hg₂ rfl⟩

theorem alikeOn_gathering (g₁ g₂ : Graph ν ε) (h₁ h₂ : Graph ν ε') :
    Collection.processor.AlikeOn g₁ g₂ Collection.processor h₁ h₂ Eq := by
  rintro xs ys x _ rfl
  exact .refl (fun _ => rfl) _

theorem run_eq_renumbered_looped_longer :
    ((gathering .looped .longer).deliveries.length = 3 ∧
      (gathering .looped .longer).run.2.status = .aborted) ∧
    (gathering .shuffled .thinned).deliveries = (gathering .looped .longer).deliveries ∧
      (gathering .looped .longer).EndsAlike Eq (gathering .shuffled .thinned) := by
  have hfirst : Graph.looped.SameCounts Graph.shuffled := ⟨by decide +kernel, by decide +kernel⟩
  have hsecond : Graph.longer.SameCounts Graph.thinned := ⟨by decide +kernel, by decide +kernel⟩
  exact ⟨by decide +kernel, (reachable_gathering Graph.wellFormed_longer).run_eq_renumbered
    (b := .equalValues inferInstance) (reachable_gathering Graph.wellFormed_thinned)
    Graph.wellFormed_looped Graph.wellFormed_longer Graph.wellFormed_shuffled
    Graph.wellFormed_thinned hfirst hsecond (config_gathering _ _)
    (hasArena_gathering Graph.wellFormed_longer) rfl rfl (alikeOn_gathering _ _ _ _)
    (env_gathering _ _)⟩

end Solver

end CommonSubgraph
