import CommonSubgraph.Proofs.CommandLine.Printing
import CommonSubgraph.Proofs.Graph.EdgeListGrammar
import CommonSubgraph.Proofs.Solver.Maximum

/-!
# The command line and the presets

Without options for sizes, limits and the arena the command prints what the preset of its mode
delivers or returns (`CommandLine.output_agrees`). Both searches go by structure, under the same
settings; so both come from one enumeration in the modes `all`, `exact` and `first`, and from one
run of the processor that keeps the largest solutions in the mode `maximum`.
-/

namespace CommonSubgraph.CommandLine

variable {read : String → Except ReadError String} {path₁ path₂ : String} {g₁ g₂ : Graph Unit Unit}
variable {answer : Except Failure Unit} {l : List Solution} {a : Args}

/-- The graph of a file is well-formed if its edges can all be named. -/
theorem Holds.wellFormed {path : String} {g : Graph Unit Unit} (h : Holds read path g)
    (hedges : g.edgeCount ≤ UInt32.size) : g.WellFormed := by
  obtain ⟨text, -, hg⟩ := h
  exact Graph.wellFormed_ofEdgeList hg hedges

/-- Arguments without options apart from the mode and the smallest size. -/
def Args.plain (graph1 graph2 : String) (mode : Mode) (minSize : Nat) : Args where
  graph1 := graph1
  graph2 := graph2
  mode := mode
  minSize := minSize
  maxSize := none
  limit := none
  arenaMultiplier := Config.defaultArenaMultiplier
  arenaLimit := none

example : Args.ofWords ["edge", "path", "-m", "first", "--min-size", "2"] =
    .ok (Args.plain "edge" "path" .first 2) := by decide +kernel

/-- The output is that of a search of two graphs with this answer that prints these solutions,
numbered from 0 and in order. -/
structure Tells (o : Output) (g₁ g₂ : Graph Unit Unit) (answer : Except Failure Unit)
    (l : List Solution) : Prop where
  output_eq : o = shown answer (blocks l)
  /-- It is said that nothing was found if and only if that is so. -/
  nothing_iff : nothingFound.toList <:+: o.stdout.toList ↔ answer = .ok () ∧ l = []
  /-- The search succeeds as long as there are names for all edges. -/
  succeeds : g₁.edgeCount ≤ UInt32.size → g₂.edgeCount ≤ UInt32.size → answer = .ok ()

/-- What is shown for an answer and solutions tells them if the search succeeds whenever all edges
have names. -/
theorem tells_shown
    (h : g₁.edgeCount ≤ UInt32.size → g₂.edgeCount ≤ UInt32.size → answer = .ok ()) :
    Tells (shown answer (blocks l)) g₁ g₂ answer l :=
  ⟨rfl, nothingFound_iff, h⟩

/-- Without a limit all solutions that are enumerated are printed. -/
theorem tells_enumerated (h₁ : Holds read a.graph1 g₁) (h₂ : Holds read a.graph2 g₂)
    (hmode : a.mode ≠ .maximum) (hlimit : a.effectiveLimit = none)
    (harena : a.toConfig.arenaLimit = none)
    (hmultiplier : a.toConfig.arenaMultiplier = Config.defaultArenaMultiplier) :
    Tells (a.output read) g₁ g₂ (Problem.enumerated g₁ g₂ a.toConfig).1
      (Problem.enumerated g₁ g₂ a.toConfig).2 := by
  have hreport := report_enumerated a g₁ g₂ hmode rfl
  rw [hlimit] at hreport
  rw [output_eq_report h₁ h₂, hreport]
  exact tells_shown fun he₁ he₂ =>
    Problem.enumerated_ok (h₁.wellFormed he₁) (h₂.wellFormed he₂) harena hmultiplier

/-- The largest common subgraphs that are printed are those that the preset returns. -/
theorem tells_maximum (h₁ : Holds read path₁ g₁) (h₂ : Holds read path₂ g₂) :
    ∃ answer l, Tells ((Args.plain path₁ path₂ .maximum 1).output read) g₁ g₂ answer l ∧
      (answer ≠ .ok () → l = []) ∧ findMaximum g₁ g₂ Predicate.structural () =
        ending answer l () := by
  have hreport := report_largest (Args.plain path₁ path₂ .maximum 1) g₁ g₂ rfl
  have hkept : largestKept (Args.plain path₁ path₂ .maximum 1).toConfig g₁ g₂ () =
    findMaximum g₁ g₂ Predicate.structural () := rfl
  rw [hkept, ← output_eq_report (a := Args.plain path₁ path₂ .maximum 1) h₁ h₂] at hreport
  cases hfound : findMaximum g₁ g₂ Predicate.structural () with
  | ok l u =>
    rw [hfound] at hreport
    refine ⟨.ok (), l, ?_, fun hne => absurd rfl hne, rfl⟩
    rw [hreport]
    exact tells_shown fun _ _ => rfl
  | error f u =>
    rw [hfound] at hreport
    refine ⟨.error f, [], ?_, fun _ => rfl, rfl⟩
    rw [hreport]
    refine tells_shown (l := []) fun he₁ he₂ => ?_
    obtain ⟨kept, u', hok, -⟩ := findMaximum_holdsLargest (h₁.wellFormed he₁) (h₂.wellFormed he₂)
      (Predicate.answers_structural g₁ g₂) (Tests.symmetric_structural g₁ g₂)
      (fun _ env => ⟨env, rfl⟩) ()
    cases hfound.symm.trans hok

/-- The common subgraph of a size that is printed is the one that the preset returns, unless that is
the empty one. -/
theorem tells_first (h₁ : Holds read path₁ g₁) (h₂ : Holds read path₂ g₂) {k : Nat} (hk : 1 ≤ k) :
    ∃ answer s, Tells ((Args.plain path₁ path₂ .first k).output read) g₁ g₂ answer
        (if s.isEmpty then [] else [s]) ∧
      (answer ≠ .ok () → s = .empty) ∧ findFirst g₁ g₂ k Predicate.structural () =
        ending answer s () := by
  have hmode : (Args.plain path₁ path₂ .first k).mode ≠ .maximum := fun h => by cases h
  have hreport := report_enumerated (Args.plain path₁ path₂ .first k) g₁ g₂ hmode
    (e := Problem.enumerated g₁ g₂ (Config.fixedSize k)) rfl
  have hlimit : (Args.plain path₁ path₂ .first k).effectiveLimit = some 1 := rfl
  rw [hlimit, ← output_eq_report (a := Args.plain path₁ path₂ .first k) h₁ h₂] at hreport
  have hallowed := Problem.enumerated_allowed g₁ g₂ (Config.fixedSize k)
  have hfirst := Problem.findFirst_structural g₁ g₂ k ()
  have hok : g₁.edgeCount ≤ UInt32.size → g₂.edgeCount ≤ UInt32.size →
      (Problem.enumerated g₁ g₂ (Config.fixedSize k)).1 = .ok () := fun he₁ he₂ =>
    Problem.enumerated_ok (h₁.wellFormed he₁) (h₂.wellFormed he₂) rfl rfl
  rw [hreport, hfirst]
  generalize Problem.enumerated g₁ g₂ (Config.fixedSize k) = e at hallowed hok
  obtain ⟨answer, l⟩ := e
  cases l with
  | nil =>
    refine ⟨answer, .empty, tells_shown hok, fun _ => rfl, ?_⟩
    cases answer <;> rfl
  | cons s rest =>
    have hsize : k ≤ s.xs.length := ((hallowed s List.mem_cons_self).of_common rfl).1
    have hne : s.isEmpty = false := by
      rw [Solution.isEmpty, List.isEmpty_eq_false_iff, ← List.length_pos_iff]
      omega
    refine ⟨.ok (), s, ?_, fun hne => absurd rfl hne, rfl⟩
    rw [hne, if_pos (show Reached (some 1) (s :: rest) from Nat.le_add_left 1 rest.length)]
    exact tells_shown fun _ _ => rfl

/-- The command prints what the presets deliver or return: in the modes `all` and `exact` what is
delivered to any processor that goes on, in the mode `maximum` the list that is returned, and in the
mode `first` the one solution that is returned, unless it is empty. -/
theorem output_agrees (h₁ : Holds read path₁ g₁) (h₂ : Holds read path₂ g₂) :
    (∃ answer l, Tells ((Args.plain path₁ path₂ .all 1).output read) g₁ g₂ answer l ∧
      ∀ (σ : Type) (q : Processor Unit Unit σ), q.GoesOn g₁ g₂ → ∀ s, ∃ s',
        findCommon g₁ g₂ Predicate.structural q.noting (s, []) = ending answer () (s', l)) ∧
    (∃ answer l, Tells ((Args.plain path₁ path₂ .exact 1).output read) g₁ g₂ answer l ∧
      ∀ (σ : Type) (q : Processor Unit Unit σ), q.GoesOn g₁ g₂ → ∀ s, ∃ s',
        findEmbeddings g₁ g₂ Predicate.structural q.noting (s, []) = ending answer () (s', l)) ∧
    (∃ answer l, Tells ((Args.plain path₁ path₂ .maximum 1).output read) g₁ g₂ answer l ∧
      (answer ≠ .ok () → l = []) ∧
      findMaximum g₁ g₂ Predicate.structural () = ending answer l ()) ∧
    ∀ k, 1 ≤ k → ∃ answer s, Tells ((Args.plain path₁ path₂ .first k).output read) g₁ g₂ answer
        (if s.isEmpty then [] else [s]) ∧
      (answer ≠ .ok () → s = .empty) ∧
      findFirst g₁ g₂ k Predicate.structural () = ending answer s () := by
  refine ⟨?_, ?_, tells_maximum h₁ h₂, fun k hk => tells_first h₁ h₂ hk⟩
  · have hmode : (Args.plain path₁ path₂ .all 1).mode ≠ .maximum := fun h => by cases h
    refine ⟨_, _, tells_enumerated (a := Args.plain path₁ path₂ .all 1) h₁ h₂ hmode rfl rfl rfl, ?_⟩
    exact fun σ q hq s => Problem.runOnce_noting hq Config.default s
  · have hmode : (Args.plain path₁ path₂ .exact 1).mode ≠ .maximum := fun h => by cases h
    refine ⟨_, _, tells_enumerated (a := Args.plain path₁ path₂ .exact 1) h₁ h₂ hmode rfl rfl rfl,
      ?_⟩
    exact fun σ q hq s => Problem.runOnce_noting hq Config.exact s

/-- The largest common subgraphs of the edge and the path, and the first one of two vertices. -/
theorem output_agrees_edge_path :
    (∃ l, (Args.plain "edge" "path" .maximum 1).output edgeAndPath = shown (.ok ()) (blocks l) ∧
      findMaximum (Graph.plain 2 [(0, 1)]) (Graph.plain 3 [(0, 1), (1, 2)])
        Predicate.structural () = .ok l ()) ∧
    ∃ s, (Args.plain "edge" "path" .first 2).output edgeAndPath =
        shown (.ok ()) (blocks (if s.isEmpty then [] else [s])) ∧
      findFirst (Graph.plain 2 [(0, 1)]) (Graph.plain 3 [(0, 1), (1, 2)]) 2
        Predicate.structural () = .ok s () := by
  obtain ⟨-, -, ⟨answer, l, hl, -, hmaximum⟩, hfirst⟩ := output_agrees holds_edge holds_path
  obtain ⟨answer', s, hs, -, hfound⟩ := hfirst 2 (by decide)
  obtain rfl := hl.succeeds (by decide +kernel) (by decide +kernel)
  obtain rfl := hs.succeeds (by decide +kernel) (by decide +kernel)
  exact ⟨⟨l, hl.output_eq, hmaximum⟩, s, hs.output_eq, hfound⟩

end CommonSubgraph.CommandLine
