import CommonSubgraph.CommandLine.Program
import CommonSubgraph.Proofs.Solver.Enumerated

/-!
# What the command prints

A solution is printed as a block, and blocks are numbered in the order in which they are printed
(`CommandLine.blocks`). The output of the command is told by the answer of its search and by the
solutions that get through (`CommandLine.shown`). In the mode `maximum` these are the first ones of
the solutions that are kept, as many as the limit says (`CommandLine.report_largest`). In the other
modes they are the first ones of the solutions that are enumerated, up to the one after which the
limit ends the search (`CommandLine.report_enumerated`).

The line that says that nothing was found is no part of a block (`CommandLine.nothingFound_iff`).
-/

namespace CommonSubgraph

variable {α : Type}

/-! ## Letters that are not printed -/

/-- A character that is in neither of two texts is not in the two together. -/
theorem not_mem_toList_append {c : Char} {s t : String} (hs : c ∉ s.toList) (ht : c ∉ t.toList) :
    c ∉ (s ++ t).toList := by
  rw [String.toList_append, List.mem_append, not_or]
  exact ⟨hs, ht⟩

namespace Printout

/-- A decimal number has no letter `N` in it. -/
theorem letter_not_mem_toString (n : Nat) : 'N' ∉ (toString n).toList := by
  intro h
  rw [show (toString n).toList = Nat.toDigits 10 n from Nat.toList_repr] at h
  exact absurd (Nat.isDigit_of_mem_toDigits (by decide) (by decide) h) (by decide)

/-- A printed list of vertices has no letter `N` in it. -/
theorem letter_not_mem_bracketed (vs : List VertexId) : 'N' ∉ (bracketed vs).toList := by
  have hfold (vs : List VertexId) (text : String) (ht : 'N' ∉ text.toList) :
      'N' ∉ (vs.foldl (fun text v => text ++ " " ++ toString v.index) text).toList := by
    induction vs generalizing text with
    | nil => exact ht
    | cons v vs ih =>
      exact ih _ (not_mem_toList_append (not_mem_toList_append ht (by decide))
        (letter_not_mem_toString v.index))
  exact not_mem_toList_append (hfold vs "[" (by decide)) (by decide)

/-- No block has the letter with which the line for nothing found begins. -/
theorem letter_not_mem_block (n : Nat) (xs ys : List VertexId) :
    'N' ∉ (block n xs ys).toList := by
  have hxs := letter_not_mem_bracketed xs
  have hys := letter_not_mem_bracketed ys
  have htitle : 'N' ∉ s!"Common subgraph isomorphism solution #{n} found:\n".toList :=
    not_mem_toList_append (not_mem_toList_append (by decide) (letter_not_mem_toString n))
      (by decide)
  have hfirst := not_mem_toList_append (not_mem_toList_append
    (not_mem_toList_append htitle (t := "  x = ") (by decide)) hxs) (t := "\n") (by decide)
  exact not_mem_toList_append (not_mem_toList_append
    (not_mem_toList_append hfirst (t := "  y = ") (by decide)) hys) (by decide)

/-! ## Printouts -/

/-- The printout of solutions. -/
def ofSolutions (l : List Solution) : Printout := l.foldl (fun p s => p.add s.xs s.ys) empty

/-- One solution more is printed after the others. -/
theorem ofSolutions_concat (l : List Solution) (s : Solution) :
    ofSolutions (l ++ [s]) = (ofSolutions l).add s.xs s.ys := by
  rw [ofSolutions, List.foldl_append]
  rfl

@[simp] theorem count_ofSolutions (l : List Solution) : (ofSolutions l).count = l.length := by
  induction l using List.reverseRecOn with
  | nil => rfl
  | append_singleton l s ih =>
    rw [ofSolutions_concat, List.length_append, ← ih]
    rfl

end Printout

namespace CommandLine

/-- The blocks in which solutions are printed, numbered from 0 in the order of the solutions. -/
def blocks (l : List Solution) : List String := l.mapIdx fun n s => Printout.block n s.xs s.ys

@[simp] theorem blocks_eq_nil_iff {l : List Solution} : blocks l = [] ↔ l = [] :=
  List.mapIdx_eq_nil_iff

@[simp] theorem length_blocks (l : List Solution) : (blocks l).length = l.length :=
  List.length_mapIdx

/-- The blocks of the first solutions are the first blocks. -/
theorem blocks_take (n : Nat) (l : List Solution) : blocks (l.take n) = (blocks l).take n := by
  apply List.ext_getElem?
  intro k
  simp only [blocks, List.getElem?_mapIdx, List.getElem?_take]
  split <;> rfl

/-- The text of a printout is that of its blocks one after the other. -/
theorem text_ofSolutions (l : List Solution) :
    (Printout.ofSolutions l).text = String.join (blocks l) := by
  induction l using List.reverseRecOn with
  | nil => rfl
  | append_singleton l s ih =>
    rw [Printout.ofSolutions_concat, blocks, List.mapIdx_concat, String.join_append, ← blocks, ← ih]
    show _ ++ Printout.block (Printout.ofSolutions l).count s.xs s.ys = _
    rw [Printout.count_ofSolutions, String.join_cons, String.join_nil, String.append_empty]

/-- The blocks of solutions have no letter `N` in them. -/
theorem letter_not_mem_blocks (l : List Solution) : 'N' ∉ (String.join (blocks l)).toList := by
  rw [String.toList_join, List.mem_flatMap]
  rintro ⟨text, htext, hletter⟩
  obtain ⟨n, hn, rfl⟩ := List.mem_mapIdx.mp htext
  exact Printout.letter_not_mem_block _ _ _ hletter

/-! ## Outputs -/

/-- The output of a search with this answer that lets these blocks through. -/
def shown (answer : Except Failure Unit) (bs : List String) : Output :=
  match answer with
  | .ok _ => ⟨0, if bs = [] then nothingFound else String.join bs, ""⟩
  | .error (.exhausted e) => failed (String.join bs) (.exhausted e)
  | .error (.fault f) => failed (String.join bs) (.fault f)

/-- It is said that nothing was found if and only if the search succeeds without a solution. -/
theorem nothingFound_iff {answer : Except Failure Unit} {l : List Solution} :
    nothingFound.toList <:+: (shown answer (blocks l)).stdout.toList ↔
      answer = .ok () ∧ l = [] := by
  constructor
  · intro h
    have hletter : 'N' ∈ (shown answer (blocks l)).stdout.toList := h.subset (by decide)
    match answer with
    | .ok () =>
      refine ⟨rfl, ?_⟩
      by_contra hl
      rw [shown, if_neg (mt blocks_eq_nil_iff.mp hl)] at hletter
      exact letter_not_mem_blocks l hletter
    | .error (.exhausted e) => exact absurd hletter (letter_not_mem_blocks l)
    | .error (.fault f) => exact absurd hletter (letter_not_mem_blocks l)
  · rintro ⟨rfl, rfl⟩
    exact List.infix_refl _

/-! ## Printing what is enumerated -/

/-- Of the solutions, those that are printed until a limit ends the search: one at least. -/
def letThrough (limit : Option Nat) (l : List Solution) : List Solution :=
  match limit with
  | none => l
  | some n => l.take (max n 1)

/-- There are enough solutions for the limit to end the search. -/
def Reached (limit : Option Nat) (l : List Solution) : Prop :=
  match limit with
  | none => False
  | some n => max n 1 ≤ l.length

instance (limit : Option Nat) (l : List Solution) : Decidable (Reached limit l) :=
  match limit with
  | none => inferInstanceAs (Decidable False)
  | some _ => inferInstanceAs (Decidable (_ ≤ _))

/-- A solution is printed before the limit is looked at. -/
theorem printingProcessor_process (limit : Option Nat) (g₁ g₂ : Graph Unit Unit)
    (s : Solution) (p : Printout) : (printingProcessor limit).process g₁ s.xs g₂ s.ys p =
      .ok (if limit.any fun n => n ≤ p.count + 1 then .abort else .proceed) (p.add s.xs s.ys) :=
  rfl

/-- After `p.count` solutions others are printed up to the limit, but one at least. -/
theorem feed_printing_some (n : Nat) (g₁ g₂ : Graph Unit Unit) (l : List Solution) (p : Printout) :
    (printingProcessor (some n)).feed g₁ g₂ l p =
      (if max (n - p.count) 1 ≤ l.length then some .aborted else none,
        (l.take (max (n - p.count) 1)).foldl (fun p s => p.add s.xs s.ys) p) := by
  induction l generalizing p with
  | nil =>
    have hmax : ¬ max (n - p.count) 1 ≤ 0 := by omega
    rw [List.length_nil, if_neg hmax, List.take_nil]
    rfl
  | cons s l ih =>
    rw [Processor.feed, printingProcessor_process]
    by_cases hn : n ≤ p.count + 1
    · have hstops : (some n).any (fun n => decide (n ≤ p.count + 1)) = true := decide_eq_true hn
      have hmax : max (n - p.count) 1 = 1 := by omega
      have hlength : 1 ≤ (s :: l).length := Nat.le_add_left 1 l.length
      rw [hstops, hmax, if_pos hlength]
      rfl
    · have hgoes : (some n).any (fun n => decide (n ≤ p.count + 1)) = false := decide_eq_false hn
      have hmax : max (n - p.count) 1 = max (n - (p.count + 1)) 1 + 1 := by omega
      have hrest := ih (p.add s.xs s.ys)
      rw [show (p.add s.xs s.ys).count = p.count + 1 from rfl] at hrest
      simp only [hgoes, hmax, List.length_cons, List.take_succ_cons, List.foldl_cons,
        Nat.add_le_add_iff_right]
      exact hrest

/-- A printing processor that is fed solutions prints those let through, and aborts as soon as the
limit is reached. -/
theorem feed_printing (limit : Option Nat) (g₁ g₂ : Graph Unit Unit) (l : List Solution) :
    (printingProcessor limit).feed g₁ g₂ l Printout.empty =
      (if Reached limit l then some .aborted else none,
        Printout.ofSolutions (letThrough limit l)) := by
  cases limit with
  | none =>
    have hfeed (p : Printout) : (printingProcessor none).feed g₁ g₂ l p =
        (none, l.foldl (fun p s => p.add s.xs s.ys) p) := by
      induction l generalizing p with
      | nil => rfl
      | cons s l ih => exact ih _
    exact hfeed Printout.empty
  | some n => exact feed_printing_some n g₁ g₂ l Printout.empty

/-! ## Reports -/

/-- The output that goes with an answer and a printout. -/
theorem shown_blocks (answer : Except Failure Unit) (l : List Solution) :
    (match (answer, Printout.ofSolutions l) with
      | (.ok _, p) => ⟨0, if p.count = 0 then nothingFound else p.text, ""⟩
      | (.error (.exhausted e), p) => failed p.text (.exhausted e)
      | (.error (.fault f), p) => failed p.text (.fault f)) = shown answer (blocks l) := by
  match answer with
  | .ok _ =>
    simp only [shown, Printout.count_ofSolutions, text_ofSolutions, blocks_eq_nil_iff,
      List.length_eq_zero_iff]
  | .error (.exhausted _) => simp only [shown, text_ofSolutions]
  | .error (.fault _) => simp only [shown, text_ofSolutions]

/-- The report of a search is what is shown for the answer and the blocks of the solutions
printed. -/
theorem report_eq {a : Args} {g₁ g₂ : Graph Unit Unit} {answer : Except Failure Unit}
    {l : List Solution} (h : searchGraphs a g₁ g₂ = (answer, Printout.ofSolutions l)) :
    report a g₁ g₂ = shown answer (blocks l) := by
  rw [report, h]
  exact shown_blocks answer l

/-- Outside the maximum mode, graphs are searched by a single run of the structural problem with a
printing processor. -/
theorem searchGraphs_of_structured {a : Args} {g₁ g₂ : Graph Unit Unit} (hmode : a.mode ≠ .maximum)
    {answer : Except Failure Unit} {p : Printout}
    (h : (Problem.structured g₁ g₂ (printingProcessor a.effectiveLimit) a.toConfig).runOnce
      Printout.empty = ending answer () p) : searchGraphs a g₁ g₂ = (answer, p) := by
  rw [Problem.structured] at h
  rw [searchGraphs]
  cases hm : a.mode with
  | maximum => exact absurd hm hmode
  | _ =>
    simp only [h]
    cases answer <;> rfl

/-- Unless only the largest solutions are wanted, those that are enumerated are printed until the
limit ends the search. -/
theorem report_enumerated (a : Args) (g₁ g₂ : Graph Unit Unit) (hmode : a.mode ≠ .maximum)
    {e : Except Failure Unit × List Solution} (he : Problem.enumerated g₁ g₂ a.toConfig = e) :
    report a g₁ g₂ = shown (if Reached a.effectiveLimit e.2 then .ok () else e.1)
      (blocks (letThrough a.effectiveLimit e.2)) := by
  have hrun := Problem.runOnce_structured g₁ g₂ (printingProcessor a.effectiveLimit) a.toConfig
    Printout.empty
  rw [he, feed_printing] at hrun
  refine report_eq (searchGraphs_of_structured hmode (hrun.trans ?_))
  split_ifs with hreached <;> rfl

/-- The largest solutions under the settings, which are kept until the search is over. -/
def largestKept (c : Config) (g₁ g₂ : Graph Unit Unit) : EStateM Failure Unit (List Solution) :=
  (fun kept => kept.solutions.toList) <$>
    Problem.runWith g₁ g₂ Predicate.structural Largest.processor c Largest.empty

/-- If only the largest solutions are wanted, as many of those that were kept are printed as the
limit says, and none after a failure. -/
theorem report_largest (a : Args) (g₁ g₂ : Graph Unit Unit) (hmode : a.mode = .maximum) :
    report a g₁ g₂ = match largestKept a.toConfig g₁ g₂ () with
      | .ok l _ => shown (.ok ()) (blocks (a.limit.elim l l.take))
      | .error f _ => shown (.error f) [] := by
  have hlimit : a.effectiveLimit = a.limit := by
    rw [Args.effectiveLimit, hmode]
  have hkept : largestKept a.toConfig g₁ g₂ () = EStateM.map (fun kept => kept.solutions.toList)
    (Problem.runWith g₁ g₂ Predicate.structural Largest.processor a.toConfig .empty) () := rfl
  rw [hkept, EStateM.map]
  cases hr : Problem.runWith g₁ g₂ Predicate.structural Largest.processor a.toConfig .empty () with
  | ok kept _ =>
    have hsearch : searchGraphs a g₁ g₂ =
        (.ok (), printAll a.limit kept.solutions.toList) := by
      simp only [searchGraphs, hmode, hlimit, hr]
    refine report_eq (hsearch.trans ?_)
    cases a.limit <;> rfl
  | error f _ =>
    have hsearch : searchGraphs a g₁ g₂ = (.error f, Printout.empty) := by
      simp only [searchGraphs, hmode, hr]
    exact report_eq (l := []) hsearch

/-! ## Files -/

/-- The output of the command if files are read as `read` says. -/
def Args.output (a : Args) (read : String → Except ReadError String) : Output :=
  run (m := Id) read a

/-- The output for the words of a command line. -/
def outputOf (read : String → Except ReadError String) (words : List String) : Output :=
  program (m := Id) read words

/-- The file at `path` is an edge list of the graph. -/
def Holds (read : String → Except ReadError String) (path : String) (g : Graph Unit Unit) : Prop :=
  ∃ text, read path = .ok text ∧ Graph.ofEdgeList () () text = .ok g

variable {read : String → Except ReadError String} {path : String} {g g₁ g₂ : Graph Unit Unit}
variable {a : Args}

/-- A file that holds a graph is loaded as that graph. -/
theorem Holds.loadGraph_eq (h : Holds read path g) : loadGraph (m := Id) read path = .ok g := by
  obtain ⟨text, hread, hg⟩ := h
  simp only [loadGraph, hread, hg, Except.mapError, pure, bind]

/-- Two edge lists are searched as the arguments say. -/
theorem output_eq_report (h₁ : Holds read a.graph1 g₁) (h₂ : Holds read a.graph2 g₂) :
    a.output read = report a g₁ g₂ := by
  simp only [Args.output, run, h₁.loadGraph_eq, h₂.loadGraph_eq, pure, bind]

/-- Two files: an edge, and a path of two edges. -/
def edgeAndPath (path : String) : Except ReadError String :=
  if path = "edge" then .ok "0 1\n"
  else if path = "path" then .ok "0 1\n1 2\n"
  else .error .notFound

/-- The first file of the example holds one edge. -/
theorem holds_edge : Holds edgeAndPath "edge" (Graph.plain 2 [(0, 1)]) :=
  ⟨"0 1\n", rfl, by decide +kernel⟩

/-- The second file of the example holds a path of two edges. -/
theorem holds_path : Holds edgeAndPath "path" (Graph.plain 3 [(0, 1), (1, 2)]) :=
  ⟨"0 1\n1 2\n", rfl, by decide +kernel⟩

end CommandLine

end CommonSubgraph
