import CommonSubgraph.Proofs.CommandLine.Printing

/-!
# The limit of the command line

With a limit the command prints the first of the solutions that it prints without one. In the mode
`maximum` there are as many of them as the limit says. In the modes `all` and `exact` the limit is
looked at after a solution was printed, so that there is one at least (`CommandLine.limit_caps`): a
limit of zero does not keep these modes from printing a solution
(`CommandLine.limit_zero_prints_one`).
-/

namespace CommonSubgraph.CommandLine

variable {read : String → Except ReadError String} {a : Args} {g₁ g₂ : Graph Unit Unit}

/-- The same arguments with another limit. -/
def Args.withLimit (a : Args) (limit : Option Nat) : Args := { a with limit }

/-- The limit is nothing to the settings of the search. -/
theorem Args.toConfig_withLimit (a : Args) (limit : Option Nat) :
    (a.withLimit limit).toConfig = a.toConfig := rfl

/-- Outside the mode for the first solution, the limit that counts is the one that was given. -/
theorem Args.effectiveLimit_withLimit (h : a.mode ≠ .first) (limit : Option Nat) :
    (a.withLimit limit).effectiveLimit = limit := by
  have hmode : (a.withLimit limit).mode ≠ .first := h
  rw [effectiveLimit]
  cases hm : (a.withLimit limit).mode with
  | first => exact absurd hm hmode
  | _ => rfl

/-- The first solutions are printed with a limit, those that the limit lets through: in the modes
`all` and `exact` one at least. If the limit is reached in these modes, what would have ended the
search later does not matter. -/
theorem limit_caps (h₁ : Holds read a.graph1 g₁) (h₂ : Holds read a.graph2 g₂)
    (hmode : a.mode ≠ .first) :
    ∃ answer l, (a.withLimit none).output read = shown answer (blocks l) ∧
      ∀ n, (a.withLimit (some n)).output read =
        if a.mode = .maximum then shown answer ((blocks l).take n)
        else shown (if max n 1 ≤ l.length then .ok () else answer) ((blocks l).take (max n 1)) := by
  have hreport (limit : Option Nat) :
      (a.withLimit limit).output read = report (a.withLimit limit) g₁ g₂ :=
    output_eq_report (a := a.withLimit limit) h₁ h₂
  by_cases hmax : a.mode = .maximum
  -- in maximum mode the search knows nothing of the limit, which cuts what is printed afterwards
  · have hlargest (limit : Option Nat) := report_largest (a.withLimit limit) g₁ g₂ hmax
    simp only [Args.toConfig_withLimit] at hlargest
    cases hkept : largestKept a.toConfig g₁ g₂ () with
    | ok l _ =>
      refine ⟨.ok (), l, ?_, fun n => ?_⟩
      · rw [hreport, hlargest, hkept]
        rfl
      · rw [hreport, hlargest, hkept, if_pos hmax, ← blocks_take]
        rfl
    | error f _ =>
      refine ⟨.error f, [], ?_, fun n => ?_⟩
      · rw [hreport, hlargest, hkept]
        rfl
      · rw [hreport, hlargest, hkept, if_pos hmax, ← blocks_take, List.take_nil]
        rfl
  -- otherwise the limit ends the search, but only after a solution has been printed
  · have henumerated (limit : Option Nat) := report_enumerated (a.withLimit limit) g₁ g₂ hmax rfl
    simp only [Args.toConfig_withLimit, Args.effectiveLimit_withLimit hmode] at henumerated
    refine ⟨(Problem.enumerated g₁ g₂ a.toConfig).1, (Problem.enumerated g₁ g₂ a.toConfig).2, ?_,
      fun n => ?_⟩
    · rw [hreport, henumerated]
      rfl
    · rw [hreport, henumerated, if_neg hmax, ← blocks_take]
      rfl

/-- Without a block there is nothing on the standard output but the line that says so. -/
theorem stdout_shown_nil (answer : Except Failure Unit) :
    (shown answer []).stdout = nothingFound ∨ (shown answer []).stdout = "" := by
  match answer with
  | .ok _ => exact .inl rfl
  | .error (.exhausted _) => exact .inr rfl
  | .error (.fault _) => exact .inr rfl

/-- The arguments that ask for the embeddings of the edge into the path. -/
def edgeIntoPath : Args where
  graph1 := "edge"
  graph2 := "path"
  mode := .exact
  minSize := 1
  maxSize := none
  limit := none
  arenaMultiplier := Config.defaultArenaMultiplier
  arenaLimit := none

/-- Of the two embeddings of the edge a limit of one lets the first one through. -/
theorem limit_caps_edge_path :
    ∃ answer l, (edgeIntoPath.withLimit none).output edgeAndPath = shown answer (blocks l) ∧
      (edgeIntoPath.withLimit (some 1)).output edgeAndPath =
        shown (if 1 ≤ l.length then .ok () else answer) ((blocks l).take 1) := by
  obtain ⟨answer, l, hnone, hsome⟩ :=
    limit_caps (a := edgeIntoPath) holds_edge holds_path (by decide)
  exact ⟨answer, l, hnone, hsome 1⟩

/-- A limit of zero lets one of the two embeddings through, although the first none of two are
none. -/
theorem limit_zero_prints_one :
    outputOf edgeAndPath ["edge", "path", "-m", "exact"] = shown (.ok ())
      (blocks [⟨[.ofNat 0, .ofNat 1], [.ofNat 0, .ofNat 1]⟩,
        ⟨[.ofNat 0, .ofNat 1], [.ofNat 1, .ofNat 2]⟩]) ∧
    outputOf edgeAndPath ["edge", "path", "-m", "exact", "-n", "0"] = shown (.ok ())
      (blocks [⟨[.ofNat 0, .ofNat 1], [.ofNat 0, .ofNat 1]⟩]) ∧
    ¬ ∃ answer answer' l,
      outputOf edgeAndPath ["edge", "path", "-m", "exact"] = shown answer (blocks l) ∧
      outputOf edgeAndPath ["edge", "path", "-m", "exact", "-n", "0"] =
        shown answer' ((blocks l).take (min 0 l.length)) := by
  refine ⟨by decide +kernel, by decide +kernel, ?_⟩
  rintro ⟨-, answer, l, -, hzero⟩
  have hstdout := congrArg Output.stdout hzero
  rw [Nat.zero_min, List.take_zero] at hstdout
  rcases stdout_shown_nil answer with hnone | hempty
  · exact absurd (hstdout.trans hnone) (by decide +kernel)
  · exact absurd (hstdout.trans hempty) (by decide +kernel)

end CommonSubgraph.CommandLine
