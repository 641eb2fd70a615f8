import CommonSubgraph.Proofs.Search.Protocol
import CommonSubgraph.Proofs.Solver.Deliveries

/-!
# Sizes of deliveries

A reset puts the working state in order, so that the run after it keeps to the protocol of its
search (`Solver.final_run`). One such protocol is that of noting what is delivered: as long as only
solutions are noted whose sides are as long as each other and of a size that the settings allow, all
of the notes are so at the end (`Problem.protocol_noting`).
-/

namespace CommonSubgraph

variable {ν ε σ α : Type}

/-- The solutions have sizes that the settings allow for a first graph of `n` vertices. -/
def Config.AllowsAll (c : Config) (n : Nat) (l : List Solution) : Prop :=
  ∀ s ∈ l, c.Allows n s.xs s.ys

/-- One more allowed solution keeps all of them allowed. -/
theorem Config.AllowsAll.concat {c : Config} {n : Nat} {l : List Solution} (h : c.AllowsAll n l)
    {xs ys : List VertexId} (hs : c.Allows n xs ys) : c.AllowsAll n (l ++ [⟨xs, ys⟩]) :=
  List.forall_mem_append.mpr ⟨h, List.forall_mem_singleton.mpr hs⟩

/-! ## The protocol of noting -/

/-- What is noted stays as it is in a callback on the state beside it. -/
theorem ensures_onFst (m : Callback σ α) {x : σ × List Solution} {Q : List Solution → Prop}
    (h : Q x.2) : Ensures (m.onFst) x (fun _ y => Q y.2) fun _ y => Q y.2 := by
  rw [Ensures, Callback.onFst]
  cases m x.1 <;> exact h

/-- However a callback on the state beside it ends, what is noted may stay and be final. -/
theorem ensures_onFst_action (m : Callback σ Action) {x : σ × List Solution}
    {Q : List Solution → Prop} (h : Q x.2) :
    Ensures (m.onFst) x (afterAction (fun y => Q y.2) fun y => Q y.2) fun _ y => Q y.2 :=
  (ensures_onFst m h).mono (fun action _ h => by cases action <;> exact h) fun _ _ h => h

/-- Noting the solutions of a search keeps all that are noted allowed. -/
theorem Problem.protocol_noting (P : Problem ν ε σ) :
    P.noting.Protocol (fun x => P.config.AllowsAll P.first.vertexCount x.2)
      (fun x => P.config.AllowsAll P.first.vertexCount x.2)
      fun x => P.config.AllowsAll P.first.vertexCount x.2 where
  vertices _ _ _ h := ensures_onFst _ h
  edges _ _ _ _ _ _ _ h := ensures_onFst _ h
  progress _ _ h := ensures_onFst_action _ h
  process xs ys x hs h := by
    have hnoted : P.config.AllowsAll P.first.vertexCount (x.1, x.2 ++ [⟨xs, ys⟩]).2 := h.concat hs
    exact ensures_onFst_action (P.processor.process P.first xs P.second ys) hnoted
  idle_of_entered _ h := h
  final_of_idle _ h := h

/-! ## Runs -/

namespace Solver

variable {s s₁ : Solver ν ε σ}

/-- A reset leaves the unpaired vertices in order. -/
theorem inOrder_of_reset {u : Unit} (h : s.reset = (.ok u, s₁)) : s₁.work.InOrder s₁.config := by
  rw [Solver.reset] at h
  split at h
  · cases h
    exact ⟨rfl, fun _ => Nat.le_refl _⟩
  · cases h

/-- A run leaves its caller in a state in which the search may be over. -/
theorem final_run {idle entered final : σ → Prop} (h : s.problem.Protocol idle entered final)
    (hs : idle s.env) : final s.run.2.env := by
  obtain ⟨hproblem, hsame⟩ := s.reset_keeps
  cases hr : s.reset with
  | mk r s₁ =>
    rw [hr] at hproblem hsame
    have hs₁ : idle s₁.env := (show s₁.env = s.env from hsame) ▸ hs
    cases r with
    | error f =>
      rw [run_of_error hr]
      exact h.final_of_idle _ hs₁
    | ok u =>
      have h₁ : s₁.problem.Protocol idle entered final :=
        (show s₁.problem = s.problem from hproblem) ▸ h
      obtain ⟨status, hended⟩ := s₁.ended_snd (s₁.problem.search (s₁.work, s₁.env))
      rw [run_of_ready hr, hended]
      exact h₁.final_search (inOrder_of_reset hr) hs₁

end Solver

end CommonSubgraph
