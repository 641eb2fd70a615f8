import CommonSubgraph.Processor
import Mathlib.Data.List.Basic
import Mathlib.Data.List.MinMax

/-!
# Keeping the largest solutions

The processor `Largest.processor` compares a solution with the first one that it keeps. Only a
larger one drops what is kept, and a smaller one is kept as well. So what is kept of a sequence of
solutions begins with the first of the largest and goes on with all that came after it
(`Solution.fromLargest`, `Largest.foldl_keep_eq_fromLargest`). That is every largest solution, and
nothing beside them just if none of them is followed by a smaller one
(`Solution.fromLargest_eq_largest_iff`), as where sizes never shrink (`Largest.foldl_keep`).
-/

namespace CommonSubgraph

variable {ν ε α τ : Type}

/-! ## The largest of a list -/

section

variable {p : α → Bool} {l : List α}

/-- Nothing that passes a test is lost before the first one that does. -/
theorem filter_dropWhile_not (p : α → Bool) (l : List α) :
    (l.dropWhile fun a => !p a).filter p = l.filter p := by
  induction l with
  | nil => rfl
  | cons a l ih =>
    cases ha : p a with
    | true => rw [List.dropWhile_cons_of_neg (by simp [ha])]
    | false =>
      rw [List.dropWhile_cons_of_pos (by simp [ha]), ih, List.filter_cons_of_neg (by simp [ha])]

/-- All from the first one on that passes a test pass it just if each one after one that does. -/
theorem forall_mem_dropWhile_not_iff :
    (∀ a ∈ l.dropWhile fun a => !p a, p a = true) ↔ l.Pairwise fun a b => p a → p b := by
  induction l with
  | nil => simp
  | cons a l ih =>
    rw [List.pairwise_cons]
    cases ha : p a with
    | true =>
      rw [List.dropWhile_cons_of_neg (by simp [ha]), List.forall_mem_cons]
      constructor
      · rintro ⟨-, hl⟩
        exact ⟨fun b hb _ => hl b hb, List.pairwise_of_forall_mem_list fun _ _ c hc _ => hl c hc⟩
      · rintro ⟨hl, -⟩
        exact ⟨ha, fun b hb => hl b hb rfl⟩
    | false =>
      rw [List.dropWhile_cons_of_pos (by simp [ha]), ih]
      exact (and_iff_right fun _ _ h => absurd h Bool.false_ne_true).symm

end

namespace Solution

variable {l : List Solution} {s x : Solution}

/-- The solutions of a list that are as large as any other in it. -/
def largest (l : List Solution) : List Solution :=
  l.filter fun s => ∀ t ∈ l, t.size ≤ s.size

/-- The solutions of a list from the first of its largest on. -/
def fromLargest (l : List Solution) : List Solution :=
  l.dropWhile fun s => !decide (∀ t ∈ l, t.size ≤ s.size)

/-- A solution is among the largest if it is in the list and none there is larger. -/
theorem mem_largest_iff : s ∈ largest l ↔ s ∈ l ∧ ∀ t ∈ l, t.size ≤ s.size := by
  rw [largest, List.mem_filter, decide_eq_true_iff]

/-- A list that is not empty has a largest solution. -/
theorem exists_mem_largest (h : l ≠ []) : ∃ s, s ∈ largest l := by
  cases hs : l.argmax size with
  | none => exact absurd (List.argmax_eq_none.mp hs) h
  | some s =>
    exact ⟨s, mem_largest_iff.mpr ⟨List.argmax_mem hs, fun t ht => List.le_of_mem_argmax ht hs⟩⟩

/-- Every largest solution is among those from the first of them on. -/
theorem filter_fromLargest (l : List Solution) :
    ((fromLargest l).filter fun s => ∀ t ∈ l, t.size ≤ s.size) = largest l :=
  filter_dropWhile_not _ l

/-- Nothing else is among them just if no largest solution is followed by a smaller one. -/
theorem fromLargest_eq_largest_iff : fromLargest l = largest l ↔
    l.Pairwise fun s t => (∀ u ∈ l, u.size ≤ s.size) → ∀ u ∈ l, u.size ≤ t.size := by
  rw [← filter_fromLargest, eq_comm, List.filter_eq_self, fromLargest,
    forall_mem_dropWhile_not_iff]
  simp only [decide_eq_true_iff]

/-- A list that is not empty has a first largest solution, from which something is kept. -/
theorem fromLargest_ne_nil (h : l ≠ []) : fromLargest l ≠ [] := by
  obtain ⟨s, hs⟩ := exists_mem_largest h
  rw [← filter_fromLargest] at hs
  exact List.ne_nil_of_mem (List.mem_of_mem_filter hs)

/-- What is kept begins with one of the largest. -/
theorem le_of_head?_fromLargest (h : (fromLargest l).head? = some s) :
    ∀ t ∈ l, t.size ≤ s.size := by
  have hs := List.head?_dropWhile_not (fun s => !decide (∀ t ∈ l, t.size ≤ s.size)) l
  rw [← fromLargest, h] at hs
  simpa using hs

/-- A larger solution than all before comes alone. -/
theorem fromLargest_concat_of_lt (h : ∀ t ∈ l, t.size < x.size) : fromLargest (l ++ [x]) = [x] := by
  have hlarge : ∀ t ∈ l ++ [x], t.size ≤ x.size :=
    List.forall_mem_append.mpr ⟨fun t ht => (h t ht).le, List.forall_mem_singleton.mpr le_rfl⟩
  rw [fromLargest, List.dropWhile_append_of_pos, List.dropWhile_cons_of_neg]
  · rw [decide_eq_true hlarge]
    exact Bool.false_ne_true
  · intro t ht
    have hlt := h t ht
    simp only [Bool.not_eq_true', decide_eq_false_iff_not, not_forall]
    exact ⟨x, by simp, by omega⟩

/-- A solution that is no larger than one before joins those from the first of the largest on. -/
theorem fromLargest_concat_of_le (hs : s ∈ l) (h : x.size ≤ s.size) :
    fromLargest (l ++ [x]) = fromLargest l ++ [x] := by
  have hlarge (u : Solution) : (∀ t ∈ l ++ [x], t.size ≤ u.size) ↔ ∀ t ∈ l, t.size ≤ u.size := by
    rw [List.forall_mem_append, List.forall_mem_singleton]
    exact and_iff_left_of_imp fun hu => h.trans (hu s hs)
  have hne := fromLargest_ne_nil (List.ne_nil_of_mem hs)
  rw [fromLargest] at hne ⊢
  simp only [hlarge]
  rw [List.dropWhile_append, if_neg (by simpa using hne), fromLargest]

end Solution

/-! ## What is kept -/

namespace Largest

/-- What is kept after one more solution. -/
def keep (kept : Largest) (s : Solution) : Largest := ⟨(kept.outgrow s.size).solutions.push s⟩

/-- The processor for the largest solutions keeps what it is handed, and always goes on. -/
theorem process_eq (g₁ g₂ : Graph ν ε) {xs ys : List VertexId} (kept : Largest)
    (h : xs.length = ys.length) :
    processor.process g₁ xs g₂ ys kept = .ok .proceed (kept.keep ⟨xs, ys⟩) := by
  have hsides : Solution.ofSides xs ys = .ok ⟨xs, ys⟩ := if_pos h
  simp only [processor, hsides]
  rfl

/-- If what is kept is the list from its first largest solution on, it is so after one more
solution. -/
theorem keep_fromLargest {kept : Largest} {l : List Solution} (x : Solution)
    (h : kept.solutions.toList = Solution.fromLargest l) :
    (kept.keep x).solutions.toList = Solution.fromLargest (l ++ [x]) := by
  -- the first solution kept is a largest one, which is what `outgrow` looks at
  have hfirst : kept.solutions[0]? = (Solution.fromLargest l).head? := by
    rw [← h, List.head?_eq_getElem?, Array.getElem?_toList]
  rw [keep, Array.toList_push, outgrow]
  cases hs : kept.solutions[0]? with
  | none =>
    have hnil : l = [] := by
      by_contra hne
      exact Solution.fromLargest_ne_nil hne (List.head?_eq_none_iff.mp (hfirst.symm.trans hs))
    subst hnil
    rw [Solution.fromLargest_concat_of_lt (List.forall_mem_nil _),
      show kept.solutions.toList = [] from h]
    rfl
  | some s =>
    have hmax := Solution.le_of_head?_fromLargest (hfirst.symm.trans hs)
    have hmem : s ∈ l :=
      (List.dropWhile_sublist _).subset (List.mem_of_head? (hfirst.symm.trans hs))
    by_cases hlt : s.size < x.size
    · rw [Solution.fromLargest_concat_of_lt fun t ht => (hmax t ht).trans_lt hlt]
      simp only [if_pos hlt]
      rfl
    · rw [Solution.fromLargest_concat_of_le hmem (not_lt.mp hlt), ← h]
      simp only [if_neg hlt]

/-- Of a sequence of solutions, those from the first of the largest on are kept. -/
theorem foldl_keep_eq_fromLargest (l : List Solution) :
    (l.foldl keep empty).solutions.toList = Solution.fromLargest l := by
  induction l using List.reverseRecOn with
  | nil => rfl
  | append_singleton l x ih =>
    rw [List.foldl_append]
    exact keep_fromLargest x ih

/-- Of solutions that come in rising sizes the largest are kept. -/
theorem foldl_keep {l : List Solution} (h : l.Pairwise fun s t => s.size ≤ t.size) :
    (l.foldl keep empty).solutions.toList = Solution.largest l := by
  rw [foldl_keep_eq_fromLargest]
  exact Solution.fromLargest_eq_largest_iff.mpr (h.imp fun hle hs u hu => (hs u hu).trans hle)

end Largest

/-! ## Sequences of calls -/

/-- A solution that is handed to a processor, with the two graphs that it is about. -/
structure Handover (ν ε : Type) where
  first : Graph ν ε
  second : Graph ν ε
  solution : Solution

/-- The answers of a processor to solutions that are handed to it one after the other. -/
def Processor.processAll (q : Processor ν ε τ) (calls : List (Handover ν ε)) :
    Callback τ (List Action) :=
  calls.mapM fun c => q.process c.first c.solution.xs c.second c.solution.ys

namespace Largest

variable {calls : List (Handover ν ε)}

/-- Handing over solutions one after the other keeps them one after the other, and every answer is
to go on. -/
theorem processAll_eq (kept : Largest)
    (h : ∀ c ∈ calls, c.solution.xs.length = c.solution.ys.length) :
    processor.processAll calls kept =
      .ok (calls.map fun _ => .proceed) ((calls.map Handover.solution).foldl keep kept) := by
  induction calls generalizing kept with
  | nil => rfl
  | cons c calls ih =>
    obtain ⟨hc, hcalls⟩ := List.forall_mem_cons.mp h
    have hrest := ih (kept.keep c.solution) hcalls
    rw [Processor.processAll] at hrest ⊢
    simp only [List.mapM_cons, bind, EStateM.bind, process_eq c.first c.second kept hc, hrest]
    rfl

/-- Whatever the sizes of the solutions that are handed over, the search is told to go on, and those
from the first of the largest on are kept, so every largest one is. Nothing else is kept just if no
largest one is followed by a smaller one. -/
theorem processAll_keeps (h : ∀ c ∈ calls, c.solution.xs.length = c.solution.ys.length) :
    let l := calls.map Handover.solution
    ∃ kept, processor.processAll calls empty = .ok (calls.map fun _ => .proceed) kept ∧
      kept.solutions.toList = Solution.fromLargest l ∧
      (kept.solutions.toList.filter fun s => ∀ t ∈ l, t.size ≤ s.size) = Solution.largest l ∧
      (kept.solutions.toList = Solution.largest l ↔
        l.Pairwise fun s t => (∀ u ∈ l, u.size ≤ s.size) → ∀ u ∈ l, u.size ≤ t.size) := by
  intro l
  refine ⟨_, processAll_eq empty h, foldl_keep_eq_fromLargest l, ?_, ?_⟩
  · rw [foldl_keep_eq_fromLargest]
    exact Solution.filter_fromLargest l
  · rw [foldl_keep_eq_fromLargest]
    exact Solution.fromLargest_eq_largest_iff

/-- Solutions of one pair, of two, and of one again. -/
def risingAndFalling : List (Handover Unit Unit) :=
  [⟨.empty, .empty, ⟨[.ofNat 0], [.ofNat 1]⟩⟩,
    ⟨.empty, .empty, ⟨[.ofNat 0, .ofNat 1], [.ofNat 1, .ofNat 0]⟩⟩,
    ⟨.empty, .empty, ⟨[.ofNat 2], [.ofNat 2]⟩⟩]

/-- The last two of these are kept. -/
theorem processAll_keeps_risingAndFalling :
    (∀ c ∈ risingAndFalling, c.solution.xs.length = c.solution.ys.length) ∧
      ∃ kept, processor.processAll risingAndFalling empty =
          .ok [.proceed, .proceed, .proceed] kept ∧
        kept.solutions.toList = (risingAndFalling.map Handover.solution).drop 1 := by
  have h : ∀ c ∈ risingAndFalling, c.solution.xs.length = c.solution.ys.length := by decide
  obtain ⟨kept, hall, hkept, -, -⟩ := processAll_keeps h
  exact ⟨h, kept, hall, hkept.trans (by decide)⟩

/-- A smaller solution is kept beside the largest one. -/
theorem processAll_keeps_smaller :
    let l : List Solution :=
      [⟨[.ofNat 0, .ofNat 1], [.ofNat 1, .ofNat 0]⟩, ⟨[.ofNat 2], [.ofNat 2]⟩]
    let calls : List (Handover Unit Unit) := l.map (Handover.mk .empty .empty)
    processor.processAll calls empty = .ok [.proceed, .proceed] ⟨l.toArray⟩ ∧
      Solution.largest l = l.take 1 ∧ l ≠ Solution.largest l := by
  refine ⟨rfl, ?_, ?_⟩
  · decide
  · decide

end Largest

end CommonSubgraph
