import CommonSubgraph.Proofs.Search.PutBack

/-!
# The recursion ends

The text of a level does not bound how deep it goes (`P.levelBy`). Every level deeper has one
unpaired vertex less, whatever the candidates are, and a level without unpaired vertices has none
below it. So levels that are nested one deeper than there are unpaired vertices are all that there
are: what would be done below them makes no difference to a level (`Problem.levelsTo_eq_explore`)
nor to a whole search (`Problem.searchTo_eq_search`).

What a level does depends on the levels below only through what these do in the states in which
they are entered (`Problem.levelBy_congr`). These states are in place, since everything is put back
before the next level is entered.
-/

namespace CommonSubgraph

variable {ν ε σ α β γ : Type}

/-! ## Programs that agree in one state -/

section

variable {η τ : Type} {s : τ} {halted : η → τ → Prop}

/-- Two programs go on alike if they have come to the same. -/
theorem bind_congr_left {m m' : EStateM η τ α} (hm : m s = m' s) (f : α → EStateM η τ β) :
    (m >>= f) s = (m' >>= f) s := by
  simp only [Bind.bind, EStateM.bind, hm]

/-- Two programs go on alike if they have come to the same, and what follows goes alike in the
states to which they can have come. -/
theorem Ensures.bind_congr {m m' : EStateM η τ α} {post : α → τ → Prop} {f g : α → EStateM η τ β}
    (hm : m s = m' s) (h : Ensures m' s post halted) (hfg : ∀ a s', post a s' → f a s' = g a s') :
    (m >>= f) s = (m' >>= g) s := by
  rw [Ensures] at h
  simp only [Bind.bind, EStateM.bind, hm]
  cases hr : m' s with
  | ok a s' =>
    rw [hr] at h
    exact hfg a s' h
  | error e s' => rfl

/-- Two programs go through a list alike if their steps go alike in the states that are met. -/
theorem Ensures.forM_congr {S : τ → Prop} {f g : γ → EStateM η τ Unit}
    (hS : ∀ c s, S s → Ensures (g c) s (fun _ => S) halted) (hfg : ∀ c s, S s → f c s = g c s)
    (cs : List γ) (hs : S s) : cs.forM f s = cs.forM g s := by
  induction cs generalizing s with
  | nil => rfl
  | cons c cs ih => exact bind_congr (hfg c s hs) (hS c s hs) fun _ s' hs' => ih hs'

end

/-- Releasing slots after programs that have come to the same comes to the same. -/
theorem SearchM.releasing_congr {m m' : SearchM σ α} {st : Work × σ} (h : m st = m' st) (n : Nat) :
    SearchM.releasing n m st = SearchM.releasing n m' st := by
  simp only [SearchM.releasing, h]

/-! ## Levels with other levels below -/

namespace Problem

open SearchM

variable {P : Problem ν ε σ} {w : Work} {v : View} {s : σ} {map : CandidateMap} {i : VertexId}

/-- After a refinement, two programs go on alike if they do so with as many unpaired vertices. -/
theorem refine_bind_congr {F G : CandidateMap → SearchM σ Unit} {n : Nat}
    (hFG : ∀ w s v map, P.Shows w v → v.InPlace → v.unpaired.length = n →
      F map (w, s) = G map (w, s)) (hw : P.Shows w v) (hv : v.InPlace)
    (hn : v.unpaired.length = n) (map : CandidateMap) (i j : VertexId) :
    (P.refine map i j >>= F) (w, s) = (P.refine map i j >>= G) (w, s) := by
  refine Ensures.bind_congr rfl (P.fills_pushes.refine map i j w s) ?_
  rintro map₁ ⟨w₁, s₁⟩ habove
  obtain ⟨v₁, hw₁, hv₁⟩ := hw.above habove
  refine hFG w₁ s₁ v₁ map₁ hw₁ (hv.above hv₁) ?_
  obtain ⟨b, rfl, -⟩ := hv₁
  exact hn

/-- A candidate is tried alike if the next levels go alike with one vertex less. -/
theorem tryCandidate_congr {F G : CandidateMap → SearchM σ Unit} {n : Nat}
    (hFG : ∀ w s v map, P.Shows w v → v.InPlace → v.unpaired.length = n →
      F map (w, s) = G map (w, s)) (hw : P.Shows w v) (hv : v.InPlace)
    (hn : v.unpaired.length = n + 1) (map : CandidateMap) (i : VertexId) (k : Nat) :
    P.tryCandidate map i F k (w, s) = P.tryCandidate map i G k (w, s) := by
  refine Ensures.bind_congr rfl (.slot_of k (cleared_fault v)) ?_
  rintro j _ rfl
  simp only [steps_extend, steps_retract]
  refine Ensures.bind_congr rfl (.update_of _ (cleared_fault v)) ?_
  rintro _ ⟨w₁, s₁⟩ ⟨hext, rfl⟩
  obtain ⟨hi, hw₁⟩ := hw.of_extend hext
  have hn₁ : (v.extend i j).unpaired.length = n := by
    show (v.unpaired.erase i).length = n
    rw [List.length_erase_of_mem hi, hn, Nat.add_sub_cancel]
  have hbelow : P.steps.withRefined P map i j F (w₁, s₁) =
      P.steps.withRefined P map i j G (w₁, s₁) :=
    releasing_congr (refine_bind_congr hFG hw₁ (hv.extend i j) hn₁ map i j) _
  exact bind_congr_left hbelow _

/-- A level goes alike if the next levels go alike with one vertex less, where these put everything
back. -/
theorem levelBy_congr {F G : CandidateMap → Nat → SearchM σ Unit} {n : Nat}
    (hG : ∀ map level, P.Restoring (G map level))
    (hFG : ∀ w s v map level, P.Shows w v → v.InPlace → v.unpaired.length = n →
      F map level (w, s) = G map level (w, s)) (hw : P.Shows w v) (hv : v.InPlace)
    (hn : v.unpaired.length = n + 1) (map : CandidateMap) (level : Nat) (s : σ) :
    P.levelBy F map level (w, s) = P.levelBy G map level (w, s) := by
  refine Ensures.bind_congr rfl (Ensures.heed_of _) ?_
  rintro _ ⟨w₁, s₁⟩ hst
  obtain rfl : w₁ = w := hst
  rw [bind_ok (work_eq w₁ s₁), bind_ok (work_eq w₁ s₁)]
  simp only [steps_feasible, steps_map, steps_span, steps_refined, steps_leaveOut,
    steps_unrefined, steps_takeBack, pure_bind]
  by_cases hf : P.feasible w₁ map = true
  swap
  · rw [if_neg hf, if_neg hf]
  rw [if_pos hf, if_pos hf]
  cases hpick : w₁.pick map with
  | none => rfl
  | some i =>
    -- the candidates are tried alike, one by one, as each leaves everything in its place
    have hi := hw.mem_of_pick hpick
    have htries : (map.span i).forM (P.tryCandidate map i fun refined => F refined (level + 1))
          (w₁, s₁) =
        (map.span i).forM (P.tryCandidate map i fun refined => G refined (level + 1))
          (w₁, s₁) := by
      refine Ensures.forM_congr (S := P.PutsBack v) (fun k _ hst => Restoring.again
        (restoring_tryCandidate (fun map => hG map (level + 1)) map i k) hv hst) ?_ _ (.refl hw s₁)
      rintro k ⟨w₂, s₂⟩ ⟨v₂, hw₂, hrest⟩
      exact tryCandidate_congr (fun w s v map => hFG w s v map (level + 1)) hw₂
        (hv.restores hrest.toRestores) (hrest.unpaired_perm.length_eq.trans hn) map i k
    refine Ensures.bind_congr htries (restoring_tries (fun map => hG map (level + 1)) map i _ w₁ s₁
      v hw hv) ?_
    rintro _ ⟨w₂, s₂⟩ ⟨v₂, hw₂, hrest⟩
    split
    swap
    · rfl
    have hi₂ := hrest.unpaired_perm.mem_iff.mpr hi
    have hn₂ : (v₂.leaveOut i).unpaired.length = n := by
      show (v₂.unpaired.erase i).length = n
      rw [List.length_erase_of_mem hi₂, hrest.unpaired_perm.length_eq, hn, Nat.add_sub_cancel]
    -- without `i` there is one undecided vertex less, as with `i` paired
    have hwithout := hFG (w₂.leaveOut i) s₂ (v₂.leaveOut i) map (level + 1) (shows_leaveOut hw₂ i)
      ((hv.restores hrest.toRestores).leaveOut hw₂.unpaired.nodup i) hn₂
    exact bind_congr_left (s := (w₂.leaveOut i, s₂)) hwithout _

/-! ## Nested levels -/

/-- Levels nested as deep as `n`, with `cut` in the place of what is below them. -/
def levelsTo (P : Problem ν ε σ) (cut : CandidateMap → Nat → SearchM σ Unit) :
    (n : Nat) → CandidateMap → (level : Nat) → SearchM σ Unit
  | 0 => cut
  | n + 1 => P.levelBy (P.levelsTo cut n)

/-- A level without unpaired vertices does not go deeper. -/
theorem levelBy_of_length_eq_zero (hw : P.Shows w v) (hn : v.unpaired.length = 0)
    (deeper : CandidateMap → Nat → SearchM σ Unit) (map : CandidateMap) (level : Nat) (s : σ) :
    P.levelBy deeper map level (w, s) = P.explore 0 map level (w, s) := by
  have hf : ¬ P.feasible w map = true := by
    rw [Problem.feasible, Work.openVertices, hw.unpaired.vertices_eq,
      List.eq_nil_of_length_eq_zero hn]
    simp
  refine Ensures.bind_congr rfl (Ensures.heed_of _) ?_
  rintro _ ⟨w₁, s₁⟩ hst
  obtain rfl : w₁ = w := hst
  simp only [bind_ok (work_eq w₁ s₁), steps_feasible, steps_map, pure_bind]
  rw [if_neg hf]

/-- Nothing is done below levels that are nested deeper than there are unpaired vertices. -/
theorem levelsTo_eq_explore (cut : CandidateMap → Nat → SearchM σ Unit) {n : Nat}
    (hw : P.Shows w v) (hv : v.InPlace) (hn : v.unpaired.length < n) (map : CandidateMap)
    (level : Nat) (s : σ) :
    P.levelsTo cut n map level (w, s) = P.explore v.unpaired.length map level (w, s) := by
  induction n generalizing w v map level s with
  | zero => exact absurd hn (Nat.not_lt_zero _)
  | succ n ih =>
    show P.levelBy (P.levelsTo cut n) map level (w, s) = _
    cases hl : v.unpaired.length with
    | zero => exact levelBy_of_length_eq_zero hw hl _ map level s
    | succ m =>
      rw [explore_succ]
      refine levelBy_congr (P.restoring_explore m) ?_ hw hv hl map level s
      intro w₁ s₁ v₁ map₁ level₁ hw₁ hv₁ hl₁
      rw [← hl₁]
      exact ih hw₁ hv₁ (by omega) map₁ level₁ s₁

/-! ## Whole searches -/

/-- The search with its levels nested as deep as `n`, with `cut` in the place of what is below. -/
def searchTo (P : Problem ν ε σ) (cut : CandidateMap → Nat → SearchM σ Unit) (n : Nat) :
    SearchM σ Unit := do
  let map ← P.initialMap
  releasing map.base (P.levelsTo cut n map 0)

/-- A search whose levels can be nested deeper than there are unpaired vertices goes to its end. -/
theorem searchTo_eq_search (cut : CandidateMap → Nat → SearchM σ Unit) {n : Nat}
    (hw : P.Shows w v) (hv : v.InPlace) (hn : v.unpaired.length < n) (s : σ) :
    P.searchTo cut n (w, s) = P.search (w, s) := by
  rw [search_eq]
  refine Ensures.bind_congr rfl (P.fills_pushes.initialMap w s) ?_
  rintro map ⟨w₁, s₁⟩ habove
  obtain ⟨v₁, hw₁, hv₁⟩ := hw.above habove
  rw [bind_ok (work_eq w₁ s₁), hw₁.unpaired.size_eq]
  refine releasing_congr (levelsTo_eq_explore cut hw₁ (hv.above hv₁) ?_ map 0 s₁) _
  obtain ⟨b, rfl, -⟩ := hv₁
  exact hn

end Problem

end CommonSubgraph
