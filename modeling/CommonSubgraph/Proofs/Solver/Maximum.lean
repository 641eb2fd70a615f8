import CommonSubgraph.Preset
import CommonSubgraph.Proofs.Search.Answered
import CommonSubgraph.Proofs.Solver.Gathering

/-!
# Searches for the largest solutions

In monotonic mode every solution raises the smallest size that is looked for, in the middle of a
search. Nothing of the largest size is lost by that: the last minimum in force is the size of the
largest solution delivered, and whatever is no smaller is delivered exactly once
(`Searched.count_eq_one`). A processor that drops what is outgrown then holds exactly the largest
(`Searched.holdsLargest`).
-/

namespace CommonSubgraph

variable {ν ε σ : Type} {g₁ g₂ : Graph ν ε} {T : Tests} {c : Config}

/-- The list holds, each once, the partial isomorphisms of the largest size among those whose size
is one of `sizes`. -/
structure HoldsLargest (g₁ g₂ : Graph ν ε) (T : Tests) (sizes : Nat → Prop)
    (kept : List Solution) : Prop where
  length_eq : ∀ s ∈ kept, s.xs.length = s.ys.length
  nodup : (kept.map Solution.pairSet).Nodup
  mem_iff : ∀ F, F ∈ kept.map Solution.pairSet ↔
    (IsPartialIsoSet g₁ g₂ T F ∧ sizes F.card) ∧
      ∀ F', IsPartialIsoSet g₁ g₂ T F' → sizes F'.card → F'.card ≤ F.card

namespace Searched

variable {a : Arena VertexId} {E : List Step} {v' : View} {F : Finset (VertexId × VertexId)}

/-- No smaller than the last minimum in force, a partial isomorphism of a wanted size was
delivered. -/
theorem mem_of_minimum_le (h : Searched g₁ g₂ c a E v') (hg₁ : g₁.WellFormed)
    (hg₂ : g₂.WellFormed) (hE : ∀ st ∈ E, T.Gives st.act) (hc : c.common = true)
    (hF : IsPartialIsoSet g₁ g₂ T F) (hmin : v'.minimum ≤ F.card) (hmax : F.card ≤ c.maximum) :
    F ∈ (delivered E).map Solution.pairSet := by
  have hone := h.count_eq_one hg₁ hg₂ hE hF ((Config.accepts_iff_of_common hc).mpr ⟨hmin, hmax⟩)
  refine List.count_pos_iff.mp ?_
  rw [hone]
  exact Nat.one_pos

/-- No partial isomorphism of a wanted size is larger than the largest delivered. -/
theorem card_le_size (h : Searched g₁ g₂ c a E v') (hg₁ : g₁.WellFormed) (hg₂ : g₂.WellFormed)
    (hE : ∀ st ∈ E, T.Gives st.act) (hT : T.Symmetric g₁ g₂) (hc : c.common = true)
    (hm : c.monotonic = true) {s : Solution} (hs : s ∈ Solution.largest (delivered E))
    (hF : IsPartialIsoSet g₁ g₂ T F) (hmax : F.card ≤ c.maximum) : F.card ≤ s.size := by
  obtain ⟨hs, hlargest⟩ := Solution.mem_largest_iff.mp hs
  by_contra hlt
  rcases (h.rising hg₁ hg₂ hE hc hm).2 with ⟨hnil, -⟩ | ⟨t, ht, hsize⟩
  · rw [hnil] at hs
    exact absurd hs List.not_mem_nil
  · have hts := hlargest t ht
    have hmem := h.mem_of_minimum_le hg₁ hg₂ hE hc hF (by omega) hmax
    obtain ⟨u, hu, rfl⟩ := List.mem_map.mp hmem
    rw [(h.isPartialIsoSet hg₁ hg₂ hE hT hu).2] at hlt
    exact hlt (hlargest u hu)

/-- A largest partial isomorphism of a wanted size is no smaller than the last minimum in force. -/
theorem minimum_le_card (h : Searched g₁ g₂ c a E v') (hg₁ : g₁.WellFormed)
    (hg₂ : g₂.WellFormed) (hE : ∀ st ∈ E, T.Gives st.act) (hT : T.Symmetric g₁ g₂)
    (hc : c.common = true) (hm : c.monotonic = true) (hmin : c.minimum ≤ F.card)
    (hlargest : ∀ F', IsPartialIsoSet g₁ g₂ T F' →
      c.minimum ≤ F'.card ∧ F'.card ≤ c.maximum → F'.card ≤ F.card) :
    v'.minimum ≤ F.card := by
  rcases (h.rising hg₁ hg₂ hE hc hm).2 with ⟨-, hsame⟩ | ⟨t, ht, hsize⟩
  · rwa [hsame]
  · obtain ⟨hiso, hcard⟩ := h.isPartialIsoSet hg₁ hg₂ hE hT ht
    have hrange := (Config.accepts_iff_of_common hc).mp (h.sound hg₁ hg₂ hE ht).2.2
    rw [← hsize, ← hcard]
    exact hlargest t.pairSet hiso (hcard.symm ▸ hrange)

/-- The largest of what a monotonic search delivers are the largest there are. -/
theorem holdsLargest (h : Searched g₁ g₂ c a E v') (hg₁ : g₁.WellFormed) (hg₂ : g₂.WellFormed)
    (hE : ∀ st ∈ E, T.Gives st.act) (hT : T.Symmetric g₁ g₂) (hc : c.common = true)
    (hm : c.monotonic = true) :
    HoldsLargest g₁ g₂ T (fun n => c.minimum ≤ n ∧ n ≤ c.maximum)
      (Solution.largest (delivered E)) := by
  -- the sets of pairs that are kept, told without the run: each clause follows from this
  have hmem : ∀ F, F ∈ (Solution.largest (delivered E)).map Solution.pairSet ↔
      (IsPartialIsoSet g₁ g₂ T F ∧ c.minimum ≤ F.card ∧ F.card ≤ c.maximum) ∧
        ∀ F', IsPartialIsoSet g₁ g₂ T F' → c.minimum ≤ F'.card ∧ F'.card ≤ c.maximum →
          F'.card ≤ F.card := by
    intro F
    constructor
    · intro hF
      obtain ⟨s, hs, rfl⟩ := List.mem_map.mp hF
      have hdel := (Solution.mem_largest_iff.mp hs).1
      obtain ⟨hiso, hcard⟩ := h.isPartialIsoSet hg₁ hg₂ hE hT hdel
      have hrange := (Config.accepts_iff_of_common hc).mp (h.sound hg₁ hg₂ hE hdel).2.2
      rw [hcard]
      exact ⟨⟨hiso, hrange⟩, fun F' hF' hr => h.card_le_size hg₁ hg₂ hE hT hc hm hs hF' hr.2⟩
    · rintro ⟨⟨hiso, hrange⟩, hlargest⟩
      have hmin := h.minimum_le_card hg₁ hg₂ hE hT hc hm hrange.1 hlargest
      have hdel := h.mem_of_minimum_le hg₁ hg₂ hE hc hiso hmin hrange.2
      obtain ⟨s, hs, rfl⟩ := List.mem_map.mp hdel
      apply List.mem_map_of_mem
      refine Solution.mem_largest_iff.mpr ⟨hs, fun t ht => ?_⟩
      obtain ⟨htiso, htcard⟩ := h.isPartialIsoSet hg₁ hg₂ hE hT ht
      have htrange := (Config.accepts_iff_of_common hc).mp (h.sound hg₁ hg₂ hE ht).2.2
      rw [← (h.isPartialIsoSet hg₁ hg₂ hE hT hs).2, ← htcard]
      exact hlargest t.pairSet htiso (htcard.symm ▸ htrange)
  refine ⟨fun s hs => ?_, ?_, hmem⟩
  · have hdel := (Solution.mem_largest_iff.mp hs).1
    exact Solution.length_eq_of_ofPairs (h.sound hg₁ hg₂ hE hdel).1
  -- a largest solution is acceptable at any minimum in force, so it is delivered just once
  · rw [List.nodup_iff_count_eq_one]
    intro F hF
    obtain ⟨⟨hiso, hrange⟩, hlargest⟩ := (hmem F).mp hF
    have hmin := h.minimum_le_card hg₁ hg₂ hE hT hc hm hrange.1 hlargest
    have hone := h.count_eq_one hg₁ hg₂ hE hiso
      ((Config.accepts_iff_of_common hc).mpr ⟨hmin, hrange.2⟩)
    have hsub : (Solution.largest (delivered E)).Sublist (delivered E) := List.filter_sublist
    have hle := (hsub.map Solution.pairSet).count_le F
    have hpos := List.count_pos_iff.mpr hF
    omega

end Searched

/-! ## Runs and presets -/

/-- A monotonic run with an empty processor leaves in it the largest solutions there are. -/
theorem Solver.Reachable.holdsLargest {s : Solver ν ε (σ × Largest)} {p : Predicate ν ε σ}
    (hs : s.Reachable) (hproblem : s.problem = ⟨g₁, g₂, p.onFst, Largest.processor.onSnd, c⟩)
    (hempty : s.env.2 = .empty) (hg₁ : g₁.WellFormed) (hg₂ : g₂.WellFormed)
    (hT : p.Answers g₁ g₂ T) (hsym : T.Symmetric g₁ g₂)
    (hp : ∀ level env, ∃ env', p.progress level env = .ok .proceed env')
    (hc : c.common = true) (hm : c.monotonic = true) (hlimit : c.arenaLimit = none)
    (ha : s.HasArena) :
    s.run.1 = .ok () ∧ s.run.2.status = .exhausted ∧
      (s.deliveries.Pairwise fun s t => s.size ≤ t.size) ∧
      HoldsLargest g₁ g₂ T (fun n => c.minimum ≤ n ∧ n ≤ c.maximum)
        s.run.2.env.2.solutions.toList := by
  have hcoherent := hs.coherent (hproblem ▸ hg₁) (hproblem ▸ hg₂)
  have hgathered := hcoherent.gathered hproblem hg₁ hg₂ (Largest.updates g₁ g₂)
  have hconfig : s.config = c := congrArg Problem.config hproblem
  have hrun := hcoherent.deliveries_eq (T := T) (hproblem ▸ hg₁) (hproblem ▸ hg₂)
    (hproblem ▸ hT.onFst) (hproblem ▸ Largest.continues hp g₁ g₂ c) (hconfig ▸ hlimit) ha
  rw [hconfig, hproblem] at hrun
  obtain ⟨hok, hstatus, a, E, v', h, hE, hdel⟩ := hrun
  have hrising := (h.rising hg₁ hg₂ hE hc hm).1
  rw [hgathered, hempty, hdel, Largest.foldl_keep hrising]
  exact ⟨hok, hstatus, hrising, h.holdsLargest hg₁ hg₂ hE hsym hc hm⟩

/-- A search that is run once ends as its run does. -/
theorem Problem.runOnce_eq {P : Problem ν ε σ} {env : σ} {s : Solver ν ε σ}
    (h : Solver.new P env = .ok s) (hrun : s.run.1 = .ok ()) :
    P.runOnce env = .ok () s.run.2.env := by
  rcases hs : s.run with ⟨r, s₁⟩
  rw [hs] at hrun
  obtain rfl : r = .ok () := hrun
  simp only [Problem.runOnce, h, hs]

/-- What a preset answers is what the run leaves its processor with. -/
theorem Problem.runWith_eq {τ : Type} {p : Predicate ν ε σ} {q : Processor ν ε τ} {start : τ}
    {env : σ} {env' : σ × τ}
    (h : Problem.runOnce ⟨g₁, g₂, p.onFst, q.onSnd, c⟩ (env, start) = .ok () env') :
    Problem.runWith g₁ g₂ p q c start env = .ok env'.2 env'.1 := by
  rw [Problem.runWith, h]

/-- The sizes that are asked for matter only where there are maps of such sizes. -/
theorem HoldsLargest.congr {sizes sizes' : Nat → Prop} {kept : List Solution}
    (h : HoldsLargest g₁ g₂ T sizes kept)
    (hsizes : ∀ F, IsPartialIsoSet g₁ g₂ T F → (sizes F.card ↔ sizes' F.card)) :
    HoldsLargest g₁ g₂ T sizes' kept where
  length_eq := h.length_eq
  nodup := h.nodup
  mem_iff F := by
    rw [h.mem_iff]
    refine and_congr (and_congr_right fun hF => hsizes F hF) ?_
    exact forall_congr' fun F' => imp_congr_right fun hF' => imp_congr_left (hsizes F' hF')

/-- A monotonic search with a processor of its own that keeps the largest solutions. -/
theorem Problem.runWith_holdsLargest {p : Predicate ν ε σ} (hg₁ : g₁.WellFormed)
    (hg₂ : g₂.WellFormed) (hT : p.Answers g₁ g₂ T) (hsym : T.Symmetric g₁ g₂)
    (hp : ∀ level env, ∃ env', p.progress level env = .ok .proceed env')
    (hc : c.common = true) (hm : c.monotonic = true) (hlimit : c.arenaLimit = none)
    (hmultiplier : c.arenaMultiplier = Config.defaultArenaMultiplier) (env : σ) :
    ∃ kept env', Problem.runWith g₁ g₂ p Largest.processor c .empty env = .ok kept env' ∧
      HoldsLargest g₁ g₂ T (fun n => c.minimum ≤ n ∧ n ≤ c.maximum) kept.solutions.toList := by
  have ha := Solver.newArena_eq (P := ⟨g₁, g₂, p.onFst, Largest.processor.onSnd, c⟩) hg₂ hmultiplier
  have hnew := Solver.new_of_newArena ha (env, Largest.empty)
  obtain ⟨hok, -, -, hkept⟩ := (Solver.Reachable.new hnew).holdsLargest rfl rfl hg₁ hg₂ hT hsym
    hp hc hm hlimit ⟨_, ha⟩
  exact ⟨_, _, Problem.runWith_eq (Problem.runOnce_eq hnew hok), hkept⟩

/-- The preset finds the largest common subgraphs of at least one vertex. -/
theorem findMaximum_holdsLargest {p : Predicate ν ε σ} (hg₁ : g₁.WellFormed) (hg₂ : g₂.WellFormed)
    (hT : p.Answers g₁ g₂ T) (hsym : T.Symmetric g₁ g₂)
    (hp : ∀ level env, ∃ env', p.progress level env = .ok .proceed env') (env : σ) :
    ∃ kept env', findMaximum g₁ g₂ p env = .ok kept env' ∧
      HoldsLargest g₁ g₂ T (fun n => 1 ≤ n) kept := by
  obtain ⟨kept, env', hrun, hkept⟩ := Problem.runWith_holdsLargest
    (c := { Config.default with monotonic := true }) hg₁ hg₂ hT hsym hp rfl rfl rfl rfl env
  refine ⟨kept.solutions.toList, env', ?_, hkept.congr fun F hF => ?_⟩
  · rw [findMaximum]
    show EStateM.map _ _ env = _
    rw [EStateM.map, hrun]
  · -- no more pairs than vertices, so the largest word is no bound
    have hcard := hF.card_le_second hg₂
    have hcount : g₂.vertexCount ≤ 2 ^ 32 := hg₂.vertexCount_le
    show 1 ≤ F.card ∧ F.card ≤ 2 ^ 64 - 1 ↔ 1 ≤ F.card
    omega

/-- The list that the preset answers with is what its processor holds. -/
theorem maximumCommon_eq {kept : List Solution} {u : Unit}
    (h : findMaximum g₁ g₂ Predicate.structural () = .ok kept u) :
    maximumCommon g₁ g₂ = .ok kept := by
  rw [maximumCommon, h]

/-- Monotonic searches find the largest partial isomorphisms of a wanted size, each once: those of a
solver that starts with an empty processor, and the presets, which look for at least one pair. -/
theorem monotonic_searches_exact (hg₁ : g₁.WellFormed) (hg₂ : g₂.WellFormed)
    {p : Predicate ν ε σ} (hT : p.Answers g₁ g₂ T) (hsym : T.Symmetric g₁ g₂)
    (hp : ∀ level env, ∃ env', p.progress level env = .ok .proceed env') :
    (∀ (c : Config) (s : Solver ν ε (σ × Largest)), s.Reachable →
      s.problem = ⟨g₁, g₂, p.onFst, Largest.processor.onSnd, c⟩ → s.env.2 = .empty →
      c.common = true → c.monotonic = true → c.arenaLimit = none → s.HasArena →
      s.run.1 = .ok () ∧ s.run.2.status = .exhausted ∧
        (s.deliveries.Pairwise fun s t => s.size ≤ t.size) ∧
        HoldsLargest g₁ g₂ T (fun n => c.minimum ≤ n ∧ n ≤ c.maximum)
          s.run.2.env.2.solutions.toList) ∧
      (∀ env, ∃ kept env', findMaximum g₁ g₂ p env = .ok kept env' ∧
        HoldsLargest g₁ g₂ T (fun n => 1 ≤ n) kept) ∧
      ∃ kept, maximumCommon g₁ g₂ = .ok kept ∧
        HoldsLargest g₁ g₂ .structural (fun n => 1 ≤ n) kept := by
  refine ⟨?_, ?_, ?_⟩
  · intro c s hs hproblem hempty hc hm hlimit ha
    exact hs.holdsLargest hproblem hempty hg₁ hg₂ hT hsym hp hc hm hlimit ha
  · intro env
    exact findMaximum_holdsLargest hg₁ hg₂ hT hsym hp env
  · obtain ⟨kept, u, hfound, hkept⟩ := findMaximum_holdsLargest hg₁ hg₂
      (Predicate.answers_structural g₁ g₂) (Tests.symmetric_structural g₁ g₂)
      (fun _ env => ⟨env, rfl⟩) ()
    exact ⟨kept, maximumCommon_eq hfound, hkept⟩

/-- The largest common subgraphs of the looped graph and the longer one. -/
theorem monotonic_searches_exact_looped_longer :
    HoldsLargest .looped .longer .structural (fun n => 1 ≤ n ∧ n ≤ Size.largest)
        (Solver.byStructure .looped .longer
          { Config.default with monotonic := true }).run.2.env.2.solutions.toList ∧
      ∃ kept, maximumCommon .looped .longer = .ok kept ∧
        HoldsLargest .looped .longer .structural (fun n => 1 ≤ n) kept := by
  have hexact := monotonic_searches_exact (p := (Predicate.structural : Predicate Unit Unit Unit))
    Graph.wellFormed_looped Graph.wellFormed_longer (Predicate.answers_structural _ _)
    (Tests.symmetric_structural _ _) fun _ env => ⟨env, rfl⟩
  have hreachable : (Solver.byStructure .looped .longer
      { Config.default with monotonic := true }).Reachable :=
    Solver.reachable_byStructure Graph.wellFormed_longer rfl
  have hrun := hexact.1 _ _ hreachable rfl rfl rfl rfl rfl
    (Solver.hasArena_byStructure Graph.wellFormed_longer rfl)
  exact ⟨hrun.2.2.2, hexact.2.2⟩

end CommonSubgraph
