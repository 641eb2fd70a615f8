import CommonSubgraph.Proofs.Search.Filling

/-!
# The search and its scripts

Each change of the working state is the one of its view and cannot fail where a sound view makes
it (`shows_extend` to `shows_takeBack`); the sizes a level looks at are those of the view. From
that, by induction on the vertices that are undecided and on the candidates of a level, a level
runs as `Explored` says (`runs_explore`), and so does a whole search (`runs_search`). In
particular no fault of the search itself is left: what can end it are the caller and the limit of
the arena.
-/

namespace CommonSubgraph

variable {ν ε σ : Type}

namespace Problem

open SearchM

variable {P : Problem ν ε σ} {A : Act → Prop} {keep : Nat → Prop} {w : Work} {v : View}
variable {map : CandidateMap} {rows : Rows} {i j : VertexId}

/-! ## Changes of the working state -/

/-- There are as many first vertices as pairs. -/
theorem Shows.size_xs (hw : P.Shows w v) : w.xs.size = v.pairs.length := by
  rw [← Array.length_toList, hw.xs_eq, List.length_map]

/-- There are as many second vertices as pairs. -/
theorem Shows.size_ys (hw : P.Shows w v) : w.ys.size = v.pairs.length := by
  rw [← Array.length_toList, hw.ys_eq, List.length_map]

/-- An unpaired vertex can be paired with a free one. -/
theorem shows_extend (hw : P.Shows w v) (hv : v.Sound P.first P.second) (hi : i ∈ v.unpaired)
    (hj : j ∉ v.pairs.map Prod.snd) :
    ∃ w', w.extend i j = .ok w' ∧ P.Shows w' (v.extend i j) := by
  have hsides : w.xs.size = w.ys.size := hw.size_xs.trans hw.size_ys.symm
  have hx : w.xs.contains i = false := by
    rw [Bool.eq_false_iff, ne_eq, Array.contains_iff_mem, ← Array.mem_toList_iff, hw.xs_eq]
    exact hv.not_paired i hi
  have hy : w.ys.contains j = false := by
    rw [Bool.eq_false_iff, ne_eq, Array.contains_iff_mem, ← Array.mem_toList_iff, hw.ys_eq]
    exact hj
  have hc : w.unpaired.contains i.index = true := hw.unpaired.contains_iff.mpr hi
  refine ⟨{ w with
    xs := w.xs.push i
    ys := w.ys.push j
    unpaired := (w.unpaired.erase i.index).1 }, ?_, ?_⟩
  · rw [Work.extend, if_neg (not_not_intro hsides), hx, hy, hc]
    rfl
  · exact { hw with
      xs_eq := by simp [View.extend, hw.xs_eq]
      ys_eq := by simp [View.extend, hw.ys_eq]
      unpaired := hw.unpaired.erase i }

/-- The newest pair can be taken back. -/
theorem shows_retract (hw : P.Shows w v) (hlast : v.pairs.getLast? = some (i, j))
    (hi : i ∉ v.unpaired) (hlt : i.index < P.first.vertexCount) :
    ∃ w', w.retract = .ok w' ∧ P.Shows w' (v.retract i) := by
  have hsides : w.xs.size = w.ys.size := hw.size_xs.trans hw.size_ys.symm
  have hback : w.xs.back? = some i := by
    rw [← Array.getLast?_toList, hw.xs_eq, List.getLast?_map, hlast]
    rfl
  obtain ⟨t, b, ht, hl⟩ := hw.unpaired.insert hi hlt
  refine ⟨{ w with xs := w.xs.pop, ys := w.ys.pop, unpaired := t }, ?_, ?_⟩
  · rw [Work.retract, hback]
    simp only [hsides, ne_eq, not_true_eq_false, if_false, ht]
    rfl
  · exact { hw with
      xs_eq := by simp [View.retract, hw.xs_eq, List.map_dropLast]
      ys_eq := by simp [View.retract, hw.ys_eq, List.map_dropLast]
      unpaired := hl }

/-- Leaving a vertex out shows in the view. -/
theorem shows_leaveOut (hw : P.Shows w v) (i : VertexId) :
    P.Shows (w.leaveOut i) (v.leaveOut i) :=
  { hw with
    considered := hw.considered.erase i
    unpaired := hw.unpaired.erase i }

/-- A vertex that was left out can be considered again. -/
theorem shows_takeBack (hw : P.Shows w v) (hi : i ∉ v.unpaired) (hic : i ∉ v.considered)
    (hlt : i.index < P.first.vertexCount) :
    ∃ w', w.takeBack i = .ok w' ∧ P.Shows w' (v.takeBack i) := by
  obtain ⟨s, b, hs, hsl⟩ := hw.considered.insert hic hlt
  obtain ⟨t, c, ht, htl⟩ := hw.unpaired.insert hi hlt
  refine ⟨{ w with considered := s, unpaired := t }, ?_, ?_⟩
  · rw [Work.takeBack, hs]
    simp only [bind, Except.bind, ht]
    rfl
  · exact { hw with considered := hsl, unpaired := htl }

/-- A delivery shows in the view. -/
theorem Shows.delivered (hw : P.Shows w v) :
    P.Shows { w with
      minimum := if P.config.monotonic then w.xs.size else w.minimum
      found := w.found + 1 } (v.delivered P.config) :=
  { hw with
    minimum_eq := by rw [hw.size_xs, hw.minimum_eq]; rfl
    found_eq := congrArg (· + 1) hw.found_eq }

/-- The pair of `i` and `j` can be taken back after what a deeper level has restored. -/
theorem shows_retract_restored {w₂ : Work} {v₁ v₂ : View} (hw : P.Shows w v)
    (hi : i ∈ v.unpaired) (habove : (v.extend i j).Above v₁) (hrest : v₁.Restores P.config v₂)
    (hw₂ : P.Shows w₂ v₂) :
    ∃ w', Work.retract { w₂ with arena := w₂.arena.truncate v.arena.size } = .ok w' ∧
      P.Shows w' ((v₂.rewind v.arena.size).retract i) := by
  obtain ⟨b, rfl, -⟩ := habove
  have hlast : v₂.pairs.getLast? = some (i, j) := by
    rw [hrest.pairs_eq]
    exact List.getLast?_concat
  have hi₂ : i ∉ v₂.unpaired := fun h =>
    hw.unpaired.nodup.not_mem_erase (hrest.unpaired_perm.mem_iff.mp h)
  exact shows_retract (hw₂.rewind v.arena.size) hlast hi₂ (hw.unpaired.index_lt hi)

/-- A vertex that was left out can be considered again after what a deeper level has restored. -/
theorem shows_takeBack_restored {w₁ : Work} {v₁ : View} (hw : P.Shows w v)
    (hi : i ∈ v.unpaired) (hrest : (v.leaveOut i).Restores P.config v₁) (hw₁ : P.Shows w₁ v₁) :
    ∃ w', w₁.takeBack i = .ok w' ∧ P.Shows w' (v₁.takeBack i) := by
  have hi₁ : i ∉ v₁.unpaired := fun h =>
    hw.unpaired.nodup.not_mem_erase (hrest.unpaired_perm.mem_iff.mp h)
  have hic₁ : i ∉ v₁.considered := fun h =>
    hw.considered.nodup.not_mem_erase (hrest.considered_perm.mem_iff.mp h)
  exact shows_takeBack hw₁ hi₁ hic₁ (hw.unpaired.index_lt hi)

/-! ## What a level looks at -/

/-- The vertices with a candidate are those of the view. -/
theorem Shows.openVertices_eq (hw : P.Shows w v) (hm : map.Reads v.arena rows) :
    w.openVertices map = v.openVertices rows := by
  rw [Work.openVertices, View.openVertices, hw.unpaired.vertices_eq]
  simp only [hm.size_eq]

/-- The vertex that is picked is the one of the view. -/
theorem Shows.pick_eq (hw : P.Shows w v) (hm : map.Reads v.arena rows) :
    w.pick map = v.pick rows := by
  have hsize : map.size = fun i => (rows i).length := funext hm.size_eq
  rw [Work.pick, View.pick, hw.openVertices_eq hm, hsize]

/-- The number of pairs needed is that of the view. -/
theorem Shows.needed_eq (hw : P.Shows w v) :
    P.needed w = P.config.needed P.first.vertexCount v.minimum := by
  rw [Problem.needed, Config.needed, hw.minimum_eq]

/-- A level is feasible if its view is. -/
theorem Shows.feasible_iff (hw : P.Shows w v) (hm : map.Reads v.arena rows) :
    P.feasible w map = true ↔ v.Feasible P.first P.config rows := by
  rw [Problem.feasible, View.Feasible, hw.openVertices_eq hm, hw.needed_eq, hw.size_xs]
  cases P.config.common <;> simp [List.length_pos_iff, and_assoc]

/-- The pairs are acceptable if those of the view are. -/
theorem Shows.acceptable_iff (hw : P.Shows w v) :
    P.acceptable w = true ↔ v.Acceptable P.first P.config := by
  rw [Problem.acceptable, View.Acceptable, Config.Accepts, hw.minimum_eq, hw.size_xs]
  cases P.config.common <;> simp

/-! ## Levels -/

/-- An update that succeeds adds nothing to the script. -/
theorem Runs.update {f : Work → Except Fault Work} {m : SearchM σ Unit} {w₁ : Work}
    {R : List Step → Unit → Work → Prop} (hf : f w = .ok w₁) (h : P.Runs A keep m w₁ R) :
    P.Runs A keep (SearchM.update f >>= fun _ => m) w R := by
  refine Runs.silent (fun env => ?_) h
  refine bind_ok (a := ()) ?_
  rw [SearchM.update, hf]

/-- An update that succeeds at the end adds nothing to the script. -/
theorem Runs.update_last {f : Work → Except Fault Work} {w₁ : Work}
    {R : List Step → Unit → Work → Prop} (hf : f w = .ok w₁) (h : R [] () w₁) :
    P.Runs A keep (SearchM.update f) w R := by
  refine Runs.silent (fun env => ?_) (Runs.pure (w := w₁) h)
  rw [SearchM.update, hf]
  rfl

/-- A body runs with the refined map as it does when the slots are released by hand. -/
theorem Runs.withRefined {n : Nat} {body : CandidateMap → SearchM σ Unit}
    {R : List Step → Unit → Work → Prop}
    (h : P.Runs A keep (SearchM.releasing n (P.refine map i j >>= body)) w R)
    (hn : w.arena.size = n) :
    P.Runs A keep (P.steps.withRefined P map i j body) w R := by
  subst hn
  exact .work h

/-- Delivering has a solution in its script exactly if the size is acceptable. -/
theorem runs_deliver (hP : P.Within A) (hw : P.Shows w v) (hk : keep v.arena.size) :
    P.Runs A keep P.deliver w fun E _ w' =>
      ¬ v.Acceptable P.first P.config ∧ E = [] ∧ P.Shows w' v ∨
        v.Acceptable P.first P.config ∧
          E = [⟨v.delivered P.config,
            .solution (v.pairs.map Prod.fst) (v.pairs.map Prod.snd)⟩] ∧
          P.Shows w' (v.delivered P.config) := by
  refine .work ?_
  by_cases ha : v.Acceptable P.first P.config
  · rw [if_pos (hw.acceptable_iff.mpr ha)]
    rw [hw.xs_eq, hw.ys_eq]
    refine Runs.silent ?_ ((runs_solution hP hw.delivered hk v.pairs).mono ?_)
    · exact fun _ => rfl
    rintro E _ w₁ ⟨rfl, rfl⟩
    exact .inr ⟨ha, rfl, hw.delivered⟩
  · rw [if_neg (fun h => ha (hw.acceptable_iff.mp h))]
    exact .pure (.inl ⟨ha, rfl, hw⟩)

/-- A level from which nothing more can come. -/
theorem runs_leaf {level : Nat} (hP : P.Within A) (hw : P.Shows w v) (hk : keep v.arena.size)
    (hf : ¬ v.Feasible P.first P.config rows) :
    P.Runs A keep P.deliver w fun E _ w' => ∃ v', P.Shows w' v' ∧
      Explored P.first P.second P.config (.level rows level) v (⟨v, .progress level⟩ :: E) v' := by
  refine (runs_deliver hP hw hk).mono ?_
  rintro E _ w' (⟨ha, rfl, hs⟩ | ⟨ha, rfl, hs⟩)
  · exact ⟨v, hs, .reject hf ha⟩
  · exact ⟨v.delivered P.config, hs, .deliver hf ha⟩

/-- A program searches from level `level` on when `n` vertices are unpaired. -/
def Explores (P : Problem ν ε σ) (A : Act → Prop) (n level : Nat)
    (m : CandidateMap → SearchM σ Unit) : Prop :=
  ∀ w v map rows, P.Shows w v → v.Sound P.first P.second → v.Fits P.second rows →
    CandidateMap.Reads map v.arena rows → v.unpaired.length = n →
    P.Runs A (· = v.arena.size) (m map) w fun E _ w' => ∃ v', P.Shows w' v' ∧
      Explored P.first P.second P.config (.level rows level) v E v'

section

variable (hg₁ : P.first.WellFormed) (hg₂ : P.second.WellFormed) (hP : P.Within A)
variable {n level : Nat} {deeper : CandidateMap → SearchM σ Unit}

include hg₁ hg₂ hP

/-- The next level is searched with `j` as the partner of `i`. -/
theorem runs_tryCandidate (hdeeper : P.Explores A n (level + 1) deeper) (hw : P.Shows w v)
    (hv : v.Sound P.first P.second) (hfit : v.Fits P.second rows) (hm : map.Reads v.arena rows)
    (hn : v.unpaired.length = n + 1) (hi : i ∈ v.unpaired) (hj : j ∈ rows i) {k : Nat}
    (hk : v.arena.slots[k]? = some j) :
    P.Runs A (· = v.arena.size) (P.tryCandidate map i deeper k) w fun E _ w' =>
      ∃ E₁ rows' v₁ E₂ v₂, E = E₁ ++ E₂ ∧
        RowsFilled (Matched P.first P.second i j) rows (v.extend i j).unpaired (v.extend i j) E₁
          rows' v₁ ∧
        Explored P.first P.second P.config (.level rows' (level + 1)) v₁ E₂ v₂ ∧
        P.Shows w' ((v₂.rewind v.arena.size).retract i) := by
  obtain ⟨hj₂, hjp⟩ := hfit i hi j hj
  obtain ⟨w₁, hext, hw₁⟩ := shows_extend hw hv hi hjp
  have hv₁ := hv.extend hi hj₂ hjp
  have hi₁ : i ∉ (v.extend i j).unpaired := hv.nodup_unpaired.not_mem_erase
  refine .slot (hw.arena_eq ▸ hk) ?_
  simp only [steps_extend, steps_retract]
  refine .update hext ?_
  -- what is refined and searched deeper stays above the slots in use
  have hinner : P.Runs A (v.arena.size ≤ ·) (P.refine map i j >>= deeper) w₁ fun E _ w' =>
      ∃ E₁ rows' v₁ E₂ v₂, E = E₁ ++ E₂ ∧
        RowsFilled (Matched P.first P.second i j) rows (v.extend i j).unpaired (v.extend i j) E₁
          rows' v₁ ∧
        Explored P.first P.second P.config (.level rows' (level + 1)) v₁ E₂ v₂ ∧
        P.Shows w' v₂ ∧ v₁.Restores P.config v₂ ∧
        ∀ st ∈ E₂, v₁.arena.Grown st.view.arena := by
    refine (runs_refine hg₁ hg₂ hP hw₁ (fun _ h => h) hm ?_ (hv.mem_first_of_unpaired hi) hj₂
      hi₁).bind ?_
    · exact fun iu hiu ju hju => (hfit iu (List.mem_of_mem_erase hiu) ju hju).1
    rintro E₁ map₁ w₂ ⟨rows', v₁, hfilled, hw₂, hm₁, -⟩
    have habove := hfilled.above.1
    have hlen : v₁.unpaired.length = n := by
      obtain ⟨b, rfl, -⟩ := habove
      show (v.unpaired.erase i).length = n
      rw [List.length_erase_of_mem hi, hn]
      rfl
    have hsound := hv₁.above habove
    have hfits := hfit.refined hfilled
    refine ((hdeeper w₂ v₁ map₁ rows' hw₂ hsound hfits hm₁ hlen).keep_mono ?_).mono ?_
    · rintro m rfl
      exact habove.grown.size_le
    rintro E₂ _ w' ⟨v₂, hw', hexp⟩
    obtain ⟨hrest, hgrown⟩ := hexp.restores hsound hfits
    exact ⟨E₁, rows', v₁, E₂, v₂, rfl, hfilled, hexp, hw', hrest, hgrown⟩
  have hreleased := hinner.releasing ?_
  · have hpos : w₁.arena.size = v.arena.size := congrArg Arena.size hw₁.arena_eq
    refine (hreleased.withRefined hpos).bind ?_
    rintro E _ w₂ ⟨w₃, ⟨E₁, rows', v₁, E₂, v₂, rfl, hfilled, hexp, hw₃, hrest, -⟩, rfl⟩
    obtain ⟨w₄, hretract, hw₄⟩ :=
      shows_retract_restored hw hi hfilled.above.1 hrest hw₃
    exact .update_last hretract ⟨E₁, rows', v₁, E₂, v₂, List.append_nil _, hfilled, hexp, hw₄⟩
  · rintro E _ w' ⟨E₁, rows', v₁, E₂, v₂, rfl, hfilled, -, hw', hrest, hgrown⟩
    obtain ⟨habove, hE₁⟩ := hfilled.above
    have hbase : v.arena.Grown v₁.arena := habove.grown
    refine ⟨?_, fun st hst => ?_⟩
    · rw [hw'.arena_eq]
      exact (hbase.trans hrest.grown).size_le
    · rcases List.mem_append.mp hst with hst | hst
      · exact (hE₁ st hst).grown.size_le
      · exact (hbase.trans (hgrown st hst)).size_le

/-- The candidates of `i` are tried one after the other. -/
theorem runs_tries (hdeeper : P.Explores A n (level + 1) deeper) {ks : List Nat}
    {js : List VertexId} {v₀ : View}
    (hks : List.Forall₂ (fun k j => v₀.arena.slots[k]? = some j) ks js) :
    ∀ {w v}, P.Shows w v → v.arena.slots = v₀.arena.slots → v.Sound P.first P.second →
      (Task.tries rows level i js).Fits P.second v → map.Reads v.arena rows →
      v.unpaired.length = n + 1 →
      P.Runs A (· = v.arena.size) (ks.forM (P.tryCandidate map i deeper)) w fun E _ w' =>
        ∃ v', P.Shows w' v' ∧
          Explored P.first P.second P.config (.tries rows level i js) v E v' := by
  -- each candidate leaves a restored view, from which the next ones are tried
  induction hks with
  | nil => exact fun hw _ _ _ _ _ => .pure ⟨_, hw, .done⟩
  | @cons k j ks js hk _ ih =>
    rintro w v hw hslots hv ⟨hfit, hi, hjs⟩ hm hn
    have hj := hjs j List.mem_cons_self
    refine (runs_tryCandidate hg₁ hg₂ hP hdeeper hw hv hfit hm hn hi hj (hslots ▸ hk)).bind ?_
    rintro _ _ w₁ ⟨E₁, rows', v₁, E₂, v₂, rfl, hfilled, hexp, hw₁⟩
    obtain ⟨hj₂, hjp⟩ := hfit i hi j hj
    have hrest₁ :=
      (hexp.restores ((hv.extend hi hj₂ hjp).above hfilled.above.1) (hfit.refined hfilled)).1
    have hrest : v.Restores P.config ((v₂.rewind v.arena.size).retract i) :=
      .retract hfilled.above.1 hrest₁ hi
    have hi₁ := hrest.unpaired_perm.mem_iff.mpr hi
    have hm₁ := hm.of_prefix hrest.grown.slots
    have hrun := ih hw₁ (hrest.slots_eq.trans hslots) (hv.restores hrest)
      ⟨hfit.restores hrest, hi₁, fun j' hj' => hjs j' (List.mem_cons_of_mem j hj')⟩ hm₁
      (hrest.unpaired_perm.length_eq.trans hn)
    refine (hrun.keep_mono fun m hm => hm.trans hrest.size_eq).mono ?_
    rintro E₃ _ w' ⟨v', hw', hexp'⟩
    exact ⟨v', hw', .next hfilled hexp hexp'⟩

omit hg₁ hg₂ hP in
/-- The next level is searched without `i`, which is considered again afterwards. -/
theorem runs_leaveOut (hdeeper : P.Explores A n (level + 1) deeper) (hw : P.Shows w v)
    (hv : v.Sound P.first P.second) (hfit : v.Fits P.second rows) (hm : map.Reads v.arena rows)
    (hn : v.unpaired.length = n + 1) (hi : i ∈ v.unpaired) :
    P.Runs A (· = v.arena.size)
      (do modifyWork (fun w => w.leaveOut i); deeper map; update fun w => w.takeBack i) w
      fun E _ w' => ∃ v', P.Shows w' (v'.takeBack i) ∧
        Explored P.first P.second P.config (.level rows (level + 1)) (v.leaveOut i) E v' := by
  have hv₁ := hv.leaveOut hi
  have hfit₁ := hfit.leaveOut i
  have hlen : (v.leaveOut i).unpaired.length = n := by
    show (v.unpaired.erase i).length = n
    rw [List.length_erase_of_mem hi, hn]
    rfl
  have hrun := hdeeper (w.leaveOut i) (v.leaveOut i) map rows (shows_leaveOut hw i) hv₁ hfit₁ hm
    hlen
  refine Runs.silent ?_ (hrun.bind (f := fun _ => update fun w => w.takeBack i) ?_)
  · exact fun _ => rfl
  rintro E _ w₁ ⟨v₁, hw₁, hexp⟩
  have hrest := (hexp.restores hv₁ hfit₁).1
  obtain ⟨w₂, htake, hw₂⟩ := shows_takeBack_restored hw hi hrest hw₁
  refine .update_last htake ⟨v₁, hw₂, ?_⟩
  rw [List.append_nil]
  exact hexp

/-- A level is searched as `Explored` says. -/
theorem runs_explore (n level : Nat) :
    P.Explores A n level fun map => P.explore n map level := by
  -- on the number of unpaired vertices, one less on each next level whether it pairs `i` or not
  induction n generalizing level with
  | zero =>
    intro w v map rows hw _ _ _ hn
    have hf : ¬ v.Feasible P.first P.config rows := by
      intro h
      apply h.2.1
      rw [View.openVertices, List.eq_nil_of_length_eq_zero hn]
      rfl
    refine (runs_progress hP hw ?_ level).bind ?_
    · rfl
    rintro E _ w₁ ⟨rfl, rfl⟩
    exact runs_leaf hP hw (Eq.refl v.arena.size) hf
  | succ n ih =>
    intro w v map rows hw hv hfit hm hn
    refine (runs_progress hP hw ?_ level).bind ?_
    · rfl
    rintro E _ w₁ ⟨rfl, rfl⟩
    refine .work ?_
    simp only [steps_feasible, steps_map, steps_span, steps_refined, steps_leaveOut,
      steps_unrefined, steps_takeBack, pure_bind]
    by_cases hf : v.Feasible P.first P.config rows
    swap
    · rw [if_neg (fun h => hf ((hw.feasible_iff hm).mp h))]
      exact runs_leaf hP hw (Eq.refl v.arena.size) hf
    rw [if_pos ((hw.feasible_iff hm).mpr hf), hw.pick_eq hm]
    cases hpick : v.pick rows with
    | none => exact absurd (View.openVertices_eq_nil_of_pick hpick) hf.2.1
    | some i =>
      have htask : (Task.tries rows level i (rows i)).Fits P.second v := Task.Fits.tries hfit hpick
      refine (runs_tries hg₁ hg₂ hP (ih (level + 1)) (hm i) hw rfl hv htask hm hn).bind ?_
      rintro E₁ _ w₁ ⟨v₁, hw₁, hexp₁⟩
      have hrest := (hexp₁.restores hv htask).1
      cases hc : P.config.common with
      | false =>
        refine .pure ⟨v₁, hw₁, ?_⟩
        rw [List.append_nil]
        exact .exact hf hpick hc hexp₁
      | true =>
        have hrun := runs_leaveOut (ih (level + 1)) hw₁ (hv.restores hrest) (hfit.restores hrest)
          (hm.of_prefix hrest.grown.slots) (hrest.unpaired_perm.length_eq.trans hn)
          (hrest.unpaired_perm.mem_iff.mpr htask.2.1)
        refine (hrun.keep_mono fun m hm => hm.trans hrest.size_eq).mono ?_
        rintro E₂ _ w₂ ⟨v₂, hw₂, hexp₂⟩
        refine ⟨v₂.takeBack i, hw₂, ?_⟩
        rw [List.singleton_append]
        exact .common hf hpick hc hexp₁ hexp₂

/-- A search builds the initial map and explores from it; at the end its slots are given back. -/
theorem runs_search {a : Arena VertexId} (hw : P.Shows w (.initial P.first P.config a)) :
    P.Runs A (a.size ≤ ·) P.search w fun E _ w' => ∃ v',
      Searched P.first P.second P.config a E v' ∧ P.Shows w' (v'.rewind a.size) := by
  refine (runs_initialMap hg₁ hg₂ hP hw fun _ h => h).bind ?_
  rintro E₀ map w₁ ⟨rows, v₁, hfilled, hw₁, hm, hbase⟩
  simp only [steps_first, pure_bind]
  have habove := hfilled.above.1
  have hv₁ := (View.sound_initial hg₁ P.second P.config a).above habove
  have hfit := View.Fits.initial hg₂ hfilled
  have hle : a.size ≤ v₁.arena.size := habove.grown.size_le
  have hinner : P.Runs A (a.size ≤ ·) (P.explore w₁.unpaired.size map 0) w₁ fun E _ w' =>
      ∃ v', P.Shows w' v' ∧ Explored P.first P.second P.config (.level rows 0) v₁ E v' := by
    refine (runs_explore hg₁ hg₂ hP w₁.unpaired.size 0 w₁ v₁ map rows hw₁ hv₁ hfit hm
      hw₁.unpaired.size_eq.symm).keep_mono ?_
    rintro m rfl
    exact hle
  have hbase : map.base = a.size := hbase
  have hreleased := hinner.releasing ?_
  · rw [← hbase] at hreleased
    refine ((Runs.work hreleased).keep_mono fun m hm => ?_).mono ?_
    · exact Nat.le_of_eq (hm.trans hbase).symm
    rintro E _ w' ⟨w₂, ⟨v', hw₂, hexp⟩, rfl⟩
    refine ⟨v', .intro hfilled hexp, ?_⟩
    rw [hbase]
    exact hw₂.rewind a.size
  -- what is explored only adds to the arena above the initial map
  · rintro E _ w' ⟨v', hw₂, hexp⟩
    obtain ⟨hrest, hgrown⟩ := hexp.restores hv₁ hfit
    refine ⟨?_, fun st hst => Nat.le_trans hle (hgrown st hst).size_le⟩
    rw [hw₂.arena_eq, hrest.size_eq]
    exact hle

end

end Problem

end CommonSubgraph
