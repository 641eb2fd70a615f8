import CommonSubgraph.Proofs.Search.Candidates

/-!
# Searches that go alike

Under pure tests a search does the same again, whatever arena it has and whatever was done before,
if it starts from the same pairs and the same unpaired vertices under settings that count for as
much. In exact mode neither bound on sizes counts, nor does the monotonic flag (`Config.Alike`).
-/

namespace CommonSubgraph

variable {ν ε : Type} {g₁ g₂ : Graph ν ε} {T : Tests} {G : Act → Prop} {c c' : Config}

/-! ## Trials with one outcome -/

/-- Trials have one outcome at most when their questions are answered within `G`. -/
def Settled (G : Act → Prop) (trial : VertexId → List Act → Bool → Prop) : Prop :=
  ∀ j acts b acts' b', trial j acts b → trial j acts' b' → (∀ act ∈ acts, G act) →
    (∀ act ∈ acts', G act) → acts = acts' ∧ b = b'

/-- The tests decide how the trial of a pair by itself goes. -/
theorem settled_suited (i : VertexId) : Settled T.Gives (Suited g₁ g₂ i) := by
  intro j acts b acts' b' h h' hT hT'
  obtain rfl : b = b' :=
    Bool.eq_iff_iff.mpr ((h.iff_suits hT).trans (h'.iff_suits hT').symm)
  refine ⟨?_, rfl⟩
  have hv (a a' : Bool) (ha : Act.vertices i j a ∈ acts) (ha' : Act.vertices i j a' ∈ acts') :
      a = a' := Eq.trans (hT _ ha) (Eq.symm (hT' _ ha'))
  cases h with
  | loops hl =>
    cases h' with
    | loops => rfl
    | refused hl' | compared hl' => exact absurd hl' hl
  | refused hl =>
    cases h' with
    | loops hl' => exact absurd hl hl'
    | refused => rfl
    | compared => exact absurd (hv false true (by simp) (by simp)) Bool.false_ne_true
  | compared hl =>
    cases h' with
    | loops hl' => exact absurd hl hl'
    | refused => exact absurd (hv true false (by simp) (by simp)).symm Bool.false_ne_true
    | compared => rfl

/-- The tests decide how the trial of a pair against another one goes. -/
theorem settled_matched {i j iu : VertexId} (hi : i ≠ iu) :
    Settled T.Gives (Matched g₁ g₂ i j iu) := by
  intro ju acts b acts' b' h h' hT hT'
  obtain rfl : b = b' :=
    Bool.eq_iff_iff.mpr ((h.iff_agree hi hT).trans (h'.iff_agree hi hT').symm)
  refine ⟨?_, rfl⟩
  -- the rules exclude each other, since a comparison comes last and the outcomes are the same
  cases h <;> cases h' <;> first | rfl | contradiction

section

variable {v v' u u' : View} {E E' : List Step} {js kept kept' : List VertexId}
variable {trial : VertexId → List Act → Bool → Prop}

/-- The steps, without the states they are made in. -/
def acts (E : List Step) : List Act := E.map Step.act

theorem acts_append (E E' : List Step) : acts (E ++ E') = acts E ++ acts E' := List.map_append

theorem acts_map_mk (l : List Act) (v : View) : acts (l.map (Step.mk v)) = l := by
  rw [acts, List.map_map]
  exact List.map_id l

/-- If trials have one outcome, the row of a vertex is filled in one way. -/
theorem RowFilled.acts_eq (h : RowFilled trial js v E kept v')
    (h' : RowFilled trial js u E' kept' u') (ht : Settled G trial) (hG : ∀ st ∈ E, G st.act)
    (hG' : ∀ st ∈ E', G st.act) : acts E = acts E' ∧ kept = kept' := by
  have mem_act {l : List Act} {E : List Step} {v : View}
      (hG : ∀ st ∈ l.map (Step.mk v) ++ E, G st.act) :
      (∀ act ∈ l, G act) ∧ ∀ st ∈ E, G st.act :=
    ⟨fun act hact => hG ⟨v, act⟩ (List.mem_append_left E (List.mem_map_of_mem hact)),
      fun st hst => hG st (List.mem_append_right _ hst)⟩
  -- on the first filling; in each case the second must go on the same way
  induction h generalizing u E' kept' with
  | nil =>
    cases h'
    exact ⟨rfl, rfl⟩
  | drop tried _ ih =>
    obtain ⟨hacts, hrest⟩ := mem_act hG
    cases h' with
    | drop tried' rest' =>
      obtain ⟨hacts', hrest'⟩ := mem_act hG'
      obtain ⟨rfl, -⟩ := ht _ _ _ _ _ tried tried' hacts hacts'
      obtain ⟨hE, hkept⟩ := ih rest' hrest hrest'
      rw [acts_append, acts_append, acts_map_mk, acts_map_mk, hE]
      exact ⟨rfl, hkept⟩
    | keep tried' =>
      exact absurd (ht _ _ _ _ _ tried tried' hacts (mem_act hG').1).2 Bool.false_ne_true
  | keep tried _ ih =>
    obtain ⟨hacts, hrest⟩ := mem_act hG
    cases h' with
    | drop tried' =>
      exact absurd (ht _ _ _ _ _ tried' tried (mem_act hG').1 hacts).2 Bool.false_ne_true
    | keep tried' rest' =>
      obtain ⟨hacts', hrest'⟩ := mem_act hG'
      obtain ⟨rfl, -⟩ := ht _ _ _ _ _ tried tried' hacts hacts'
      obtain ⟨hE, rfl⟩ := ih rest' hrest hrest'
      rw [acts_append, acts_append, acts_map_mk, acts_map_mk, hE]
      exact ⟨rfl, rfl⟩

variable {trial : VertexId → VertexId → List Act → Bool → Prop} {source rows rows' : Rows}
variable {is : List VertexId}

/-- If trials have one outcome, the rows of several vertices are filled in one way. -/
theorem RowsFilled.acts_eq (h : RowsFilled trial source is v E rows v')
    (h' : RowsFilled trial source is u E' rows' u') (ht : ∀ i ∈ is, Settled G (trial i))
    (hG : ∀ st ∈ E, G st.act) (hG' : ∀ st ∈ E', G st.act) :
    acts E = acts E' ∧ rows = rows' := by
  induction h generalizing u E' rows' with
  | nil =>
    cases h'
    exact ⟨rfl, rfl⟩
  | @cons i is v E₁ kept v₁ E₂ rows v₂ row rest ih =>
    cases h' with
    | @cons _ _ _ E₁' kept' u₁ E₂' rows' _ row' rest' =>
      obtain ⟨hE₁, rfl⟩ := row.acts_eq row' (ht i List.mem_cons_self)
        (fun st hst => hG st (by simp [hst])) fun st hst => hG' st (by simp [hst])
      obtain ⟨hE₂, rfl⟩ := ih rest' (fun k hk => ht k (List.mem_cons_of_mem i hk))
        (fun st hst => hG st (by simp [hst])) fun st hst => hG' st (by simp [hst])
      refine ⟨?_, rfl⟩
      show Act.reserve _ :: acts (E₁ ++ E₂) = Act.reserve _ :: acts (E₁' ++ E₂')
      rw [acts_append, acts_append, hE₁, hE₂]

end

/-! ## Levels -/

/-- Settings under which searches go alike. -/
structure Config.Alike (c c' : Config) : Prop where
  common_eq : c'.common = c.common
  maximum_eq : c.common = true → c'.maximum = c.maximum
  monotonic_eq : c.common = true → c'.monotonic = c.monotonic

/-- States from which searches go alike. -/
structure View.Alike (c : Config) (v u : View) : Prop where
  pairs_eq : u.pairs = v.pairs
  unpaired_eq : u.unpaired = v.unpaired
  minimum_eq : c.common = true → u.minimum = v.minimum

section

variable {v v' u u' : View} {rows : Rows} {i j : VertexId}

/-- Views stay alike while both arenas grow. -/
theorem View.Alike.above (h : v.Alike c u) (hv : v.Above v') (hu : u.Above u') :
    v'.Alike c u' := by
  obtain ⟨b, rfl, -⟩ := hv
  obtain ⟨d, rfl, -⟩ := hu
  exact ⟨h.pairs_eq, h.unpaired_eq, h.minimum_eq⟩

/-- Views stay alike if both make the same pair. -/
theorem View.Alike.extend (h : v.Alike c u) (i j : VertexId) :
    (v.extend i j).Alike c (u.extend i j) :=
  ⟨by simp [View.extend, h.pairs_eq], by simp [View.extend, h.unpaired_eq], h.minimum_eq⟩

/-- Views stay alike if both leave the same vertex out. -/
theorem View.Alike.leaveOut (h : v.Alike c u) (i : VertexId) :
    (v.leaveOut i).Alike c (u.leaveOut i) :=
  ⟨h.pairs_eq, by simp [View.leaveOut, h.unpaired_eq], h.minimum_eq⟩

/-- Views stay alike if both take the same vertex back. -/
theorem View.Alike.takeBack (h : v.Alike c u) (i : VertexId) :
    (v.takeBack i).Alike c (u.takeBack i) :=
  ⟨h.pairs_eq, by simp [View.takeBack, h.unpaired_eq], h.minimum_eq⟩

/-- Views stay alike if both take their newest pair back, whatever their arenas are. -/
theorem View.Alike.retract (h : v.Alike c u) (m n : Nat) (i : VertexId) :
    ((v.rewind m).retract i).Alike c ((u.rewind n).retract i) :=
  ⟨by simp [View.retract, View.rewind, h.pairs_eq],
    by simp [View.retract, View.rewind, h.unpaired_eq], h.minimum_eq⟩

/-- Views stay alike if both deliver. -/
theorem View.Alike.delivered (h : v.Alike c u) (hc : c.Alike c') :
    (v.delivered c).Alike c (u.delivered c') := by
  refine ⟨h.pairs_eq, h.unpaired_eq, fun hcommon => ?_⟩
  show c'.raised u.minimum u.pairs.length = c.raised v.minimum v.pairs.length
  rw [Config.raised, Config.raised, hc.monotonic_eq hcommon, h.pairs_eq, h.minimum_eq hcommon]

theorem View.Alike.openVertices_eq (h : v.Alike c u) (rows : Rows) :
    u.openVertices rows = v.openVertices rows := by
  rw [View.openVertices, View.openVertices, h.unpaired_eq]

/-- Alike views pick the same vertex. -/
theorem View.Alike.pick_eq (h : v.Alike c u) (rows : Rows) : u.pick rows = v.pick rows := by
  rw [View.pick, View.pick, h.openVertices_eq]

/-- Whether a solution is still possible comes out alike. -/
theorem View.Alike.feasible_iff (h : v.Alike c u) (hc : c.Alike c') :
    u.Feasible g₁ c' rows ↔ v.Feasible g₁ c rows := by
  rw [View.Feasible, View.Feasible, h.openVertices_eq, h.pairs_eq, Config.needed, Config.needed,
    hc.common_eq]
  cases hcommon : c.common with
  | false => simp
  | true => rw [hc.maximum_eq hcommon, h.minimum_eq hcommon]

/-- Whether the size is acceptable comes out alike. -/
theorem View.Alike.acceptable_iff (h : v.Alike c u) (hc : c.Alike c') :
    u.Acceptable g₁ c' ↔ v.Acceptable g₁ c := by
  rw [View.Acceptable, View.Acceptable, Config.Accepts, Config.Accepts, h.pairs_eq, hc.common_eq]
  cases hcommon : c.common with
  | false => simp
  | true => rw [hc.maximum_eq hcommon, h.minimum_eq hcommon]

/-! ## Explorations -/

/-- Another exploration of the task, under the other settings and from a view that is alike, makes
the same acts and ends alike, if its questions are answered by the tests as well. -/
def GoesAlike (g₁ g₂ : Graph ν ε) (T : Tests) (c c' : Config) (t : Task) (v : View)
    (E : List Step) (v' : View) : Prop :=
  ∀ ⦃u E' u'⦄, Explored g₁ g₂ c' t u E' u' → v.Alike c u → (∀ st ∈ E', T.Gives st.act) →
    acts E = acts E' ∧ v'.Alike c u'

namespace GoesAlike

variable {level : Nat} {js : List VertexId} {v₁ v₂ v₃ : View} {E E₁ E₂ E₃ : List Step}
  {rows₁ : Rows}

/-! What a level tests in its view comes out alike in the other one, which therefore goes by the
same rule. -/

theorem reject (hc : c.Alike c') (hf : ¬ v.Feasible g₁ c rows) (hna : ¬ v.Acceptable g₁ c) :
    GoesAlike g₁ g₂ T c c' (.level rows level) v [⟨v, .progress level⟩] v := by
  intro u E' u' h' ha _
  cases h' with
  | reject => exact ⟨rfl, ha⟩
  | deliver _ ha' => exact absurd ((ha.acceptable_iff hc).mp ha') hna
  | exact hf' | common hf' => exact absurd ((ha.feasible_iff hc).mp hf') hf

theorem deliver (hc : c.Alike c') (hf : ¬ v.Feasible g₁ c rows) (hacc : v.Acceptable g₁ c) :
    GoesAlike g₁ g₂ T c c' (.level rows level) v [⟨v, .progress level⟩,
      ⟨v.delivered c, .solution (v.pairs.map Prod.fst) (v.pairs.map Prod.snd)⟩]
      (v.delivered c) := by
  intro u E' u' h' ha _
  cases h' with
  | reject _ hna' => exact absurd ((ha.acceptable_iff hc).mpr hacc) hna'
  | deliver =>
    refine ⟨?_, ha.delivered hc⟩
    simp [acts, ha.pairs_eq]
  | exact hf' | common hf' => exact absurd ((ha.feasible_iff hc).mp hf') hf

theorem exact (hc : c.Alike c') (hf : v.Feasible g₁ c rows) (hi : v.pick rows = some i)
    (hcommon : c.common = false)
    (tries : GoesAlike g₁ g₂ T c c' (.tries rows level i (rows i)) v E v') :
    GoesAlike g₁ g₂ T c c' (.level rows level) v (⟨v, .progress level⟩ :: E) v' := by
  intro u E' u' h' ha hE'
  cases h' with
  | reject hf' | deliver hf' => exact absurd ((ha.feasible_iff hc).mpr hf) hf'
  | common _ _ hcommon' =>
    rw [hc.common_eq, hcommon] at hcommon'
    cases hcommon'
  | exact _ hi' _ tries' =>
    obtain rfl : _ = i := Option.some.inj (hi'.symm.trans ((ha.pick_eq rows).trans hi))
    obtain ⟨hacts, hend⟩ := tries tries' ha fun st hst => hE' st (List.mem_cons_of_mem _ hst)
    exact ⟨congrArg (Act.progress level :: ·) hacts, hend⟩

theorem common (hc : c.Alike c') (hf : v.Feasible g₁ c rows) (hi : v.pick rows = some i)
    (hcommon : c.common = true)
    (tries : GoesAlike g₁ g₂ T c c' (.tries rows level i (rows i)) v E₁ v₁)
    (without : GoesAlike g₁ g₂ T c c' (.level rows (level + 1)) (v₁.leaveOut i) E₂ v₂) :
    GoesAlike g₁ g₂ T c c' (.level rows level) v (⟨v, .progress level⟩ :: (E₁ ++ E₂))
      (v₂.takeBack i) := by
  intro u E' u' h' ha hE'
  cases h' with
  | reject hf' | deliver hf' => exact absurd ((ha.feasible_iff hc).mpr hf) hf'
  | exact _ _ hcommon' =>
    rw [hc.common_eq, hcommon] at hcommon'
    cases hcommon'
  | @common _ _ _ _ E₁' u₁ E₂' u₂ _ hi' _ tries' without' =>
    obtain rfl : _ = i := Option.some.inj (hi'.symm.trans ((ha.pick_eq rows).trans hi))
    obtain ⟨hacts₁, hend₁⟩ := tries tries' ha fun st hst => hE' st (by simp [hst])
    obtain ⟨hacts₂, hend₂⟩ := without without' (hend₁.leaveOut _)
      fun st hst => hE' st (by simp [hst])
    refine ⟨?_, hend₂.takeBack _⟩
    show Act.progress level :: acts (E₁ ++ E₂) = Act.progress level :: acts (E₁' ++ E₂')
    rw [acts_append, acts_append, hacts₁, hacts₂]

theorem done : GoesAlike g₁ g₂ T c c' (.tries rows level i []) v [] v := by
  intro u E' u' h' ha _
  cases h'
  exact ⟨rfl, ha⟩

/-- The rows of the next level are filled alike, since the vertices they belong to are others than
the one that was paired. -/
theorem next (hnodup : v.unpaired.Nodup)
    (refined : RowsFilled (Matched g₁ g₂ i j) rows (v.extend i j).unpaired (v.extend i j) E₁ rows₁
      v₁)
    (hE₁ : ∀ st ∈ E₁, T.Gives st.act)
    (deeper : GoesAlike g₁ g₂ T c c' (.level rows₁ (level + 1)) v₁ E₂ v₂)
    (rest : GoesAlike g₁ g₂ T c c' (.tries rows level i js)
      ((v₂.rewind v.arena.size).retract i) E₃ v₃) :
    GoesAlike g₁ g₂ T c c' (.tries rows level i (j :: js)) v (E₁ ++ E₂ ++ E₃) v₃ := by
  intro u E' u' h' ha hE'
  cases h' with
  | @next _ _ _ _ _ _ E₁' rows₁' u₁ E₂' u₂ E₃' u₃ refined' deeper' rest' =>
    have hsame : (u.extend i j).unpaired = (v.extend i j).unpaired := (ha.extend i j).unpaired_eq
    have habove' := refined'.above.1
    rw [hsame] at refined'
    have hsettled : ∀ iu ∈ (v.extend i j).unpaired, Settled T.Gives (Matched g₁ g₂ i j iu) := by
      refine fun iu hiu => settled_matched ?_
      rintro rfl
      exact hnodup.not_mem_erase hiu
    obtain ⟨hacts₁, rfl⟩ := refined.acts_eq refined' hsettled hE₁
      fun st hst => hE' st (by simp [hst])
    obtain ⟨hacts₂, hend₂⟩ := deeper deeper' ((ha.extend i j).above refined.above.1 habove')
      fun st hst => hE' st (by simp [hst])
    obtain ⟨hacts₃, hend₃⟩ := rest rest' (hend₂.retract _ _ i) fun st hst => hE' st (by simp [hst])
    refine ⟨?_, hend₃⟩
    rw [acts_append, acts_append, acts_append, acts_append, hacts₁, hacts₂, hacts₃]

end GoesAlike

/-- Explorations of one task from views that are alike go alike. -/
theorem Explored.alike {t : Task} {E : List Step} (h : Explored g₁ g₂ c t v E v')
    (hc : c.Alike c') (hv : v.Sound g₁ g₂) (ht : t.Fits g₂ v) (hE : ∀ st ∈ E, T.Gives st.act) :
    GoesAlike g₁ g₂ T c c' t v E v' := by
  -- rule by rule; the views between the parts stay sound, so each part goes alike by induction
  induction h with
  | reject hf hna => exact .reject hc hf hna
  | deliver hf hacc => exact .deliver hc hf hacc
  | exact hf hi hcommon _ ih =>
    exact .exact hc hf hi hcommon (ih hv (ht.tries hi)
      fun st hst => hE st (List.mem_cons_of_mem _ hst))
  | common hf hi hcommon tries _ ih₁ ih₂ =>
    have htask := ht.tries hi
    obtain ⟨hv₁, ht₁⟩ := htask.without hv (tries.restores hv htask).1
    exact .common hc hf hi hcommon (ih₁ hv htask fun st hst => hE st (by simp [hst]))
      (ih₂ hv₁ ht₁ fun st hst => hE st (by simp [hst]))
  | done => exact .done
  | next refined deeper _ ih₂ ih₃ =>
    obtain ⟨hv₁, ht₁⟩ := ht.deeper hv refined
    have hr := View.Restores.retract refined.above.1 (deeper.restores hv₁ ht₁).1 ht.2.1
    obtain ⟨hv₂, ht₂⟩ := ht.rest hv hr
    exact .next hv.nodup_unpaired refined (fun st hst => hE st (by simp [hst]))
      (ih₂ hv₁ ht₁ fun st hst => hE st (by simp [hst]))
      (ih₃ hv₂ ht₂ fun st hst => hE st (by simp [hst]))

/-- The solutions of a script are those of its steps. -/
theorem delivered_eq_of_acts {E E' : List Step} (h : acts E = acts E') :
    delivered E = delivered E' := by
  have hd (E : List Step) : delivered E = (acts E).filterMap Act.solution? := by
    rw [acts, List.filterMap_map]
    rfl
  rw [hd, hd, h]

/-- Searches begin alike if the smallest size is the same or does not count. -/
theorem View.alike_initial (hm : c.common = true → c'.minimum = c.minimum)
    (a b : Arena VertexId) : (View.initial g₁ c a).Alike c (View.initial g₁ c' b) :=
  ⟨rfl, rfl, hm⟩

/-- Whole searches under such settings go alike in any two arenas. -/
theorem Searched.alike {E E' : List Step} {a b : Arena VertexId}
    (h : Searched g₁ g₂ c a E v') (h' : Searched g₁ g₂ c' b E' u') (hg₁ : g₁.WellFormed)
    (hg₂ : g₂.WellFormed) (hc : c.Alike c') (hm : c.common = true → c'.minimum = c.minimum)
    (hE : ∀ st ∈ E, T.Gives st.act) (hE' : ∀ st ∈ E', T.Gives st.act) : acts E = acts E' := by
  obtain ⟨hfilled, hexp⟩ := h
  obtain ⟨hfilled', hexp'⟩ := h'
  obtain ⟨hacts₀, rfl⟩ := hfilled.acts_eq hfilled' (fun i _ => settled_suited i)
    (fun st hst => hE st (List.mem_append_left _ hst))
    fun st hst => hE' st (List.mem_append_left _ hst)
  have habove := hfilled.above.1
  have hv₁ := (View.sound_initial hg₁ g₂ c a).above habove
  have halike := hexp.alike hc hv₁ (View.Fits.initial hg₂ hfilled)
    fun st hst => hE st (List.mem_append_right _ hst)
  obtain ⟨hacts₁, -⟩ := halike hexp' ((View.alike_initial hm a b).above habove hfilled'.above.1)
    fun st hst => hE' st (List.mem_append_right _ hst)
  rw [acts_append, acts_append, hacts₀, hacts₁]

end

end CommonSubgraph
