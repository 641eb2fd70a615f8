import CommonSubgraph.Proofs.Search.Candidates

/-!
# What a search enumerates under pure tests

With the answers of pure tests nothing about a search matters but the pairs made, the set of
vertices still unpaired, and the smallest size in force. `Enumerates` is the tree of the search on
these, with the pairs that are delivered at its leaves.

* Every list delivered is a partial isomorphism of an acceptable size that goes on from the pairs
  made (`Enumerates.sound`).
* Every partial isomorphism that does, and that the smallest size in force at the *end* still
  admits, is delivered exactly once (`Enumerates.count_eq_one`): at each vertex it goes one way
  only, and a branch is cut only where it has nothing left to pair (`eq_of_not_canGrow`).
* In monotonic mode sizes rise along what is delivered (`Enumerates.rising`).
-/

namespace CommonSubgraph

variable {ν ε : Type}

section

variable (g₁ g₂ : Graph ν ε) (T : Tests) (c : Config)

/-- The vertices of `U` that have a candidate beside `pairs`. -/
def openSet (pairs : List (VertexId × VertexId)) (U : Finset VertexId) : Finset VertexId :=
  U.filter fun i => candidates g₁ g₂ T pairs i ≠ []

/-- The pairs can still grow to an acceptable size by vertices of `U`. -/
def CanGrow (pairs : List (VertexId × VertexId)) (U : Finset VertexId) (m : Nat) : Prop :=
  (c.common = true → pairs.length < c.maximum) ∧ (openSet g₁ g₂ T pairs U).Nonempty ∧
    c.needed g₁.vertexCount m ≤ pairs.length + (openSet g₁ g₂ T pairs U).card

/-- The ways to go on that are looked at. -/
inductive Branch where
  /-- Every way. -/
  | all
  /-- To pair `i` with one of `js`. -/
  | of (i : VertexId) (js : List VertexId)

/-- Going on from `pairs` by vertices of `U`, with `m` in force at first and `m'` at the end, the
lists of pairs that are delivered, in order. -/
inductive Enumerates : Branch → List (VertexId × VertexId) → Finset VertexId → Nat →
    List (List (VertexId × VertexId)) → Nat → Prop where
  | reject {pairs U m} (hg : ¬ CanGrow g₁ g₂ T c pairs U m)
    (ha : ¬ c.Accepts g₁.vertexCount m pairs.length) : Enumerates .all pairs U m [] m
  | deliver {pairs U m} (hg : ¬ CanGrow g₁ g₂ T c pairs U m)
    (ha : c.Accepts g₁.vertexCount m pairs.length) :
    Enumerates .all pairs U m [pairs] (c.raised m pairs.length)
  | exact {pairs U m i D m'} (hi : i ∈ U) (hc : c.common = false)
    (tries : Enumerates (.of i (candidates g₁ g₂ T pairs i)) pairs U m D m') :
    Enumerates .all pairs U m D m'
  | common {pairs U m i D₁ m₁ D₂ m₂} (hi : i ∈ U) (hc : c.common = true)
    (tries : Enumerates (.of i (candidates g₁ g₂ T pairs i)) pairs U m D₁ m₁)
    (without : Enumerates .all pairs (U.erase i) m₁ D₂ m₂) :
    Enumerates .all pairs U m (D₁ ++ D₂) m₂
  | done {i pairs U m} : Enumerates (.of i []) pairs U m [] m
  | next {i j js pairs U m D₁ m₁ D₂ m₂}
    (deeper : Enumerates .all (pairs ++ [(i, j)]) (U.erase i) m D₁ m₁)
    (rest : Enumerates (.of i js) pairs U m₁ D₂ m₂) :
    Enumerates (.of i (j :: js)) pairs U m (D₁ ++ D₂) m₂

/-- A partial isomorphism to which pairs of vertices of `U` can be added. -/
structure Extensible (pairs : List (VertexId × VertexId)) (U : Finset VertexId) : Prop where
  iso : IsPartialIso g₁ g₂ T pairs
  mem_first : ∀ i ∈ U, g₁.containsVertex i = true
  not_paired : ∀ i ∈ U, i ∉ pairs.map Prod.fst

/-- The branch offers different candidates of a vertex of `U`. -/
def Branch.Fits (pairs : List (VertexId × VertexId)) (U : Finset VertexId) : Branch → Prop
  | .all => True
  | .of i js => i ∈ U ∧ js.Nodup ∧ ∀ j ∈ js, j ∈ candidates g₁ g₂ T pairs i

end

/-- A set of pairs goes on from `pairs` by vertices of `U`. -/
structure Completes (pairs : List (VertexId × VertexId)) (U : Finset VertexId)
    (F : Finset (VertexId × VertexId)) : Prop where
  subset : ∀ p ∈ pairs, p ∈ F
  within : ∀ p ∈ F, p ∈ pairs ∨ p.1 ∈ U

/-- A set of pairs goes one of the ways of the branch. -/
def Branch.Holds (F : Finset (VertexId × VertexId)) : Branch → Prop
  | .all => True
  | .of i js => ∃ j ∈ js, (i, j) ∈ F

variable {g₁ g₂ : Graph ν ε} {T : Tests} {c : Config}
variable {b : Branch} {pairs ps : List (VertexId × VertexId)} {U : Finset VertexId} {m m' : Nat}
variable {D : List (List (VertexId × VertexId))} {F : Finset (VertexId × VertexId)}
variable {i j : VertexId} {js : List VertexId}

/-! ## Smallest sizes in force -/

/-- In common mode the smallest size in force never falls. -/
theorem Enumerates.minimum_le (h : Enumerates g₁ g₂ T c b pairs U m D m')
    (hc : c.common = true) : m ≤ m' := by
  induction h with
  | reject => exact Nat.le_refl _
  | deliver _ ha => exact ha.le_raised hc
  | exact _ _ _ ih => exact ih
  | common _ _ _ _ ih₁ ih₂ => exact Nat.le_trans ih₁ ih₂
  | done => exact Nat.le_refl _
  | next _ _ ih₁ ih₂ => exact Nat.le_trans ih₁ ih₂

/-- Outside monotonic mode the smallest size in force stays as it is. -/
theorem Enumerates.minimum_eq (h : Enumerates g₁ g₂ T c b pairs U m D m')
    (hc : c.monotonic = false) : m' = m := by
  induction h with
  | reject => rfl
  | deliver => simp [Config.raised, hc]
  | exact _ _ _ ih => exact ih
  | common _ _ _ _ ih₁ ih₂ => exact ih₂.trans ih₁
  | done => rfl
  | next _ _ ih₁ ih₂ => exact ih₂.trans ih₁

/-! ## Completions -/

/-- The set of some pairs completes them without any further one. -/
theorem completes_toFinset (pairs : List (VertexId × VertexId)) (U : Finset VertexId) :
    Completes pairs U pairs.toFinset :=
  ⟨fun _ hp => List.mem_toFinset.mpr hp, fun _ hp => .inl (List.mem_toFinset.mp hp)⟩

/-- What completes some pairs without a vertex also completes them with it. -/
theorem Completes.of_erase (h : Completes pairs (U.erase i) F) : Completes pairs U F :=
  ⟨h.subset, fun p hp => (h.within p hp).imp_right Finset.mem_of_mem_erase⟩

/-- What completes some pairs and one more completes them without it, and has that pair. -/
theorem Completes.of_concat (h : Completes (pairs ++ [(i, j)]) (U.erase i) F) (hi : i ∈ U) :
    Completes pairs U F ∧ (i, j) ∈ F := by
  have hwithin : ∀ p ∈ F, p ∈ pairs ∨ p.1 ∈ U := by
    intro p hp
    rcases h.within p hp with hp | hp
    · rcases List.mem_append.mp hp with hp | hp
      · exact .inl hp
      · rw [List.mem_singleton.mp hp]
        exact .inr hi
    · exact .inr (Finset.mem_of_mem_erase hp)
  exact ⟨⟨fun p hp => h.subset p (List.mem_append_left _ hp), hwithin⟩, h.subset (i, j) (by simp)⟩

/-- A completion with the pair of `i` and `j` completes the pairs that have it. -/
theorem Completes.concat (h : Completes pairs U F) (hF : IsPartialIsoSet g₁ g₂ T F)
    (hij : (i, j) ∈ F) : Completes (pairs ++ [(i, j)]) (U.erase i) F := by
  constructor
  · intro p hp
    rcases List.mem_append.mp hp with hp | hp
    · exact h.subset p hp
    · rw [List.mem_singleton.mp hp]
      exact hij
  · intro p hp
    by_cases hpi : p.1 = i
    · exact .inl (by simp [hF.inj_first p hp (i, j) hij hpi])
    · exact (h.within p hp).imp (List.mem_append_left _) fun hU => Finset.mem_erase.mpr ⟨hpi, hU⟩

/-- A completion without `i` leaves it out. -/
theorem Completes.erase (h : Completes pairs U F) (hi : ∀ j, (i, j) ∉ F) :
    Completes pairs (U.erase i) F := by
  refine ⟨h.subset, fun p hp => (h.within p hp).imp_right fun hU => ?_⟩
  refine Finset.mem_erase.mpr ⟨?_, hU⟩
  rintro rfl
  exact hi p.2 hp

/-- A vertex that was left out is in no completion. -/
theorem Completes.not_mem (h : Completes pairs (U.erase i) F) (hi : i ∉ pairs.map Prod.fst) :
    (i, j) ∉ F := by
  intro hij
  rcases h.within (i, j) hij with hp | hU
  · exact hi (List.mem_map_of_mem hp)
  · exact Finset.notMem_erase i U hU

/-- What a completion adds is among the candidates. -/
theorem Completes.mem_candidates (h : Completes pairs U F) (hF : IsPartialIsoSet g₁ g₂ T F)
    (hg₂ : g₂.WellFormed) (hi : i ∉ pairs.map Prod.fst) (hij : (i, j) ∈ F) :
    j ∈ candidates g₁ g₂ T pairs i := by
  have hnot : (i, j) ∉ pairs := fun hp => hi (List.mem_map_of_mem hp)
  refine mem_candidates_iff.mpr ⟨?_, ?_, hF.suits (i, j) hij, fun p hp => ?_⟩
  · exact (Graph.mem_vertexIds_iff hg₂).mpr (hF.mem_second (i, j) hij)
  · intro hj
    obtain ⟨p, hp, hpj⟩ := List.mem_map.mp hj
    exact hnot (hF.inj_second p (h.subset p hp) (i, j) hij hpj ▸ hp)
  · exact hF.agree p (h.subset p hp) (i, j) hij fun he => hnot (he ▸ hp)

/-- Where the search stops growing, no acceptable completion adds anything. -/
theorem eq_of_not_canGrow (hx : Extensible g₁ g₂ T pairs U) (h : Completes pairs U F)
    (hF : IsPartialIsoSet g₁ g₂ T F) (hg₂ : g₂.WellFormed)
    (ha : c.Accepts g₁.vertexCount m F.card) (hg : ¬ CanGrow g₁ g₂ T c pairs U m) :
    F = pairs.toFinset := by
  have hsub : pairs.toFinset ⊆ F := fun p hp => h.subset p (List.mem_toFinset.mp hp)
  by_contra hne
  apply hg
  -- each pair that `F` adds is one of another open vertex
  have hopen : ∀ p ∈ F \ pairs.toFinset, p.1 ∈ openSet g₁ g₂ T pairs U := by
    intro p hp
    obtain ⟨hpF, hpn⟩ := Finset.mem_sdiff.mp hp
    have hU := (h.within p hpF).resolve_left fun hp => hpn (List.mem_toFinset.mpr hp)
    have hcand := h.mem_candidates hF hg₂ (hx.not_paired _ hU) hpF
    exact Finset.mem_filter.mpr ⟨hU, List.ne_nil_of_mem hcand⟩
  have hle : (F \ pairs.toFinset).card ≤ (openSet g₁ g₂ T pairs U).card := by
    apply Finset.card_le_card_of_injOn Prod.fst hopen
    intro p hp q hq
    exact hF.inj_first p (Finset.mem_sdiff.mp hp).1 q (Finset.mem_sdiff.mp hq).1
  have hcard : (F \ pairs.toFinset).card + pairs.length = F.card := by
    rw [← hx.iso.card_toFinset]
    exact Finset.card_sdiff_add_card_eq_card hsub
  have hadds : (F \ pairs.toFinset).Nonempty := by
    rw [Finset.sdiff_nonempty]
    exact fun hFp => hne (Finset.Subset.antisymm hFp hsub)
  have hpos : 0 < (F \ pairs.toFinset).card := Finset.card_pos.mpr hadds
  have hneeded := ha.needed_le
  refine ⟨fun hc => ?_, ?_, by omega⟩
  · have hmax := ((Config.accepts_iff_of_common hc).mp ha).2
    omega
  · exact Finset.card_pos.mp (by omega)

/-! ## Going on -/

/-- A vertex may be left out of those still to be paired. -/
theorem Extensible.erase (h : Extensible g₁ g₂ T pairs U) (i : VertexId) :
    Extensible g₁ g₂ T pairs (U.erase i) where
  iso := h.iso
  mem_first k hk := h.mem_first k (Finset.mem_of_mem_erase hk)
  not_paired k hk := h.not_paired k (Finset.mem_of_mem_erase hk)

/-- A partial isomorphism can be extended by a candidate of a vertex that is still to be paired. -/
theorem Extensible.concat (h : Extensible g₁ g₂ T pairs U) (hg₂ : g₂.WellFormed) (hi : i ∈ U)
    (hj : j ∈ candidates g₁ g₂ T pairs i) :
    Extensible g₁ g₂ T (pairs ++ [(i, j)]) (U.erase i) where
  iso := h.iso.concat hg₂ (h.mem_first i hi) (h.not_paired i hi) hj
  mem_first k hk := h.mem_first k (Finset.mem_of_mem_erase hk)
  not_paired k hk := by
    obtain ⟨hki, hU⟩ := Finset.mem_erase.mp hk
    have hk := h.not_paired k hU
    simpa [hki] using hk

/-- The candidates of a vertex that is still to be paired are a branch. -/
theorem Branch.fits_candidates (hg₂ : g₂.WellFormed) (hi : i ∈ U) :
    (Branch.of i (candidates g₁ g₂ T pairs i)).Fits g₁ g₂ T pairs U :=
  ⟨hi, nodup_candidates hg₂ pairs i, fun _ hj => hj⟩

/-- Without its first candidate a branch is still one. -/
theorem Branch.Fits.tail (h : (Branch.of i (j :: js)).Fits g₁ g₂ T pairs U) :
    j ∈ candidates g₁ g₂ T pairs i ∧ j ∉ js ∧ (Branch.of i js).Fits g₁ g₂ T pairs U := by
  obtain ⟨hi, hnodup, hjs⟩ := h
  obtain ⟨hj, hnodup⟩ := List.nodup_cons.mp hnodup
  exact ⟨hjs j List.mem_cons_self, hj, hi, hnodup, fun k hk => hjs k (List.mem_cons_of_mem j hk)⟩

/-! ## What is delivered -/

/-- Every list that is delivered is a partial isomorphism of an acceptable size that completes the
pairs on the branch. -/
theorem Enumerates.sound (h : Enumerates g₁ g₂ T c b pairs U m D m') (hg₂ : g₂.WellFormed)
    (hx : Extensible g₁ g₂ T pairs U) (hb : b.Fits g₁ g₂ T pairs U) :
    ∀ ps ∈ D, IsPartialIso g₁ g₂ T ps ∧ Completes pairs U ps.toFinset ∧ b.Holds ps.toFinset ∧
      c.Accepts g₁.vertexCount m ps.length := by
  -- a later branch has a minimum that is no smaller, so what it accepts was acceptable before
  induction h with
  | reject => exact fun ps hps => absurd hps List.not_mem_nil
  | @deliver pairs U m _ ha =>
    intro ps hps
    rw [List.mem_singleton.mp hps]
    exact ⟨hx.iso, completes_toFinset pairs U, trivial, ha⟩
  | exact hi _ _ ih =>
    intro ps hps
    obtain ⟨hiso, hcomp, -, ha⟩ := ih hx (Branch.fits_candidates hg₂ hi) ps hps
    exact ⟨hiso, hcomp, trivial, ha⟩
  | @common pairs U m i D₁ m₁ D₂ m₂ hi hc tries _ ih₁ ih₂ =>
    intro ps hps
    rcases List.mem_append.mp hps with hps | hps
    · obtain ⟨hiso, hcomp, -, ha⟩ := ih₁ hx (Branch.fits_candidates hg₂ hi) ps hps
      exact ⟨hiso, hcomp, trivial, ha⟩
    · obtain ⟨hiso, hcomp, -, ha⟩ := ih₂ (hx.erase i) trivial ps hps
      exact ⟨hiso, hcomp.of_erase, trivial, ha.mono fun hc => tries.minimum_le hc⟩
  | done => exact fun ps hps => absurd hps List.not_mem_nil
  | @next i j js pairs U m D₁ m₁ D₂ m₂ deeper _ ih₁ ih₂ =>
    intro ps hps
    obtain ⟨hj, -, htail⟩ := hb.tail
    rcases List.mem_append.mp hps with hps | hps
    · obtain ⟨hiso, hcomp, -, ha⟩ := ih₁ (hx.concat hg₂ hb.1 hj) trivial ps hps
      obtain ⟨hcomp, hij⟩ := hcomp.of_concat hb.1
      exact ⟨hiso, hcomp, ⟨j, List.mem_cons_self, hij⟩, ha⟩
    · obtain ⟨hiso, hcomp, ⟨k, hk, hik⟩, ha⟩ := ih₂ hx htail ps hps
      exact ⟨hiso, hcomp, ⟨k, List.mem_cons_of_mem j hk, hik⟩,
        ha.mono fun hc => deeper.minimum_le hc⟩

/-- A set of pairs is not delivered by a branch that it does not go. -/
theorem Enumerates.count_eq_zero (h : Enumerates g₁ g₂ T c b pairs U m D m')
    (hg₂ : g₂.WellFormed) (hx : Extensible g₁ g₂ T pairs U) (hb : b.Fits g₁ g₂ T pairs U)
    (hn : Completes pairs U F → ¬ b.Holds F) : (D.map List.toFinset).count F = 0 := by
  apply List.count_eq_zero_of_not_mem
  intro hF
  obtain ⟨ps, hps, rfl⟩ := List.mem_map.mp hF
  obtain ⟨-, hcomp, hholds, -⟩ := h.sound hg₂ hx hb ps hps
  exact hn hcomp hholds

/-- What goes on from the pairs, and has a size that the last minimum admits, is delivered once. -/
theorem Enumerates.count_eq_one (h : Enumerates g₁ g₂ T c b pairs U m D m')
    (hg₁ : g₁.WellFormed) (hg₂ : g₂.WellFormed) (hF : IsPartialIsoSet g₁ g₂ T F)
    (hx : Extensible g₁ g₂ T pairs U) (hb : b.Fits g₁ g₂ T pairs U) (hcomp : Completes pairs U F)
    (hholds : b.Holds F) (ha : c.Accepts g₁.vertexCount m' F.card) :
    (D.map List.toFinset).count F = 1 := by
  -- where the search divides, `F` goes on in one part, and the other one cannot deliver it
  induction h with
  | @reject pairs U m hg hna =>
    have heq := eq_of_not_canGrow hx hcomp hF hg₂ ha hg
    rw [heq, hx.iso.card_toFinset] at ha
    exact absurd ha hna
  | @deliver pairs U m hg hacc =>
    have heq := eq_of_not_canGrow hx hcomp hF hg₂ (ha.mono fun hc => hacc.le_raised hc) hg
    rw [List.map_singleton, heq]
    exact List.count_singleton_self
  | @exact pairs U m i D m' hi hc _ ih =>
    have hcard := (Config.accepts_iff_of_exact hc).mp ha
    obtain ⟨j, hij⟩ := hF.exists_of_card_eq hg₁ hcard (hx.mem_first i hi)
    have hj := hcomp.mem_candidates hF hg₂ (hx.not_paired i hi) hij
    exact ih hx (Branch.fits_candidates hg₂ hi) hcomp ⟨j, hj, hij⟩ ha
  | @common pairs U m i D₁ m₁ D₂ m₂ hi hc tries without ih₁ ih₂ =>
    -- the partners of `i` are tried first, and `i` is left out afterwards
    have hfits : (Branch.of i (candidates g₁ g₂ T pairs i)).Fits g₁ g₂ T pairs U :=
      Branch.fits_candidates hg₂ hi
    rw [List.map_append, List.count_append]
    by_cases hpaired : ∃ j, (i, j) ∈ F
    · obtain ⟨j, hij⟩ := hpaired
      have hj := hcomp.mem_candidates hF hg₂ (hx.not_paired i hi) hij
      have hone := ih₁ hx hfits hcomp ⟨j, hj, hij⟩ (ha.mono fun hc => without.minimum_le hc)
      have hzero := without.count_eq_zero hg₂ (hx.erase i) trivial fun hcomp' =>
        absurd hij (hcomp'.not_mem (hx.not_paired i hi))
      omega
    · have hnot : ∀ j, (i, j) ∉ F := fun j hij => hpaired ⟨j, hij⟩
      have hone := ih₂ (hx.erase i) trivial (hcomp.erase hnot) trivial ha
      have hzero := tries.count_eq_zero (F := F) hg₂ hx hfits fun _ ⟨j, _, hij⟩ => hnot j hij
      omega
  | done =>
    obtain ⟨j, hj, -⟩ := hholds
    exact absurd hj List.not_mem_nil
  | @next i j js pairs U m D₁ m₁ D₂ m₂ deeper rest ih₁ ih₂ =>
    obtain ⟨hj, hjs, htail⟩ := hb.tail
    have hx' := hx.concat hg₂ hb.1 hj
    rw [List.map_append, List.count_append]
    -- `F` has at most one partner of `i`
    by_cases hij : (i, j) ∈ F
    · have hone := ih₁ hx' trivial (hcomp.concat hF hij) trivial
        (ha.mono fun hc => rest.minimum_le hc)
      have hzero := rest.count_eq_zero (F := F) hg₂ hx htail fun _ ⟨k, hk, hik⟩ => by
        obtain rfl : k = j := congrArg Prod.snd (hF.inj_first (i, k) hik (i, j) hij rfl)
        exact hjs hk
      omega
    · obtain ⟨k, hk, hik⟩ := hholds
      have hk : k ∈ js := (List.mem_cons.mp hk).resolve_left fun h => hij (h ▸ hik)
      have hone := ih₂ hx htail hcomp ⟨k, hk, hik⟩ ha
      have hzero := deeper.count_eq_zero (F := F) hg₂ hx' trivial fun hcomp' =>
        absurd (hcomp'.of_concat hb.1).2 hij
      omega

/-! ## Rising sizes -/

/-- Each list is at least as long as the ones before it, and the last one has length `m'`; without a
list `m` remains. -/
inductive Rising {α : Type} : Nat → List (List α) → Nat → Prop where
  | nil {k : Nat} : Rising k [] k
  | cons {k k' : Nat} {l : List α} {D : List (List α)} (le : k ≤ l.length)
    (rest : Rising l.length D k') : Rising k (l :: D) k'

namespace Rising

variable {α : Type} {D D' : List (List α)} {m m₁ m' : Nat}

/-- Rising lists, one after the other, rise if the second begins where the first ends. -/
theorem append (h : Rising m D m₁) (h' : Rising m₁ D' m') : Rising m (D ++ D') m' := by
  induction h with
  | nil => exact h'
  | cons le _ ih => exact .cons le (ih h')

/-- The last length is no less than the first. -/
theorem le (h : Rising m D m') : m ≤ m' := by
  induction h with
  | nil => exact Nat.le_refl _
  | cons le _ ih => exact Nat.le_trans le ih

/-- All lengths are between the first and the last. -/
theorem length_bounds (h : Rising m D m') : ∀ l ∈ D, m ≤ l.length ∧ l.length ≤ m' := by
  induction h with
  | nil => exact fun l hl => absurd hl List.not_mem_nil
  | @cons m m' l D le rest ih =>
    intro k hk
    rcases List.mem_cons.mp hk with rfl | hk
    · exact ⟨le, rest.le⟩
    · exact ⟨Nat.le_trans le (ih k hk).1, (ih k hk).2⟩

/-- Of two lists the later one is no shorter. -/
theorem pairwise (h : Rising m D m') : D.Pairwise fun l k => l.length ≤ k.length := by
  induction h with
  | nil => exact .nil
  | cons _ rest ih => exact .cons (fun k hk => (rest.length_bounds k hk).1) ih

/-- The last length in force is that of some list, unless there is none. -/
theorem eq_or_exists (h : Rising m D m') : D = [] ∧ m' = m ∨ ∃ l ∈ D, l.length = m' := by
  induction h with
  | nil => exact .inl ⟨rfl, rfl⟩
  | @cons m m' l D _ _ ih =>
    rcases ih with ⟨-, hm⟩ | ⟨k, hk, hm⟩
    · exact .inr ⟨l, List.mem_cons_self, hm.symm⟩
    · exact .inr ⟨k, List.mem_cons_of_mem l hk, hm⟩

end Rising

/-- In common and monotonic mode the lists that are delivered never get shorter. -/
theorem Enumerates.rising (h : Enumerates g₁ g₂ T c b pairs U m D m') (hc : c.common = true)
    (hm : c.monotonic = true) : Rising m D m' := by
  induction h with
  | reject => exact .nil
  | deliver _ ha =>
    rw [Config.raised, if_pos hm]
    exact .cons ((Config.accepts_iff_of_common hc).mp ha).1 .nil
  | exact _ _ _ ih => exact ih
  | common _ _ _ _ ih₁ ih₂ => exact ih₁.append ih₂
  | done => exact .nil
  | next _ _ ih₁ ih₂ => exact ih₁.append ih₂

end CommonSubgraph
