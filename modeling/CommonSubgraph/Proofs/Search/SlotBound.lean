import CommonSubgraph.Proofs.Search.Explored
import Mathlib.Algebra.BigOperators.Group.Finset.Basic
import Mathlib.Algebra.Order.BigOperators.Group.Finset

/-!
# How many slots a search can use

With `k` pairs made, `n - k` vertices of the first graph are open at most, and each of them has at
most `m - k` candidates. A candidate map is built whenever a pair is made and dropped with it, so
the maps in the arena belong to `0, 1, …, k` pairs, one to each number, and their slots are no more
than the sum of the products (`slotsWith`). Leaving a vertex out builds no map. However many pairs
there are, all that is in use is within `slotBound`.

The slots of a row are reserved before its candidates are tried, by the length of the row that it is
made from. That one may hold the vertex that was paired last, and so be longer by one than the row
can get: a reservation is within `slotBound` and one slot more (`Explored.modest`).
-/

namespace CommonSubgraph

variable {ν ε : Type}

/-! ## The bound -/

/-- The most slots of the maps that belong to up to `k` pairs of graphs with `n` and `m`
vertices. -/
def slotsWith (n m k : Nat) : Nat := ∑ i ∈ Finset.range (k + 1), (n - i) * (m - i)

/-- The most slots that a search of graphs with `n` and `m` vertices can use. -/
def slotBound (n m : Nat) : Nat := slotsWith n m (min n m)

/-- Without a pair there is the initial map alone. -/
theorem slotsWith_zero (n m : Nat) : slotsWith n m 0 = n * m := by
  rw [slotsWith, Finset.sum_range_one, Nat.sub_zero, Nat.sub_zero]

/-- With one more pair there is one more map. -/
theorem slotsWith_succ (n m k : Nat) :
    slotsWith n m (k + 1) = slotsWith n m k + (n - (k + 1)) * (m - (k + 1)) :=
  Finset.sum_range_succ _ _

/-- More pairs than vertices add nothing. -/
theorem slotsWith_le (n m k : Nat) : slotsWith n m k ≤ slotBound n m := by
  rw [slotBound, slotsWith, slotsWith]
  rcases Nat.le_total k (min n m) with hk | hk
  · exact Finset.sum_le_sum_of_subset (Finset.range_mono (Nat.succ_le_succ hk))
  · refine Nat.le_of_eq (Finset.sum_subset (Finset.range_mono (Nat.succ_le_succ hk)) ?_).symm
    intro i _ hi
    have hlt : min n m + 1 ≤ i := Nat.le_of_not_lt (mt Finset.mem_range.mpr hi)
    rcases Nat.le_total n m with h | h
    · rw [Nat.sub_eq_zero_of_le (by omega : n ≤ i), Nat.zero_mul]
    · rw [Nat.sub_eq_zero_of_le (by omega : m ≤ i), Nat.mul_zero]

/-! ## Steps within a bound -/

/-- The slots asked for at a step. -/
def Act.slots : Act → Nat
  | .reserve n => n
  | _ => 0

/-- The slots in use are counted by the mark, which has not risen above `S`. -/
structure Arena.Marked (S : Nat) (a : Arena VertexId) : Prop where
  size_le : a.size ≤ a.highWater
  highWater_le : a.highWater ≤ S

/-- What is in use at the step is within `S`, and what is reserved within one slot more. -/
structure Step.Modest (S : Nat) (st : Step) : Prop where
  marked : st.view.arena.Marked S
  reserved_le : st.view.arena.size + st.act.slots ≤ S + 1

namespace Arena.Marked

variable {S : Nat} {a : Arena VertexId}

/-- No more slots are in use than the mark may rise to. -/
theorem size_le_bound (h : a.Marked S) : a.size ≤ S := Nat.le_trans h.size_le h.highWater_le

/-- A slot taken below the bound is counted within it. -/
theorem push (h : a.Marked S) (hroom : a.size < S) (j : VertexId) : (a.push j).Marked S where
  size_le := by
    rw [Arena.size_push]
    exact Nat.le_max_right _ _
  highWater_le := Nat.max_le.mpr ⟨h.highWater_le, hroom⟩

/-- Releasing slots does not lower the mark. -/
theorem truncate (h : a.Marked S) (n : Nat) : (a.truncate n).Marked S where
  size_le := by
    rw [Arena.size_truncate]
    exact Nat.le_trans (Nat.min_le_right _ _) h.size_le
  highWater_le := h.highWater_le

/-- A step that reserves nothing is modest where the slots are marked. -/
theorem modest {v : View} (h : v.arena.Marked S) {act : Act} (hact : act.slots = 0) :
    Step.Modest S ⟨v, act⟩ where
  marked := h
  reserved_le := by
    show v.arena.size + act.slots ≤ S + 1
    have := h.size_le_bound
    omega

end Arena.Marked

/-! ## Filling rows -/

section Filling

variable {S b : Nat} {v v' : View} {E : List Step} {js kept : List VertexId}

/-- A trial asks questions and reserves nothing. -/
def AsksOnly (trial : List Act → Bool → Prop) : Prop :=
  ∀ acts answer, trial acts answer → ∀ act ∈ acts, act.slots = 0

/-- The trial of a pair by itself reserves nothing. -/
theorem Suited.asksOnly (g₁ g₂ : Graph ν ε) (i j : VertexId) : AsksOnly (Suited g₁ g₂ i j) := by
  intro acts answer h
  cases h <;> simp [Act.slots]

/-- The trial of a pair against another one reserves nothing. -/
theorem Matched.asksOnly (g₁ g₂ : Graph ν ε) (i j iu ju : VertexId) :
    AsksOnly (Matched g₁ g₂ i j iu ju) := by
  intro acts answer h
  cases h <;> simp [Act.slots]

section Row

variable {trial : VertexId → List Act → Bool → Prop}

/-- The candidates that are kept are some of those tried, in the same order. -/
theorem RowFilled.sublist (h : RowFilled trial js v E kept v') : kept.Sublist js := by
  induction h with
  | nil => exact .slnil
  | drop _ _ ih => exact ih.cons _
  | keep _ _ ih => exact ih.cons_cons _

/-- What is kept comes on top of the slots in use. -/
theorem RowFilled.slots_eq (h : RowFilled trial js v E kept v') :
    v'.arena.slots.toList = v.arena.slots.toList ++ kept := by
  induction h with
  | nil => exact (List.append_nil _).symm
  | drop _ _ ih => exact ih
  | @keep j js v acts E kept v' _ _ ih =>
    have hpush : (v.push j).arena.slots.toList = v.arena.slots.toList ++ [j] := Array.toList_push
    rw [ih, hpush, List.append_assoc, List.singleton_append]

/-- Every candidate that is kept takes one slot. -/
theorem RowFilled.size_eq (h : RowFilled trial js v E kept v') :
    v'.arena.size = v.arena.size + kept.length := by
  rw [Arena.size, ← Array.length_toList, h.slots_eq, List.length_append, Array.length_toList]
  rfl

/-- If there is room for what is kept, the steps are within the bound. -/
theorem RowFilled.modest (h : RowFilled trial js v E kept v') (htrial : ∀ j, AsksOnly (trial j))
    (hv : v.arena.Marked S) (hroom : v.arena.size + kept.length ≤ S) :
    (∀ st ∈ E, st.Modest S) ∧ v'.arena.Marked S := by
  have asked {v : View} (hv : v.arena.Marked S) {j : VertexId} {acts : List Act} {answer : Bool}
      (tried : trial j acts answer) : ∀ st ∈ acts.map (Step.mk v), st.Modest S :=
    List.forall_mem_map.mpr fun act hact => hv.modest (htrial j acts answer tried act hact)
  induction h with
  | nil => exact ⟨List.forall_mem_nil _, hv⟩
  | drop tried _ ih =>
    obtain ⟨hE, hv'⟩ := ih hv hroom
    exact ⟨List.forall_mem_append.mpr ⟨asked hv tried, hE⟩, hv'⟩
  | @keep j js v acts E kept v' tried _ ih =>
    rw [List.length_cons] at hroom
    have hpush : (v.push j).arena.size = v.arena.size + 1 := Arena.size_push _ _
    obtain ⟨hE, hv'⟩ := ih (hv.push (by omega) j) (by rw [hpush]; omega)
    exact ⟨List.forall_mem_append.mpr ⟨asked hv tried, hE⟩, hv'⟩

end Row

variable {trial : VertexId → VertexId → List Act → Bool → Prop} {source rows : Rows}
variable {is : List VertexId}

/-- Every row that is filled has some of the candidates of its source, in the same order. -/
theorem RowsFilled.sublist (h : RowsFilled trial source is v E rows v') (i : VertexId) :
    (rows i).Sublist (source i) := by
  induction h with
  | nil => exact List.nil_sublist _
  | @cons k is v E₁ kept v₁ E₂ rows v₂ row _ ih =>
    by_cases hk : i = k
    · subst hk
      rw [Function.update_self]
      exact row.sublist
    · rw [Function.update_of_ne hk]
      exact ih

/-- The rows come on top of the slots in use, in the order in which they are filled. -/
theorem RowsFilled.slots_eq (h : RowsFilled trial source is v E rows v') (his : is.Nodup) :
    v'.arena.slots.toList = v.arena.slots.toList ++ is.flatMap rows := by
  induction h with
  | nil => exact (List.append_nil _).symm
  | @cons i is v E₁ kept v₁ E₂ rows v₂ row _ ih =>
    obtain ⟨hi, his⟩ := List.nodup_cons.mp his
    have hrest : is.flatMap (Function.update rows i kept) = is.flatMap rows := by
      refine List.flatMap_congr fun k hk => Function.update_of_ne ?_ _ _
      rintro rfl
      exact hi hk
    rw [ih his, row.slots_eq, List.flatMap_cons, Function.update_self, hrest, List.append_assoc]

/-- Rows of at most `b` candidates, each from at most one more, are filled within the bound if there
is room for `b` candidates in each. -/
theorem RowsFilled.modest (h : RowsFilled trial source is v E rows v')
    (htrial : ∀ i j, AsksOnly (trial i j))
    (hkept : ∀ i ∈ is, ∀ v E kept v', RowFilled (trial i) (source i) v E kept v' → kept.length ≤ b)
    (hsource : ∀ i ∈ is, (source i).length ≤ b + 1) (hv : v.arena.Marked S)
    (hroom : v.arena.size + is.length * b ≤ S) :
    (∀ st ∈ E, st.Modest S) ∧ v'.arena.Marked S ∧ v'.arena.size ≤ v.arena.size + is.length * b := by
  induction h with
  | nil => exact ⟨List.forall_mem_nil _, hv, Nat.le_add_right _ _⟩
  | @cons i is v E₁ kept v₁ E₂ rows v₂ row _ ih =>
    have hlength := hkept i List.mem_cons_self v E₁ kept v₁ row
    have hsize := row.size_eq
    rw [List.length_cons, Nat.succ_mul] at hroom ⊢
    obtain ⟨hE₁, hv₁⟩ := row.modest (htrial i) hv (by omega)
    obtain ⟨hE₂, hv₂, hsize₂⟩ := ih (fun k hk => hkept k (List.mem_cons_of_mem i hk))
      (fun k hk => hsource k (List.mem_cons_of_mem i hk)) hv₁ (by omega)
    have hreserve : Step.Modest S ⟨v, .reserve (source i).length⟩ := by
      refine ⟨hv, ?_⟩
      show v.arena.size + (source i).length ≤ S + 1
      have := hsource i List.mem_cons_self
      omega
    refine ⟨List.forall_mem_cons.mpr ⟨hreserve, List.forall_mem_append.mpr ⟨hE₁, hE₂⟩⟩, hv₂, ?_⟩
    omega

end Filling

/-! ## Vertices that are left -/

section Left

variable {g₁ g₂ : Graph ν ε} {v : View} {l : List VertexId}

/-- Different vertices of a graph are no more than all of them. -/
theorem Graph.length_le_vertexCount {g : Graph ν ε} (hg : g.WellFormed) (hl : l.Nodup)
    (hmem : ∀ i ∈ l, g.containsVertex i = true) : l.length ≤ g.vertexCount := by
  rw [← g.length_vertexIds]
  refine (List.subperm_of_subset hl fun i hi => ?_).length_le
  exact (mem_vertexIds_iff hg).mpr (hmem i hi)

/-- Every pair leaves one vertex less to be paired. -/
theorem View.Sound.length_unpaired_le (hv : v.Sound g₁ g₂) (hg₁ : g₁.WellFormed) :
    v.unpaired.length ≤ g₁.vertexCount - v.pairs.length := by
  have hnodup : (v.unpaired ++ v.pairs.map Prod.fst).Nodup :=
    List.nodup_append'.mpr ⟨hv.nodup_unpaired, hv.nodup_first, fun _ hi => hv.not_paired _ hi⟩
  have hle := Graph.length_le_vertexCount hg₁ hnodup fun i hi =>
    hv.mem_first i ((hv.mem_considered_iff i).mpr (List.mem_append.mp hi))
  rw [List.length_append, List.length_map] at hle
  omega

/-- Free vertices of the second graph. -/
theorem View.Sound.length_free_le (hv : v.Sound g₁ g₂) (hg₂ : g₂.WellFormed) (hl : l.Nodup)
    (hfree : ∀ j ∈ l, g₂.containsVertex j = true ∧ j ∉ v.pairs.map Prod.snd) :
    l.length ≤ g₂.vertexCount - v.pairs.length := by
  have hnodup : (l ++ v.pairs.map Prod.snd).Nodup :=
    List.nodup_append'.mpr ⟨hl, hv.nodup_second, fun _ hj => (hfree _ hj).2⟩
  have hle := Graph.length_le_vertexCount hg₂ hnodup fun j hj =>
    (List.mem_append.mp hj).elim (fun hj => (hfree j hj).1) (hv.mem_second j)
  rw [List.length_append, List.length_map] at hle
  omega

end Left

/-! ## Levels -/

/-- The rows of the level that is explored. -/
def Task.rows : Task → Rows
  | .level rows _ => rows
  | .tries rows _ _ _ => rows

/-- The rows name no vertex twice, and the slots in use are those of the maps that belong to the
pairs made so far. -/
structure View.Roomy (g₁ g₂ : Graph ν ε) (v : View) (rows : Rows) : Prop where
  nodup : ∀ i, (rows i).Nodup
  size_le : v.arena.size ≤ slotsWith g₁.vertexCount g₂.vertexCount v.pairs.length
  marked : v.arena.Marked (slotBound g₁.vertexCount g₂.vertexCount)

section Levels

variable {g₁ g₂ : Graph ν ε} {c : Config} {v v' v₁ : View} {rows rows' : Rows} {i j : VertexId}
variable {E : List Step} {a : Arena VertexId}

/-- There is room again when everything was put back. -/
theorem View.Roomy.restores (h : v.Roomy g₁ g₂ rows) (hr : v.Restores c v')
    (hm : v'.arena.Marked (slotBound g₁.vertexCount g₂.vertexCount)) : v'.Roomy g₁ g₂ rows where
  nodup := h.nodup
  size_le := by
    rw [hr.size_eq, hr.pairs_eq]
    exact h.size_le
  marked := hm

/-- Pairing `i` with `j` needs no more than the slots of one more map. -/
theorem View.Roomy.refined (h : v.Roomy g₁ g₂ rows) (hg₁ : g₁.WellFormed) (hg₂ : g₂.WellFormed)
    (hv : v.Sound g₁ g₂) (hfit : v.Fits g₂ rows) (hi : i ∈ v.unpaired) (hj : j ∈ rows i)
    (hf : RowsFilled (Matched g₁ g₂ i j) rows (v.extend i j).unpaired (v.extend i j) E rows' v₁) :
    (∀ st ∈ E, st.Modest (slotBound g₁.vertexCount g₂.vertexCount)) ∧ v₁.Roomy g₁ g₂ rows' := by
  have hj' := hfit i hi j hj
  have hext := hv.extend hi hj'.1 hj'.2
  have hpairs : (v.extend i j).pairs.length = v.pairs.length + 1 := by
    rw [View.extend, List.length_append, List.length_singleton]
  have hopen := hext.length_unpaired_le hg₁
  rw [hpairs] at hopen
  -- what is kept are candidates that are free beside `j`
  have hkept (iu : VertexId) (hiu : iu ∈ (v.extend i j).unpaired) (u : View) (F : List Step)
      (kept : List VertexId) (u' : View)
      (hrow : RowFilled (Matched g₁ g₂ i j iu) (rows iu) u F kept u') :
      kept.length ≤ g₂.vertexCount - (v.pairs.length + 1) := by
    rw [← hpairs]
    refine hext.length_free_le hg₂ (hrow.sublist.nodup (h.nodup iu)) fun ju hju => ?_
    obtain ⟨hsource, acts, hm⟩ := hrow.mem_kept hju
    obtain ⟨hc, hnot⟩ := hfit iu (List.mem_of_mem_erase hiu) ju hsource
    refine ⟨hc, ?_⟩
    simp only [View.extend, List.map_append, List.map_singleton, List.mem_append,
      List.mem_singleton, not_or]
    exact ⟨hnot, hm.ne⟩
  have hsource (iu : VertexId) (hiu : iu ∈ (v.extend i j).unpaired) :
      (rows iu).length ≤ g₂.vertexCount - (v.pairs.length + 1) + 1 := by
    have hle := hv.length_free_le hg₂ (h.nodup iu) (hfit iu (List.mem_of_mem_erase hiu))
    omega
  have hroom : v.arena.size + (v.extend i j).unpaired.length *
      (g₂.vertexCount - (v.pairs.length + 1)) ≤
        slotsWith g₁.vertexCount g₂.vertexCount (v.pairs.length + 1) := by
    rw [slotsWith_succ]
    exact Nat.add_le_add h.size_le (Nat.mul_le_mul_right _ hopen)
  obtain ⟨hE, hm, hsize⟩ := hf.modest (fun _ _ => Matched.asksOnly _ _ _ _ _ _) hkept hsource
    h.marked (Nat.le_trans hroom (slotsWith_le _ _ _))
  refine ⟨hE, fun iu => (hf.sublist iu).nodup (h.nodup iu), ?_, hm⟩
  obtain ⟨b, rfl, -⟩ := hf.above.1
  show _ ≤ slotsWith _ _ (v.extend i j).pairs.length
  rw [hpairs]
  exact Nat.le_trans hsize hroom

/-- From a level with room, a search stays within the bound. -/
theorem Explored.modest {t : Task} (h : Explored g₁ g₂ c t v E v') (hg₁ : g₁.WellFormed)
    (hg₂ : g₂.WellFormed) (hv : v.Sound g₁ g₂) (ht : t.Fits g₂ v) (hr : v.Roomy g₁ g₂ t.rows) :
    (∀ st ∈ E, st.Modest (slotBound g₁.vertexCount g₂.vertexCount)) ∧
      v'.arena.Marked (slotBound g₁.vertexCount g₂.vertexCount) := by
  -- the parts put back the slots they used, so each begins with the room of its level
  induction h with
  | reject =>
    exact ⟨List.forall_mem_singleton.mpr (hr.marked.modest rfl), hr.marked⟩
  | @deliver rows level v =>
    have hdelivered : (v.delivered c).arena.Marked _ := hr.marked
    exact ⟨List.forall_mem_cons.mpr ⟨hr.marked.modest rfl,
      List.forall_mem_singleton.mpr (hdelivered.modest rfl)⟩, hdelivered⟩
  | exact _ hi _ _ ih =>
    obtain ⟨hE, hv'⟩ := ih hv (ht.tries hi) hr
    exact ⟨List.forall_mem_cons.mpr ⟨hr.marked.modest rfl, hE⟩, hv'⟩
  | @common rows _ _ _ _ v₁ _ _ _ hi _ tries _ ih₁ ih₂ =>
    have htries := ht.tries hi
    obtain ⟨hE₁, hm₁⟩ := ih₁ hv htries hr
    have hrest := (tries.restores hv htries).1
    have hr₁ : v₁.Roomy g₁ g₂ rows := View.Roomy.restores hr hrest hm₁
    obtain ⟨hv₁, ht₁⟩ := htries.without hv hrest
    obtain ⟨hE₂, hm₂⟩ := ih₂ hv₁ ht₁ ⟨hr₁.nodup, hr₁.size_le, hr₁.marked⟩
    exact ⟨List.forall_mem_cons.mpr ⟨hr.marked.modest rfl, List.forall_mem_append.mpr ⟨hE₁, hE₂⟩⟩,
      hm₂⟩
  | done => exact ⟨List.forall_mem_nil _, hr.marked⟩
  | @next rows level i j js v E₁ rows' v₁ E₂ v₂ E₃ v₃ refined deeper _ ih₂ ih₃ =>
    obtain ⟨hfit, hmem, hjs⟩ := id ht
    have hr : v.Roomy g₁ g₂ rows := hr
    obtain ⟨hE₁, hr₁⟩ := hr.refined hg₁ hg₂ hv hfit hmem (hjs j List.mem_cons_self) refined
    obtain ⟨hv₁, ht₁⟩ := ht.deeper hv refined
    obtain ⟨hE₂, hm₂⟩ := ih₂ hv₁ ht₁ hr₁
    have hrest := View.Restores.retract refined.above.1 (deeper.restores hv₁ ht₁).1 hmem
    have hr₂ : ((v₂.rewind v.arena.size).retract i).Roomy g₁ g₂ rows :=
      hr.restores hrest (hm₂.truncate v.arena.size)
    obtain ⟨hv₂, ht₂⟩ := ht.rest hv hrest
    obtain ⟨hE₃, hm₃⟩ := ih₃ hv₂ ht₂ hr₂
    exact ⟨List.forall_mem_append.mpr ⟨List.forall_mem_append.mpr ⟨hE₁, hE₂⟩, hE₃⟩, hm₃⟩

/-- A search in an empty arena stays within the bound. -/
theorem Searched.modest (h : Searched g₁ g₂ c a E v') (hg₁ : g₁.WellFormed) (hg₂ : g₂.WellFormed)
    (hsize : a.size = 0) (ha : a.highWater = 0) :
    (∀ st ∈ E, st.Modest (slotBound g₁.vertexCount g₂.vertexCount)) ∧
      v'.arena.Marked (slotBound g₁.vertexCount g₂.vertexCount) := by
  obtain @⟨E₀, rows, v₁, E₁, _, hfilled, hexp⟩ := h
  have hv := View.sound_initial hg₁ g₂ c a
  have habove := hfilled.above.1
  have hids := Graph.nodup_vertexIds hg₂
  have hmarked : a.Marked (slotBound g₁.vertexCount g₂.vertexCount) :=
    ⟨hsize ▸ Nat.zero_le _, ha ▸ Nat.zero_le _⟩
  -- all rows of the initial map fit into what is allowed with nothing paired
  have hroom : a.size + g₁.vertexIds.length * g₂.vertexCount =
      slotsWith g₁.vertexCount g₂.vertexCount 0 := by
    rw [hsize, Nat.zero_add, g₁.length_vertexIds, slotsWith_zero]
  obtain ⟨hE₀, hm₁, hsize₁⟩ := hfilled.modest (b := g₂.vertexCount)
    (fun _ _ => Suited.asksOnly _ _ _ _)
    (fun _ _ _ _ _ _ hrow => hrow.sublist.length_le.trans (Nat.le_of_eq g₂.length_vertexIds))
    (fun _ _ => Nat.le_succ_of_le (Nat.le_of_eq g₂.length_vertexIds)) hmarked
    (Nat.le_trans (Nat.le_of_eq hroom) (slotsWith_le _ _ _))
  have hr₁ : v₁.Roomy g₁ g₂ rows := by
    refine ⟨fun i => (hfilled.sublist i).nodup hids, ?_, hm₁⟩
    obtain ⟨b, rfl, -⟩ := habove
    exact Nat.le_trans hsize₁ (Nat.le_of_eq hroom)
  obtain ⟨hE₁, hm⟩ := hexp.modest hg₁ hg₂ (hv.above habove) (View.Fits.initial hg₂ hfilled) hr₁
  exact ⟨List.forall_mem_append.mpr ⟨hE₀, hE₁⟩, hm⟩

end Levels

end CommonSubgraph
