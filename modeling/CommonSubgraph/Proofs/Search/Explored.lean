import CommonSubgraph.Proofs.Graph.Vertices
import CommonSubgraph.Proofs.Search.Rows
import CommonSubgraph.Proofs.Search.Script

/-!
# The search without tables

Which scripts a search can have, as an inductive relation on views. A candidate map is the function
that gives the rows (`Rows`): filling one tries every candidate of a source row in turn
(`RowFilled`, `RowsFilled`), and `Explored` has one rule for each way a level can go and for each
candidate that is tried. The answers to the questions are whatever the caller gave.

A level leaves behind what it found (`Explored.restores`): the same pairs, the same vertices
unpaired and considered though in another order, and the same slots in the arena. Every step on
the way has the slots of the level below its own.
-/

namespace CommonSubgraph

variable {ν ε : Type}

/-! ## Sizes -/

namespace Config

/-- The fewest pairs a solution has to have when `m` is the smallest size in force and the first
graph has `n` vertices. -/
def needed (c : Config) (n m : Nat) : Nat := if c.common then m else n

/-- A solution of `size` pairs is acceptable. -/
def Accepts (c : Config) (n m size : Nat) : Prop :=
  if c.common then m ≤ size ∧ size ≤ c.maximum else size = n

/-- The smallest size in force after a solution of `size` pairs. -/
def raised (c : Config) (m size : Nat) : Nat := if c.monotonic then size else m

variable {c : Config} {n m m' size : Nat}

/-- In common mode a size is acceptable between the two bounds. -/
theorem accepts_iff_of_common (hc : c.common = true) :
    c.Accepts n m size ↔ m ≤ size ∧ size ≤ c.maximum := by
  rw [Accepts, if_pos hc]

/-- In exact mode only the size of the first graph is acceptable. -/
theorem accepts_iff_of_exact (hc : c.common = false) : c.Accepts n m size ↔ size = n := by
  rw [Accepts, if_neg (by simp [hc])]

/-- With a lower bound in common mode, what was acceptable stays so. -/
theorem Accepts.mono (h : c.Accepts n m' size) (hm : c.common = true → m ≤ m') :
    c.Accepts n m size := by
  cases hc : c.common with
  | false => exact (accepts_iff_of_exact hc).mpr ((accepts_iff_of_exact hc).mp h)
  | true =>
    obtain ⟨hmin, hmax⟩ := (accepts_iff_of_common hc).mp h
    exact (accepts_iff_of_common hc).mpr ⟨Nat.le_trans (hm hc) hmin, hmax⟩

/-- An acceptable size is at least the one that is needed. -/
theorem Accepts.needed_le (h : c.Accepts n m size) : c.needed n m ≤ size := by
  rw [needed]
  cases hc : c.common with
  | false => exact Nat.le_of_eq ((accepts_iff_of_exact hc).mp h).symm
  | true => exact ((accepts_iff_of_common hc).mp h).1

/-- In common mode a delivery never lowers the smallest size in force. -/
theorem Accepts.le_raised (h : c.Accepts n m size) (hc : c.common = true) :
    m ≤ c.raised m size := by
  rw [raised]
  split
  · exact ((accepts_iff_of_common hc).mp h).1
  · exact Nat.le_refl m

end Config

/-! ## What a search does to a view -/

namespace View

/-- Put a candidate into the arena. -/
def push (v : View) (j : VertexId) : View := { v with arena := v.arena.push j }

/-- Pair `i` with `j`. -/
def extend (v : View) (i j : VertexId) : View :=
  { v with pairs := v.pairs ++ [(i, j)], unpaired := v.unpaired.erase i }

/-- Take the newest pair back, which is one of `i`. -/
def retract (v : View) (i : VertexId) : View :=
  { v with pairs := v.pairs.dropLast, unpaired := v.unpaired ++ [i] }

/-- Leave `i` out. -/
def leaveOut (v : View) (i : VertexId) : View :=
  { v with considered := v.considered.erase i, unpaired := v.unpaired.erase i }

/-- Consider `i` again. -/
def takeBack (v : View) (i : VertexId) : View :=
  { v with considered := v.considered ++ [i], unpaired := v.unpaired ++ [i] }

/-- Count the pairs as a solution. -/
def delivered (v : View) (c : Config) : View :=
  { v with
    minimum := c.raised v.minimum v.pairs.length
    found := v.found + 1 }

/-- The unpaired vertices that have a candidate. -/
def openVertices (v : View) (rows : Rows) : List VertexId :=
  v.unpaired.filter fun i => 0 < (rows i).length

/-- The unpaired vertex to go on with. -/
def pick (v : View) (rows : Rows) : Option VertexId :=
  firstSmallest (fun i => (rows i).length) (v.openVertices rows)

/-- The pairs can still grow to an acceptable size. -/
def Feasible (v : View) (g₁ : Graph ν ε) (c : Config) (rows : Rows) : Prop :=
  (c.common = true → v.pairs.length < c.maximum) ∧ v.openVertices rows ≠ [] ∧
    c.needed g₁.vertexCount v.minimum ≤ v.pairs.length + (v.openVertices rows).length

/-- The pairs are as many as a solution may have. -/
def Acceptable (v : View) (g₁ : Graph ν ε) (c : Config) : Prop :=
  c.Accepts g₁.vertexCount v.minimum v.pairs.length

end View

/-! ## Filling candidate maps -/

/-- Candidates tried one after the other: those that pass their trial go into the arena. -/
inductive RowFilled (trial : VertexId → List Act → Bool → Prop) :
    List VertexId → View → List Step → List VertexId → View → Prop where
  | nil {v} : RowFilled trial [] v [] [] v
  | drop {j js v acts E kept v'} (tried : trial j acts false)
    (rest : RowFilled trial js v E kept v') :
    RowFilled trial (j :: js) v (acts.map (Step.mk v) ++ E) kept v'
  | keep {j js v acts E kept v'} (tried : trial j acts true)
    (rest : RowFilled trial js (v.push j) E kept v') :
    RowFilled trial (j :: js) v (acts.map (Step.mk v) ++ E) (j :: kept) v'

/-- The rows of several vertices filled one after the other, each from its source row. -/
inductive RowsFilled (trial : VertexId → VertexId → List Act → Bool → Prop) (source : Rows) :
    List VertexId → View → List Step → Rows → View → Prop where
  | nil {v} : RowsFilled trial source [] v [] (fun _ => []) v
  | cons {i is v E₁ kept v₁ E₂ rows v₂} (row : RowFilled (trial i) (source i) v E₁ kept v₁)
    (rest : RowsFilled trial source is v₁ E₂ rows v₂) :
    RowsFilled trial source (i :: is) v (⟨v, .reserve (source i).length⟩ :: (E₁ ++ E₂))
      (Function.update rows i kept) v₂

/-- Can `i` be paired with `j` as far as the two and their self-loops go? -/
inductive Suited (g₁ g₂ : Graph ν ε) (i j : VertexId) : List Act → Bool → Prop where
  | loops (h : (g₁.joining i i).length ≠ (g₂.joining j j).length) : Suited g₁ g₂ i j [] false
  | refused (h : (g₁.joining i i).length = (g₂.joining j j).length) :
    Suited g₁ g₂ i j [.vertices i j false] false
  | compared (h : (g₁.joining i i).length = (g₂.joining j j).length) (b : Bool) :
    Suited g₁ g₂ i j
      [.vertices i j true, .edges i i (g₁.joining i i) j j (g₂.joining j j) b] b

/-- With `i` and `j` paired, can `iu` be paired with `ju`? -/
inductive Matched (g₁ g₂ : Graph ν ε) (i j iu ju : VertexId) : List Act → Bool → Prop where
  | taken (h : ju = j) : Matched g₁ g₂ i j iu ju [] false
  | there (h : (g₁.joining i iu).length ≠ (g₂.joining j ju).length) :
    Matched g₁ g₂ i j iu ju [] false
  | back (h : (g₁.joining i iu).length = (g₂.joining j ju).length)
    (h' : (g₁.joining iu i).length ≠ (g₂.joining ju j).length) : Matched g₁ g₂ i j iu ju [] false
  | apart (hne : ju ≠ j) (h : (g₁.joining i iu).length = (g₂.joining j ju).length)
    (h' : (g₁.joining iu i).length = (g₂.joining ju j).length)
    (hnil : g₁.joining i iu ++ g₁.joining iu i = []) : Matched g₁ g₂ i j iu ju [] true
  | compared (hne : ju ≠ j) (h : (g₁.joining i iu).length = (g₂.joining j ju).length)
    (h' : (g₁.joining iu i).length = (g₂.joining ju j).length)
    (hnil : g₁.joining i iu ++ g₁.joining iu i ≠ []) (b : Bool) :
    Matched g₁ g₂ i j iu ju
      [.edges i iu (g₁.joining i iu ++ g₁.joining iu i) j ju
        (g₂.joining j ju ++ g₂.joining ju j) b] b

/-! ## Levels -/

/-- What is explored: a level, or the candidates `js` of `i` on a level. -/
inductive Task where
  | level (rows : Rows) (level : Nat)
  | tries (rows : Rows) (level : Nat) (i : VertexId) (js : List VertexId)

/-- Exploring the task from the first view has the script and ends in the second view. -/
inductive Explored (g₁ g₂ : Graph ν ε) (c : Config) : Task → View → List Step → View → Prop where
  /-- Nothing more can come of a level, and its pairs are no solution. -/
  | reject {rows level v} (hf : ¬ v.Feasible g₁ c rows) (ha : ¬ v.Acceptable g₁ c) :
    Explored g₁ g₂ c (.level rows level) v [⟨v, .progress level⟩] v
  /-- Nothing more can come of a level, and its pairs are a solution. -/
  | deliver {rows level v} (hf : ¬ v.Feasible g₁ c rows) (ha : v.Acceptable g₁ c) :
    Explored g₁ g₂ c (.level rows level) v
      [⟨v, .progress level⟩,
        ⟨v.delivered c, .solution (v.pairs.map Prod.fst) (v.pairs.map Prod.snd)⟩]
      (v.delivered c)
  /-- The picked vertex has to be paired. -/
  | exact {rows level v i E v'} (hf : v.Feasible g₁ c rows) (hi : v.pick rows = some i)
    (hc : c.common = false) (tries : Explored g₁ g₂ c (.tries rows level i (rows i)) v E v') :
    Explored g₁ g₂ c (.level rows level) v (⟨v, .progress level⟩ :: E) v'
  /-- The picked vertex is paired or left out. -/
  | common {rows level v i E₁ v₁ E₂ v₂} (hf : v.Feasible g₁ c rows) (hi : v.pick rows = some i)
    (hc : c.common = true) (tries : Explored g₁ g₂ c (.tries rows level i (rows i)) v E₁ v₁)
    (without : Explored g₁ g₂ c (.level rows (level + 1)) (v₁.leaveOut i) E₂ v₂) :
    Explored g₁ g₂ c (.level rows level) v (⟨v, .progress level⟩ :: (E₁ ++ E₂)) (v₂.takeBack i)
  /-- No candidate is left. -/
  | done {rows level i v} : Explored g₁ g₂ c (.tries rows level i []) v [] v
  /-- The next candidate is tried one level deeper. -/
  | next {rows level i j js v E₁ rows' v₁ E₂ v₂ E₃ v₃}
    (refined : RowsFilled (Matched g₁ g₂ i j) rows (v.extend i j).unpaired (v.extend i j) E₁
      rows' v₁)
    (deeper : Explored g₁ g₂ c (.level rows' (level + 1)) v₁ E₂ v₂)
    (rest : Explored g₁ g₂ c (.tries rows level i js) ((v₂.rewind v.arena.size).retract i) E₃ v₃) :
    Explored g₁ g₂ c (.tries rows level i (j :: js)) v (E₁ ++ E₂ ++ E₃) v₃

/-- The state in which a search begins, with nothing in it that depends on earlier runs. -/
def View.initial (g₁ : Graph ν ε) (c : Config) (a : Arena VertexId) : View where
  pairs := []
  considered := g₁.vertexIds
  unpaired := g₁.vertexIds
  minimum := c.minimum
  found := 0
  arena := a

/-- Searching from nothing paired, above what is in the arena `a`, has the script and ends in the
view. -/
inductive Searched (g₁ g₂ : Graph ν ε) (c : Config) (a : Arena VertexId) :
    List Step → View → Prop where
  | intro {E₀ rows v₁ E₁ v₂}
    (filled : RowsFilled (Suited g₁ g₂) (fun _ => g₂.vertexIds) g₁.vertexIds (.initial g₁ c a) E₀
      rows v₁)
    (explored : Explored g₁ g₂ c (.level rows 0) v₁ E₁ v₂) : Searched g₁ g₂ c a (E₀ ++ E₁) v₂

/-! ## What filling changes -/

/-- The second view is the first with a grown arena. -/
def View.Above (v u : View) : Prop := ∃ b, u = { v with arena := b } ∧ v.arena.Grown b

namespace View.Above

variable {u v t : View}

theorem refl (v : View) : v.Above v := ⟨v.arena, rfl, .refl v.arena⟩

/-- An arena that grows twice has grown. -/
theorem trans (h : t.Above u) (h' : u.Above v) : t.Above v := by
  obtain ⟨b, rfl, hb⟩ := h
  obtain ⟨c, rfl, hc⟩ := h'
  exact ⟨c, rfl, hb.trans hc⟩

/-- A candidate that is pushed lets the arena grow. -/
theorem push (v : View) (j : VertexId) : v.Above (v.push j) :=
  ⟨v.arena.push j, rfl, .push v.arena j⟩

/-- Only the arena grows. -/
theorem grown (h : v.Above u) : v.arena.Grown u.arena := by
  obtain ⟨b, rfl, hb⟩ := h
  exact hb

end View.Above

section Filling

variable {trial : VertexId → List Act → Bool → Prop} {v v' : View} {E : List Step}
variable {js kept : List VertexId}

/-- Filling a row only lets the arena grow. -/
theorem RowFilled.above (h : RowFilled trial js v E kept v') :
    v.Above v' ∧ ∀ st ∈ E, v.Above st.view := by
  -- the questions of a trial are asked before its candidate is put into the arena
  have asked (v : View) (acts : List Act) : ∀ st ∈ acts.map (Step.mk v), v.Above st.view :=
    List.forall_mem_map.mpr fun _ _ => .refl v
  induction h with
  | nil => exact ⟨.refl _, List.forall_mem_nil _⟩
  | drop _ _ ih => exact ⟨ih.1, List.forall_mem_append.mpr ⟨asked _ _, ih.2⟩⟩
  | @keep j js v acts E kept v' _ _ ih =>
    have hp := View.Above.push v j
    refine ⟨hp.trans ih.1, List.forall_mem_append.mpr ⟨asked v acts, fun st hst => ?_⟩⟩
    exact hp.trans (ih.2 st hst)

/-- A candidate that is kept was one of the row and has passed its trial. -/
theorem RowFilled.mem_kept (h : RowFilled trial js v E kept v') {j : VertexId} (hj : j ∈ kept) :
    j ∈ js ∧ ∃ acts, trial j acts true := by
  induction h with
  | nil => cases hj
  | drop _ _ ih => exact ⟨List.mem_cons_of_mem _ (ih hj).1, (ih hj).2⟩
  | keep tried _ ih =>
    rcases List.mem_cons.mp hj with rfl | hj
    · exact ⟨List.mem_cons_self, _, tried⟩
    · exact ⟨List.mem_cons_of_mem _ (ih hj).1, (ih hj).2⟩

variable {trial : VertexId → VertexId → List Act → Bool → Prop} {source rows : Rows}
variable {is : List VertexId}

/-- Filling several rows only lets the arena grow. -/
theorem RowsFilled.above (h : RowsFilled trial source is v E rows v') :
    v.Above v' ∧ ∀ st ∈ E, v.Above st.view := by
  induction h with
  | nil => exact ⟨.refl _, List.forall_mem_nil _⟩
  | @cons i is v E₁ kept v₁ E₂ rows v₂ row _ ih =>
    obtain ⟨hv, hE⟩ := row.above
    refine ⟨hv.trans ih.1, List.forall_mem_cons.mpr ⟨.refl v, ?_⟩⟩
    exact List.forall_mem_append.mpr ⟨hE, fun st hst => hv.trans (ih.2 st hst)⟩

/-- A row holds candidates of its source that passed their trials, and other rows stay empty. -/
theorem RowsFilled.mem_rows (h : RowsFilled trial source is v E rows v') {i j : VertexId}
    (hj : j ∈ rows i) : i ∈ is ∧ j ∈ source i ∧ ∃ acts, trial i j acts true := by
  induction h with
  | nil => cases hj
  | @cons k is v E₁ kept v₁ E₂ rows v₂ row _ ih =>
    by_cases hk : i = k
    · subst hk
      rw [Function.update_self] at hj
      exact ⟨List.mem_cons_self, row.mem_kept hj⟩
    · rw [Function.update_of_ne hk] at hj
      exact ⟨List.mem_cons_of_mem k (ih hj).1, (ih hj).2⟩

end Filling

/-- A candidate that is accepted is not the one that was just paired. -/
theorem Matched.ne {g₁ g₂ : Graph ν ε} {i j iu ju : VertexId} {acts : List Act}
    (h : Matched g₁ g₂ i j iu ju acts true) : ju ≠ j := by
  cases h with
  | apart hne => exact hne
  | compared hne => exact hne

/-! ## Sound views -/

/-- No vertex is named twice, the unpaired vertices are those considered and not paired, and all
vertices are in their graphs. -/
structure View.Sound (g₁ g₂ : Graph ν ε) (v : View) : Prop where
  nodup_considered : v.considered.Nodup
  nodup_unpaired : v.unpaired.Nodup
  nodup_first : (v.pairs.map Prod.fst).Nodup
  nodup_second : (v.pairs.map Prod.snd).Nodup
  mem_considered_iff : ∀ i, i ∈ v.considered ↔ i ∈ v.unpaired ∨ i ∈ v.pairs.map Prod.fst
  not_paired : ∀ i ∈ v.unpaired, i ∉ v.pairs.map Prod.fst
  mem_first : ∀ i ∈ v.considered, g₁.containsVertex i = true
  mem_second : ∀ j ∈ v.pairs.map Prod.snd, g₂.containsVertex j = true

/-- The candidates of the unpaired vertices are free vertices of the second graph. -/
def View.Fits (v : View) (g₂ : Graph ν ε) (rows : Rows) : Prop :=
  ∀ i ∈ v.unpaired, ∀ j ∈ rows i, g₂.containsVertex j = true ∧ j ∉ v.pairs.map Prod.snd

/-- The view is the first one again, as far as a level puts things back. -/
structure View.Restores (c : Config) (v v' : View) : Prop where
  pairs_eq : v'.pairs = v.pairs
  unpaired_perm : v'.unpaired.Perm v.unpaired
  considered_perm : v'.considered.Perm v.considered
  slots_eq : v'.arena.slots = v.arena.slots
  limit_eq : v'.arena.limit = v.arena.limit
  minimum_eq : c.monotonic = false → v'.minimum = v.minimum
  minimum_le : c.common = true → v.minimum ≤ v'.minimum

section Keeping

variable {g₁ g₂ : Graph ν ε} {c : Config} {v v' v₁ v₂ u : View} {rows : Rows} {i j : VertexId}
variable {a : Arena VertexId}

/-- At the start nothing is paired, and all vertices are to be considered. -/
theorem View.sound_initial (hg₁ : g₁.WellFormed) (g₂ : Graph ν ε) (c : Config)
    (a : Arena VertexId) :
    (View.initial g₁ c a).Sound g₁ g₂ where
  nodup_considered := Graph.nodup_vertexIds hg₁
  nodup_unpaired := Graph.nodup_vertexIds hg₁
  nodup_first := .nil
  nodup_second := .nil
  mem_considered_iff _ := ⟨.inl, fun h => h.resolve_right List.not_mem_nil⟩
  not_paired _ _ := List.not_mem_nil
  mem_first _ hi := (Graph.mem_vertexIds_iff hg₁).mp hi
  mem_second _ hj := absurd hj List.not_mem_nil

/-- A view stays sound while the arena grows. -/
theorem View.Sound.above (hv : v.Sound g₁ g₂) (h : v.Above u) : u.Sound g₁ g₂ := by
  obtain ⟨b, rfl, -⟩ := h
  exact ⟨hv.nodup_considered, hv.nodup_unpaired, hv.nodup_first, hv.nodup_second,
    hv.mem_considered_iff, hv.not_paired, hv.mem_first, hv.mem_second⟩

/-- An unpaired vertex is considered. -/
theorem View.Sound.mem_considered (hv : v.Sound g₁ g₂) (hi : i ∈ v.unpaired) : i ∈ v.considered :=
  (hv.mem_considered_iff i).mpr (.inl hi)

/-- An unpaired vertex is one of the first graph. -/
theorem View.Sound.mem_first_of_unpaired (hv : v.Sound g₁ g₂) (hi : i ∈ v.unpaired) :
    g₁.containsVertex i = true :=
  hv.mem_first i (hv.mem_considered hi)

/-- A view stays sound if an unpaired vertex is paired with a free one. -/
theorem View.Sound.extend (hv : v.Sound g₁ g₂) (hi : i ∈ v.unpaired)
    (hj : g₂.containsVertex j = true) (hjp : j ∉ v.pairs.map Prod.snd) :
    (v.extend i j).Sound g₁ g₂ where
  nodup_considered := hv.nodup_considered
  nodup_unpaired := hv.nodup_unpaired.erase i
  nodup_first := by
    -- the new pair is the last; its vertices stand in none of the pairs before
    have hip := hv.not_paired i hi
    rw [View.extend, List.map_append, List.map_singleton, List.nodup_append_comm]
    exact List.nodup_cons.mpr ⟨hip, hv.nodup_first⟩
  nodup_second := by
    rw [View.extend, List.map_append, List.map_singleton, List.nodup_append_comm]
    exact List.nodup_cons.mpr ⟨hjp, hv.nodup_second⟩
  mem_considered_iff k := by
    have hk := hv.mem_considered_iff k
    simp only [View.extend, List.map_append, List.map_singleton, List.mem_append,
      List.mem_singleton, hv.nodup_unpaired.mem_erase_iff]
    by_cases hki : k = i
    · subst hki
      simp [hk, hi]
    · simp [hk, hki]
  not_paired k hk := by
    obtain ⟨hki, hk⟩ := hv.nodup_unpaired.mem_erase_iff.mp hk
    have hkp := hv.not_paired k hk
    simp only [View.extend, List.map_append, List.map_singleton, List.mem_append,
      List.mem_singleton, not_or]
    exact ⟨hkp, hki⟩
  mem_first := hv.mem_first
  mem_second k hk := by
    simp only [View.extend, List.map_append, List.map_singleton, List.mem_append,
      List.mem_singleton] at hk
    rcases hk with hk | rfl
    · exact hv.mem_second k hk
    · exact hj

/-- A view stays sound if an unpaired vertex is left out. -/
theorem View.Sound.leaveOut (hv : v.Sound g₁ g₂) (hi : i ∈ v.unpaired) :
    (v.leaveOut i).Sound g₁ g₂ where
  nodup_considered := hv.nodup_considered.erase i
  nodup_unpaired := hv.nodup_unpaired.erase i
  nodup_first := hv.nodup_first
  nodup_second := hv.nodup_second
  mem_considered_iff k := by
    have hk := hv.mem_considered_iff k
    have hip := hv.not_paired i hi
    simp only [View.leaveOut, hv.nodup_considered.mem_erase_iff,
      hv.nodup_unpaired.mem_erase_iff, hk]
    by_cases hki : k = i
    · subst hki
      simp [hip]
    · simp [hki]
  not_paired k hk := hv.not_paired k (List.mem_of_mem_erase hk)
  mem_first k hk := hv.mem_first k (List.mem_of_mem_erase hk)
  mem_second := hv.mem_second

/-- A view is sound again if everything was put back. -/
theorem View.Sound.restores (hv : v.Sound g₁ g₂) (h : v.Restores c v') : v'.Sound g₁ g₂ where
  nodup_considered := h.considered_perm.nodup_iff.mpr hv.nodup_considered
  nodup_unpaired := h.unpaired_perm.nodup_iff.mpr hv.nodup_unpaired
  nodup_first := h.pairs_eq ▸ hv.nodup_first
  nodup_second := h.pairs_eq ▸ hv.nodup_second
  mem_considered_iff k := by
    rw [h.considered_perm.mem_iff, h.unpaired_perm.mem_iff, h.pairs_eq]
    exact hv.mem_considered_iff k
  not_paired k hk := h.pairs_eq ▸ hv.not_paired k (h.unpaired_perm.mem_iff.mp hk)
  mem_first k hk := hv.mem_first k (h.considered_perm.mem_iff.mp hk)
  mem_second := h.pairs_eq ▸ hv.mem_second

/-- Candidates fit again if everything was put back. -/
theorem View.Fits.restores (hf : v.Fits g₂ rows) (h : v.Restores c v') : v'.Fits g₂ rows := by
  intro i hi j hj
  rw [h.pairs_eq]
  exact hf i (h.unpaired_perm.mem_iff.mp hi) j hj

/-- Leaving a vertex out leaves the candidates of the others. -/
theorem View.Fits.leaveOut (hf : v.Fits g₂ rows) (i : VertexId) : (v.leaveOut i).Fits g₂ rows :=
  fun k hk => hf k (List.mem_of_mem_erase hk)

/-- Refined rows leave the new partner out. -/
theorem View.Fits.refined {E : List Step} {rows' : Rows} (hf : v.Fits g₂ rows)
    (h : RowsFilled (Matched g₁ g₂ i j) rows (v.extend i j).unpaired (v.extend i j) E rows' v₁) :
    v₁.Fits g₂ rows' := by
  obtain ⟨b, rfl, -⟩ := h.above.1
  intro iu hiu ju hju
  obtain ⟨-, hsource, acts, hm⟩ := h.mem_rows hju
  obtain ⟨hc, hnot⟩ := hf iu (List.mem_of_mem_erase hiu) ju hsource
  refine ⟨hc, ?_⟩
  simp only [View.extend, List.map_append, List.map_singleton, List.mem_append, List.mem_singleton,
    not_or]
  exact ⟨hnot, hm.ne⟩

/-- Initial rows have vertices of the second graph only, and none of them is paired yet. -/
theorem View.Fits.initial {E : List Step} (hg₂ : g₂.WellFormed)
    (h : RowsFilled (Suited g₁ g₂) (fun _ => g₂.vertexIds) g₁.vertexIds (.initial g₁ c a) E rows
      v₁) : v₁.Fits g₂ rows := by
  obtain ⟨b, rfl, -⟩ := h.above.1
  intro i _ j hj
  exact ⟨(Graph.mem_vertexIds_iff hg₂).mp (h.mem_rows hj).2.1, List.not_mem_nil⟩

namespace View.Restores

theorem refl (c : Config) (v : View) : v.Restores c v :=
  ⟨rfl, .refl _, .refl _, rfl, rfl, fun _ => rfl, fun _ => Nat.le_refl _⟩

/-- What is put back twice is put back. -/
theorem trans (h : v.Restores c v₁) (h' : v₁.Restores c v₂) : v.Restores c v₂ where
  pairs_eq := h'.pairs_eq.trans h.pairs_eq
  unpaired_perm := h'.unpaired_perm.trans h.unpaired_perm
  considered_perm := h'.considered_perm.trans h.considered_perm
  slots_eq := h'.slots_eq.trans h.slots_eq
  limit_eq := h'.limit_eq.trans h.limit_eq
  minimum_eq hc := (h'.minimum_eq hc).trans (h.minimum_eq hc)
  minimum_le hc := Nat.le_trans (h.minimum_le hc) (h'.minimum_le hc)

/-- As far as the arena goes, putting back lets it grow by nothing. -/
theorem grown (h : v.Restores c v') : v.arena.Grown v'.arena :=
  ⟨h.slots_eq ▸ List.prefix_refl _, h.limit_eq⟩

/-- As many slots are in use as before. -/
theorem size_eq (h : v.Restores c v') : v'.arena.size = v.arena.size :=
  congrArg Array.size h.slots_eq

/-- A delivery changes nothing but the count of solutions and the smallest size. -/
theorem delivered (ha : v.Acceptable g₁ c) : v.Restores c (v.delivered c) where
  pairs_eq := rfl
  unpaired_perm := .refl _
  considered_perm := .refl _
  slots_eq := rfl
  limit_eq := rfl
  minimum_eq hc := by simp [View.delivered, Config.raised, hc]
  minimum_le hc := Config.Accepts.le_raised ha hc

/-- A vertex left out is the last one again after it was taken back. -/
theorem takeBack (h : (v.leaveOut i).Restores c v') (hi : i ∈ v.unpaired)
    (hic : i ∈ v.considered) : v.Restores c (v'.takeBack i) where
  pairs_eq := h.pairs_eq
  unpaired_perm :=
    (h.unpaired_perm.append_right [i]).trans
      ((List.perm_append_singleton i _).trans (List.perm_cons_erase hi).symm)
  considered_perm :=
    (h.considered_perm.append_right [i]).trans
      ((List.perm_append_singleton i _).trans (List.perm_cons_erase hic).symm)
  slots_eq := h.slots_eq
  limit_eq := h.limit_eq
  minimum_eq := h.minimum_eq
  minimum_le := h.minimum_le

/-- A pair taken back leaves its vertex the last of the unpaired ones. -/
theorem retract (ha : (v.extend i j).Above v₁) (h : v₁.Restores c v₂) (hi : i ∈ v.unpaired) :
    v.Restores c ((v₂.rewind v.arena.size).retract i) := by
  obtain ⟨b, rfl, hb⟩ := ha
  have hg : v.arena.Grown v₂.arena := Arena.Grown.trans hb h.grown
  constructor
  · show v₂.pairs.dropLast = v.pairs
    rw [h.pairs_eq]
    exact List.dropLast_concat
  · exact (h.unpaired_perm.append_right [i]).trans
      ((List.perm_append_singleton i _).trans (List.perm_cons_erase hi).symm)
  · exact h.considered_perm
  · exact hg.slots_truncate
  · exact hg.limit_eq
  · exact h.minimum_eq
  · exact h.minimum_le

end View.Restores

/-! ## A level puts things back -/

/-- The first smallest is one of the list. -/
theorem mem_of_firstSmallest {size : VertexId → Nat} {l : List VertexId}
    (h : firstSmallest size l = some i) : i ∈ l := by
  induction l with
  | nil => cases h
  | cons k rest ih =>
    rw [firstSmallest] at h
    split at h
    · exact Option.some.inj h ▸ List.mem_cons_self
    · next k' hk' =>
      split at h
      · obtain rfl := Option.some.inj h
        exact List.mem_cons_of_mem k (ih hk')
      · exact Option.some.inj h ▸ List.mem_cons_self

/-- Only the empty list has no first smallest. -/
theorem eq_nil_of_firstSmallest {size : VertexId → Nat} {l : List VertexId}
    (h : firstSmallest size l = none) : l = [] := by
  cases l with
  | nil => rfl
  | cons k rest =>
    rw [firstSmallest] at h
    split at h
    · cases h
    · split at h <;> cases h

/-- If no vertex is picked, none is open. -/
theorem View.openVertices_eq_nil_of_pick (h : v.pick rows = none) : v.openVertices rows = [] :=
  eq_nil_of_firstSmallest h

/-- The vertex that is picked is unpaired and has a candidate. -/
theorem View.mem_of_pick (h : v.pick rows = some i) : i ∈ v.unpaired ∧ 0 < (rows i).length := by
  obtain ⟨hm, hp⟩ := List.mem_filter.mp (mem_of_firstSmallest h)
  exact ⟨hm, of_decide_eq_true hp⟩

/-- What is explored goes with the view it is explored from. -/
def Task.Fits (g₂ : Graph ν ε) (v : View) : Task → Prop
  | .level rows _ => v.Fits g₂ rows
  | .tries rows _ i js => v.Fits g₂ rows ∧ i ∈ v.unpaired ∧ ∀ j ∈ js, j ∈ rows i

namespace Task.Fits

variable {level : Nat} {js : List VertexId} {E : List Step}

/-- All candidates of the vertex that is picked can be tried. -/
theorem tries (ht : (Task.level rows level).Fits g₂ v) (hpick : v.pick rows = some i) :
    (Task.tries rows level i (rows i)).Fits g₂ v :=
  ⟨ht, (View.mem_of_pick hpick).1, fun _ hj => hj⟩

/-- Where the candidates are used up, the next level can be explored without the vertex. -/
theorem without (ht : (Task.tries rows level i js).Fits g₂ v) (hv : v.Sound g₁ g₂)
    (hr : v.Restores c v₁) :
    (v₁.leaveOut i).Sound g₁ g₂ ∧ (Task.level rows (level + 1)).Fits g₂ (v₁.leaveOut i) :=
  ⟨(hv.restores hr).leaveOut (hr.unpaired_perm.mem_iff.mpr ht.2.1), (ht.1.restores hr).leaveOut i⟩

/-- With the next candidate as the partner, the next level can be explored. -/
theorem deeper (ht : (Task.tries rows level i (j :: js)).Fits g₂ v) (hv : v.Sound g₁ g₂)
    (refined : RowsFilled (Matched g₁ g₂ i j) rows (v.extend i j).unpaired (v.extend i j) E rows'
      v₁) :
    v₁.Sound g₁ g₂ ∧ (Task.level rows' (level + 1)).Fits g₂ v₁ := by
  obtain ⟨hfit, hi, hjs⟩ := ht
  obtain ⟨hj, hjp⟩ := hfit i hi j (hjs j List.mem_cons_self)
  exact ⟨(hv.extend hi hj hjp).above refined.above.1, hfit.refined refined⟩

/-- Where the next level has put everything back, the other candidates can be tried. -/
theorem rest (ht : (Task.tries rows level i (j :: js)).Fits g₂ v) (hv : v.Sound g₁ g₂)
    (hr : v.Restores c v') : v'.Sound g₁ g₂ ∧ (Task.tries rows level i js).Fits g₂ v' :=
  ⟨hv.restores hr, ht.1.restores hr, hr.unpaired_perm.mem_iff.mpr ht.2.1,
    fun k hk => ht.2.2 k (List.mem_cons_of_mem j hk)⟩

end Task.Fits

/-- An exploration puts everything back that it changes, and never takes the arena below where it
began. -/
theorem Explored.restores {t : Task} {E : List Step} (h : Explored g₁ g₂ c t v E v')
    (hv : v.Sound g₁ g₂) (ht : t.Fits g₂ v) :
    v.Restores c v' ∧ ∀ st ∈ E, v.arena.Grown st.view.arena := by
  -- soundness and fit are handed down to each part, and what the parts put back is chained
  induction h with
  | reject => exact ⟨.refl c _, List.forall_mem_singleton.mpr (.refl _)⟩
  | deliver _ ha =>
    exact ⟨.delivered ha,
      List.forall_mem_cons.mpr ⟨.refl _, List.forall_mem_singleton.mpr (.refl _)⟩⟩
  | exact _ hi _ _ ih =>
    obtain ⟨hr, hE⟩ := ih hv (ht.tries hi)
    exact ⟨hr, List.forall_mem_cons.mpr ⟨.refl _, hE⟩⟩
  | common _ hi _ _ _ ih₁ ih₂ =>
    obtain ⟨hr₁, hE₁⟩ := ih₁ hv (ht.tries hi)
    obtain ⟨hv₁, ht₁⟩ := (ht.tries hi).without hv hr₁
    obtain ⟨hr₂, hE₂⟩ := ih₂ hv₁ ht₁
    have hmem := hr₁.unpaired_perm.mem_iff.mpr (View.mem_of_pick hi).1
    refine ⟨hr₁.trans (hr₂.takeBack hmem ((hv.restores hr₁).mem_considered hmem)), ?_⟩
    refine List.forall_mem_cons.mpr ⟨.refl _, List.forall_mem_append.mpr ⟨hE₁, fun st hst => ?_⟩⟩
    exact hr₁.grown.trans (hE₂ st hst)
  | done => exact ⟨.refl c _, List.forall_mem_nil _⟩
  | next refined _ _ ih₂ ih₃ =>
    obtain ⟨habove, hE₁⟩ := refined.above
    obtain ⟨hv₁, ht₁⟩ := ht.deeper hv refined
    obtain ⟨hr₂, hE₂⟩ := ih₂ hv₁ ht₁
    have hr := View.Restores.retract habove hr₂ ht.2.1
    obtain ⟨hv₂, ht₂⟩ := ht.rest hv hr
    obtain ⟨hr₃, hE₃⟩ := ih₃ hv₂ ht₂
    refine ⟨hr.trans hr₃, ?_⟩
    refine List.forall_mem_append.mpr ⟨List.forall_mem_append.mpr ⟨?_, ?_⟩, ?_⟩
    · exact fun st hst => (hE₁ st hst).grown
    · exact fun st hst => habove.grown.trans (hE₂ st hst)
    · exact fun st hst => hr.grown.trans (hE₃ st hst)

/-- Every step of a search has the slots of the arena it began with, and so does the end. -/
theorem Searched.grown {E : List Step} (h : Searched g₁ g₂ c a E v') (hg₁ : g₁.WellFormed)
    (hg₂ : g₂.WellFormed) : a.Grown v'.arena ∧ ∀ st ∈ E, a.Grown st.view.arena := by
  obtain ⟨hfilled, hexp⟩ := h
  obtain ⟨habove, hE₀⟩ := hfilled.above
  have hv₁ := (View.sound_initial hg₁ g₂ c a).above habove
  obtain ⟨hr, hE₁⟩ := hexp.restores hv₁ (View.Fits.initial hg₂ hfilled)
  refine ⟨habove.grown.trans hr.grown, List.forall_mem_append.mpr ⟨?_, ?_⟩⟩
  · exact fun st hst => (hE₀ st hst).grown
  · exact fun st hst => habove.grown.trans (hE₁ st hst)

end Keeping

end CommonSubgraph
