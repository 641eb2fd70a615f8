import CommonSubgraph.Graph.Cycle
import CommonSubgraph.Proofs.Graph.Incidence
import CommonSubgraph.Proofs.Graph.Vertices

/-!
# Depth-first search, told by lists

The order in which a search visits things is described here without marks and without a bound: the
vertices under way form the `path`, the finished ones are listed in the order in which they were
finished, and `Graph.Followed` has one rule for each way an edge can lead. The derivation of such a
statement is the search itself, so that there is one for every well-formed graph
(`WellFormed.exists_followed`, `WellFormed.exists_started`) says that the search ends.

The search with marks goes the same way (`Followed.exec`, `Started.exec`), whatever its
observer, up to the back edge at which the observer has seen enough.
-/

namespace CommonSubgraph

namespace Graph

variable {ν ε β : Type} {g : Graph ν ε} {path fin fin' : List VertexId} {v t r : VertexId}
  {e : EdgeId} {es met met' : List EdgeId} {roots : List VertexId}

/-! ## The order of the search -/

/-- Following the edges `es` in turn while the vertices `path` are under way: before, those of
`fin` are finished, and afterwards those of `fin'`, and `met` are the back edges met. -/
inductive Followed (g : Graph ν ε) :
    List VertexId → List EdgeId → List VertexId → List VertexId → List EdgeId → Prop
  | nil {path fin : List VertexId} : Followed g path [] fin fin []
  | back {path fin fin' : List VertexId} {es met : List EdgeId} {e : EdgeId} {t : VertexId}
      (ht : g.target? e = some t) (hp : t ∈ path) (rest : Followed g path es fin fin' met) :
      Followed g path (e :: es) fin fin' (e :: met)
  | known {path fin fin' : List VertexId} {es met : List EdgeId} {e : EdgeId} {t : VertexId}
      (ht : g.target? e = some t) (hf : t ∈ fin) (rest : Followed g path es fin fin' met) :
      Followed g path (e :: es) fin fin' met
  | descend {path fin mid fin' : List VertexId} {es met met' : List EdgeId} {e : EdgeId}
      {t : VertexId} (ht : g.target? e = some t) (hp : t ∉ path) (hf : t ∉ fin)
      (below : Followed g (t :: path) (g.outEdges t) fin mid met)
      (rest : Followed g path es (mid ++ [t]) fin' met') :
      Followed g path (e :: es) fin fin' (met ++ met')

/-- Searching from those of `roots` in turn that are not finished when their turn comes. -/
inductive Started (g : Graph ν ε) :
    List VertexId → List VertexId → List VertexId → List EdgeId → Prop
  | nil {fin : List VertexId} : Started g [] fin fin []
  | known {roots fin fin' : List VertexId} {met : List EdgeId} {r : VertexId} (hf : r ∈ fin)
      (rest : Started g roots fin fin' met) : Started g (r :: roots) fin fin' met
  | search {roots fin mid fin' : List VertexId} {met met' : List EdgeId} {r : VertexId}
      (hf : r ∉ fin) (below : Followed g [r] (g.outEdges r) fin mid met)
      (rest : Started g roots (mid ++ [r]) fin' met') :
      Started g (r :: roots) fin fin' (met ++ met')

/-- No vertex is listed twice, neither among those under way nor among the finished ones. -/
structure Stage (g : Graph ν ε) (path fin : List VertexId) : Prop where
  nodup : (path ++ fin).Nodup
  lt : ∀ v ∈ path ++ fin, v.index < g.vertexCount

namespace Stage

/-- At the start no vertex is under way and none is finished. -/
theorem nil (g : Graph ν ε) : g.Stage [] [] := ⟨List.nodup_nil, fun _ hv => nomatch hv⟩

/-- A vertex that was not reached before comes under way. -/
theorem push (h : g.Stage path fin) (ht : t.index < g.vertexCount) (hp : t ∉ path)
    (hf : t ∉ fin) : g.Stage (t :: path) fin where
  nodup := List.nodup_cons.mpr ⟨fun hm => (List.mem_append.mp hm).elim hp hf, h.nodup⟩
  lt v hv := by
    rcases List.mem_cons.mp hv with rfl | hv
    · exact ht
    · exact h.lt v hv

/-- The vertex on top of the path is finished. -/
theorem pop (h : g.Stage (t :: path) fin) : g.Stage path (fin ++ [t]) := by
  have hperm : (path ++ (fin ++ [t])).Perm (t :: path ++ fin) := by
    rw [← List.append_assoc]
    exact List.perm_append_singleton t (path ++ fin)
  exact ⟨hperm.nodup_iff.mpr h.nodup, fun v hv => h.lt v (hperm.mem_iff.mp hv)⟩

/-- A vertex under way is not finished. -/
theorem not_mem (h : g.Stage path fin) (hp : v ∈ path) : v ∉ fin :=
  fun hf => (List.nodup_append.mp h.nodup).2.2 v hp v hf rfl

/-- The vertices under way and the finished ones are no more than there are. -/
theorem length_le (h : g.Stage path fin) : path.length + fin.length ≤ g.vertexCount := by
  have hle : ((path ++ fin).map VertexId.index).length ≤ (List.range g.vertexCount).length := by
    refine List.Nodup.length_le_of_subset ?_ ?_
    · exact h.nodup.map fun _ _ hi => VertexId.index_inj.mp hi
    · intro k hk
      obtain ⟨v, hv, rfl⟩ := List.mem_map.mp hk
      exact List.mem_range.mpr (h.lt v hv)
  simpa using hle

end Stage

/-- Finished vertices stay finished while edges are followed. -/
theorem Followed.grows (h : g.Followed path es fin fin' met) : fin <+: fin' := by
  induction h with
  | nil => exact List.prefix_refl _
  | back _ _ _ ih => exact ih
  | known _ _ _ ih => exact ih
  | descend _ _ _ _ _ ih ih' => exact ih.trans ((List.prefix_append _ _).trans ih')

/-- An edge leads to the vertex that its entry names. -/
theorem target?_eq_some_iff :
    g.target? e = some t ↔ ∃ x, g.findEdge e = some x ∧ x.target = t :=
  Option.map_eq_some_iff

/-- An edge of a well-formed graph leads to a vertex. -/
theorem WellFormed.target?_lt (hg : g.WellFormed) (ht : g.target? e = some t) :
    t.index < g.vertexCount := by
  obtain ⟨x, hx, rfl⟩ := target?_eq_some_iff.mp ht
  exact hg.target_lt_of_findEdge hx

/-- Following edges leaves every vertex listed once at most. -/
theorem Followed.stage (h : g.Followed path es fin fin' met) (hg : g.WellFormed)
    (hs : g.Stage path fin) : g.Stage path fin' := by
  induction h with
  | nil => exact hs
  | back _ _ _ ih => exact ih hs
  | known _ _ _ ih => exact ih hs
  | descend ht hp hf _ _ ih ih' => exact ih' (ih (hs.push (hg.target?_lt ht) hp hf)).pop

/-- Every search from a vertex ends; a path that holds all but `n` of the vertices that are not
finished can grow by `n` vertices only. -/
theorem WellFormed.exists_followed (hg : g.WellFormed) {n : Nat}
    (hn : g.vertexCount ≤ n + path.length + fin.length) (hs : g.Stage path fin)
    (hes : ∀ e ∈ es, e.index < g.edgeCount) : ∃ fin' met, g.Followed path es fin fin' met := by
  induction n using Nat.strongRecOn generalizing path es fin with
  | _ n ihn =>
    induction es generalizing fin with
    | nil => exact ⟨fin, [], .nil⟩
    | cons e rest ih =>
      obtain ⟨x, hx⟩ := exists_findEdge (hes e List.mem_cons_self)
      have ht : g.target? e = some x.target := target?_eq_some_iff.mpr ⟨x, hx, rfl⟩
      have hrest : ∀ f ∈ rest, f.index < g.edgeCount :=
        fun f hf => hes f (List.mem_cons_of_mem e hf)
      by_cases hp : x.target ∈ path
      · obtain ⟨fin', met, h⟩ := ih hn hs hrest
        exact ⟨fin', e :: met, .back ht hp h⟩
      by_cases hf : x.target ∈ fin
      · obtain ⟨fin', met, h⟩ := ih hn hs hrest
        exact ⟨fin', met, .known ht hf h⟩
      -- one more vertex under way leaves room for one less
      have hpush := hs.push (hg.target?_lt ht) hp hf
      have hlen := hpush.length_le
      rw [List.length_cons] at hlen
      obtain ⟨mid, met, hbelow⟩ := ihn (n - 1) (by omega)
        (by rw [List.length_cons]; omega) hpush (hg.outEdges_lt x.target)
      have hmid := hbelow.grows.length_le
      obtain ⟨fin', met', h⟩ := ih
        (by rw [List.length_append, List.length_singleton]; omega)
        (hbelow.stage hg hpush).pop hrest
      exact ⟨fin', met ++ met', .descend ht hp hf hbelow h⟩

/-- Finished vertices stay finished from one root to the next. -/
theorem Started.grows (h : g.Started roots fin fin' met) : fin <+: fin' := by
  induction h with
  | nil => exact List.prefix_refl _
  | known _ _ ih => exact ih
  | search _ below _ ih => exact below.grows.trans ((List.prefix_append _ _).trans ih)

/-- Every root is finished in the end. -/
theorem Started.mem (h : g.Started roots fin fin' met) (hm : r ∈ roots) : r ∈ fin' := by
  induction h with
  | nil => cases hm
  | known hf rest ih =>
    rcases List.mem_cons.mp hm with rfl | hm
    · exact rest.grows.subset hf
    · exact ih hm
  | search hf below rest ih =>
    rcases List.mem_cons.mp hm with rfl | hm
    · exact rest.grows.subset (List.mem_concat_self)
    · exact ih hm

/-- A search can be made from any list of vertices of the graph. -/
theorem WellFormed.exists_started (hg : g.WellFormed) (hs : g.Stage [] fin)
    (hr : ∀ r ∈ roots, r.index < g.vertexCount) : ∃ fin' met, g.Started roots fin fin' met := by
  induction roots generalizing fin with
  | nil => exact ⟨fin, [], .nil⟩
  | cons r rest ih =>
    have hrest : ∀ u ∈ rest, u.index < g.vertexCount := fun u hu => hr u (List.mem_cons_of_mem r hu)
    by_cases hf : r ∈ fin
    · obtain ⟨fin', met, h⟩ := ih hs hrest
      exact ⟨fin', met, .known hf h⟩
    · have hpush := hs.push (hr r List.mem_cons_self) List.not_mem_nil hf
      obtain ⟨mid, met, hbelow⟩ := hg.exists_followed (n := g.vertexCount) (by omega) hpush
        (hg.outEdges_lt r)
      obtain ⟨fin', met', h⟩ := ih (hbelow.stage hg hpush).pop hrest
      exact ⟨fin', met ++ met', .search hf hbelow h⟩

/-! ## The search with marks -/

/-- What an observer gathers from edges it is shown in turn, and whether it wants to go on. -/
def seeAll (observe : Observer β) : List EdgeId → β → β × Bool
  | [], b => (b, true)
  | e :: es, b =>
    if (observe e b).2 then seeAll observe es (observe e b).1 else observe e b

/-- An observer that is shown two lists of edges sees the second one only if it wants to go on after
the first. -/
theorem seeAll_append (observe : Observer β) (es es' : List EdgeId) (b : β) :
    seeAll observe (es ++ es') b =
      if (seeAll observe es b).2 then seeAll observe es' (seeAll observe es b).1
      else seeAll observe es b := by
  induction es generalizing b with
  | nil => rfl
  | cons e rest ih =>
    rw [List.cons_append, seeAll, seeAll]
    by_cases h : (observe e b).2
    · rw [if_pos h, if_pos h, ih]
    · rw [if_neg h, if_neg h, if_neg h]

/-- The marks tell which vertices are under way and which are finished. -/
structure Trail.Shows (s : Trail β) (g : Graph ν ε) (path fin : List VertexId) : Prop where
  size_eq : s.marks.size = g.vertexCount
  mark_eq : ∀ v, v.index < g.vertexCount →
    s.mark v = if v ∈ path then .onPath else if v ∈ fin then .done else .unvisited

namespace Trail

variable {s : Trail β}

/-- Setting a mark changes that of no other vertex. -/
theorem mark_setMark (s : Trail β) (v : VertexId) (m : Mark) (hv : v.index < s.marks.size)
    (u : VertexId) : (s.setMark v m).mark u = if u = v then m else s.mark u := by
  have hiff : v.index = u.index ↔ u = v := VertexId.index_inj.trans eq_comm
  simp only [mark, setMark, Array.getElem?_setIfInBounds, hiff, if_pos hv]
  split <;> rfl

namespace Shows

/-- With its mark set, a vertex shows as being under way. -/
theorem push (h : s.Shows g path fin) (ht : t.index < g.vertexCount) :
    (s.setMark t .onPath).Shows g (t :: path) fin where
  size_eq := by
    rw [← h.size_eq]
    exact Array.size_setIfInBounds
  mark_eq v hv := by
    rw [mark_setMark _ _ _ (h.size_eq.symm ▸ ht), h.mark_eq v hv]
    by_cases hvt : v = t <;> simp [hvt]

/-- With its mark set, the newest vertex under way shows as finished. -/
theorem pop (h : s.Shows g (t :: path) fin) (hs : g.Stage (t :: path) fin) :
    (s.setMark t .done).Shows g path (fin ++ [t]) where
  size_eq := by
    rw [← h.size_eq]
    exact Array.size_setIfInBounds
  mark_eq v hv := by
    have ht := hs.lt t List.mem_cons_self
    have hp : t ∉ path := fun hm => (List.nodup_cons.mp hs.nodup).1 (List.mem_append_left _ hm)
    rw [mark_setMark _ _ _ (h.size_eq.symm ▸ ht), h.mark_eq v hv]
    by_cases hvt : v = t <;> simp [hvt, hp]

/-- What a trail shows depends on its marks only. -/
theorem of_marks_eq {s' : Trail β} (h : s.Shows g path fin) (hm : s'.marks = s.marks) :
    s'.Shows g path fin :=
  ⟨hm ▸ h.size_eq, fun v hv => by rw [mark, hm]; exact h.mark_eq v hv⟩

end Shows

end Trail

/-! ## The search with marks goes the same way -/

section

variable {s : Trail β} {observe : Observer β} {descend : VertexId → Tracking β Unit} {b : β}

/-- What following an edge does depends on the mark of the vertex that it leads to. -/
theorem follow_of_mark (ht : g.target? e = some t) : g.follow observe descend e s =
    (match s.mark t with
      | .onPath => report observe e
      | .unvisited => descend t
      | .done => pure () : Tracking β Unit) s := by
  simp only [follow, ht]
  rfl

/-- A search that starts with `b` gathered and meets the back edges `met` ends: its observer was
ready to go on, and what is finished shows, or it had seen enough. -/
inductive Arrives (g : Graph ν ε) (observe : Observer β) (b : β) (met : List EdgeId)
    (path fin : List VertexId) : EStateM.Result Unit (Trail β) Unit → Prop
  | goOn {s : Trail β} (hsee : seeAll observe met b = (s.gathered, true))
      (hm : s.Shows g path fin) : Arrives g observe b met path fin (.ok () s)
  | stop {s : Trail β} (hsee : seeAll observe met b = (s.gathered, false)) :
      Arrives g observe b met path fin (.error () s)

namespace Arrives

/-- A second part of a search goes on from what the first has gathered, with all back edges met. -/
theorem append {path' : List VertexId} {s₁ : Trail β} {r : EStateM.Result Unit (Trail β) Unit}
    (h : g.Arrives observe b met path fin (.ok () s₁))
    (hr : g.Arrives observe s₁.gathered met' path' fin' r) :
    g.Arrives observe b (met ++ met') path' fin' r := by
  cases h with
  | goOn hsee hm =>
    have happend : seeAll observe (met ++ met') b = seeAll observe met' s₁.gathered := by
      rw [seeAll_append, hsee]
      rfl
    cases hr with
    | goOn hsee' hm' => exact .goOn (happend.trans hsee') hm'
    | stop hsee' => exact .stop (happend.trans hsee')

/-- What would have come next makes no difference to a search that was stopped. -/
theorem of_stop {path' : List VertexId} {s₁ : Trail β}
    (h : g.Arrives observe b met path fin (.error () s₁)) :
    g.Arrives observe b (met ++ met') path' fin' (.error () s₁) := by
  cases h with
  | stop hsee =>
    refine .stop ?_
    rw [seeAll_append, hsee]
    rfl

/-- A search that was not stopped shows what is finished. -/
theorem shows {s₁ : Trail β} (h : g.Arrives observe b met path fin (.ok () s₁)) :
    s₁.Shows g path fin := by
  cases h with
  | goOn _ hm => exact hm

/-- Two parts of a search, one after the other, meet the back edges of both. -/
theorem bind {path' : List VertexId} {x : Tracking β Unit} {f : Unit → Tracking β Unit}
    (h : g.Arrives observe b met path fin (x s))
    (hf : ∀ s₁ : Trail β, s₁.Shows g path fin →
      g.Arrives observe s₁.gathered met' path' fin' (f () s₁)) :
    g.Arrives observe b (met ++ met') path' fin' ((x >>= f) s) := by
  simp only [Bind.bind, EStateM.bind]
  generalize x s = r at h
  cases r with
  | ok _ s₁ => exact h.append (hf s₁ h.shows)
  | error _ s₁ => exact h.of_stop

/-- A back edge that is reported is met. -/
theorem report (hm : s.Shows g path fin) :
    g.Arrives observe s.gathered [e] path fin (report observe e s) := by
  have hsee (goOn : Bool) (h : (observe e s.gathered).2 = goOn) :
      seeAll observe [e] s.gathered = ((observe e s.gathered).1, goOn) := by
    cases goOn <;> simp [seeAll, h, Prod.ext_iff]
  show g.Arrives observe s.gathered [e] path fin
    (if (observe e s.gathered).2 then .ok () ⟨s.marks, (observe e s.gathered).1⟩
      else .error () ⟨s.marks, (observe e s.gathered).1⟩)
  cases h : (observe e s.gathered).2 with
  | true => exact .goOn (hsee true h) (hm.of_marks_eq rfl)
  | false => exact .stop (hsee false h)

/-- Visiting a new vertex follows its edges with the vertex on the path. -/
theorem visit {n : Nat} (hs : g.Stage (t :: path) fin')
    (h : g.Arrives observe s.gathered met (t :: path) fin'
      ((g.outEdges t).forM (g.follow observe (g.visit observe n)) (s.setMark t .onPath))) :
    g.Arrives observe s.gathered met path (fin' ++ [t]) (g.visit observe (n + 1) t s) := by
  rw [Graph.visit, ← List.append_nil met]
  show g.Arrives observe s.gathered (met ++ []) path (fin' ++ [t])
    (((g.outEdges t).forM (g.follow observe (g.visit observe n)) >>= fun _ =>
      modify fun s => s.setMark t .done) (s.setMark t .onPath))
  exact h.bind fun s₁ hm₁ => .goOn rfl (hm₁.pop hs)

end Arrives

/-- A search with enough room for its path does what the relation says. -/
theorem Followed.exec (h : g.Followed path es fin fin' met) (hg : g.WellFormed)
    (hs : g.Stage path fin) (hm : s.Shows g path fin) {n : Nat}
    (hn : g.vertexCount ≤ n + path.length + fin.length) :
    g.Arrives observe s.gathered met path fin'
      (es.forM (g.follow observe (g.visit observe n)) s) := by
  induction h generalizing s n with
  | nil => exact .goOn rfl hm
  | @back path fin fin' es met e t ht hp rest ih =>
    have hmark := (hm.mark_eq t (hg.target?_lt ht)).trans (if_pos hp)
    have hstep : g.Arrives observe s.gathered [e] path fin
        (g.follow observe (g.visit observe n) e s) := by
      rw [follow_of_mark ht, hmark]
      exact .report hm
    exact hstep.bind fun s₁ hm₁ => ih hs hm₁ hn
  | @known path fin fin' es met e t ht hf rest ih =>
    have hp : t ∉ path := fun hp => hs.not_mem hp hf
    have hmark := hm.mark_eq t (hg.target?_lt ht)
    rw [if_neg hp, if_pos hf] at hmark
    have hstep : g.Arrives observe s.gathered [] path fin
        (g.follow observe (g.visit observe n) e s) := by
      rw [follow_of_mark ht, hmark]
      exact .goOn rfl hm
    exact hstep.bind fun s₁ hm₁ => ih hs hm₁ hn
  | @descend path fin mid fin' es met met' e t ht hp hf below rest ihb ihr =>
    have hlt := hg.target?_lt ht
    have hpush := hs.push hlt hp hf
    have hend := below.stage hg hpush
    have hmark := hm.mark_eq t hlt
    rw [if_neg hp, if_neg hf] at hmark
    -- there is room for one more vertex on the path
    have hlen : path.length + 1 + fin.length ≤ g.vertexCount := hpush.length_le
    have hmid := below.grows.length_le
    obtain ⟨m, rfl⟩ : ∃ m, n = m + 1 := Nat.exists_eq_add_one.mpr (by omega)
    have hstep : g.Arrives observe s.gathered met path (mid ++ [t])
        (g.follow observe (g.visit observe (m + 1)) e s) := by
      rw [follow_of_mark ht, hmark]
      refine .visit hend (ihb hpush (hm.push hlt) ?_)
      rw [List.length_cons]
      omega
    refine hstep.bind fun s₁ hm₁ => ihr hend.pop hm₁ ?_
    rw [List.length_append]
    omega

/-- Search from `root` unless an earlier search has reached it. -/
def visitRoot (g : Graph ν ε) (observe : Observer β) (root : VertexId) : Tracking β Unit := do
  if (← get).mark root = .unvisited then g.visit observe g.vertexCount root

/-- A root is visited if it is unvisited, and passed over otherwise. -/
theorem visitRoot_of_mark (r : VertexId) (s : Trail β) : g.visitRoot observe r s =
    (if s.mark r = .unvisited then g.visit observe g.vertexCount r s else .ok () s) := by
  show (if s.mark r = .unvisited then g.visit observe g.vertexCount r else pure () :
    Tracking β Unit) s = _
  split <;> rfl

/-- The searches from the roots meet the back edges in the order of the recursion over the graph. -/
theorem Started.exec (h : g.Started roots fin fin' met) (hg : g.WellFormed)
    (hr : ∀ r ∈ roots, r.index < g.vertexCount) (hs : g.Stage [] fin) (hm : s.Shows g [] fin) :
    g.Arrives observe s.gathered met [] fin' (roots.forM (g.visitRoot observe) s) := by
  -- on the roots; one that has finished is passed over
  induction h generalizing s with
  | nil => exact .goOn rfl hm
  | @known roots fin fin' met r hf rest ih =>
    have hrest : ∀ u ∈ roots, u.index < g.vertexCount := fun u hu =>
      hr u (List.mem_cons_of_mem r hu)
    have hmark := hm.mark_eq r (hr r List.mem_cons_self)
    rw [if_neg List.not_mem_nil, if_pos hf] at hmark
    have hstep : g.Arrives observe s.gathered [] [] fin (g.visitRoot observe r s) := by
      rw [visitRoot_of_mark, hmark]
      exact .goOn rfl hm
    exact hstep.bind fun s₁ hm₁ => ih hrest hs hm₁
  | @search roots fin mid fin' met met' r hf below rest ih =>
    have hrest : ∀ u ∈ roots, u.index < g.vertexCount := fun u hu =>
      hr u (List.mem_cons_of_mem r hu)
    have hlt := hr r List.mem_cons_self
    have hpush := hs.push hlt List.not_mem_nil hf
    have hend := below.stage hg hpush
    have hmark := hm.mark_eq r hlt
    rw [if_neg List.not_mem_nil, if_neg hf] at hmark
    -- the search of a root recurses no deeper than there are vertices off the path
    obtain ⟨m, hcount⟩ : ∃ m, g.vertexCount = m + 1 := Nat.exists_eq_add_one.mpr (by omega)
    have hstep : g.Arrives observe s.gathered met [] (mid ++ [r]) (g.visitRoot observe r s) := by
      rw [visitRoot_of_mark, if_pos hmark, hcount]
      refine .visit hend (below.exec hg hpush (hm.push hlt) ?_)
      rw [hcount, List.length_singleton]
      omega
    exact hstep.bind fun s₁ hm₁ => ih hrest hend.pop hm₁

end

/-! ## What is gathered -/

/-- At the start all marks show unvisited vertices. -/
theorem shows_unvisited (g : Graph ν ε) (b : β) :
    (⟨Array.replicate g.vertexCount .unvisited, b⟩ : Trail β).Shows g [] [] where
  size_eq := Array.size_replicate
  mark_eq v hv := by
    rw [Trail.mark, Array.getElem?_replicate, if_pos hv]
    rfl

/-- The vertices that are listed are vertices of the graph. -/
theorem index_lt_of_mem_vertexIds (hg : g.WellFormed) :
    ∀ v ∈ g.vertexIds, v.index < g.vertexCount :=
  fun _ hv => containsVertex_iff.mp ((mem_vertexIds_iff hg).mp hv)

/-- What is gathered from the back edges is what the observer sees in the list of those met. -/
theorem Started.gatherBackEdges_eq (h : g.Started g.vertexIds [] fin met) (hg : g.WellFormed)
    (observe : Observer β) (b : β) : g.gatherBackEdges observe b = (seeAll observe met b).1 := by
  have hend : g.Arrives observe b met [] fin (g.visitAll observe ⟨_, b⟩) :=
    h.exec hg (index_lt_of_mem_vertexIds hg) (.nil g) (shows_unvisited g b)
  rw [gatherBackEdges]
  generalize g.visitAll observe _ = r at hend
  cases hend with
  | goOn hsee _ => rw [hsee]
  | stop hsee => rw [hsee]

/-- An observer that collects all edges ends with them in reverse. -/
theorem seeAll_collecting (es met : List EdgeId) :
    seeAll (fun e met => (e :: met, true)) es met = (es.reverse ++ met, true) := by
  induction es generalizing met with
  | nil => rfl
  | cons e rest ih => simpa [seeAll] using ih (e :: met)

/-- The search of a well-formed graph ends, and the back edges are those it meets. -/
theorem WellFormed.exists_started_backEdges (hg : g.WellFormed) :
    ∃ fin, g.Started g.vertexIds [] fin g.backEdges := by
  obtain ⟨fin, met, h⟩ := hg.exists_started (.nil g) (index_lt_of_mem_vertexIds hg)
  have hmet : g.backEdges = met := by
    rw [backEdges, h.gatherBackEdges_eq hg, seeAll_collecting]
    simp
  exact ⟨fin, hmet ▸ h⟩

/-- Whatever the observer gathers, it gathers from the back edges in turn. -/
theorem WellFormed.gatherBackEdges_eq (hg : g.WellFormed) (observe : Observer β) (b : β) :
    g.gatherBackEdges observe b = (seeAll observe g.backEdges b).1 := by
  obtain ⟨fin, h⟩ := hg.exists_started_backEdges
  exact h.gatherBackEdges_eq hg observe b

end Graph

end CommonSubgraph
