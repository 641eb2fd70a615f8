import CommonSubgraph.Proofs.Search.Promises

/-!
# A level puts everything back

A level that comes to its end leaves the working state as it was: the same pairs, the same members
in the linked sets, though maybe in another order, and the same slots in the arena. If the caller
stops the search there, or the arena is exhausted, the slots are given back all the same
(`Problem.restoring_explore`). Nothing is asked of the candidate map: what it names where no
candidate is, or a candidate that cannot be paired, is a fault.

`P.levelBy deeper` is a level with `deeper` in the place of the next levels. A level
puts everything back if `deeper` does (`Problem.restoring_levelBy`), since each candidate is tried
in the state that the one before has put back. `Work.PutBack` and `Problem.PutBackBy` say the same
of the working state itself.
-/

namespace CommonSubgraph

variable {ν ε σ α β γ : Type}

/-! ## Programs that put slots on top -/

/-- The second state is the first with a grown arena. -/
def Work.Above (w u : Work) : Prop := ∃ b, u = { w with arena := b } ∧ w.arena.Grown b

namespace Work.Above

variable {t u w : Work}

theorem refl (w : Work) : w.Above w := ⟨w.arena, rfl, .refl w.arena⟩

/-- What lies above a state that lies above another lies above that. -/
theorem trans (h : t.Above u) (h' : u.Above w) : t.Above w := by
  obtain ⟨b, rfl, hb⟩ := h
  obtain ⟨c, rfl, hc⟩ := h'
  exact ⟨c, rfl, hb.trans hc⟩

end Work.Above

/-- However the program ends, it has done no more to the working state than to put slots on top of
its arena. -/
def SearchM.Pushes (m : SearchM σ α) : Prop :=
  ∀ w s, Ensures m (w, s) (fun _ st => w.Above st.1) fun _ st => w.Above st.1

/-- A question pushes nothing. -/
theorem SearchM.pushes_ask (m : Callback σ α) : (SearchM.ask m).Pushes := by
  intro w s
  rw [Ensures, SearchM.ask_eq]
  cases m s with
  | ok a s' => exact .refl w
  | error f s' => exact .refl w

/-- A candidate map is filled on top of what is in the arena. -/
theorem Problem.fills_pushes (P : Problem ν ε σ) : P.Fills fun _ m => m.Pushes where
  pure _ w _ := .refl w
  bind hm hf w s := (hm w s).bind fun a st hst =>
    (hf a st.1 st.2).mono (fun _ _ h => hst.trans h) fun _ _ h => hst.trans h
  work w _ := .refl w
  check r w _ := by
    cases r with
    | ok a => exact .refl w
    | error f => exact .refl w
  vertices _ _ := SearchM.pushes_ask _
  edges _ _ _ _ _ _ := SearchM.pushes_ask _
  startRow map i n w s := by
    rw [Ensures, SearchM.startRow_eq]
    cases map.start w.arena i n with
    | ok map' => exact .refl w
    | error f => exact .refl w
  pushCandidate map i j w s := by
    rw [Ensures, SearchM.pushCandidate_eq]
    cases map.grow i w.arena.size with
    | ok map' => exact ⟨w.arena.push j, rfl, .push w.arena j⟩
    | error f => exact .refl w

/-! ## Steps that may be faults -/

namespace Ensures

variable {τ : Type} {w : Work} {x : τ} {post : α → Work × τ → Prop}
variable {halted : Halt → Work × τ → Prop}

/-- Reading a slot changes nothing, and may be a fault. -/
theorem slot_of (k : Nat) (hfault : ∀ f st, halted (.failed (.fault f)) st) :
    Ensures (SearchM.slot k) (w, x) (fun _ st => st = (w, x)) halted := by
  show Ensures (SearchM.check (w.arena.get k)) (w, x) _ _
  cases hj : w.arena.get k with
  | ok j => exact rfl
  | error f => exact hfault f _

/-- An update changes the working state as it says, and may be a fault. -/
theorem update_of (f : Work → Except Fault Work) (hfault : ∀ f st, halted (.failed (.fault f)) st) :
    Ensures (SearchM.update f) (w, x) (fun _ st => f w = .ok st.1 ∧ st.2 = x) halted := by
  rw [Ensures, SearchM.update]
  cases f w with
  | ok w' => exact ⟨rfl, rfl⟩
  | error e => exact hfault e _

/-- The caller does nothing to the working state. -/
theorem heed_of (m : Callback τ Action) :
    Ensures (SearchM.heed m) (w, x) (fun _ st => st.1 = w) fun _ st => st.1 = w := by
  rw [Ensures, SearchM.heed_eq]
  cases m x with
  | ok action x' => cases action <;> rfl
  | error f x' => rfl

/-- Slots from `n` on are given back at the end of a program and after any halt but a fault. -/
theorem releasing_of {m : SearchM τ α} {n : Nat} (h : Ensures m (w, x) post halted)
    (hpost : ∀ a st, post a st → n ≤ st.1.arena.size)
    (hhalted : ∀ halt st, halted halt st →
      (∃ f, halt = .failed (.fault f)) ∨ n ≤ st.1.arena.size) :
    Ensures (SearchM.releasing n m) (w, x)
      (fun a st => ∃ w', post a (w', st.2) ∧ st.1 = { w' with arena := w'.arena.truncate n })
      fun halt st => (∃ f, halt = .failed (.fault f)) ∨
        ∃ w', halted halt (w', st.2) ∧ st.1 = { w' with arena := w'.arena.truncate n } := by
  rw [Ensures] at h
  cases hr : m (w, x) with
  | ok a st =>
    rw [hr] at h
    rw [Ensures, SearchM.releasing_of_ok hr (hpost a st h)]
    exact ⟨st.1, h, rfl⟩
  | error halt st =>
    rw [hr] at h
    rcases hhalted halt st h with ⟨f, rfl⟩ | hn
    · simp only [Ensures, SearchM.releasing, hr]
      exact .inl ⟨f, rfl⟩
    · rw [Ensures, SearchM.releasing_of_error hr hn]
      rcases halt with _ | x | f
      · exact .inr ⟨st.1, h, rfl⟩
      · exact .inr ⟨st.1, h, rfl⟩
      · exact .inl ⟨f, rfl⟩

end Ensures

/-! ## Restoring programs -/

/-- Only considered vertices are unpaired. -/
def View.InPlace (v : View) : Prop := v.unpaired ⊆ v.considered

namespace View.InPlace

variable {v v' : View} {c : Config} {i j : VertexId}

/-- A view stays in place while the arena grows. -/
theorem above (h : v.InPlace) (habove : v.Above v') : v'.InPlace := by
  obtain ⟨b, rfl, -⟩ := habove
  exact h

/-- Pairing leaves no unpaired vertex that is not considered. -/
theorem extend (h : v.InPlace) (i j : VertexId) : (v.extend i j).InPlace :=
  fun _ hk => h (List.mem_of_mem_erase hk)

/-- Leaving a vertex out leaves no unpaired vertex that is not considered. -/
theorem leaveOut (h : v.InPlace) (hn : v.unpaired.Nodup) (i : VertexId) :
    (v.leaveOut i).InPlace := by
  intro k hk
  obtain ⟨hne, hk⟩ := hn.mem_erase_iff.mp hk
  exact (List.mem_erase_of_ne hne).mpr (h hk)

/-- A view is in place again when everything was put back. -/
theorem restores (h : v.InPlace) (hrest : v.Restores c v') : v'.InPlace := fun _ hk =>
  hrest.considered_perm.mem_iff.mpr (h (hrest.unpaired_perm.mem_iff.mp hk))

end View.InPlace

namespace Problem

open SearchM

variable {P : Problem ν ε σ}

/-- The second view restores the first. The minimum, which a search for embeddings of the whole
first graph does not look at, is the same there or has become the number of its vertices. -/
structure Returns (P : Problem ν ε σ) (v v' : View) : Prop extends v.Restores P.config v' where
  minimum_of_exact : P.config.common = false →
    v'.minimum = v.minimum ∨ v'.minimum = P.first.vertexCount

/-- What is in force in `v` is in force again. -/
def PutsBack (P : Problem ν ε σ) (v : View) (st : Work × σ) : Prop :=
  ∃ v', P.Shows st.1 v' ∧ P.Returns v v'

/-- After any halt but a fault, the arena has the slots it has in `v`. -/
def Cleared (v : View) (halt : Halt) (st : Work × σ) : Prop :=
  (∃ f, halt = .failed (.fault f)) ∨ st.1.arena.slots = v.arena.slots

/-- Whatever is in force when the program begins is put back. -/
def Restoring (P : Problem ν ε σ) (m : SearchM σ Unit) : Prop :=
  ∀ w s v, P.Shows w v → v.InPlace → Ensures m (w, s) (fun _ => P.PutsBack v) (Cleared v)

/-- A level of the search, with `deeper` for the levels below. -/
def levelBy (P : Problem ν ε σ) (deeper : CandidateMap → Nat → SearchM σ Unit)
    (map : CandidateMap) (level : Nat) : SearchM σ Unit := P.steps.level P deeper map level

/-- A level of the search has the levels below it as the next ones. -/
theorem explore_succ (n : Nat) (map : CandidateMap) (level : Nat) :
    P.explore (n + 1) map level = P.levelBy (P.explore n) map level := rfl

variable {w w₁ w₂ : Work} {v v₁ v₂ : View} {s : σ} {map : CandidateMap} {i j : VertexId}
variable {deeper : CandidateMap → SearchM σ Unit}

namespace Returns

theorem refl (P : Problem ν ε σ) (v : View) : P.Returns v v := ⟨.refl _ v, fun _ => .inl rfl⟩

/-- What returns to a view that returns to another returns to that. -/
theorem trans (h : P.Returns v v₁) (h' : P.Returns v₁ v₂) : P.Returns v v₂ where
  toRestores := h.toRestores.trans h'.toRestores
  minimum_of_exact hc := by
    rcases h'.minimum_of_exact hc with heq | heq
    · rw [heq]
      exact h.minimum_of_exact hc
    · exact .inr heq

/-- A delivery in exact mode, if it changes the minimum, sets it to the number of vertices. -/
theorem delivered (ha : v.Acceptable P.first P.config) : P.Returns v (v.delivered P.config) where
  toRestores := .delivered ha
  minimum_of_exact hc := by
    rw [View.delivered, Config.raised, ← (Config.accepts_iff_of_exact hc).mp ha]
    split
    · exact .inr rfl
    · exact .inl rfl

/-- Taking the newest pair back returns to the view before it was made. -/
theorem retract (habove : (v.extend i j).Above v₁) (h : P.Returns v₁ v₂) (hi : i ∈ v.unpaired) :
    P.Returns v ((v₂.rewind v.arena.size).retract i) where
  toRestores := .retract habove h.toRestores hi
  minimum_of_exact hc := by
    obtain ⟨b, rfl, -⟩ := habove
    exact h.minimum_of_exact hc

/-- Considering a vertex again returns to the view before it was left out. -/
theorem takeBack (h : P.Returns (v.leaveOut i) v₁) (hi : i ∈ v.unpaired)
    (hic : i ∈ v.considered) : P.Returns v (v₁.takeBack i) where
  toRestores := h.toRestores.takeBack hi hic
  minimum_of_exact := h.minimum_of_exact

end Returns

/-- After a fault nothing is claimed. -/
theorem cleared_fault (v : View) (f : Fault) (st : Work × σ) : Cleared v (.failed (.fault f)) st :=
  .inl ⟨f, rfl⟩

theorem PutsBack.refl (hw : P.Shows w v) (s : σ) : P.PutsBack v (w, s) := ⟨v, hw, .refl _ v⟩

/-- What puts back a view that returns to another puts that back. -/
theorem PutsBack.trans {st : Work × σ} (hrest : P.Returns v v₁) (h : P.PutsBack v₁ st) :
    P.PutsBack v st := by
  obtain ⟨v', hw', hrest'⟩ := h
  exact ⟨v', hw', hrest.trans hrest'⟩

/-- Only the slots of a view matter to what is cleared. -/
theorem Cleared.of_slots_eq {halt : Halt} {st : Work × σ} (h : Cleared v₁ halt st)
    (hslots : v₁.arena.slots = v.arena.slots) : Cleared v halt st := by
  rw [Cleared, ← hslots]
  exact h

/-- A state above one that shows a view shows a view above it. -/
theorem Shows.above (hw : P.Shows w v) (h : w.Above w₁) : ∃ v₁, P.Shows w₁ v₁ ∧ v.Above v₁ := by
  obtain ⟨b, rfl, hb⟩ := h
  exact ⟨{ v with arena := b }, { hw with arena_eq := rfl }, b, rfl, hw.arena_eq ▸ hb⟩

/-- A pairing that is no fault pairs an unpaired vertex. -/
theorem Shows.of_extend (hw : P.Shows w v) (h : w.extend i j = .ok w₁) :
    i ∈ v.unpaired ∧ P.Shows w₁ (v.extend i j) := by
  rw [Work.extend] at h
  split_ifs at h with _ _ _ hi
  cases h
  rw [Bool.not_eq_true', Bool.not_eq_false] at hi
  exact ⟨hw.unpaired.contains_iff.mp hi, { hw with
    xs_eq := by simp [View.extend, hw.xs_eq]
    ys_eq := by simp [View.extend, hw.ys_eq]
    unpaired := hw.unpaired.erase i }⟩

/-- The vertex that is picked is unpaired. -/
theorem Shows.mem_of_pick (hw : P.Shows w v) (h : w.pick map = some i) : i ∈ v.unpaired := by
  rw [← hw.unpaired.vertices_eq]
  exact List.mem_of_mem_filter (mem_of_firstSmallest h)

/-- What has been put back is put back again. -/
theorem Restoring.again {m : SearchM σ Unit} (h : P.Restoring m) (hv : v.InPlace) {st : Work × σ}
    (hst : P.PutsBack v st) : Ensures m st (fun _ => P.PutsBack v) (Cleared v) := by
  obtain ⟨v₁, hw₁, hrest₁⟩ := hst
  exact (h st.1 st.2 v₁ hw₁ (hv.restores hrest₁.toRestores)).mono (fun _ _ h => h.trans hrest₁)
    fun _ _ h => h.of_slots_eq hrest₁.slots_eq

/-- The caller is told of a level before anything is done on it. -/
theorem Restoring.told {m : SearchM σ Unit} (h : P.Restoring m) (c : Callback σ Action) :
    P.Restoring (heed c >>= fun _ => m) := by
  intro w s v hw hv
  refine ((Ensures.heed_of c).mono (fun _ _ h => h) ?_).bind ?_
  · rintro halt ⟨_, s₁⟩ rfl
    exact .inr (congrArg Arena.slots hw.arena_eq)
  · rintro _ ⟨_, s₁⟩ rfl
    exact h _ s₁ v hw hv

/-- A delivery puts back what is in force. -/
theorem restoring_deliver (P : Problem ν ε σ) : P.Restoring P.deliver := by
  intro w s v hw _
  refine .work ?_
  split
  · rename_i ha
    refine .silent rfl ((Ensures.heed_of _).mono ?_ ?_)
    · rintro _ ⟨w', s'⟩ rfl
      exact ⟨_, hw.delivered, .delivered (hw.acceptable_iff.mp ha)⟩
    · rintro halt ⟨w', s'⟩ rfl
      exact .inr (congrArg Arena.slots hw.arena_eq)
  · exact .refl hw s

/-- What is refined and done deeper stays above the slots in use. -/
theorem ensures_refined (hdeeper : ∀ map, P.Restoring (deeper map)) (hw : P.Shows w v)
    (hv : v.InPlace) (s : σ) (map : CandidateMap) (i j : VertexId) :
    Ensures (P.refine map i j >>= deeper) (w, s)
      (fun _ st => ∃ v₁, v.Above v₁ ∧ P.PutsBack v₁ st)
      fun halt st => (∃ f, halt = .failed (.fault f)) ∨
        v.arena.slots.toList <+: st.1.arena.slots.toList := by
  have hfill : Ensures (P.refine map i j) (w, s) (fun _ st => w.Above st.1)
      fun halt st => (∃ f, halt = .failed (.fault f)) ∨
        v.arena.slots.toList <+: st.1.arena.slots.toList := by
    refine (P.fills_pushes.refine map i j w s).mono (fun _ _ h => h) ?_
    rintro halt ⟨w₁, s₁⟩ habove
    obtain ⟨v₁, hw₁, hv₁⟩ := hw.above habove
    refine .inr ?_
    rw [hw₁.arena_eq]
    exact hv₁.grown.slots
  refine hfill.bind ?_
  rintro map₁ ⟨w₁, s₁⟩ habove
  obtain ⟨v₁, hw₁, hv₁⟩ := hw.above habove
  refine (hdeeper map₁ w₁ s₁ v₁ hw₁ (hv.above hv₁)).mono (fun _ _ h => ⟨v₁, hv₁, h⟩) ?_
  rintro halt st (hfault | hslots)
  · exact .inl hfault
  · exact .inr (hslots ▸ hv₁.grown.slots)

/-- Trying a candidate puts back what is in force if the levels below do. -/
theorem restoring_tryCandidate (hdeeper : ∀ map, P.Restoring (deeper map)) (map : CandidateMap)
    (i : VertexId) (k : Nat) : P.Restoring (P.tryCandidate map i deeper k) := by
  intro w s v hw hv
  refine (Ensures.slot_of k (cleared_fault v)).bind ?_
  rintro j _ rfl
  simp only [steps_extend, steps_retract]
  refine (Ensures.update_of _ (cleared_fault v)).bind ?_
  rintro _ ⟨w₁, s₁⟩ ⟨hext, rfl⟩
  obtain ⟨hi, hw₁⟩ := hw.of_extend hext
  have hpos : w₁.arena.size = v.arena.size := congrArg Arena.size hw₁.arena_eq
  have hreleased := (ensures_refined hdeeper hw₁ (hv.extend i j) s₁ map i j).releasing_of
    (n := w₁.arena.size) ?_ ?_
  · refine Ensures.bind (.work (hreleased.mono (fun _ _ h => h) ?_)) ?_
    · rintro halt ⟨_, s₂⟩ (hfault | ⟨w₂, hfault | hprefix, rfl⟩)
      · exact .inl hfault
      · exact .inl hfault
      · rw [hpos]
        exact .inr (Arena.slots_truncate_of_prefix hprefix)
    · rintro _ ⟨_, s₂⟩ ⟨w₂, ⟨v₁, habove, v₂, hw₂, hrest⟩, rfl⟩
      rw [hpos]
      obtain ⟨w₃, hretract, hw₃⟩ := shows_retract_restored hw hi habove hrest.toRestores hw₂
      exact .update_last hretract ⟨_, hw₃, .retract habove hrest hi⟩
  · rintro _ ⟨w₂, s₂⟩ ⟨v₁, habove, v₂, hw₂, hrest⟩
    rw [hpos, hw₂.arena_eq, hrest.size_eq]
    exact habove.grown.size_le
  · rintro halt ⟨w₂, s₂⟩ (hfault | hprefix)
    · exact .inl hfault
    · rw [hpos]
      exact .inr hprefix.length_le

/-- The candidates are tried one after the other, each in the state that the one before put back. -/
theorem restoring_tries (hdeeper : ∀ map, P.Restoring (deeper map)) (map : CandidateMap)
    (i : VertexId) (ks : List Nat) : P.Restoring (ks.forM (P.tryCandidate map i deeper)) := by
  intro w s v hw hv
  exact Ensures.forM (S := P.PutsBack v)
    (fun k _ _ hst => (restoring_tryCandidate hdeeper map i k).again hv hst) (.refl hw s)

/-- A level puts back what the levels below it put back. -/
theorem restoring_levelBy {deeper : CandidateMap → Nat → SearchM σ Unit}
    (hdeeper : ∀ map level, P.Restoring (deeper map level)) (map : CandidateMap) (level : Nat) :
    P.Restoring (P.levelBy deeper map level) := by
  refine Restoring.told (fun w s v hw hv => .work ?_) _
  simp only [steps_feasible, steps_map, steps_span, steps_refined, steps_leaveOut,
    steps_unrefined, steps_takeBack, pure_bind]
  split
  swap
  · exact restoring_deliver P w s v hw hv
  cases hpick : w.pick map with
  | none => exact cleared_fault v _ _
  | some i =>
    have hi := hw.mem_of_pick hpick
    have htries := restoring_tries (fun refined => hdeeper refined (level + 1)) map i (map.span i)
    refine (htries w s v hw hv).bind ?_
    rintro _ ⟨w₁, s₁⟩ ⟨v₁, hw₁, hrest₁⟩
    split
    swap
    · exact ⟨v₁, hw₁, hrest₁⟩
    have hi₁ := hrest₁.unpaired_perm.mem_iff.mpr hi
    have hv₁ := hv.restores hrest₁.toRestores
    have hwithout := hdeeper map (level + 1) (w₁.leaveOut i) s₁ (v₁.leaveOut i)
      (shows_leaveOut hw₁ i) (hv₁.leaveOut hw₁.unpaired.nodup i)
    refine .silent rfl ((hwithout.mono (fun _ _ h => h) ?_).bind ?_)
    -- a halt below is one here too, as the tries have put their slots back
    · exact fun _ _ h => h.of_slots_eq hrest₁.slots_eq
    rintro _ ⟨w₂, s₂⟩ ⟨v₂, hw₂, hrest₂⟩
    obtain ⟨w₃, htake, hw₃⟩ := shows_takeBack_restored hw₁ hi₁ hrest₂.toRestores hw₂
    exact .update_last htake ⟨_, hw₃, hrest₁.trans (hrest₂.takeBack hi₁ (hv₁ hi₁))⟩

/-- Whatever the candidates are, a level puts everything back. -/
theorem restoring_explore (P : Problem ν ε σ) (n : Nat) (map : CandidateMap) (level : Nat) :
    P.Restoring (P.explore n map level) := by
  induction n generalizing map level with
  | zero => exact (restoring_deliver P).told _
  | succ n ih =>
    rw [explore_succ]
    exact restoring_levelBy ih map level

end Problem

/-! ## What has been put back -/

/-- The working state is the first one again, as far as a level puts things back. Outside monotonic
mode the minimum is the same, and no solution needs fewer pairs than before in any mode. A search
for embeddings of the whole first graph needs as many pairs as it has vertices, and does not look at
the minimum; a monotonic one leaves it or sets it to that number. -/
structure Work.PutBack (P : Problem ν ε σ) (w w' : Work) : Prop where
  xs_eq : w'.xs = w.xs
  ys_eq : w'.ys = w.ys
  considered_perm : w'.considered.vertices.Perm w.considered.vertices
  unpaired_perm : w'.unpaired.vertices.Perm w.unpaired.vertices
  targets_eq : w'.targets = w.targets
  minimum_eq : P.config.monotonic = false → w'.minimum = w.minimum
  minimum_le : P.config.common = true → w.minimum ≤ w'.minimum
  minimum_of_exact : P.config.common = false →
    w'.minimum = w.minimum ∨ w'.minimum = P.first.vertexCount
  needed_le : P.needed w ≤ P.needed w'
  slots_eq : w'.arena.slots = w.arena.slots

/-- What shows a view that returns is put back. -/
theorem Problem.PutsBack.putBack {P : Problem ν ε σ} {w : Work} {v : View} {st : Work × σ}
    (h : P.PutsBack v st) (hw : P.Shows w v) : w.PutBack P st.1 := by
  obtain ⟨v', hw', hrest⟩ := h
  have hminimum (hm : v'.minimum = v.minimum) : st.1.minimum = w.minimum := by
    rw [hw'.minimum_eq, hm, hw.minimum_eq]
  have hle (hc : P.config.common = true) : w.minimum ≤ st.1.minimum := by
    rw [hw'.minimum_eq, hw.minimum_eq]
    exact hrest.minimum_le hc
  refine ⟨?_, ?_, ?_, ?_, ?_, fun hm => hminimum (hrest.minimum_eq hm), hle, fun hc => ?_, ?_, ?_⟩
  · rw [← Array.toList_inj, hw'.xs_eq, hw.xs_eq, hrest.pairs_eq]
  · rw [← Array.toList_inj, hw'.ys_eq, hw.ys_eq, hrest.pairs_eq]
  · rw [hw'.considered.vertices_eq, hw.considered.vertices_eq]
    exact hrest.considered_perm
  · rw [hw'.unpaired.vertices_eq, hw.unpaired.vertices_eq]
    exact hrest.unpaired_perm
  · exact hw'.targets.represents.ext hw.targets.represents
      (hw'.targets.domain_eq.trans hw.targets.domain_eq.symm)
  · rw [hw'.minimum_eq, hw.minimum_eq]
    exact hrest.minimum_of_exact hc
  · rw [Problem.needed, Problem.needed]
    split
    · rename_i hc
      exact hle hc
    · exact Nat.le_refl _
  · rw [hw'.arena_eq, hw.arena_eq]
    exact hrest.slots_eq

/-- What the search of a level may come to that was begun in `w`. A fault promises nothing. -/
def Problem.PutBackBy (P : Problem ν ε σ) (w : Work) : EStateM.Result Halt (Work × σ) Unit → Prop
  | .ok _ st => w.PutBack P st.1
  | .error .aborted st | .error (.failed (.exhausted _)) st => st.1.arena.slots = w.arena.slots
  | .error (.failed (.fault _)) _ => True

/-- A level of the search puts everything back, begun in a state in place. -/
theorem Problem.putBackBy_explore {P : Problem ν ε σ} {w : Work} {v : View} (hw : P.Shows w v)
    (hv : v.InPlace) (n : Nat) (map : CandidateMap) (level : Nat) (s : σ) :
    P.PutBackBy w (P.explore n map level (w, s)) := by
  have hlevel := P.restoring_explore n map level w s v hw hv
  rw [Ensures] at hlevel
  cases hr : P.explore n map level (w, s) with
  | ok u st =>
    rw [hr] at hlevel
    exact hlevel.putBack hw
  | error halt st =>
    rw [hr] at hlevel
    rcases hlevel with ⟨f, rfl⟩ | hslots
    · exact trivial
    · rw [← hw.arena_eq] at hslots
      rcases halt with _ | x | f
      · exact hslots
      · exact hslots
      · exact trivial

end CommonSubgraph
