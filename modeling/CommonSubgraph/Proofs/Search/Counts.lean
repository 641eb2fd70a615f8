import CommonSubgraph.Proofs.Search.Strict

/-!
# The counts of a search

A strict search does what the search does unless the solutions or the arena slots outgrow a machine
word (`Problem.agrees_search`). Neither of the two counts ever falls, so those in which the search
ends are as large as any on the way (`Work.Precedes`). All other sums are made of numbers of
vertices: on a level there are at most as many pairs as the number of the level says, and the levels
are no more than the vertices (`Work.Sized`).

`SearchM.Agrees strict plain w R` relates a strict program to the one it is the strict form of. The
walk through the text of the search needs nothing else of it: not that its faults never occur, nor
that what it finds is right.
-/

namespace CommonSubgraph

variable {ν ε σ α β γ : Type}

/-! ## Counts that only rise -/

namespace Work

/-- Neither the solutions nor the slots that were in use have become fewer. -/
structure Precedes (w w' : Work) : Prop where
  found_le : w.found ≤ w'.found
  highWater_le : w.arena.highWater ≤ w'.arena.highWater

/-- The solutions and the slots that were in use are counts of one machine word. -/
structure Countable (w : Work) : Prop where
  found_le : w.found ≤ Size.largest
  highWater_le : w.arena.highWater ≤ Size.largest

variable {w w₁ w₂ : Work}

theorem Precedes.refl (w : Work) : w.Precedes w := ⟨Nat.le_refl _, Nat.le_refl _⟩

theorem Precedes.trans (h : w.Precedes w₁) (h' : w₁.Precedes w₂) : w.Precedes w₂ :=
  ⟨Nat.le_trans h.found_le h'.found_le, Nat.le_trans h.highWater_le h'.highWater_le⟩

/-- Counts that precede countable ones are countable. -/
theorem Precedes.countable (h : w.Precedes w₁) (h₁ : w₁.Countable) : w.Countable :=
  ⟨Nat.le_trans h.found_le h₁.found_le, Nat.le_trans h.highWater_le h₁.highWater_le⟩

end Work

/-! ## Programs and their strict forms -/

namespace SearchM

/-- What there is to say of a program, run from one state, and its strict form. -/
structure AgreesFrom (strict plain : SearchM σ α) (w : Work) (env : σ) (R : α → Work → Prop) :
    Prop where
  precedes : w.Precedes (endState (plain (w, env))).1
  eq : (endState (plain (w, env))).1.Countable → strict (w, env) = plain (w, env)
  value : ∀ a st, plain (w, env) = .ok a st → R a st.1

/-- Begun in `w`, the program lets no count fall, and its strict form does the same as long as the
counts it ends in are those of a word. If it gives a value, `R` holds of that and of the working
state. -/
def Agrees (strict plain : SearchM σ α) (w : Work) (R : α → Work → Prop) : Prop :=
  ∀ env, AgreesFrom strict plain w env R

namespace Agrees

variable {strict plain : SearchM σ α} {w w₁ : Work} {R R' : α → Work → Prop}

/-- What is said of the outcome can be weakened. -/
theorem mono (h : Agrees strict plain w R) (hR : ∀ a w', w.Precedes w' → R a w' → R' a w') :
    Agrees strict plain w R' := by
  intro env
  refine ⟨(h env).precedes, (h env).eq, fun a st hr => hR a st.1 ?_ ((h env).value a st hr)⟩
  have hle := (h env).precedes
  rwa [hr] at hle

/-- Giving a value makes no sum. -/
theorem pure {a : α} (h : R a w) : Agrees (Pure.pure a : SearchM σ α) (Pure.pure a) w R :=
  fun _ => ⟨.refl w, fun _ => rfl, fun _ _ hr => by cases hr; exact h⟩

/-- A halt makes no sum. -/
theorem throw (halt : Halt) :
    Agrees (MonadExcept.throw halt : SearchM σ α) (MonadExcept.throw halt) w R :=
  fun _ => ⟨.refl w, fun _ => rfl, fun _ _ hr => by cases hr⟩

/-- A program that leaves the working state alone and makes no sum is its own strict form. -/
theorem still (h : ∀ env, (endState (plain (w, env))).1 = w) :
    Agrees plain plain w fun _ w' => w' = w := by
  intro env
  refine ⟨?_, fun _ => rfl, fun a st hr => ?_⟩
  · rw [h env]
    exact .refl w
  · have hw := h env
    rwa [hr] at hw

/-- What changes the working state alone, in the same way in both. -/
theorem silent {strict₁ plain₁ : SearchM σ α} (hs : ∀ env, strict (w, env) = strict₁ (w₁, env))
    (hp : ∀ env, plain (w, env) = plain₁ (w₁, env)) (hw : w.Precedes w₁)
    (h : Agrees strict₁ plain₁ w₁ R) : Agrees strict plain w R := by
  intro env
  constructor
  · rw [hp]
    exact hw.trans (h env).precedes
  · rw [hs, hp]
    exact (h env).eq
  · rw [hp]
    exact (h env).value

/-- A program that agrees with its strict form, followed by one that does, agrees with the two
strict forms. -/
theorem bind {f f' : α → SearchM σ β} {R' : β → Work → Prop} (h : Agrees strict plain w R)
    (hf : ∀ a w₁, w.Precedes w₁ → R a w₁ → Agrees (f a) (f' a) w₁ R') :
    Agrees (strict >>= f) (plain >>= f') w R' := by
  intro env
  have hle := (h env).precedes
  have heq := (h env).eq
  cases hr : plain (w, env) with
  | ok a st =>
    rw [hr] at hle heq
    have hrest := hf a st.1 hle ((h env).value a st hr) st.2
    constructor
    · rw [Problem.bind_ok hr]
      exact hle.trans hrest.precedes
    · rw [Problem.bind_ok hr]
      -- the rest counts no less, so if its end is countable the state before it was
      intro hc
      rw [Problem.bind_ok (heq (hrest.precedes.countable hc))]
      exact hrest.eq hc
    · rw [Problem.bind_ok hr]
      exact hrest.value
  | error halt st =>
    rw [hr] at hle heq
    constructor
    · rw [Problem.bind_error hr]
      exact hle
    · rw [Problem.bind_error hr]
      exact fun hc => Problem.bind_error (heq hc)
    · rw [Problem.bind_error hr]
      exact fun _ _ hr => by cases hr

/-- Reading the working state makes no sum. -/
theorem work {f f' : Work → SearchM σ α} (h : Agrees (f w) (f' w) w R) :
    Agrees (SearchM.work >>= f) (SearchM.work >>= f') w R :=
  silent (fun env => Problem.bind_ok (Problem.work_eq w env))
    (fun env => Problem.bind_ok (Problem.work_eq w env)) (.refl w) h

/-- A check that is met if the counts in the end are those of a word. -/
theorem check_of_end {r : Except Fault γ} {c : γ} {f : γ → SearchM σ α}
    (hr : ∀ env, (endState (plain (w, env))).1.Countable → r = .ok c)
    (h : Agrees (f c) plain w R) : Agrees (SearchM.check r >>= f) plain w R := by
  intro env
  refine ⟨(h env).precedes, fun hc => ?_, (h env).value⟩
  have hcheck : SearchM.check r (w, env) = .ok c (w, env) := by
    rw [hr env hc]
    rfl
  rw [Problem.bind_ok hcheck]
  exact (h env).eq hc

/-- A check is met if it is met under all counts of a word. -/
theorem check {r : Except Fault γ} {c : γ} {f : γ → SearchM σ α}
    (hr : w.Countable → r = .ok c) (h : Agrees (f c) plain w R) :
    Agrees (SearchM.check r >>= f) plain w R :=
  check_of_end (fun env hc => hr ((h env).precedes.countable hc)) h

/-- A sum is held if it is a count of a word whenever the counts of the state are. -/
theorem hold {n : Int} (hn : w.Countable → 0 ≤ n ∧ n ≤ Size.largest)
    (h : Agrees strict plain w R) : Agrees (SearchM.hold n >>= fun _ => strict) plain w R :=
  check (fun hc => if_pos (hn hc)) h

/-- A count is held before it goes up. -/
theorem raise {n : Int} {f : Work → Work} (hw : w.Precedes (f w))
    (hn : (f w).Countable → 0 ≤ n ∧ n ≤ Size.largest) (h : Agrees strict plain (f w) R) :
    Agrees (do SearchM.hold n; modifyWork f; strict) (do modifyWork f; plain) w R := by
  have hrun (m : SearchM σ α) (env : σ) :
      (do modifyWork f; m : SearchM σ α) (w, env) = m (f w, env) := rfl
  have hafter := silent (hrun strict) (hrun plain) hw h
  exact check_of_end (fun env hc => if_pos (hn ((h env).precedes.countable hc))) hafter

/-- An update agrees with its strict form if it does so in this state and lets no count fall. -/
theorem update (f g : Work → Except Fault Work) (heq : g w = f w)
    (hf : ∀ w₁, f w = .ok w₁ → w.Precedes w₁) :
    Agrees (SearchM.update g : SearchM σ Unit) (SearchM.update f) w fun _ w' => f w = .ok w' := by
  intro env
  have hg : SearchM.update g (w, env) = SearchM.update f (w, env) := by
    rw [SearchM.update, SearchM.update, heq]
  cases hr : f w with
  | ok w₁ =>
    have hrun : SearchM.update f (w, env) = .ok () (w₁, env) := by rw [SearchM.update, hr]
    rw [hrun] at hg
    refine ⟨hrun ▸ hf w₁ hr, fun _ => hg.trans hrun.symm, fun _ _ h => ?_⟩
    cases hrun.symm.trans h
    rfl
  | error fault =>
    have hrun : SearchM.update f (w, env) = .error (.failed (.fault fault)) (w, env) := by
      rw [SearchM.update, hr]
    rw [hrun] at hg
    refine ⟨hrun ▸ .refl w, fun _ => hg.trans hrun.symm, fun _ _ h => ?_⟩
    cases hrun.symm.trans h

/-- What holds before each of several parts holds after it. -/
theorem foldlM {f f' : β → γ → SearchM σ β} {S : β → Work → Prop} {cs : List γ}
    (h : ∀ c ∈ cs, ∀ b w, S b w → Agrees (f b c) (f' b c) w S) {b : β} (hb : S b w) :
    Agrees (cs.foldlM f b) (cs.foldlM f' b) w S := by
  induction cs generalizing b w with
  | nil => exact pure hb
  | cons c cs ih =>
    rw [List.foldlM_cons, List.foldlM_cons]
    refine (h c List.mem_cons_self b w hb).bind fun b₁ w₁ _ hb₁ => ?_
    exact ih (fun c' hc' => h c' (List.mem_cons_of_mem c hc')) hb₁

/-- What holds before each of several programs holds after it. -/
theorem forM {f f' : γ → SearchM σ Unit} {S : Work → Prop} {cs : List γ}
    (h : ∀ c ∈ cs, ∀ w, S w → Agrees (f c) (f' c) w fun _ w' => S w') (hw : S w) :
    Agrees (cs.forM f) (cs.forM f') w fun _ w' => S w' := by
  induction cs generalizing w with
  | nil => exact pure hw
  | cons c cs ih =>
    refine (h c List.mem_cons_self w hw).bind fun _ w₁ _ hw₁ => ?_
    exact ih (fun c' hc' => h c' (List.mem_cons_of_mem c hc')) hw₁

/-- Slots that are released stay counted among those that were in use. -/
theorem releasing (h : Agrees strict plain w R) (n : Nat)
    (hR : ∀ a w', R a w' → R' a { w' with arena := w'.arena.truncate n }) :
    Agrees (SearchM.releasing n strict) (SearchM.releasing n plain) w R' := by
  intro env
  have hend : (endState (plain (w, env))).1.Precedes
      (endState (SearchM.releasing n plain (w, env))).1 := by
    rcases endState_releasing_or n plain (w, env) with heq | heq
    · rw [heq]
      exact .refl _
    · rw [heq]
      exact ⟨Nat.le_refl _, Nat.le_refl _⟩
  refine ⟨(h env).precedes.trans hend, fun hc => ?_, fun a st hr => ?_⟩
  · simp only [SearchM.releasing, (h env).eq (hend.countable hc)]
  · obtain ⟨st', hm⟩ := exists_of_releasing_eq_ok hr
    have hle : n ≤ st'.1.arena.size := by
      by_contra hn
      simp only [SearchM.releasing, hm] at hr
      cases (Problem.bind_error (revertTo_eq_error hn st'.2)).symm.trans hr
    rw [releasing_of_ok hm hle] at hr
    cases hr
    exact hR a st'.1 ((h env).value a st' hm)

end Agrees

end SearchM

/-! ## Questions -/

namespace Problem

open SearchM

variable {P : Problem ν ε σ} {w : Work} {map parent : CandidateMap} {n k : Nat} {i j : VertexId}

/-- A check that both forms make is no sum. -/
theorem agrees_check (r : Except Fault α) (w : Work) :
    Agrees (check r : SearchM σ α) (check r) w fun _ w' => w' = w :=
  .still fun _ => by cases r <;> rfl

/-- A question makes no sum. -/
theorem agrees_ask (m : Callback σ α) (w : Work) :
    Agrees (ask m) (ask m) w fun _ w' => w' = w :=
  .still fun env => by rw [endState_ask]

/-- Heeding the caller makes no sum. -/
theorem agrees_heed (m : Callback σ Action) (w : Work) :
    Agrees (heed m) (heed m) w fun _ w' => w' = w :=
  .still fun env => by rw [endState_heed]

/-- Reading a slot makes no sum. -/
theorem agrees_slot (position : Nat) (w : Work) :
    Agrees (slot position : SearchM σ VertexId) (slot position) w fun _ w' => w' = w :=
  .work (agrees_check _ w)

/-- The trial of a pair by itself makes no sum. -/
theorem agrees_suitable (P : Problem ν ε σ) (i j : VertexId) (w : Work) :
    Agrees (P.suitable i j) (P.suitable i j) w fun _ w' => w' = w := by
  refine (agrees_check _ w).bind ?_
  rintro loops₁ _ - rfl
  refine (agrees_check _ _).bind ?_
  rintro loops₂ _ - rfl
  split
  · exact .pure rfl
  refine (agrees_ask _ _).bind ?_
  rintro accepted _ - rfl
  split
  · exact .pure rfl
  · exact agrees_ask _ _

/-- The trial of a pair against another one makes no sum. -/
theorem agrees_compatible (P : Problem ν ε σ) (i j iu ju : VertexId) (w : Work) :
    Agrees (P.compatible i j iu ju) (P.compatible i j iu ju) w fun _ w' => w' = w := by
  refine (agrees_check _ w).bind ?_
  rintro there₁ _ - rfl
  refine (agrees_check _ _).bind ?_
  rintro there₂ _ - rfl
  split
  · exact .pure rfl
  refine (agrees_check _ _).bind ?_
  rintro back₁ _ - rfl
  refine (agrees_check _ _).bind ?_
  rintro back₂ _ - rfl
  split
  · exact .pure rfl
  split
  · exact .pure rfl
  · exact agrees_ask _ _

/-! ## Candidate maps -/

/-- The rows of the map are counted in the working state, which is that of `k` pairs. -/
structure Counted (n k : Nat) (map : CandidateMap) (w : Work) : Prop where
  endsBy : map.EndsBy w.arena.highWater
  sized : w.Sized n k

/-- A row that is started has its place in the table and ends at the top of the arena. -/
theorem agrees_startRow (hmap : Counted n k map w) (i : VertexId) (capacity : Nat) :
    Agrees (startRowStrict map i capacity : SearchM σ CandidateMap) (startRow map i capacity) w
      (Counted n k) := by
  have hstrict : (startRowStrict map i capacity : SearchM σ CandidateMap) =
      startRow map i capacity := by
    simp only [startRowStrict, CandidateMap.startStrict_eq]
    rfl
  rw [hstrict]
  intro env
  have hrun := startRow_eq map i capacity w env
  cases hs : map.start w.arena i capacity with
  | error f =>
    rw [hs] at hrun
    exact ⟨hrun ▸ .refl w, fun _ => rfl, fun _ _ hr => by cases hrun.symm.trans hr⟩
  | ok map' =>
    rw [hs] at hrun
    refine ⟨hrun ▸ .refl w, fun _ => rfl, fun _ _ hr => ?_⟩
    cases hrun.symm.trans hr
    exact ⟨hmap.endsBy.start hmap.sized.size_le hs, hmap.sized⟩

/-- A candidate that is pushed takes a slot, and the slots are counted. -/
theorem agrees_pushCandidate (hmap : Counted n k map w) (i j : VertexId) :
    Agrees (pushCandidateStrict map i j : SearchM σ CandidateMap) (pushCandidate map i j) w
      (Counted n k) := by
  refine .work ?_
  dsimp only
  cases hg : map.grow i w.arena.size with
  | error f =>
    have hstrict (hc : w.Countable) : map.growStrict i w.arena.size = .error f := by
      rw [CandidateMap.growStrict_eq hmap.endsBy hc.highWater_le, hg]
      intro map' hok
      cases hg.symm.trans hok
    refine fun env => ⟨.refl w, fun hc => ?_, fun _ _ hr => by cases hr⟩
    rw [hstrict hc]
    exact (bind_error rfl).trans (bind_error rfl).symm
  | ok map' =>
    -- the slot that the candidate takes is counted afterwards
    have hsize (hc : Work.Countable { w with arena := w.arena.push j }) :
        w.arena.size + 1 ≤ Size.largest :=
      Nat.le_trans (Nat.le_max_right _ _) hc.highWater_le
    have hle : w.Precedes { w with arena := w.arena.push j } :=
      ⟨Nat.le_refl _, Nat.le_max_left _ _⟩
    have hcounted : Counted n k map' { w with arena := w.arena.push j } :=
      ⟨(hmap.endsBy.mono hle.highWater_le).grow (Nat.le_max_right _ _) hg, hmap.sized.push j⟩
    have hpush : Agrees (do
          hold (w.arena.size + 1)
          modifyWork fun w => { w with arena := w.arena.push j }
          return map' : SearchM σ CandidateMap)
        (do
          modifyWork fun w => { w with arena := w.arena.push j }
          return map') w (Counted n k) := by
      refine .raise hle (fun hc => ?_) (.pure hcounted)
      have hfits := hsize hc
      omega
    refine .check_of_end (fun env hc => ?_) hpush
    have hc : Work.Countable { w with arena := w.arena.push j } := hc
    rw [CandidateMap.growStrict_eq hmap.endsBy (hle.countable hc).highWater_le, hg]
    exact fun _ _ => hsize hc

/-- A new map has no rows that could end too high. -/
theorem agrees_newMap (hw : w.Sized n k) (m : Nat) :
    Agrees (newMap m : SearchM σ CandidateMap) (newMap m) w (Counted n k) :=
  .work (.pure ⟨.new w.arena m _, hw⟩)

section

variable (hn : n ≤ Size.largest)

include hn

/-- The place behind the last vertex of a set is counted. -/
theorem fits_maxPlusOneOrZero {s : OrderedSet} (hs : s.Linked n) :
    (0 : Int) ≤ s.maxPlusOneOrZero ∧ (s.maxPlusOneOrZero : Int) ≤ Size.largest := by
  have hle := hs.maxPlusOneOrZero_le
  omega

/-- The initial map is built within its table and within the count of the slots. -/
theorem agrees_initialMap (hw : w.Sized n k) :
    Agrees (P.strictSteps.initialMap P) P.initialMap w (Counted n k) := by
  refine .work ((Agrees.hold (fun _ => fits_maxPlusOneOrZero hn hw.considered)
    (agrees_newMap hw _)).bind fun map₀ w₀ _ hmap₀ => ?_)
  refine .foldlM (fun i _ map w hmap => ?_) hmap₀
  refine .work ((agrees_startRow hmap i _).bind fun map₁ w₁ _ hmap₁ => ?_)
  refine .foldlM (fun j _ map w hmap => ?_) hmap₁
  refine (agrees_suitable P i j w).bind ?_
  rintro suits _ - rfl
  split
  · exact agrees_pushCandidate hmap i j
  · exact .pure hmap

omit hn in
/-- A candidate is refined within the count of the slots. -/
theorem agrees_addRefined (hmap : Counted n k map w) (i j iu : VertexId) (position : Nat) :
    Agrees (P.strictSteps.addRefined P i j iu map position)
      (P.steps.addRefined P i j iu map position) w (Counted n k) := by
  refine (agrees_slot position w).bind ?_
  rintro ju _ - rfl
  split
  · exact .pure hmap
  refine (agrees_compatible P i j iu ju _).bind ?_
  rintro accepted _ - rfl
  split
  · exact agrees_pushCandidate hmap iu ju
  · exact .pure hmap

omit hn in
/-- A row that ends where it is counted has a span of counted positions. -/
theorem agrees_span (h : map.EndsBy w.arena.highWater) (i : VertexId) :
    Agrees (P.strictSteps.span map i) (P.steps.span map i) w
      fun span w' => span = map.span i ∧ w' = w := by
  refine fun env => ⟨.refl w, fun hc => ?_, fun _ _ hr => by cases hr; exact ⟨rfl, rfl⟩⟩
  have hstrict : map.spanStrict i = .ok (map.span i) :=
    CandidateMap.spanStrict_eq h hc.highWater_le i
  show check (map.spanStrict i) (w, env) = _
  rw [hstrict]
  rfl

/-- A refined map is built within its table and within the count of the slots. -/
theorem agrees_refine (hparent : Counted n k parent w) (i j : VertexId) :
    Agrees (P.strictSteps.refine P parent i j) (P.refine parent i j) w (Counted n k) := by
  refine .work ((Agrees.hold (fun _ => fits_maxPlusOneOrZero hn hparent.sized.unpaired)
    (agrees_newMap hparent.sized _)).bind fun map₀ w₀ hle₀ hmap₀ => ?_)
  -- the rows of the parent stay counted while slots are added above them
  have hrows : Agrees (w.unpaired.vertices.foldlM (P.strictSteps.addRefinedRow P parent i j) map₀)
      (w.unpaired.vertices.foldlM (P.steps.addRefinedRow P parent i j) map₀) w₀ fun map w =>
        parent.EndsBy w.arena.highWater ∧ Counted n k map w := by
    refine .foldlM (fun iu _ map w ⟨hends, hmap⟩ => ?_)
      ⟨hparent.endsBy.mono hle₀.highWater_le, hmap₀⟩
    have hrow : Agrees (P.strictSteps.addRefinedRow P parent i j map iu)
        (P.steps.addRefinedRow P parent i j map iu) w (Counted n k) := by
      refine (agrees_span hends iu).bind ?_
      rintro span _ - ⟨rfl, rfl⟩
      refine (agrees_startRow hmap iu _).bind fun map₁ w₁ _ hmap₁ => ?_
      exact .foldlM (fun position _ map w hmap => agrees_addRefined hmap i j iu position) hmap₁
    exact hrow.mono fun map' w' hle hmap' => ⟨hends.mono hle.highWater_le, hmap'⟩
  exact hrows.mono fun _ _ _ h => h.2

/-! ## Levels -/

omit hn in
/-- A delivery is counted. -/
theorem agrees_record (hw : w.Sized n k) :
    Agrees P.strictSteps.record P.steps.record w fun _ w' => w'.Sized n k := by
  have hsized : (P.handedOver w).Sized n k :=
    ⟨hw.considered, hw.unpaired, hw.size_xs, hw.size_le⟩
  have hraise : Agrees (do hold (w.found + 1); modifyWork P.handedOver; pure () : SearchM σ Unit)
      (do modifyWork P.handedOver; pure ()) w fun _ w' => w'.Sized n k := by
    refine .raise ⟨Nat.le_succ w.found, Nat.le_refl _⟩ (fun hc => ?_) (.pure hsized)
    have hfits : w.found + 1 ≤ Size.largest := hc.found_le
    omega
  simp only [bind_pure_unit] at hraise
  exact .silent (fun env => bind_ok (work_eq w env)) (fun _ => rfl) (.refl w) hraise

omit hn in
/-- Delivering agrees with its strict form, since the solutions are counted in the end. -/
theorem agrees_deliver (hw : w.Sized n k) :
    Agrees (P.strictSteps.deliver P) P.deliver w fun _ w' => w'.Sized n k := by
  refine .work ?_
  split
  · refine (agrees_record hw).bind fun _ w₁ _ hw₁ => (agrees_heed _ w₁).mono ?_
    rintro _ _ - rfl
    exact hw₁
  · exact .pure hw

/-- A program and its strict form search from a level with `k` pairs on. -/
def Descends (n k : Nat) (strict plain : CandidateMap → SearchM σ Unit) : Prop :=
  ∀ map w, Counted n k map w → Agrees (strict map) (plain map) w fun _ w' => w'.Sized n k

/-- A candidate is tried one level deeper, with one pair more. -/
theorem agrees_tryCandidate {strict plain : CandidateMap → SearchM σ Unit}
    (hdeeper : Descends n (k + 1) strict plain) (hmap : Counted n k map w) (i : VertexId)
    (position : Nat) :
    Agrees (P.strictSteps.tryCandidate P map i strict position)
      (P.tryCandidate map i plain position) w fun _ w' => w'.Sized n k := by
  refine (agrees_slot position w).bind ?_
  rintro j _ - rfl
  refine (Agrees.update (fun w => w.extend i j) (fun w => w.extendStrict i j)
    (hmap.sized.extendStrict_eq hn i j) fun w₁ he => ?_).bind
    fun _ w₁ hle he => ?_
  · obtain rfl := Work.eq_of_extend he
    exact ⟨Nat.le_refl _, Nat.le_refl _⟩
  have hmap₁ : Counted n (k + 1) map w₁ :=
    ⟨hmap.endsBy.mono hle.highWater_le, hmap.sized.extend he⟩
  have hrefined : Agrees (P.strictSteps.refine P map i j >>= strict) (P.refine map i j >>= plain) w₁
      fun _ w' => w'.Sized n (k + 1) :=
    (agrees_refine hn hmap₁ i j).bind fun map₂ w₂ _ hmap₂ => hdeeper map₂ w₂ hmap₂
  refine Agrees.bind (.work (hrefined.releasing w₁.arena.size fun _ w' h => h.truncate _))
    fun _ w₂ _ hw₂ => ?_
  refine (Agrees.update _ _ (hw₂.retractStrict_eq hn) fun w₃ hr => ?_).mono
    fun _ w₃ _ hr => hw₂.retract hr
  obtain ⟨_, _, _, -, -, rfl⟩ := Work.of_retract hr
  exact ⟨Nat.le_refl _, Nat.le_refl _⟩

/-- Every candidate of a row is tried with the same number of pairs. -/
theorem agrees_tries {strict plain : CandidateMap → SearchM σ Unit}
    (hdeeper : Descends n (k + 1) strict plain) (hmap : Counted n k map w) (i : VertexId)
    (positions : List Nat) :
    Agrees (positions.forM (P.strictSteps.tryCandidate P map i strict))
      (positions.forM (P.tryCandidate map i plain)) w fun _ w' => Counted n k map w' := by
  refine .forM (fun position _ w hmap => ?_) hmap
  refine (agrees_tryCandidate hn hdeeper hmap i position).mono fun _ w' hle hw' => ?_
  exact ⟨hmap.endsBy.mono hle.highWater_le, hw'⟩

/-- A vertex is left out for one level deeper, with as many pairs as before. -/
theorem agrees_leaveOut {strict plain : CandidateMap → SearchM σ Unit}
    (hdeeper : Descends n k strict plain) (hmap : Counted n k map w) (i : VertexId) :
    Agrees (do
        P.strictSteps.leaveOut i
        strict map
        P.strictSteps.takeBack i)
      (do
        P.steps.leaveOut i
        plain map
        P.steps.takeBack i) w fun _ w' => w'.Sized n k := by
  have hout (env : σ) :
      update (fun w => w.leaveOutStrict i) (w, env) = .ok () (w.leaveOut i, env) := by
    rw [update, hmap.sized.leaveOutStrict_eq hn i]
  have hwithout := hdeeper map (w.leaveOut i) ⟨hmap.endsBy, hmap.sized.leaveOut i⟩
  refine .silent (fun env => bind_ok (hout env)) (fun _ => rfl)
    ⟨Nat.le_refl _, Nat.le_refl _⟩ (hwithout.bind fun _ w₁ _ hw₁ => ?_)
  refine (Agrees.update (fun w => w.takeBack i) (fun w => w.takeBackStrict i)
    (hw₁.takeBackStrict_eq hn i) fun w₂ hb => ?_).mono
    fun _ w₂ _ hb => hw₁.takeBack hb
  obtain ⟨_, _, _, _, -, -, rfl⟩ := Work.of_takeBack hb
  exact ⟨Nat.le_refl _, Nat.le_refl _⟩

end

/-- The number of a level is held when the level is entered. -/
theorem agrees_enter {level : Nat} (hlevel : level ≤ Size.largest) (map : CandidateMap) (w : Work) :
    Agrees (P.strictSteps.enter map level) (P.steps.enter map level) w fun _ w' => w' = w :=
  .hold (fun _ => by omega) (agrees_heed _ w)

/-- A level agrees with its strict form: there are no more pairs than its number says, and no more
levels than vertices. -/
theorem agrees_explore (hn : n ≤ UInt32.size) (m level : Nat) (hk : k ≤ level)
    (hlevel : level + m ≤ n) :
    Descends n k (fun map => P.strictSteps.explore P m map level)
      fun map => P.explore m map level := by
  have hword : 2 * UInt32.size ≤ Size.largest := by decide
  have hn' : n ≤ Size.largest := by omega
  induction m generalizing level k with
  | zero =>
    intro map w hmap
    refine (agrees_enter (by omega) map w).bind ?_
    rintro _ _ - rfl
    exact agrees_deliver hmap.sized
  | succ m ih =>
    intro map w hmap
    refine (agrees_enter (by omega) map w).bind ?_
    rintro _ w - rfl
    refine .work ?_
    simp only [strictSteps_map, strictSteps_refined, strictSteps_unrefined, steps_map,
      steps_refined, steps_unrefined, pure_bind]
    refine (Agrees.hold (fun _ => ?_) (.pure (R := fun feasible w' =>
      feasible = P.feasible w map ∧ w' = w) ⟨rfl, rfl⟩)).bind ?_
    · have hpairs := hmap.sized.size_xs
      have hopen := hmap.sized.length_openVertices_le map
      omega
    rintro _ w - ⟨rfl, rfl⟩
    split
    swap
    · exact agrees_deliver hmap.sized
    cases w.pick map with
    | none => exact .throw _
    | some i =>
      refine (agrees_span hmap.endsBy i).bind ?_
      rintro span _ - ⟨rfl, rfl⟩
      -- the next level may have one pair more, or as many as this one
      have hdeeper {k' : Nat} (hk' : k' ≤ level + 1) := ih (level + 1) hk' (by omega)
      refine (agrees_tries hn' (hdeeper (Nat.succ_le_succ hk)) hmap i _).bind
        fun _ w₁ _ hmap₁ => ?_
      split
      · exact agrees_leaveOut hn' (hdeeper (Nat.le_succ_of_le hk)) hmap₁ i
      · exact .pure hmap₁.sized

/-- The strict search does what the search does unless solutions or slots outgrow a word. -/
theorem agrees_search (hn : n ≤ UInt32.size) (hw : w.Sized n 0) :
    Agrees P.searchStrict P.search w fun _ w' => w'.Sized n 0 := by
  have hword : UInt32.size ≤ Size.largest := by decide
  refine (agrees_initialMap (Nat.le_trans hn hword) hw).bind fun map w₁ _ hmap => ?_
  simp only [strictSteps_first, steps_first, pure_bind]
  refine .work ?_
  have hlevels : 0 + w₁.unpaired.size ≤ n := by
    have hle := hmap.sized.unpaired.size_le
    omega
  have hexplored :=
    agrees_explore (P := P) hn w₁.unpaired.size 0 (Nat.le_refl 0) hlevels map w₁ hmap
  exact hexplored.releasing map.base fun _ w' h => h.truncate _

end Problem

end CommonSubgraph
