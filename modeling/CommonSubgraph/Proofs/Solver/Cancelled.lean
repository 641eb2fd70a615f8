import CommonSubgraph.Proofs.Solver.Allowed
import CommonSubgraph.Proofs.Solver.Gathering
import CommonSubgraph.Proofs.Solver.Overheard

/-!
# Cancelled searches

Once its token is cancelled a search enters one level more at most, and stops there without asking
the inner caller. What it was about to do before that, it still does: it asks questions, and if the
token was cancelled while the inner caller was told of a level, the level may still hand over its
own solution. Both are read off the notes, which split where the token is first seen to be cancelled
(`Solver.Under.stops_once_cancelled`).

No caller takes a cancellation back (`Predicate.KeepsCancelled`), so later runs of the solver are
cancelled from the beginning.
-/

namespace CommonSubgraph

variable {ν ε σ α : Type}

/-! ## Callers that do not take a cancellation back -/

/-- However the callback ends, a token that was cancelled is cancelled afterwards. -/
def Callback.KeepsCancelled (m : Callback (Token × σ) α) : Prop :=
  ∀ s, s.1.cancelled = true → (endState (m s)).1.cancelled = true

/-- No callback of the predicate takes a cancellation back. -/
structure Predicate.KeepsCancelled (p : Predicate ν ε (Token × σ)) : Prop where
  vertices : ∀ g₁ i g₂ j, (p.vertices g₁ i g₂ j).KeepsCancelled
  edges : ∀ g₁ i₁ i₂ es₁ g₂ j₁ j₂ es₂, (p.edges g₁ i₁ i₂ es₁ g₂ j₁ j₂ es₂).KeepsCancelled
  progress : ∀ level, (p.progress level).KeepsCancelled

/-- The processor does not take a cancellation back. -/
def Processor.KeepsCancelled (q : Processor ν ε (Token × σ)) : Prop :=
  ∀ g₁ xs g₂ ys, (q.process g₁ xs g₂ ys).KeepsCancelled

/-! ## What is still noted -/

namespace Note

/-- The inner caller is told of a level. -/
def isProgress : Note → Bool
  | called (.progress _) _ => true
  | _ => false

/-- A solution is handed over. -/
def isSolution : Note → Bool
  | called (.solution _ _) _ => true
  | _ => false

end Note

/-- What is noted while the token is cancelled, after the note `last`: the inner caller is told of
no level, one level is entered at most, and the first note alone may be of a solution, that of the
level that the inner caller had just been told of. -/
structure Stopping (last : Option Note) (late : List Note) : Prop where
  entered_le : late.countP Note.isEntered ≤ 1
  untold : ∀ note ∈ late, note.isProgress = false
  first : ∀ note ∈ late.tail, note.isSolution = false
  own : (∀ level, last ≠ some (.called (.progress level) false)) →
    ∀ note ∈ late, note.isSolution = false

/-- Nothing need be noted after a cancellation. -/
theorem Stopping.nil (last : Option Note) : Stopping last [] :=
  ⟨Nat.zero_le 1, List.forall_mem_nil _, List.forall_mem_nil _, fun _ => List.forall_mem_nil _⟩

/-- One more note may come after a cancellation, if it is of no level told, no second level entered
and no solution. -/
theorem Stopping.concat {last : Option Note} {late : List Note} (h : Stopping last late)
    {note : Note} (hentered : (late ++ [note]).countP Note.isEntered ≤ 1)
    (hprogress : note.isProgress = false) (hsolution : note.isSolution = false) :
    Stopping last (late ++ [note]) where
  entered_le := hentered
  untold := List.forall_mem_append.mpr ⟨h.untold, List.forall_mem_singleton.mpr hprogress⟩
  first := by
    cases late with
    | nil => exact List.forall_mem_nil _
    | cons first rest =>
      exact List.forall_mem_append.mpr ⟨h.first, List.forall_mem_singleton.mpr hsolution⟩
  own hlast := List.forall_mem_append.mpr ⟨h.own hlast, List.forall_mem_singleton.mpr hsolution⟩

/-- The notes, with those in `late` taken while the token was cancelled. `began` says that it was
cancelled from the beginning, and `cancelled` that it is by now. -/
structure NotesSplit (began : Prop) (cancelled : Bool) (notes calm late : List Note) : Prop where
  notes_eq : notes = calm ++ late
  not_cancelled : ∀ note ∈ calm, note.cancelled = false
  all_cancelled : ∀ note ∈ late, note.cancelled = true
  by_now : late ≠ [] → cancelled = true
  began : began → calm = [] ∧ cancelled = true

/-- The search may be over. -/
def MayBeOver (began : Prop) (y : Watch × (σ × List Note)) : Prop :=
  ∃ calm late, NotesSplit began y.1.token.cancelled y.2.2 calm late ∧ Stopping calm.getLast? late

/-- The search may go on with a question or with entering a level; if the token is cancelled, it has
not entered one since. -/
def MayGoOn (began : Prop) (y : Watch × (σ × List Note)) : Prop :=
  ∃ calm late, NotesSplit began y.1.token.cancelled y.2.2 calm late ∧
    Stopping calm.getLast? late ∧ late.countP Note.isEntered = 0

/-- The inner caller was just told of a level, with a token that was not cancelled. -/
structure JustTold (began : Prop) (y : Watch × (σ × List Note)) : Prop where
  not_began : ¬ began
  not_cancelled : ∀ note ∈ y.2.2, note.cancelled = false
  last : ∃ level, y.2.2.getLast? = some (.called (.progress level) false)

section

variable {began : Prop} {cancelled : Bool} {w : Watch} {s : σ} {notes calm late : List Note}
variable {note : Note} {y : Watch × (σ × List Note)}

/-- A note that is taken while the token is not cancelled comes before all the late ones. -/
theorem NotesSplit.calm_concat (h : NotesSplit began false notes calm late)
    (hnote : note.cancelled = false) :
    NotesSplit began cancelled (notes ++ [note]) (calm ++ [note]) [] := by
  have hlate : late = [] := by
    by_contra hne
    exact Bool.false_ne_true (h.by_now hne)
  refine ⟨?_, ?_, List.forall_mem_nil _, fun hne => absurd rfl hne, fun hb => ?_⟩
  · rw [h.notes_eq, hlate, List.append_nil, List.append_nil]
  · exact List.forall_mem_append.mpr ⟨h.not_cancelled, List.forall_mem_singleton.mpr hnote⟩
  · exact absurd (h.began hb).2 Bool.false_ne_true

/-- A note that is taken while the token is cancelled is a late one. -/
theorem NotesSplit.late_concat (h : NotesSplit began cancelled notes calm late)
    (hnote : note.cancelled = true) :
    NotesSplit began true (notes ++ [note]) calm (late ++ [note]) where
  notes_eq := by rw [h.notes_eq, List.append_assoc]
  not_cancelled := h.not_cancelled
  all_cancelled := List.forall_mem_append.mpr
    ⟨h.all_cancelled, List.forall_mem_singleton.mpr hnote⟩
  by_now _ := rfl
  began hb := ⟨(h.began hb).1, rfl⟩

/-- Where the search may go on, it may also be over. -/
theorem MayGoOn.mayBeOver (h : MayGoOn began y) : MayBeOver began y := by
  obtain ⟨calm, late, hsplit, hstop, -⟩ := h
  exact ⟨calm, late, hsplit, hstop⟩

/-- After the inner caller was told of a level, the search may go on. -/
theorem JustTold.mayGoOn (h : JustTold began y) : MayGoOn began y := by
  refine ⟨y.2.2, [], ⟨(List.append_nil _).symm, h.not_cancelled, List.forall_mem_nil _, ?_, ?_⟩,
    .nil _, rfl⟩
  · exact fun hne => absurd rfl hne
  · exact fun hb => absurd hb h.not_began

/-! ## One callback after the other -/

/-- What holds with the note of an inner call holds after the call, however it ends. -/
theorem ensures_overheard {m : Callback (Token × σ) α} (hm : m.KeepsCancelled) (e : Event)
    {Q : Watch × (σ × List Note) → Prop}
    (h : ∀ token s', (w.token.cancelled = true → token.cancelled = true) →
      Q ({ w with token }, s', notes ++ [.called e w.token.cancelled])) :
    Ensures (m.overheard e).watched (w, s, notes) (fun _ => Q) fun _ => Q := by
  have hkept := hm (w.token, s)
  rw [Ensures, Callback.overheard_watched_eq]
  cases hr : m (w.token, s) with
  | ok a st =>
    rw [hr] at hkept
    exact h st.1 st.2 hkept
  | error f st =>
    rw [hr] at hkept
    exact h st.1 st.2 hkept

/-- A question leaves it open what comes next. -/
theorem MayGoOn.asked (h : MayGoOn began y) {m : Callback (Token × σ) α} (hm : m.KeepsCancelled)
    {e : Event} (he : e.isHook = false) :
    Ensures (m.overheard e).watched y (fun _ => MayGoOn began) fun _ => MayBeOver began := by
  obtain ⟨⟨⟨cancelled⟩, steps, deepest⟩, s, notes⟩ := y
  obtain ⟨calm, late, hsplit, hstop, hcount⟩ := h
  refine Ensures.mono (ensures_overheard hm e ?_) (fun _ _ h => h) fun _ _ => MayGoOn.mayBeOver
  rintro ⟨cancelled'⟩ s' hkept
  cases cancelled with
  | false => exact ⟨_, [], hsplit.calm_concat rfl, .nil _, rfl⟩
  | true =>
    obtain rfl : cancelled' = true := hkept rfl
    have hcount' : (late ++ [Note.called e true]).countP Note.isEntered = 0 := by
      rw [List.countP_append, hcount]
      rfl
    refine ⟨calm, _, hsplit.late_concat rfl,
      hstop.concat (hcount'.trans_le (Nat.zero_le 1)) ?_ ?_, hcount'⟩
    · cases e with
      | progress => cases he
      | _ => rfl
    · cases e with
      | solution => cases he
      | _ => rfl

/-- With its token cancelled a search stops at the next level. -/
theorem MayGoOn.entered (h : MayGoOn began y) {p : Predicate ν ε (Token × σ)}
    (hp : p.KeepsCancelled) (budget : Option Nat) (level : Nat) :
    Ensures ((p.overseen budget).progress level) y
      (afterAction (JustTold began) (MayBeOver began)) fun _ => MayBeOver began := by
  obtain ⟨⟨⟨cancelled⟩, steps, deepest⟩, s, notes⟩ := y
  obtain ⟨calm, late, hsplit, hstop, hcount⟩ := h
  rw [Ensures, Predicate.overseen_progress_eq, Predicate.cancellable_progress_eq]
  -- with the token cancelled, this entry is the one that may still be noted
  cases cancelled with
  | true =>
    have hcount' : (late ++ [Note.entered level true]).countP Note.isEntered ≤ 1 := by
      rw [List.countP_append, hcount]
      rfl
    exact ⟨calm, _, hsplit.late_concat rfl, hstop.concat hcount' rfl rfl⟩
  | false =>
    have hentered (c : Bool) : NotesSplit began c (notes ++ [Note.entered level false])
        (calm ++ [.entered level false]) [] := hsplit.calm_concat rfl
    have htold (c : Bool) : NotesSplit began c
        (notes ++ [Note.entered level false] ++ [.called (.progress level) false])
        (calm ++ [.entered level false] ++ [.called (.progress level) false]) [] :=
      (hentered false).calm_concat rfl
    by_cases hover :
        (false || (Watch.record ⟨⟨false⟩, steps, deepest⟩ level).overBudget budget) = true
    · rw [if_pos hover]
      exact ⟨_, [], hentered false, .nil _⟩
    rw [if_neg hover]
    -- the inner caller may cancel the token while it is told of the level, after the notes were
    -- taken
    refine Ensures.mono (ensures_overheard (Q := JustTold began) (hp.progress level) _ ?_) ?_ ?_
    · rintro token s' -
      refine ⟨fun hb => Bool.false_ne_true (hsplit.began hb).2, ?_, level, List.getLast?_concat⟩
      have hnotes := (htold false).notes_eq
      rw [List.append_nil] at hnotes
      exact hnotes ▸ (htold false).not_cancelled
    · intro action y hy
      cases action with
      | proceed => exact hy
      | abort => exact hy.mayGoOn.mayBeOver
    · exact fun _ _ hy => hy.mayGoOn.mayBeOver

/-- A level that the inner caller was told of may hand over its solution. -/
theorem JustTold.given (h : JustTold began y) {m : Callback (Token × σ) Action}
    (hm : m.KeepsCancelled) (xs ys : List VertexId) :
    Ensures (m.overheard (.solution xs ys)).watched y
      (afterAction (MayGoOn began) (MayBeOver began)) fun _ => MayBeOver began := by
  obtain ⟨calm, late, hsplit, -, -⟩ := h.mayGoOn
  obtain ⟨hbegan, hcalm, level, hlast⟩ := h
  obtain ⟨⟨⟨cancelled⟩, steps, deepest⟩, s, notes⟩ := y
  refine Ensures.mono (ensures_overheard (Q := MayGoOn began) hm _ ?_) ?_
    fun _ _ => MayGoOn.mayBeOver
  · rintro ⟨cancelled'⟩ s' hkept
    cases cancelled with
    | false => exact ⟨_, [], hsplit.calm_concat rfl, .nil _, rfl⟩
    | true =>
      have hsplit' : NotesSplit began cancelled' (notes ++ [.called (.solution xs ys) true]) notes
          [.called (.solution xs ys) true] :=
        ⟨rfl, hcalm, List.forall_mem_singleton.mpr rfl, fun _ => hkept rfl,
          fun hb => absurd hb hbegan⟩
      exact ⟨notes, _, hsplit', ⟨Nat.zero_le 1, List.forall_mem_singleton.mpr rfl,
        List.forall_mem_nil _, fun hne => absurd hlast (hne level)⟩, rfl⟩
  · intro action y hy
    cases action with
    | proceed => exact hy
    | abort => exact hy.mayBeOver

end

/-- The protocol of a caller that can be cancelled. -/
theorem Problem.protocol_overseen {σ' : Type} (P : Problem ν ε σ') {p : Predicate ν ε (Token × σ)}
    {q : Processor ν ε (Token × σ)} (hp : p.KeepsCancelled) (hq : q.KeepsCancelled)
    (budget : Option Nat) (began : Prop) :
    (P.recast (p.overseen budget) q.overheard.watched).Protocol (MayGoOn began) (JustTold began)
      (MayBeOver began) where
  vertices _ _ _ h := h.asked (hp.vertices _ _ _ _) rfl
  edges _ _ _ _ _ _ _ h := h.asked (hp.edges _ _ _ _ _ _ _ _) rfl
  progress level _ h := h.entered hp budget level
  process xs ys _ _ h := h.given (hq _ _ _ _) xs ys
  idle_of_entered _ h := h.mayGoOn
  final_of_idle _ h := h.mayBeOver

/-! ## Runs -/

namespace Solver

variable {t t' : Solver ν ε (Watch × σ)} {p : Predicate ν ε (Token × σ)}
variable {q : Processor ν ε (Token × σ)} {budget : Option Nat}

/-- The solvers that `t` can become. Nothing that is done between runs takes a cancellation back. -/
inductive Later (t : Solver ν ε (Watch × σ)) : Solver ν ε (Watch × σ) → Prop where
  | refl : Later t t
  | withConfig {s s' : Solver ν ε (Watch × σ)} (hs : Later t s) (c : Config)
    (h : s.withConfig c = .ok s') : Later t s'
  | setConfig {s : Solver ν ε (Watch × σ)} (hs : Later t s) (c : Config) : Later t (s.setConfig c)
  | setMinimum {s : Solver ν ε (Watch × σ)} (hs : Later t s) (n : Nat) : Later t (s.setMinimum n)
  | setEnv {s : Solver ν ε (Watch × σ)} (hs : Later t s) (env : Watch × σ)
    (hkept : s.env.1.token.cancelled = true → env.1.token.cancelled = true) :
    Later t { s with env }
  | reset {s : Solver ν ε (Watch × σ)} (hs : Later t s) : Later t s.reset.2
  | run {s : Solver ν ε (Watch × σ)} (hs : Later t s) : Later t s.run.2

/-- A solver with the same predicate and processor has the same caller. -/
theorem Under.of_problem (h : t.Under p q budget)
    (hp : t'.problem.predicate = t.problem.predicate)
    (hq : t'.problem.processor = t.problem.processor) : t'.Under p q budget :=
  ⟨hp.trans h.predicate_eq, hq.trans h.processor_eq⟩

/-- A run leaves its caller with the same predicate, processor and budget. -/
theorem Under.run (h : t.Under p q budget) : t.run.2.Under p q budget :=
  h.of_problem (congrArg Problem.predicate t.problem_run) (congrArg Problem.processor t.problem_run)

/-- The notes of a run split where the token is first seen to be cancelled. -/
theorem Under.exists_split (h : t.Under p q budget) (hp : p.KeepsCancelled)
    (hq : q.KeepsCancelled) :
    ∃ calm late, NotesSplit (t.env.1.token.cancelled = true) t.run.2.env.1.token.cancelled
      (t.notes p q budget) calm late ∧ Stopping calm.getLast? late := by
  have hstart : MayGoOn (t.env.1.token.cancelled = true) (t.overheard p q budget).env :=
    ⟨[], [], ⟨rfl, List.forall_mem_nil _, List.forall_mem_nil _, fun hne => absurd rfl hne,
      fun hb => ⟨rfl, hb⟩⟩, .nil _, rfl⟩
  have hover := final_run (t.problem.protocol_overseen hp hq budget _) hstart
  rw [← h.run_overheard.env]
  exact hover

/-- Whatever is done with a solver, its caller stays the same and its token stays cancelled. -/
theorem Later.keeps (h : t.Later t') (ht : t.Under p q budget) (hp : p.KeepsCancelled)
    (hq : q.KeepsCancelled) (hcancelled : t.env.1.token.cancelled = true) :
    t'.Under p q budget ∧ t'.env.1.token.cancelled = true := by
  -- no operation between runs takes a cancellation back; for a run the notes tell
  induction h with
  | refl => exact ⟨ht, hcancelled⟩
  | @withConfig s s' _ c h ih =>
    rw [Solver.withConfig] at h
    cases hn : newArena (s.setConfig c).problem with
    | error f =>
      rw [hn] at h
      cases h
    | ok a =>
      rw [hn] at h
      cases h
      exact ⟨ih.1.of_problem rfl rfl, ih.2⟩
  | setConfig _ c ih => exact ⟨ih.1.of_problem rfl rfl, ih.2⟩
  | setMinimum _ n ih => exact ⟨ih.1.of_problem rfl rfl, ih.2⟩
  | setEnv _ env hkept ih => exact ⟨ih.1.of_problem rfl rfl, hkept ih.2⟩
  | @reset s _ ih =>
    obtain ⟨hproblem, hsame⟩ := s.reset_keeps
    refine ⟨ih.1.of_problem (congrArg Problem.predicate hproblem)
      (congrArg Problem.processor hproblem), ?_⟩
    rw [hsame]
    exact ih.2
  | run _ ih =>
    obtain ⟨calm, late, hsplit, -⟩ := ih.1.exists_split hp hq
    exact ⟨ih.1.run, (hsplit.began ih.2).2⟩

/-- Of a run, the notes taken while the token was cancelled are those of a search that is stopping;
if it was cancelled from the beginning, these are all notes. With a token that is cancelled at the
end of the run, the same goes for all later runs. -/
theorem Under.stops_once_cancelled (h : t.Under p q budget) (hp : p.KeepsCancelled)
    (hq : q.KeepsCancelled) :
    (∃ calm late, NotesSplit (t.env.1.token.cancelled = true) t.run.2.env.1.token.cancelled
      (t.notes p q budget) calm late ∧ Stopping calm.getLast? late) ∧
    (t.run.2.env.1.token.cancelled = true → ∀ t', t.run.2.Later t' →
      Stopping none (t'.notes p q budget)) := by
  refine ⟨h.exists_split hp hq, fun hcancelled t' hlater => ?_⟩
  obtain ⟨hunder, hcancelled'⟩ := hlater.keeps h.run hp hq hcancelled
  obtain ⟨calm, late, hsplit, hstop⟩ := hunder.exists_split hp hq
  obtain ⟨rfl, -⟩ := hsplit.began hcancelled'
  rw [hsplit.notes_eq]
  exact hstop

/-- A processor that cancels the search is given one solution of it. The run after that asks about
vertices, is told of no level, and is given nothing. -/
theorem stops_once_cancelled_looped_longer :
    let q : Processor Unit Unit (Token × Unit) :=
      ⟨fun _ _ _ _ => do set ((⟨true⟩, ()) : Token × Unit); return .proceed⟩
    let t := ((byStructure .looped .longer .default).recast Predicate.structural q
      (⟨false⟩, ())).cancellable none
    t.Under Predicate.structural q none ∧
      (t.notes Predicate.structural q none).countP Note.isSolution = 1 ∧
      (t.run.2.notes Predicate.structural q none).length = 15 ∧
      Stopping none (t.run.2.notes Predicate.structural q none) := by
  intro q t
  have hunder : t.Under Predicate.structural q none := ⟨rfl, rfl⟩
  have hp : (Predicate.structural : Predicate Unit Unit (Token × Unit)).KeepsCancelled :=
    ⟨fun _ _ _ _ _ h => h, fun _ _ _ _ _ _ _ _ _ h => h, fun _ _ h => h⟩
  have hq : q.KeepsCancelled := fun _ _ _ _ _ _ => rfl
  have hlater := (hunder.stops_once_cancelled hp hq).2 (by decide +kernel)
  exact ⟨hunder, by decide +kernel, by decide +kernel, hlater _ .refl⟩

end Solver

end CommonSubgraph
