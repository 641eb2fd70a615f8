import CommonSubgraph.Proofs.Arena
import CommonSubgraph.Proofs.Search.Rows

/-!
# Candidate maps on one arena

Maps that are nested share an arena: a map is created while others are in use, only the newest one
is filled, and it is released before they are. `Stack.Op` are the operations of such a life, and
`s.Reached a₀ Ls` says that operations which kept to their contracts led from the arena `a₀` without
maps to the stack `s`. Beside the stack it keeps a `Layer` for each map: the candidates that were
pushed to it and the contents of the arena at the time the map was created.

Maps never disturb each other (`Stack.Reached.undisturbed`): every row of every map reads as the
candidates pushed to it, no two rows share a position, an operation can only fail for want of
slots and then changes nothing, and releasing the newest map leaves the arena as it was found.

What carries the proof is that a map is stored above what was there when it was created, and that
this is a prefix of the arena for as long as the map lives. So each map can be described by the
arena in which it was the newest one (`Stack.Holds`), and an operation only ever has to do with the
first of these descriptions.
-/

namespace CommonSubgraph

namespace CandidateMap

/-! ## Operations on nested maps -/

/-- Maps on one arena, the newest first. -/
structure Stack where
  arena : Arena VertexId
  maps : List CandidateMap
deriving DecidableEq

namespace Stack

/-- What can be done with nested maps. All but the creation are done to the newest one. -/
inductive Op where
  | create
  | reserveRows (n : Nat)
  | start (i : VertexId) (capacity : Nat)
  | push (i j : VertexId)
  | release
deriving DecidableEq

/-- Go on with the value, or fail in the state reached. -/
def attempt {α : Type} : Except Failure α → EStateM Failure Stack α
  | .ok x => pure x
  | .error e => throw e

/-- Carry out an operation. Without a map only a creation has an effect. -/
def Op.exec (op : Op) : EStateM Failure Stack Unit := do
  let ⟨a, maps⟩ ← get
  match op, maps with
  | .create, maps => set (Stack.mk a (new a :: maps))
  | _, [] => pure ()
  | .reserveRows n, m :: ms => do
    let m ← attempt ((m.reserveRowsChecked n).mapError .fault)
    set (Stack.mk a (m :: ms))
  | .start i capacity, m :: ms => do
    let m ← attempt (m.startChecked a i capacity)
    set (Stack.mk a (m :: ms))
  | .push i j, m :: ms => do
    let (m, a) ← attempt ((m.push a i j).mapError .fault)
    set (Stack.mk a (m :: ms))
  | .release, m :: ms => do
    let a ← attempt ((m.release a).mapError .fault)
    set (Stack.mk a ms)

/-- The contract of an operation: a row is started once, and candidates go to the row started last
and are no more than were announced. -/
def Op.Meets (op : Op) (s : Stack) : Prop :=
  match op, s.maps with
  | .create, _ => True
  | _, [] => False
  | .reserveRows _, _ => True
  | .start i _, m :: _ => m.hasRow i = false
  | .push i _, m :: _ => m.newest = some i ∧ ∀ r, m.row? i = some r → r.length < r.capacity
  | .release, _ => True

/-- The ways in which an operation may fail: the arena is full or a table would be too large. -/
def Op.Refuses : Op → Failure → Prop
  | .reserveRows _, e => e = .fault .capacityOverflow
  | .start _ _, e => (∃ x, e = .exhausted x) ∨ e = .fault .capacityOverflow
  | _, _ => False

/-- What is remembered of a map: the rows that were started with the candidates pushed to them, and
the arena as it was when the map was created. -/
structure Layer where
  pushed : VertexId → Option (List VertexId)
  below : Arena VertexId

/-- What is remembered once an operation has been carried out on `s`. -/
def Op.note (op : Op) (s : Stack) : List Layer → List Layer
  | [] => if op = .create then [⟨fun _ => none, s.arena⟩] else []
  | L :: Ls =>
    match op with
    | .create => ⟨fun _ => none, s.arena⟩ :: L :: Ls
    | .reserveRows _ => L :: Ls
    | .start i _ => { L with pushed := Function.update L.pushed i (some []) } :: Ls
    | .push i j =>
      { L with pushed := Function.update L.pushed i ((L.pushed i).map (· ++ [j])) } :: Ls
    | .release => Ls

/-- Operations that met their contracts led from `a₀` to the stack, whether they failed or not. -/
inductive Reached (a₀ : Arena VertexId) : Stack → List Layer → Prop
  | begin : Reached a₀ ⟨a₀, []⟩ []
  | done {s t : Stack} {Ls : List Layer} {op : Op} (h : Reached a₀ s Ls) (hc : op.Meets s)
      (hx : op.exec s = .ok () t) : Reached a₀ t (op.note s Ls)
  | failed {s t : Stack} {Ls : List Layer} {op : Op} {e : Failure} (h : Reached a₀ s Ls)
      (hc : op.Meets s) (hx : op.exec s = .error e t) : Reached a₀ t Ls

end Stack

/-! ## Rows in an arena -/

/-- The rows of the map are those of `pushed`. They lie above the base of the map, apart from each
other, and end where a machine word can name a position. -/
structure Stored (m : CandidateMap) (a : Arena VertexId)
    (pushed : VertexId → Option (List VertexId)) : Prop where
  hasRow_eq : ∀ i, m.hasRow i = (pushed i).isSome
  reads : m.Reads a fun i => (pushed i).getD []
  base_le : ∀ i r, m.row? i = some r → m.base ≤ r.start
  end_le : ∀ i r, m.row? i = some r → r.start + r.length ≤ a.size
  room : ∀ i r, m.row? i = some r →
    r.length ≤ r.capacity ∧ r.start + r.capacity ≤ Size.largest
  disjoint : ∀ i k, i ≠ k → (m.span i).Disjoint (m.span k)

/-- The row started last ends at the top of the arena. -/
def EndsAtTop (m : CandidateMap) (a : Arena VertexId) : Prop :=
  ∀ i, m.newest = some i → ∃ r, m.row? i = some r ∧ r.start + r.length = a.size

section

variable {m m' : CandidateMap} {a b : Arena VertexId}
  {pushed : VertexId → Option (List VertexId)} {i j k : VertexId} {n p : Nat}

/-- A map stays stored while the arena grows above it. -/
theorem Stored.of_grown (h : m.Stored a pushed) (hab : a.Grown b) : m.Stored b pushed :=
  { h with
    reads := h.reads.of_prefix hab.slots
    end_le := fun i r hr => Nat.le_trans (h.end_le i r hr) hab.size_le }

/-- The positions of a row lie between the base of the map and the top of the arena. -/
theorem Stored.mem_span (h : m.Stored a pushed) (hp : p ∈ m.span i) :
    m.base ≤ p ∧ p < a.size := by
  rw [span] at hp
  cases hr : m.row? i with
  | none =>
    rw [hr] at hp
    cases hp
  | some r =>
    rw [hr] at hp
    have hb := h.base_le i r hr
    have he := h.end_le i r hr
    obtain ⟨hle, hlt⟩ := List.mem_range'_1.mp hp
    omega

/-- Whatever is said of the rows carries over to a map with the same rows and the same base. -/
theorem Stored.of_row?_eq (h : m.Stored a pushed) (hrow : ∀ i, m'.row? i = m.row? i)
    (hbase : m'.base = m.base) : m'.Stored a pushed := by
  have hspan (i : VertexId) : m'.span i = m.span i := by rw [span, span, hrow]
  constructor
  case hasRow_eq => exact fun i => by rw [hasRow, hrow]; exact h.hasRow_eq i
  case reads => exact fun i => hspan i ▸ h.reads i
  case base_le => exact fun i r hr => hbase ▸ h.base_le i r (hrow i ▸ hr)
  case end_le => exact fun i r hr => h.end_le i r (hrow i ▸ hr)
  case room => exact fun i r hr => h.room i r (hrow i ▸ hr)
  case disjoint => exact fun i k hik => hspan i ▸ hspan k ▸ h.disjoint i k hik

/-- What holds of the row that was entered and of the old ones holds of all rows. -/
theorem forall_row_of_entered {r : Row} {p : Row → Prop}
    (hrow : ∀ k, m'.row? k = if k = i then some r else m.row? k) (hr : p r)
    (hold : ∀ k r', m.row? k = some r' → p r') (k : VertexId) (r' : Row)
    (hk : m'.row? k = some r') : p r' := by
  rw [hrow] at hk
  split at hk
  · exact Option.some.inj hk ▸ hr
  · exact hold k r' hk

/-- A row that is entered apart from the old ones leaves all rows apart from each other. -/
theorem disjoint_of_entered {r : Row}
    (hrow : ∀ k, m'.row? k = if k = i then some r else m.row? k)
    (hapart : ∀ k, k ≠ i → (m.span k).Disjoint (List.range' r.start r.length))
    (hold : ∀ j k, j ≠ k → (m.span j).Disjoint (m.span k)) (j k : VertexId) (hjk : j ≠ k) :
    (m'.span j).Disjoint (m'.span k) := by
  have hspan_self : m'.span i = List.range' r.start r.length :=
    span_of_row? ((hrow i).trans (if_pos rfl))
  have hspan {k : VertexId} (hk : k ≠ i) : m'.span k = m.span k := by
    rw [span, span, hrow, if_neg hk]
  by_cases hj : j = i
  · subst hj
    rw [hspan_self, hspan hjk.symm]
    exact List.disjoint_symm (hapart k hjk.symm)
  · rw [hspan hj]
    by_cases hk : k = i
    · rw [hk, hspan_self]
      exact hapart j hj
    · rw [hspan hk]
      exact hold j k hjk

/-- A map whose row of `i` is entered anew stays stored if that row lies above the base and apart
from the other rows. -/
theorem Stored.entered (h : m.Stored a pushed) {r : Row} {l : List VertexId}
    (hab : a.size ≤ b.size) (hrow : ∀ k, m'.row? k = if k = i then some r else m.row? k)
    (hbase : m'.base = m.base)
    (hreads : m'.Reads b (Function.update (fun k => (pushed k).getD []) i l))
    (hstart : m.base ≤ r.start) (hend : r.start + r.length ≤ b.size)
    (hroom : r.length ≤ r.capacity ∧ r.start + r.capacity ≤ Size.largest)
    (hapart : ∀ k, k ≠ i → (m.span k).Disjoint (List.range' r.start r.length)) :
    m'.Stored b (Function.update pushed i (some l)) where
  hasRow_eq k := by
    rw [hasRow, hrow]
    by_cases hk : k = i
    · simp [hk]
    · rw [if_neg hk, Function.update_of_ne hk]
      exact h.hasRow_eq k
  reads := by
    have hrows : (fun k => ((Function.update pushed i (some l)) k).getD []) =
        Function.update (fun k => (pushed k).getD []) i l := by
      funext k
      by_cases hk : k = i
      · rw [hk, Function.update_self, Function.update_self]
        rfl
      · rw [Function.update_of_ne hk, Function.update_of_ne hk]
    exact hrows ▸ hreads
  base_le := hbase ▸ forall_row_of_entered hrow hstart h.base_le
  end_le := forall_row_of_entered hrow hend fun k r' hr => Nat.le_trans (h.end_le k r' hr) hab
  room := forall_row_of_entered hrow hroom h.room
  disjoint := disjoint_of_entered hrow hapart h.disjoint

/-! ## A new map, a new row, a new candidate -/

/-- A new map is stored in any arena, without rows. -/
theorem stored_new (a : Arena VertexId) : (new a).Stored a fun _ => none := by
  have hrow (i : VertexId) : (new a).row? i = none := row?_new a i
  have hspan (i : VertexId) : (new a).span i = [] := by rw [span, hrow]
  constructor
  case hasRow_eq => exact fun i => by rw [hasRow, hrow]; rfl
  case reads => exact fun i => hspan i ▸ List.Forall₂.nil
  case disjoint => exact fun i k _ => hspan i ▸ List.disjoint_nil_left _
  all_goals
    intro i r hr
    rw [hrow] at hr
    cases hr

/-- A row is started if the slots announced for it can be granted, and is refused otherwise. -/
theorem startChecked_eq (hi : m.hasRow i = false) :
    (m.startChecked a i n = .ok (m.started a i n) ∧ a.size + n ≤ Size.largest) ∨
      ∃ e, m.startChecked a i n = .error e ∧ (Stack.Op.start i n).Refuses e := by
  unfold startChecked start Arena.reserveChecked
  rw [hi]
  cases hr : a.reserve n with
  | error x => exact .inr ⟨.exhausted x, rfl, .inl ⟨x, rfl⟩⟩
  | ok top =>
    obtain rfl := Arena.eq_size_of_reserve hr
    by_cases hfit : VertexId.bytes * (a.size + n) ≤ Storage.largestBlock
    · refine .inl ⟨?_, ?_⟩
      · have hc := Storage.check_eq_ok_iff.mpr hfit
        simp [hc, Except.mapError, bind, Except.bind, pure, Except.pure, started]
      · simp only [VertexId.bytes, Storage.largestBlock, Size.largest] at *
        omega
    · refine .inr ⟨.fault .capacityOverflow, ?_, .inr rfl⟩
      simp [Storage.check, hfit, Except.mapError, bind, Except.bind]

/-- A row that was started is stored at the top of the arena and is empty. -/
theorem Stored.started (h : m.Stored a pushed) (hi : m.hasRow i = false) (hbase : m.base ≤ a.size)
    (hn : a.size + n ≤ Size.largest) :
    (m.started a i n).Stored a (Function.update pushed i (some [])) ∧
      (m.started a i n).EndsAtTop a := by
  have hrow (k : VertexId) := row?_started m a i k n
  have hpushed : (pushed i).getD [] = [] := by
    have hnone : pushed i = none := by
      rw [← Option.isNone_iff_eq_none, ← Option.not_isSome, ← h.hasRow_eq, hi]
      rfl
    rw [hnone]
    rfl
  have hrows : Function.update (fun k => (pushed k).getD []) i [] = fun k => (pushed k).getD [] :=
    Function.update_eq_self_iff.mpr hpushed.symm
  have hreads := (filling_started h.reads hi n).reads
  rw [← hrows] at hreads
  refine ⟨?_, fun k hk => ?_⟩
  · exact h.entered (Nat.le_refl _) hrow rfl hreads hbase (Nat.le_refl _) ⟨Nat.zero_le _, hn⟩
      fun k _ => List.disjoint_nil_right _
  · obtain rfl : i = k := Option.some.inj hk
    exact ⟨_, (hrow i).trans (if_pos rfl), Nat.add_zero _⟩

/-- A candidate within the announced number is always taken, and is then the last of its row. -/
theorem Stored.push (h : m.Stored a pushed) (htop : m.EndsAtTop a) (hi : m.newest = some i)
    (hroom : ∀ r, m.row? i = some r → r.length < r.capacity) (j : VertexId) :
    ∃ m', m.push a i j = .ok (m', a.push j) ∧ m'.base = m.base ∧
      m'.Stored (a.push j) (Function.update pushed i ((pushed i).map (· ++ [j]))) ∧
      m'.EndsAtTop (a.push j) := by
  obtain ⟨r, hr, hend⟩ := htop i hi
  have hlt := hroom r hr
  obtain ⟨l, hl⟩ : ∃ l, pushed i = some l := by
    rw [← Option.isSome_iff_exists, ← h.hasRow_eq, hasRow, hr]
    rfl
  have hfill : m.Filling a (fun k => (pushed k).getD []) i (r.capacity - r.length - 1 + 1) :=
    ⟨h.reads, hi, r, hr, hend, by omega⟩
  obtain ⟨m', hm', hfill', -, hb⟩ := hfill.grow j
  have hrow (k : VertexId) :
      m'.row? k = if k = i then some { r with length := r.length + 1 } else m.row? k := by
    obtain ⟨r', hr', -, -, rfl⟩ := of_grow hm'
    obtain rfl := Option.some.inj (hr.symm.trans hr')
    exact row?_enter_of_row? hr _ k
  have hlonger : r.start + (r.length + 1) = (a.push j).size := by
    rw [Arena.size_push, ← hend]
    rfl
  -- the row is longer by the position at the top, which no other row has
  have hapart (k : VertexId) (hk : k ≠ i) :
      (m.span k).Disjoint (List.range' r.start (r.length + 1)) := by
    rw [List.range'_concat, Nat.one_mul, hend, List.disjoint_append_right, ← span_of_row? hr,
      List.disjoint_singleton]
    exact ⟨h.disjoint k i hk, fun hp => Nat.lt_irrefl _ (h.mem_span hp).2⟩
  refine ⟨m', by rw [CandidateMap.push, hm']; rfl, hb, ?_, fun k hk => ?_⟩
  · have hreads := hfill'.reads
    rw [hl] at hreads ⊢
    have hab : a.size ≤ (a.push j).size := Arena.size_push (a := a) j ▸ Nat.le_succ a.size
    exact h.entered hab hrow hb hreads (h.base_le i r hr) (Nat.le_of_eq hlonger)
      ⟨hlt, (h.room i r hr).2⟩ hapart
  · obtain rfl : i = k := Option.some.inj (hfill'.newest.symm.trans hk)
    exact ⟨_, (hrow i).trans (if_pos rfl), hlonger⟩

/-- The slice of an array that holds the values of a list at its positions is that list. -/
theorem toList_extract_eq {α : Type} {slots : Array α} {start : Nat} {l : List α}
    (h : List.Forall₂ (fun k x => slots[k]? = some x) (List.range' start n) l) :
    (slots.extract start (start + n)).toList = l := by
  have hdrop : slots.toList.drop start = l ++ slots.toList.drop (start + n) := by
    induction n generalizing start l with
    | zero =>
      rw [List.forall₂_nil_left_iff.mp h]
      rfl
    | succ n ih =>
      rw [List.range'_succ] at h
      obtain ⟨x, rest, hx, hrest, rfl⟩ := List.forall₂_cons_left_iff.mp h
      obtain ⟨hlt, hget⟩ := Array.getElem?_eq_some_iff.mp hx
      rw [List.drop_eq_getElem_cons (by simpa using hlt), ih hrest, Array.getElem_toList, hget,
        Nat.add_right_comm, Nat.add_assoc start]
      rfl
  rw [Array.toList_extract, List.extract_eq_take_drop, hdrop, Nat.add_sub_cancel_left]
  have hlen : l.length = n := by rw [← h.length_eq, List.length_range']
  rw [← hlen, List.take_left]

/-- What a row holds can be had as one slice of the arena. -/
theorem Stored.candidates_eq (h : m.Stored a pushed) (i : VertexId) :
    m.candidates a i = .ok ((pushed i).getD []) := by
  have hreads : List.Forall₂ (fun k j => a.slots[k]? = some j) (m.span i) ((pushed i).getD []) :=
    h.reads i
  cases hr : m.row? i with
  | none =>
    rw [span, hr] at hreads
    rw [candidates, hr, List.forall₂_nil_left_iff.mp hreads]
  | some r =>
    obtain ⟨hlen, hmax⟩ := h.room i r hr
    have hend := h.end_le i r hr
    rw [span_of_row? hr] at hreads
    simp only [candidates, hr, Arena.slice]
    rw [if_neg (by omega), if_neg (by omega), toList_extract_eq hreads]

end

/-! ## A stack of maps -/

namespace Stack

/-- Every map is stored above what was in the arena when it was created, and is described by the
arena in which it was the newest. -/
inductive Holds : Arena VertexId → List CandidateMap → List Layer → Prop
  | nil (a : Arena VertexId) : Holds a [] []
  | cons {a : Arena VertexId} {m : CandidateMap} {ms : List CandidateMap} {L : Layer}
      {Ls : List Layer} (base : m.base = L.below.size) (grown : L.below.Grown a)
      (stored : m.Stored a L.pushed) (top : m.EndsAtTop a) (rest : Holds L.below ms Ls) :
      Holds a (m :: ms) (L :: Ls)

variable {s t : Stack} {a a₀ b : Arena VertexId} {m : CandidateMap} {ms : List CandidateMap}
  {L : Layer} {Ls : List Layer} {op : Op}

/-- Only the slots of the arena matter to its maps. -/
theorem Holds.of_slots_eq (h : Holds a ms Ls) (hab : b.slots = a.slots) (hl : b.limit = a.limit) :
    Holds b ms Ls := by
  cases h with
  | nil => exact .nil b
  | cons base grown stored top rest =>
    have hgrown : a.Grown b := ⟨hab ▸ List.prefix_refl _, hl⟩
    refine .cons base (grown.trans hgrown) (stored.of_grown hgrown) (fun i hi => ?_) rest
    obtain ⟨r, hr, hend⟩ := top i hi
    exact ⟨r, hr, hend.trans (congrArg Array.size hab).symm⟩

/-- Making room for rows has to do with the newest map alone. -/
theorem exec_reserveRows (a : Arena VertexId) (m : CandidateMap) (ms : List CandidateMap)
    (n : Nat) : (Op.reserveRows n).exec ⟨a, m :: ms⟩ =
      match m.reserveRowsChecked n with
      | .ok m' => .ok () ⟨a, m' :: ms⟩
      | .error e => .error (.fault e) ⟨a, m :: ms⟩ := by
  change (attempt ((m.reserveRowsChecked n).mapError .fault) >>= fun m =>
    set (Stack.mk a (m :: ms))) ⟨a, m :: ms⟩ = _
  cases m.reserveRowsChecked n <;> rfl

/-- Starting a row has to do with the newest map alone. -/
theorem exec_start (a : Arena VertexId) (m : CandidateMap) (ms : List CandidateMap) (i : VertexId)
    (n : Nat) : (Op.start i n).exec ⟨a, m :: ms⟩ =
      match m.startChecked a i n with
      | .ok m' => .ok () ⟨a, m' :: ms⟩
      | .error e => .error e ⟨a, m :: ms⟩ := by
  change (attempt (m.startChecked a i n) >>= fun m => set (Stack.mk a (m :: ms))) ⟨a, m :: ms⟩ = _
  cases m.startChecked a i n <;> rfl

/-- A candidate goes to the newest map and to the arena. -/
theorem exec_push (a : Arena VertexId) (m : CandidateMap) (ms : List CandidateMap)
    (i j : VertexId) : (Op.push i j).exec ⟨a, m :: ms⟩ =
      match m.push a i j with
      | .ok (m', a') => .ok () ⟨a', m' :: ms⟩
      | .error e => .error (.fault e) ⟨a, m :: ms⟩ := by
  change (attempt ((m.push a i j).mapError .fault) >>= fun r => set (Stack.mk r.2 (r.1 :: ms)))
    ⟨a, m :: ms⟩ = _
  cases m.push a i j <;> rfl

/-- Releasing the newest map leaves the others and an arena that was taken back. -/
theorem exec_release (a : Arena VertexId) (m : CandidateMap) (ms : List CandidateMap) :
    Op.release.exec ⟨a, m :: ms⟩ =
      match m.release a with
      | .ok a' => .ok () ⟨a', ms⟩
      | .error e => .error (.fault e) ⟨a, m :: ms⟩ := by
  change (attempt ((m.release a).mapError .fault) >>= fun a => set (Stack.mk a ms))
    ⟨a, m :: ms⟩ = _
  cases m.release a <;> rfl

/-- Releasing the newest map leaves the slots that were there when it was created. -/
theorem Holds.release (h : Holds a (m :: ms) (L :: Ls)) : ∃ b, m.release a = .ok b ∧
    b.slots = L.below.slots ∧ Holds b ms Ls := by
  cases h with
  | cons base grown _ _ rest =>
    refine ⟨a.truncate m.base, if_pos (base ▸ grown.size_le), ?_, ?_⟩
    · rw [base, grown.slots_truncate]
    · exact rest.of_slots_eq (base ▸ grown.slots_truncate) grown.limit_eq

/-- An operation that meets its contract is carried out, and everything goes on to hold, or it is
refused and nothing has changed. -/
theorem Holds.exec (h : Holds s.arena s.maps Ls) (hc : op.Meets s) :
    (∃ t, op.exec s = .ok () t ∧ Holds t.arena t.maps (op.note s Ls)) ∨
      ∃ e, op.exec s = .error e s ∧ op.Refuses e := by
  have hnew (a : Arena VertexId) : (new a).EndsAtTop a := fun i hi => by cases hi
  obtain ⟨a, maps⟩ := s
  change Holds a maps Ls at h
  -- only the newest map is worked on; without one nothing but a new map meets its contract
  cases h with
  | nil =>
    cases op with
    | create => exact .inl ⟨_, rfl, .cons rfl (.refl a) (stored_new a) (hnew a) (.nil a)⟩
    | _ => exact hc.elim
  | @cons _ m ms L Ls base grown stored top rest =>
    have hbase : m.base ≤ a.size := base ▸ grown.size_le
    cases op with
    | create =>
      have hold := Holds.cons base grown stored top rest
      exact .inl ⟨_, rfl, .cons rfl (.refl a) (stored_new a) (hnew a) hold⟩
    | reserveRows n =>
      rw [exec_reserveRows]
      by_cases hfit : Row.bytes * n ≤ Storage.largestBlock
      · have hr : m.reserveRowsChecked n = .ok (m.reserveRows n) := by
          rw [reserveRowsChecked, Storage.check_eq_ok_iff.mpr hfit]
          rfl
        rw [hr]
        refine .inl ⟨_, rfl, .cons base grown ?_ (fun i hi => ?_) rest⟩
        · exact stored.of_row?_eq (row?_reserveRows m n) rfl
        · rw [row?_reserveRows]
          exact top i hi
      · have hr : m.reserveRowsChecked n = .error .capacityOverflow := by
          rw [reserveRowsChecked, Storage.check, if_neg hfit]
          rfl
        rw [hr]
        exact .inr ⟨_, rfl, rfl⟩
    | start i n =>
      have hi : m.hasRow i = false := hc
      rw [exec_start]
      rcases startChecked_eq hi with ⟨hm, hn⟩ | ⟨e, he, hr⟩
      · obtain ⟨hstored, htop⟩ := stored.started hi hbase hn
        rw [hm]
        exact .inl ⟨_, rfl, .cons base grown hstored htop rest⟩
      · rw [he]
        exact .inr ⟨e, rfl, hr⟩
    | push i j =>
      obtain ⟨hi, hroom⟩ := hc
      obtain ⟨m', hm', hb, hstored, htop⟩ := stored.push top hi hroom j
      rw [exec_push, hm']
      exact .inl ⟨_, rfl, .cons (hb.trans base) (grown.trans (.push a j)) hstored htop rest⟩
    | release =>
      obtain ⟨b, hb, -, hrest⟩ := (Holds.cons base grown stored top rest).release
      rw [exec_release, hb]
      exact .inl ⟨_, rfl, hrest⟩

/-- After any run of operations that met their contracts, every map is as it was when it was the
newest. -/
theorem Reached.holds (h : Reached a₀ s Ls) : Holds s.arena s.maps Ls := by
  induction h with
  | begin => exact .nil a₀
  | done _ hc hx ih =>
    rcases ih.exec hc with ⟨t, ht, hholds⟩ | ⟨e, he, -⟩
    · rw [hx] at ht
      cases ht
      exact hholds
    · rw [hx] at he
      cases he
  | failed _ hc hx ih =>
    rcases ih.exec hc with ⟨t, ht, -⟩ | ⟨e, he, -⟩
    · rw [hx] at ht
      cases ht
    · rw [hx] at he
      cases he
      exact ih

/-! ## What holds of nested maps -/

/-- The rows of a map, read through the arena, are those that were pushed. -/
structure Shows (a : Arena VertexId) (m : CandidateMap) (L : Layer) : Prop where
  hasRow_eq : ∀ i, m.hasRow i = (L.pushed i).isSome
  candidates_eq : ∀ i, m.candidates a i = .ok ((L.pushed i).getD [])
  read_eq : ∀ i, m.read a i = .ok ((L.pushed i).getD [])
  size_eq : ∀ i, m.size i = ((L.pushed i).getD []).length
  span_eq : ∀ i, m.span i = List.range' (m.bounds i).1 (m.size i) ∧
    (m.bounds i).2 = (m.bounds i).1 + m.size i

/-- Nested maps do not disturb each other. -/
structure Undisturbed (s : Stack) (Ls : List Layer) : Prop where
  /-- Every map shows what was pushed to it. -/
  shows : List.Forall₂ (Shows s.arena) s.maps Ls
  /-- Different rows of one map share no position. -/
  disjoint_rows : ∀ m ∈ s.maps, ∀ i k, i ≠ k → (m.span i).Disjoint (m.span k)
  /-- Rows of different maps share no position. -/
  disjoint_maps : s.maps.Pairwise fun m m' => ∀ i k, (m.span i).Disjoint (m'.span k)
  /-- An operation that meets its contract is carried out, or refused without an effect. -/
  exec_eq : ∀ op : Op, op.Meets s → (∃ t, op.exec s = .ok () t) ∨
    ∃ e, op.exec s = .error e s ∧ op.Refuses e
  /-- Releasing the newest map restores what was in the arena when it was created. -/
  release_eq : ∀ m ms L Ls', s.maps = m :: ms → Ls = L :: Ls' →
    ∃ b : Arena VertexId, Op.release.exec s = .ok () ⟨b, ms⟩ ∧ b.slots = L.below.slots

/-- A row is a stretch of the arena that begins and ends at its bounds. -/
theorem span_eq_range' (m : CandidateMap) (i : VertexId) :
    m.span i = List.range' (m.bounds i).1 (m.size i) ∧
      (m.bounds i).2 = (m.bounds i).1 + m.size i := by
  unfold span bounds size
  cases m.row? i <;> simp

/-- A stored map shows the candidates that were pushed to it in every way of reading them. -/
theorem shows_of_stored (h : m.Stored a L.pushed) : Shows a m L where
  hasRow_eq := h.hasRow_eq
  candidates_eq := h.candidates_eq
  read_eq i := h.reads.read_eq i
  size_eq i := h.reads.size_eq i
  span_eq := span_eq_range' m

/-- Every map is stored in the arena, and not only in the one in which it was the newest. -/
theorem Holds.stored (h : Holds a ms Ls) (hab : a.Grown b) :
    List.Forall₂ (fun m L => m.Stored b L.pushed) ms Ls := by
  induction h with
  | nil => exact .nil
  | cons _ grown stored _ _ ih => exact .cons (stored.of_grown hab) (ih (grown.trans hab))

/-- The rows of all maps lie below the top of the arena. -/
theorem Holds.lt_of_mem_span (h : Holds a ms Ls) (hm : m ∈ ms) {i : VertexId} {p : Nat}
    (hp : p ∈ m.span i) : p < a.size := by
  induction h with
  | nil => cases hm
  | cons _ grown stored _ _ ih =>
    rcases List.mem_cons.mp hm with rfl | hm
    · exact (stored.mem_span hp).2
    · exact Nat.lt_of_lt_of_le (ih hm) grown.size_le

/-- No two rows of one map share a position. -/
theorem Holds.disjoint_rows (h : Holds a ms Ls) (hm : m ∈ ms) {i k : VertexId} (hik : i ≠ k) :
    (m.span i).Disjoint (m.span k) := by
  induction h with
  | nil => cases hm
  | cons _ _ stored _ _ ih =>
    rcases List.mem_cons.mp hm with rfl | hm
    · exact stored.disjoint i k hik
    · exact ih hm

/-- The newest map is stored above the base, and all others below it. -/
theorem Holds.disjoint_maps (h : Holds a ms Ls) :
    ms.Pairwise fun m m' => ∀ i k, (m.span i).Disjoint (m'.span k) := by
  induction h with
  | nil => exact .nil
  | cons base _ stored _ rest ih =>
    refine .cons (fun m' hm' i k p hp hp' => ?_) ih
    have hlow := rest.lt_of_mem_span hm' hp'
    have hhigh := (stored.mem_span hp).1
    omega

/-- Whatever was done to nested maps, none has disturbed another. -/
theorem Reached.undisturbed (h : Reached a₀ s Ls) : s.Undisturbed Ls := by
  have hs := h.holds
  constructor
  case shows => exact (hs.stored (.refl s.arena)).imp fun m L => shows_of_stored
  case disjoint_rows => exact fun m hm i k hik => hs.disjoint_rows hm hik
  case disjoint_maps => exact hs.disjoint_maps
  case exec_eq =>
    intro op hc
    rcases hs.exec hc with ⟨t, ht, -⟩ | he
    · exact .inl ⟨t, ht⟩
    · exact .inr he
  case release_eq =>
    obtain ⟨a, maps⟩ := s
    rintro m ms L Ls' rfl rfl
    obtain ⟨b, hb, hslots, -⟩ := Holds.release hs
    exact ⟨b, by rw [exec_release, hb], hslots⟩

/-- A map with a row of one candidate, a second map above it whose first row is refused and whose
second row takes the last slot: both read as they were filled. -/
theorem undisturbed_above_refusal : ∃ (s : Stack) (Ls : List Layer),
    Reached (Arena.new 0 (some 2)) s Ls ∧ s.arena.slots = #[.ofNat 3, .ofNat 5] ∧
    s.maps.map (fun m => m.size (.ofNat 1)) = [1, 0] ∧ s.Undisturbed Ls := by
  have step {s t : Stack} {Ls : List Layer} (op : Op) (h : Reached (Arena.new 0 (some 2)) s Ls)
      (hc : op.Meets s) (hx : op.exec s = .ok () t) :
      Reached (Arena.new 0 (some 2)) t (op.note s Ls) := .done h hc hx
  have refuse {s t : Stack} {Ls : List Layer} (op : Op) (h : Reached (Arena.new 0 (some 2)) s Ls)
      (hc : op.Meets s) {e : Failure} (hx : op.exec s = .error e t) :
      Reached (Arena.new 0 (some 2)) t Ls := .failed h hc hx
  have h₁ := step .create .begin trivial rfl
  have h₂ := step (.start (.ofNat 0) 1) h₁ rfl rfl
  have h₃ := step (.push (.ofNat 0) (.ofNat 3)) h₂ ⟨rfl, by rintro r ⟨⟩; decide⟩ rfl
  have h₄ := step .create h₃ trivial rfl
  have h₅ := refuse (.start (.ofNat 1) 2) h₄ rfl rfl
  have h₆ := step (.start (.ofNat 1) 1) h₅ rfl rfl
  have h₇ := step (.push (.ofNat 1) (.ofNat 5)) h₆ ⟨rfl, by rintro r ⟨⟩; decide⟩ rfl
  exact ⟨_, _, h₇, rfl, rfl, h₇.undisturbed⟩

end Stack

end CandidateMap

end CommonSubgraph
