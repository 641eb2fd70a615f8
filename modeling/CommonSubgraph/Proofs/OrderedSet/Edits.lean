import CommonSubgraph.OrderedSet.Lemmas

/-!
# Any sequence of edits

A caller edits a set by inserting and erasing values, clearing it and filling it, and learns from
every edit whether it changed anything. The same edits have a plain meaning on lists
(`Edit.onList`): append, delete, forget, count up. `applyAll_eq_onLists` says that a caller who
starts from an empty set cannot tell the two apart, neither from the replies nor by any way of
reading the set afterwards: `s.Shows n l` lists these.

One edit keeps `Represents` and replies as on the list (`Represents.apply`); a sequence follows by
induction (`Represents.applyAll`). Sets made by edits are compared table by table, which comes to
comparing their domains and lists (`applyAll_beq_applyAll_iff`).
-/

namespace CommonSubgraph

namespace OrderedSet

variable {s : OrderedSet} {l : List Nat}

/-! ## Edits of a set and of a list -/

/-- One operation that can change a set. -/
inductive Edit where
  | insert (v : Nat)
  | erase (v : Nat)
  | clear
  | insertAll
deriving DecidableEq

/-- What a caller learns from an edit. -/
inductive Reply where
  /-- Whether the set changed. -/
  | changed (b : Bool)
  /-- Nothing. -/
  | done
  /-- The edit was refused. -/
  | refused (e : Fault)
deriving DecidableEq

/-- The set after an edit, and the reply. A refused edit leaves the set as it is. -/
def apply (s : OrderedSet) : Edit → OrderedSet × Reply
  | .insert v =>
    match s.insert v with
    | .ok (t, isNew) => (t, .changed isNew)
    | .error e => (s, .refused e)
  | .erase v =>
    let (t, wasMember) := s.erase v
    (t, .changed wasMember)
  | .clear => (s.clear, .done)
  | .insertAll => (s.insertAll, .done)

/-- The set after a sequence of edits, and the replies in order. -/
def applyAll (s : OrderedSet) : List Edit → OrderedSet × List Reply
  | [] => (s, [])
  | e :: es =>
    let (t, reply) := s.apply e
    let (u, replies) := t.applyAll es
    (u, reply :: replies)

/-- What an edit means on a list of values below `n`. -/
def Edit.onList (n : Nat) (l : List Nat) : Edit → List Nat × Reply
  | .insert v =>
    if v < n then
      let l' := if v ∈ l then l else l ++ [v]
      (l', .changed (l' ≠ l))
    else
      (l, .refused .valueOutsideDomain)
  | .erase v => (l.erase v, .changed (l.erase v ≠ l))
  | .clear => ([], .done)
  | .insertAll => (List.range n, .done)

/-- What a sequence of edits means on a list of values below `n`. -/
def Edit.onLists (n : Nat) (l : List Nat) : List Edit → List Nat × List Reply
  | [] => (l, [])
  | e :: es =>
    let (l', reply) := e.onList n l
    let (l'', replies) := onLists n l' es
    (l'', reply :: replies)

/-! ## The set follows the list -/

/-- One edit replies as on the list, and the set goes on representing the list. -/
theorem Represents.apply (h : s.Represents l) (e : Edit) :
    (s.apply e).2 = (e.onList s.domain l).2 ∧ (s.apply e).1.domain = s.domain ∧
      (s.apply e).1.Represents (e.onList s.domain l).1 := by
  cases e with
  | insert v =>
    by_cases hv : v < s.domain
    · obtain ⟨t, ht, hd, hr⟩ := h.insert hv
      have hc : decide (v ∉ l) = decide ((if v ∈ l then l else l ++ [v]) ≠ l) := by
        by_cases hm : v ∈ l <;> simp [hm]
      simp only [OrderedSet.apply, ht, Edit.onList, if_pos hv]
      exact ⟨congrArg Reply.changed hc, hd, hr⟩
    · simp only [OrderedSet.apply, insert_eq_error s (Nat.le_of_not_lt hv), Edit.onList, if_neg hv]
      exact ⟨trivial, trivial, h⟩
  | erase v =>
    obtain ⟨hc, hd, hr⟩ := h.erase v
    have hm : decide (v ∈ l) = decide (l.erase v ≠ l) := by
      rw [decide_eq_decide, ne_eq, List.erase_eq_self_iff, Decidable.not_not]
    exact ⟨congrArg Reply.changed (hc.trans hm), hd, hr⟩
  | clear => exact ⟨rfl, h.clear⟩
  | insertAll => exact ⟨rfl, h.insertAll⟩

/-- Any sequence of edits replies as on the list, and the set goes on representing the list. -/
theorem Represents.applyAll (h : s.Represents l) (es : List Edit) :
    (s.applyAll es).2 = (Edit.onLists s.domain l es).2 ∧ (s.applyAll es).1.domain = s.domain ∧
      (s.applyAll es).1.Represents (Edit.onLists s.domain l es).1 := by
  induction es generalizing s l with
  | nil => exact ⟨rfl, rfl, h⟩
  | cons e es ih =>
    obtain ⟨hc, hd, hr⟩ := h.apply e
    obtain ⟨hcs, hds, hrs⟩ := ih hr
    rw [hd] at hcs hds hrs
    exact ⟨List.cons_eq_cons.mpr ⟨hc, hcs⟩, hds, hrs⟩

/-! ## Every way of reading a set -/

/-- Whatever a caller asks a set over `0, …, n - 1`, the answer is that of the list `l`. -/
structure Shows (s : OrderedSet) (n : Nat) (l : List Nat) : Prop where
  nodup : l.Nodup
  lt_domain : ∀ v ∈ l, v < n
  domain_eq : s.domain = n
  /-- Following the links ends after the last element of the list, however many may be followed. -/
  walk_eq : ∀ m, l.length ≤ m → s.walk m s.head = l
  values_eq : s.values = l
  size_eq : s.size = l.length
  isEmpty_eq : s.isEmpty = l.isEmpty
  contains_eq : ∀ v, s.contains v = decide (v ∈ l)
  contains_outside : ∀ v, n ≤ v → s.contains v = false
  maxPlusOneOrZero_eq : s.maxPlusOneOrZero = l.max?.elim 0 (· + 1)
  insert_outside : ∀ v, n ≤ v → s.apply (.insert v) = (s, .refused .valueOutsideDomain)

/-- Folding the maximum of the successors over a list gives one more than its maximum, and 0 without
one. -/
theorem foldl_max_succ (l : List Nat) :
    l.foldl (fun m v => max m (v + 1)) 0 = l.max?.elim 0 (· + 1) := by
  cases l with
  | nil => rfl
  | cons v rest =>
    rw [List.max?_cons', Option.elim_some, List.foldl_cons, Nat.zero_max]
    exact List.foldl_hom (· + 1) fun x y => (Nat.succ_max_succ x y)

/-- A set that represents a list shows that list. -/
theorem Represents.shows (h : s.Represents l) : s.Shows s.domain l where
  nodup := h.nodup
  lt_domain := h.lt_domain
  domain_eq := rfl
  walk_eq _ hm := h.walk_eq (List.nil_append l).symm h.first?_eq hm
  values_eq := h.values_eq
  size_eq := h.size_eq
  isEmpty_eq := by cases l <;> simp [isEmpty, h.size_eq]
  contains_eq v := by rw [Bool.eq_iff_iff, h.contains_iff, decide_eq_true_iff]
  contains_outside v hv := dif_neg (Nat.not_lt.mpr hv)
  maxPlusOneOrZero_eq := by rw [maxPlusOneOrZero, h.values_eq, foldl_max_succ]
  insert_outside v hv := by simp only [OrderedSet.apply, insert_eq_error s hv]

/-- From the empty set over `0, …, n - 1`, every sequence of edits replies as on lists, and the set
then shows the list that the edits leave. -/
theorem applyAll_eq_onLists (n : Nat) (es : List Edit) :
    ((empty n).applyAll es).2 = (Edit.onLists n [] es).2 ∧
      ((empty n).applyAll es).1.Shows n (Edit.onLists n [] es).1 := by
  obtain ⟨hc, hd, hr⟩ := (represents_empty n).applyAll es
  refine ⟨hc, ?_⟩
  have hs := hr.shows
  rwa [hd] at hs

/-- Erasing in the middle and inserting again moves a value to the end. -/
example : ((empty 4).applyAll [.insertAll, .erase 1, .insert 1, .insert 1, .insert 4]).2 =
      [.done, .changed true, .changed true, .changed false, .refused .valueOutsideDomain] ∧
    ((empty 4).applyAll [.insertAll, .erase 1, .insert 1, .insert 1, .insert 4]).1.values =
      [0, 2, 3, 1] := by
  decide

/-! ## Equality -/

/-- Tables that represent lists are the same tables just if the lists over one domain are the same:
an erasure leaves no link behind. -/
theorem Represents.eq_iff {t : OrderedSet} {l' : List Nat} (hs : s.Represents l)
    (ht : t.Represents l') : s = t ↔ s.domain = t.domain ∧ l = l' := by
  constructor
  · rintro rfl
    exact ⟨rfl, hs.unique ht⟩
  · rintro ⟨hd, rfl⟩
    exact hs.ext ht hd

/-- Whatever edits have made two sets of empty ones, the two are equal just if they have the same
domain and the same members in the same order. -/
theorem applyAll_beq_applyAll_iff (m n : Nat) (es fs : List Edit) :
    (((empty m).applyAll es).1 == ((empty n).applyAll fs).1) = true ↔
      ((empty m).applyAll es).1.domain = ((empty n).applyAll fs).1.domain ∧
        ((empty m).applyAll es).1.values = ((empty n).applyAll fs).1.values := by
  obtain ⟨-, -, hs⟩ := (represents_empty m).applyAll es
  obtain ⟨-, -, ht⟩ := (represents_empty n).applyAll fs
  rw [beq_iff_eq, hs.values_eq, ht.values_eq]
  exact hs.eq_iff ht

/-- The order of insertion counts, and nothing else of what was done. -/
example : ((empty 3).applyAll [.insertAll, .erase 0, .insert 0]).1 ≠
      ((empty 3).applyAll [.insertAll]).1 ∧
    ((empty 3).applyAll [.insertAll, .erase 0, .insert 0]).1 =
      ((empty 3).applyAll [.insert 1, .insert 2, .insert 0]).1 := by
  decide

end OrderedSet

end CommonSubgraph
