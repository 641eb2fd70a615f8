import CommonSubgraph.OrderedSet.Lemmas
import Mathlib.Data.List.Nodup

/-!
# Ordered sets in one-word counts

A set counts its members in natural numbers. Here its operations are repeated in counts of one
machine word: a sum or a difference that is no such count is a fault (`Size.hold`). A set whose
links describe a list over a domain that a word can count (`OrderedSet.Linked`) never meets one. It
has no more members than its domain has values, and at least one wherever one is erased.
-/

namespace CommonSubgraph

/-- Refuse a sum or a difference that is not a count of one machine word. -/
def Size.hold (n : Int) : Except Fault Unit :=
  if 0 ≤ n ∧ n ≤ Size.largest then .ok () else .error .sumTooLarge

/-- A count of one word is held. -/
theorem Size.hold_of_le {n : Int} (h₀ : 0 ≤ n) (h : n ≤ Size.largest) : Size.hold n = .ok () :=
  if_pos ⟨h₀, h⟩

namespace OrderedSet

/-! ## Operations -/

/-- `insert` in one-word counts. -/
def insertStrict (s : OrderedSet) (v : Nat) : Except Fault (OrderedSet × Bool) := do
  let inserted ← s.insert v
  if inserted.2 then Size.hold (s.size + 1)
  return inserted

/-- `erase` in one-word counts. -/
def eraseStrict (s : OrderedSet) (v : Nat) : Except Fault (OrderedSet × Bool) := do
  if (s.erase v).2 then Size.hold (s.size - 1)
  return s.erase v

/-- `eraseHead` in one-word counts. -/
def eraseHeadStrict (s : OrderedSet) : Except Fault OrderedSet :=
  match s.head with
  | none => return s
  | some v => do return (← s.eraseStrict v).1

/-- Remove the first member `n` times, in one-word counts. -/
def eraseHeadsStrict (s : OrderedSet) : (n : Nat) → Except Fault OrderedSet
  | 0 => return s
  | n + 1 => do (← s.eraseHeadsStrict n).eraseHeadStrict

/-- `insertAll` in one-word counts. -/
def insertAllStrict (s : OrderedSet) : Except Fault OrderedSet := do
  let cleared ← s.eraseHeadsStrict s.size
  (List.range s.domain).foldlM (fun t v => do return (← t.insertStrict v).1) cleared

/-! ## Sets whose links describe a list -/

/-- The set has the domain `0, …, n - 1`, and its links are those of some list. -/
structure Linked (s : OrderedSet) (n : Nat) : Prop where
  domain_eq : s.domain = n
  exists_list : ∃ l, s.Represents l

namespace Linked

variable {s t : OrderedSet} {n v : Nat}

/-- Links that describe a list still do after an erasure. -/
theorem erase (h : s.Linked n) (v : Nat) : (s.erase v).1.Linked n := by
  obtain ⟨l, hl⟩ := h.exists_list
  obtain ⟨-, hdomain, hrep⟩ := hl.erase v
  exact ⟨hdomain.trans h.domain_eq, _, hrep⟩

/-- Links that describe a list still do after the first member was erased. -/
theorem eraseHead (h : s.Linked n) : s.eraseHead.Linked n := by
  obtain ⟨l, hl⟩ := h.exists_list
  exact ⟨hl.eraseHead.1.trans h.domain_eq, _, hl.eraseHead.2⟩

/-- Links that describe a list still do after the first members were erased. -/
theorem eraseHeads (h : s.Linked n) (k : Nat) : (Nat.repeat OrderedSet.eraseHead k s).Linked n := by
  induction k with
  | zero => exact h
  | succ k ih => exact ih.eraseHead

/-- Links that describe a list still do after a member was put in. -/
theorem put (h : s.Linked n) (v : Fin s.domain) : (s.put v).Linked n := by
  obtain ⟨l, hl⟩ := h.exists_list
  exact ⟨(domain_put s v).trans h.domain_eq, _, hl.put v⟩

/-- Links that describe a list still do after an insertion. -/
theorem insert {b : Bool} (h : s.Linked n) (hins : s.insert v = .ok (t, b)) : t.Linked n := by
  unfold OrderedSet.insert at hins
  split at hins
  · cases hins
    exact h.put _
  · cases hins

/-! ## No count is too large -/

/-- A set has no more members than its domain has values. -/
theorem size_le (h : s.Linked n) : s.size ≤ n := by
  obtain ⟨l, hl⟩ := h.exists_list
  have hle : l.length ≤ (List.range s.domain).length :=
    hl.nodup.length_le_of_subset fun v hv => List.mem_range.mpr (hl.lt_domain v hv)
  rwa [← hl.size_eq, List.length_range, h.domain_eq] at hle

/-- The place behind the largest member is at most that behind the domain. -/
theorem maxPlusOneOrZero_le (h : s.Linked n) : s.maxPlusOneOrZero ≤ n := by
  obtain ⟨l, hl⟩ := h.exists_list
  have step (vs : List Nat) (hvs : ∀ v ∈ vs, v < n) (m : Nat) (hm : m ≤ n) :
      vs.foldl (fun m v => max m (v + 1)) m ≤ n := by
    induction vs generalizing m with
    | nil => exact hm
    | cons v vs ih =>
      obtain ⟨hv, hvs⟩ := List.forall_mem_cons.mp hvs
      exact ih hvs _ (Nat.max_le.mpr ⟨hm, hv⟩)
  rw [maxPlusOneOrZero, hl.values_eq]
  exact step l (h.domain_eq ▸ hl.lt_domain) 0 (Nat.zero_le n)

/-- Walking through a set meets no more vertices than the domain has values. -/
theorem length_vertices_le (h : s.Linked n) : s.vertices.length ≤ n := by
  obtain ⟨l, hl⟩ := h.exists_list
  rw [vertices, List.length_map, hl.values_eq, ← hl.size_eq]
  exact h.size_le

/-- If the domain is counted in a word, no sum of an insertion is too large. -/
theorem insertStrict_eq (h : s.Linked n) (hn : n ≤ Size.largest) (v : Nat) :
    s.insertStrict v = s.insert v := by
  by_cases hv : v < s.domain
  · obtain ⟨l, hl⟩ := h.exists_list
    obtain ⟨t, hins, -, hrep⟩ := hl.insert hv
    have hstrict : s.insertStrict v = do
        if decide (v ∉ l) then Size.hold (s.size + 1)
        return (t, decide (v ∉ l)) := by
      rw [insertStrict, hins]
      rfl
    rw [hstrict, hins]
    by_cases hmem : v ∈ l
    · rw [if_neg (by simpa using hmem)]
      rfl
    · -- the set with the new member is no larger than its domain either
      have hle := (h.insert hins).size_le
      rw [hrep.size_eq, if_neg hmem, List.length_append, ← hl.size_eq] at hle
      have hle : s.size + 1 ≤ n := hle
      rw [if_pos (by simpa using hmem), Size.hold_of_le (by omega) (by omega)]
      rfl
  · rw [insertStrict, insert_eq_error s (Nat.le_of_not_lt hv)]
    rfl

/-- If the domain is counted in a word, no difference of an erasure is below 0. -/
theorem eraseStrict_eq (h : s.Linked n) (hn : n ≤ Size.largest) (v : Nat) :
    s.eraseStrict v = .ok (s.erase v) := by
  obtain ⟨l, hl⟩ := h.exists_list
  rw [eraseStrict, (hl.erase v).1]
  by_cases hmem : v ∈ l
  · have hpos : 0 < s.size := hl.size_eq ▸ List.length_pos_of_mem hmem
    have hle := h.size_le
    rw [if_pos (decide_eq_true hmem), Size.hold_of_le (by omega) (by omega)]
    rfl
  · rw [if_neg (by simpa using hmem)]
    rfl

/-- Erasing the first member passes its checks as well. -/
theorem eraseHeadStrict_eq (h : s.Linked n) (hn : n ≤ Size.largest) :
    s.eraseHeadStrict = .ok s.eraseHead := by
  rw [eraseHeadStrict, OrderedSet.eraseHead]
  cases s.head with
  | none => rfl
  | some v =>
    simp only [h.eraseStrict_eq hn]
    rfl

/-- Erasing the first members passes its checks as well. -/
theorem eraseHeadsStrict_eq (h : s.Linked n) (hn : n ≤ Size.largest) (k : Nat) :
    s.eraseHeadsStrict k = .ok (Nat.repeat OrderedSet.eraseHead k s) := by
  induction k with
  | zero => rfl
  | succ k ih =>
    rw [eraseHeadsStrict, ih]
    exact (h.eraseHeads k).eraseHeadStrict_eq hn

/-- Values of the domain are put into the set one after the other. -/
theorem foldlM_insertStrict (h : s.Linked n) (hn : n ≤ Size.largest) {vs : List Nat}
    (hvs : ∀ v ∈ vs, v < n) :
    vs.foldlM (fun t v => do return (← t.insertStrict v).1) s = (.ok (vs.foldl
      (fun t v => if h : v < t.domain then t.put ⟨v, h⟩ else t) s) : Except Fault OrderedSet) := by
  induction vs generalizing s with
  | nil => rfl
  | cons v vs ih =>
    obtain ⟨hv, hvs⟩ := List.forall_mem_cons.mp hvs
    have hv : v < s.domain := h.domain_eq ▸ hv
    have hins : s.insert v = .ok (s.put ⟨v, hv⟩, !s.present[v]) := dif_pos hv
    rw [List.foldlM_cons, List.foldl_cons, h.insertStrict_eq hn, hins, dif_pos hv]
    exact ih (h.put ⟨v, hv⟩) hvs

/-- Inserting everything passes its checks as well. -/
theorem insertAllStrict_eq (h : s.Linked n) (hn : n ≤ Size.largest) :
    s.insertAllStrict = .ok s.insertAll := by
  rw [insertAllStrict, h.eraseHeadsStrict_eq hn]
  refine (h.eraseHeads s.size).foldlM_insertStrict hn fun v hv => ?_
  rw [← h.domain_eq]
  exact List.mem_range.mp hv

end Linked

end OrderedSet

end CommonSubgraph
