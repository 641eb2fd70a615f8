import CommonSubgraph.Arena

/-!
# Arenas that grow and are taken back

An arena that only grows keeps its slots where they are (`Arena.Grown`). Taken back to the size it
had, it has the slots of that time (`Arena.Grown.slots_truncate`).
-/

namespace CommonSubgraph

variable {α : Type}

/-! ## Taking an arena back -/

namespace Arena

/-- A reservation that is granted starts at the top. -/
theorem eq_size_of_reserve {a : Arena α} {n top : Nat} (h : a.reserve n = .ok top) :
    top = a.size := by
  unfold reserve at h
  split at h
  · exact (Except.ok.inj h).symm
  · split at h
    · cases h
    · exact (Except.ok.inj h).symm

/-- A reservation is refused that would reach above the limit. -/
theorem of_reserve_eq_error {a : Arena α} {n : Nat} {e : ArenaExhausted}
    (h : a.reserve n = .error e) : ∃ limit, a.limit = some limit ∧
      limit < Size.saturatingAdd a.size n ∧ e = ⟨n, a.size, limit⟩ := by
  unfold reserve at h
  split at h
  · cases h
  · next limit hlimit =>
    split at h
    · next hlt => exact ⟨limit, hlimit, hlt, (Except.error.inj h).symm⟩
    · cases h

@[simp] theorem size_truncate (a : Arena α) (n : Nat) : (a.truncate n).size = min n a.size := by
  simp [truncate, size, Array.shrink_eq_take]

/-- Taking an arena back to a position above its top changes nothing. -/
theorem truncate_of_size_le {a : Arena α} {n : Nat} (h : a.size ≤ n) : a.truncate n = a := by
  simp [truncate, Array.shrink_eq_take, Array.extract_eq_self_of_le h]

/-- Taking an arena back to its top changes nothing. -/
theorem truncate_size (a : Arena α) : a.truncate a.size = a := truncate_of_size_le (Nat.le_refl _)

/-- Of two positions that an arena is taken back to, the lower one counts. -/
theorem truncate_truncate (a : Arena α) {m n : Nat} (h : n ≤ m) :
    (a.truncate m).truncate n = a.truncate n := by
  simp only [truncate, Array.shrink_eq_take]
  simp [Nat.min_eq_left h]

/-- An arena that is taken back to slots which it has at its bottom has just these. -/
theorem slots_truncate_of_prefix {a b : Arena α} (h : a.slots.toList <+: b.slots.toList) :
    (b.truncate a.size).slots = a.slots := by
  obtain ⟨t, ht⟩ := h
  have htake : (b.truncate a.size).slots.toList = b.slots.toList.take a.size := by
    simp [truncate, Array.shrink_eq_take]
  apply Array.toList_inj.mp
  rw [htake, ← ht]
  exact List.take_left' Array.length_toList

end Arena

/-! ## Arenas that only grow -/

/-- The second arena holds the slots of the first and maybe more above them. -/
structure Arena.Grown (a b : Arena α) : Prop where
  slots : a.slots.toList <+: b.slots.toList
  limit_eq : b.limit = a.limit

namespace Arena.Grown

variable {a b c : Arena α}

theorem refl (a : Arena α) : a.Grown a := ⟨List.prefix_refl _, rfl⟩

theorem trans (h : a.Grown b) (h' : b.Grown c) : a.Grown c :=
  ⟨h.slots.trans h'.slots, h'.limit_eq.trans h.limit_eq⟩

/-- An arena with one more value has grown. -/
theorem push (a : Arena α) (x : α) : a.Grown (a.push x) :=
  ⟨by simp [Arena.push], rfl⟩

/-- A grown arena has at least as many slots in use. -/
theorem size_le (h : a.Grown b) : a.size ≤ b.size := by
  simpa [Arena.size] using h.slots.length_le

/-- Taken back to the size of the first, the second arena has its slots. -/
theorem slots_truncate (h : a.Grown b) : (b.truncate a.size).slots = a.slots :=
  slots_truncate_of_prefix h.slots

end Arena.Grown

end CommonSubgraph
