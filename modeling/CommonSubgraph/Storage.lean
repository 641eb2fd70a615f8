import CommonSubgraph.Fault
import CommonSubgraph.Size

/-!
# Storage

Tables are kept in blocks of storage, and a block has at most half as many bytes as one machine word
counts. Tables that hold something are taken to fit: the bound is checked only where a number of
slots is asked for in advance, by settings or by a caller, since such a number need not be the size
of anything (`Storage.check_eq_ok_iff`).
-/

namespace CommonSubgraph.Storage

/-- The most bytes a block has. -/
def largestBlock : Nat := UInt64.size / 2 - 1

/-- Check that a block can have `count` slots of `slotBytes` bytes each. -/
def check (slotBytes count : Nat) : Except Fault Unit :=
  if slotBytes * count ≤ largestBlock then .ok () else .error .capacityOverflow

/-- A block is granted exactly if its bytes are no more than those of the largest one. -/
theorem check_eq_ok_iff {slotBytes count : Nat} :
    check slotBytes count = .ok () ↔ slotBytes * count ≤ largestBlock := by
  unfold check
  split <;> simp_all

end CommonSubgraph.Storage
