import CommonSubgraph.Storage

/-!
# Stack arenas

A store of slots that grows at its top and is taken back to an earlier top all at once. Slots are
addressed by position, so growing never moves one that is in use. A limit bounds what may be
*reserved*; pushing itself is never refused, and a user that reserves before it pushes stays within
the limit (`Arena.size_add_le_of_reserve`). Capacities that come from outside are also held against
the storage there can be (`Arena.newChecked`, `Arena.reserveChecked`).
-/

namespace CommonSubgraph

/-- A reservation that a limited arena had to refuse. -/
structure ArenaExhausted where
  /-- Slots asked for. -/
  requested : Nat
  /-- Slots in use at that time. -/
  inUse : Nat
  /-- The limit. -/
  limit : Nat
deriving DecidableEq

/-- The words in which an exhausted arena is reported. -/
def ArenaExhausted.message (e : ArenaExhausted) : String :=
  s!"scratch arena exhausted: {e.requested} more slots requested with {e.inUse} in use "
    ++ s!"(limit {e.limit})"

/-- What ends an operation early: a limit, or a fault. -/
inductive Failure where
  | exhausted (e : ArenaExhausted)
  | fault (f : Fault)
deriving DecidableEq

/-- A stack of slots with an optional limit on reservations. -/
structure Arena (α : Type) where
  /-- The slots in use, lowest first. -/
  slots : Array α
  /-- How many slots reservations may reach. -/
  limit : Option Nat
  /-- The most slots ever in use at once. -/
  highWater : Nat
deriving DecidableEq

namespace Arena

variable {α : Type}

/-- An arena with nothing in use; `capacity` slots are set aside for a start. -/
def new (capacity : Nat) (limit : Option Nat) : Arena α where
  slots := Array.emptyWithCapacity (min capacity 1024)
  limit := limit
  highWater := 0

/-- An arena with nothing in use, unless `capacity` slots of `slotBytes` bytes are too large. -/
def newChecked (slotBytes capacity : Nat) (limit : Option Nat) : Except Fault (Arena α) := do
  Storage.check slotBytes capacity
  return new capacity limit

instance : Inhabited (Arena α) := ⟨new 0 none⟩

/-- The number of slots in use. -/
def size (a : Arena α) : Nat := a.slots.size

/-- Whether no slot is in use. -/
def isEmpty (a : Arena α) : Bool := a.slots.isEmpty

/-- Ask for `n` more slots. Granted, the answer is the position of the next slot. -/
def reserve (a : Arena α) (n : Nat) : Except ArenaExhausted Nat :=
  match a.limit with
  | none => .ok a.size
  | some limit =>
    if limit < Size.saturatingAdd a.size n then .error ⟨n, a.size, limit⟩ else .ok a.size

/-- Ask for `n` more slots and for storage of `slotBytes` bytes for each slot. The limit of the
arena is looked at first. -/
def reserveChecked (a : Arena α) (slotBytes n : Nat) : Except Failure Nat := do
  let top ← (a.reserve n).mapError .exhausted
  (Storage.check slotBytes (a.size + n)).mapError .fault
  return top

/-- Put `x` into a new slot at the top. -/
def push (a : Arena α) (x : α) : Arena α :=
  let highWater := max a.highWater (a.size + 1)
  { a with slots := a.slots.push x, highWater }

/-- The arena with its lowest `position` slots only. -/
def truncate (a : Arena α) (position : Nat) : Arena α :=
  { a with slots := a.slots.shrink position }

/-- Give back every slot from `position` upwards, which must not lie above the top. -/
def revert (a : Arena α) (position : Nat) : Except Fault (Arena α) :=
  if position ≤ a.size then .ok (a.truncate position)
  else .error (.revertAboveTop position a.size)

/-- The content of the slot at `position`. -/
def get (a : Arena α) (position : Nat) : Except Fault α :=
  match a.slots[position]? with
  | some x => .ok x
  | none => .error .indexOutOfRange

/-- The contents of the `length` slots from `start`. -/
def slice (a : Arena α) (start length : Nat) : Except Fault (List α) :=
  if Size.largest < start + length then .error .sumTooLarge
  else if a.size < start + length then .error .indexOutOfRange
  else .ok (a.slots.extract start (start + length)).toList

/-- Give back every slot and forget the high-water mark. -/
def clear (a : Arena α) : Arena α := { a with slots := #[], highWater := 0 }

/-! ## Sizes -/

@[simp] theorem size_push (a : Arena α) (x : α) : (a.push x).size = a.size + 1 :=
  Array.size_push x

@[simp] theorem limit_push (a : Arena α) (x : α) : (a.push x).limit = a.limit := rfl

@[simp] theorem size_clear (a : Arena α) : a.clear.size = 0 := rfl

@[simp] theorem limit_clear (a : Arena α) : a.clear.limit = a.limit := rfl

/-- A granted reservation leaves room under the limit for every slot it asked for. -/
theorem size_add_le_of_reserve {a : Arena α} {n p limit : Nat} (hl : a.limit = some limit)
    (hlimit : limit < Size.largest) (h : a.reserve n = .ok p) : a.size + n ≤ limit := by
  simp only [reserve, hl] at h
  split at h
  · cases h
  · simp only [Size.saturatingAdd] at *; omega

end Arena

end CommonSubgraph
