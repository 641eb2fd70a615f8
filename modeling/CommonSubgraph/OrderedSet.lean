import CommonSubgraph.Storage

/-!
# Insertion-ordered sets of small numbers

A set over the domain `0, …, domain - 1`, kept as a doubly linked list threaded through two tables
beside a table of members. Insertion, erasure and membership take constant time. Iteration
(`OrderedSet.values`) follows the links, so it visits the members in the order in which they were
inserted, and a member that is erased and inserted again moves to the end.

Links are positions of the domain by type, so no operation can follow one out of the tables. Whether
the links describe a list at all is `OrderedSet.Represents`: `s.Represents l` says that the tables,
the two ends and the count are those of the duplicate-free list `l`. Every operation keeps to that,
which `CommonSubgraph.OrderedSet.Lemmas` proves.
-/

namespace CommonSubgraph

/-- A set over `0, …, domain - 1` that remembers the order of insertion. -/
structure OrderedSet where
  /-- One more than the largest value the set can hold. -/
  domain : Nat
  /-- Which values are members. -/
  present : Vector Bool domain
  /-- The member before each member. -/
  prev : Vector (Option (Fin domain)) domain
  /-- The member after each member. -/
  next : Vector (Option (Fin domain)) domain
  /-- The first member. -/
  head : Option (Fin domain)
  /-- The last member. -/
  tail : Option (Fin domain)
  /-- The number of members. -/
  size : Nat
deriving DecidableEq

namespace OrderedSet

/-- The empty set over `0, …, domain - 1`. -/
def empty (domain : Nat) : OrderedSet where
  domain := domain
  present := Vector.replicate domain false
  prev := Vector.replicate domain none
  next := Vector.replicate domain none
  head := none
  tail := none
  size := 0

/-- The empty set, unless the table of members, one byte for each value, is too large. -/
def emptyChecked (domain : Nat) : Except Fault OrderedSet := do
  Storage.check 1 domain
  return empty domain

instance : Inhabited OrderedSet := ⟨empty 0⟩

/-- Whether the set has no members. -/
def isEmpty (s : OrderedSet) : Bool := s.size == 0

/-- Whether `v` is a member; a value outside the domain never is. -/
def contains (s : OrderedSet) (v : Nat) : Bool :=
  if h : v < s.domain then s.present[v] else false

/-! ## Insertion and erasure -/

/-- The table with `x` at position `k`, or as it is if there is no such position. -/
def write {α : Type} {n : Nat} (table : Vector α n) (k : Option (Fin n)) (x : α) : Vector α n :=
  match k with
  | none => table
  | some k => table.set k x

/-- Link the absent value `v` behind the last member. -/
def link : (s : OrderedSet) → Fin s.domain → OrderedSet
  | ⟨domain, present, prev, next, head, tail, size⟩, v =>
    { domain
      present := present.set v true
      prev := prev.set v tail
      next := write (next.set v none) tail (some v)
      head := if tail.isNone then some v else head
      tail := some v
      size := size + 1 }

/-- Take the member `v` out, joining its two neighbours. -/
def unlink : (s : OrderedSet) → Fin s.domain → OrderedSet
  | ⟨domain, present, prev, next, head, tail, size⟩, v =>
    let before := prev[v]
    let after := next[v]
    { domain
      present := present.set v false
      prev := (write prev after before).set v none
      next := (write next before after).set v none
      head := if before.isNone then after else head
      tail := if after.isNone then before else tail
      size := size - 1 }

/-- Put `v` at the end unless it is a member. -/
def put (s : OrderedSet) (v : Fin s.domain) : OrderedSet :=
  if s.present[v] then s else s.link v

/-- Put `v` at the end unless it is a member, and say whether that changed the set. A value outside
the domain is refused. -/
def insert (s : OrderedSet) (v : Nat) : Except Fault (OrderedSet × Bool) :=
  if h : v < s.domain then
    let isNew := !s.present[v]
    .ok (s.put ⟨v, h⟩, isNew)
  else
    .error .valueOutsideDomain

/-- Remove `v`, and say whether it was a member. -/
def erase (s : OrderedSet) (v : Nat) : OrderedSet × Bool :=
  if h : v < s.domain then
    if s.present[v] then (s.unlink ⟨v, h⟩, true) else (s, false)
  else
    (s, false)

/-- Remove the first member, if there is one. -/
def eraseHead (s : OrderedSet) : OrderedSet :=
  match s.head with
  | none => s
  | some v => (s.erase v).1

/-- Remove the first member as often as there are members. -/
def clear (s : OrderedSet) : OrderedSet := Nat.repeat eraseHead s.size s

/-- Make every value of the domain a member, in ascending order. -/
def insertAll (s : OrderedSet) : OrderedSet :=
  (List.range s.domain).foldl (fun t v => if h : v < t.domain then t.put ⟨v, h⟩ else t) s.clear

/-! ## Iteration -/

/-- The members met by following at most `n` links from a member. -/
def walk (s : OrderedSet) : Nat → Option (Fin s.domain) → List Nat
  | 0, _ => []
  | _ + 1, none => []
  | n + 1, some v => v :: walk s n s.next[v]

/-- The members, in the order of insertion. -/
def values (s : OrderedSet) : List Nat := s.walk s.domain s.head

/-- The first member in the order of insertion. -/
def first? (s : OrderedSet) : Option Nat := s.head.map Fin.val

/-- The members as names of vertices, in the order of insertion. -/
def vertices (s : OrderedSet) : List VertexId := s.values.map VertexId.ofNat

/-- One more than the largest member, or zero if there is none. -/
def maxPlusOneOrZero (s : OrderedSet) : Nat := s.values.foldl (fun m v => max m (v + 1)) 0

/-! ## What the links stand for -/

/-- The last member in the order of insertion. -/
def last? (s : OrderedSet) : Option Nat := s.tail.map Fin.val

/-- The member after `v`, if there is one. -/
def next? (s : OrderedSet) (v : Nat) : Option Nat :=
  if h : v < s.domain then s.next[v].map Fin.val else none

/-- The member before `v`, if there is one. -/
def prev? (s : OrderedSet) (v : Nat) : Option Nat :=
  if h : v < s.domain then s.prev[v].map Fin.val else none

/-- The element of a list right after the first `v`. -/
def following (v : Nat) : List Nat → Option Nat
  | [] => none
  | u :: rest => if v = u then rest.head? else following v rest

/-- The links, ends, members and count of `s` are those of the list `l`. -/
structure Represents (s : OrderedSet) (l : List Nat) : Prop where
  nodup : l.Nodup
  lt_domain : ∀ v ∈ l, v < s.domain
  contains_iff : ∀ v, s.contains v = true ↔ v ∈ l
  first?_eq : s.first? = l.head?
  last?_eq : s.last? = l.getLast?
  size_eq : s.size = l.length
  next?_eq : ∀ v, s.next? v = following v l
  prev?_eq : ∀ v, s.prev? v = following v l.reverse

end OrderedSet

end CommonSubgraph
