/-!
# Vertex and edge numbers

Vertices and edges are named by 32-bit numbers. Making a name from a larger number keeps its low
32 bits, so two numbers give the same name exactly when they agree modulo `2 ^ 32`
(`VertexId.index_ofNat_mod`); below `2 ^ 32` names and numbers correspond one to one
(`VertexId.index_ofNat`, `VertexId.ofNat_index`).
-/

namespace CommonSubgraph

/-- The name of a vertex within one graph. -/
structure VertexId where
  val : UInt32
deriving DecidableEq, Inhabited

/-- The name of an edge within one graph. -/
structure EdgeId where
  val : UInt32
deriving DecidableEq, Inhabited

namespace VertexId

/-- The vertex with number `n`, of which the low 32 bits count. -/
def ofNat (n : Nat) : VertexId := ⟨UInt32.ofNat n⟩

/-- The number of bytes a name takes. -/
def bytes : Nat := 4

/-- The position of the vertex in its graph. -/
def index (v : VertexId) : Nat := v.val.toNat

instance : Ord VertexId := ⟨fun a b => compare a.val b.val⟩

instance : LT VertexId := ⟨fun a b => a.val < b.val⟩

instance : DecidableLT VertexId := fun a b => inferInstanceAs (Decidable (a.val < b.val))

instance : ToString VertexId := ⟨fun v => "v" ++ toString v.index⟩

/-- Names of vertices have 32 bits. -/
theorem index_lt (v : VertexId) : v.index < UInt32.size := v.val.toNat_lt

/-- The name made from a number keeps the low 32 bits of it. -/
theorem index_ofNat_mod (n : Nat) : (ofNat n).index = n % UInt32.size := UInt32.toNat_ofNat'

/-- A number of 32 bits is found again in the name made from it. -/
theorem index_ofNat {n : Nat} (h : n < UInt32.size) : (ofNat n).index = n := by
  rw [index_ofNat_mod, Nat.mod_eq_of_lt h]

@[simp] theorem ofNat_index (v : VertexId) : ofNat v.index = v := by
  cases v; simp [ofNat, index]

/-- Vertices with the same number are the same. -/
theorem index_inj {v w : VertexId} : v.index = w.index ↔ v = w :=
  ⟨fun h => by rw [← ofNat_index v, h, ofNat_index], fun h => h ▸ rfl⟩

end VertexId

namespace EdgeId

/-- The edge with number `n`, of which the low 32 bits count. -/
def ofNat (n : Nat) : EdgeId := ⟨UInt32.ofNat n⟩

/-- The position of the edge in its graph. -/
def index (e : EdgeId) : Nat := e.val.toNat

instance : Ord EdgeId := ⟨fun a b => compare a.val b.val⟩

instance : LT EdgeId := ⟨fun a b => a.val < b.val⟩

instance : DecidableLT EdgeId := fun a b => inferInstanceAs (Decidable (a.val < b.val))

instance : ToString EdgeId := ⟨fun e => "e" ++ toString e.index⟩

/-- The name made from a number keeps the low 32 bits of it. -/
theorem index_ofNat_mod (n : Nat) : (ofNat n).index = n % UInt32.size := UInt32.toNat_ofNat'

/-- A number of 32 bits is found again in the name made from it. -/
theorem index_ofNat {n : Nat} (h : n < UInt32.size) : (ofNat n).index = n := by
  rw [index_ofNat_mod, Nat.mod_eq_of_lt h]

@[simp] theorem ofNat_index (e : EdgeId) : ofNat e.index = e := by
  cases e; simp [ofNat, index]

/-- Edges with the same number are the same. -/
theorem index_inj {e f : EdgeId} : e.index = f.index ↔ e = f :=
  ⟨fun h => by rw [← ofNat_index e, h, ofNat_index], fun h => h ▸ rfl⟩

end EdgeId

end CommonSubgraph
