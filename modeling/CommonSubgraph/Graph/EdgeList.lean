import CommonSubgraph.Graph.Basic
import CommonSubgraph.Text.Field
import CommonSubgraph.Text.Numeral

/-!
# Graphs written as edge lists

A text with one statement per line:

```text
# a directed triangle with one extra isolated vertex
vertices 4
0 1
1 2
2 0
```

A line is cut at its first `#`, and blanks at its ends do not count. What is left is nothing, a
declaration `vertices N` or an edge from one vertex number to another. The graph has as many
vertices as the declarations and the ends of the edges ask for, and its edges are numbered in the
order of their lines. The first line of any other kind is the error.
-/

namespace CommonSubgraph

namespace EdgeList

/-- The most vertices an edge list may ask for. -/
def maxVertexCount : Nat := 16777216

/-- What a line of an edge list says. -/
inductive Statement where
  /-- Nothing. -/
  | blank
  /-- There are at least `n` vertices. -/
  | vertices (n : Nat)
  /-- There is an edge from `s` to `t`. -/
  | edge (s t : Nat)
deriving DecidableEq

/-- Read a field as a number of at most `limit`. -/
def number (limit : Nat) (field : List Char) : Except LineError Nat :=
  match Text.numeral? field with
  | none => .error (.notANumber (String.ofList field))
  | some n => if limit < n then .error (.tooLarge n limit) else .ok n

/-- The part of a line that counts: what precedes a comment, without blanks at the ends. -/
def significant (line : List Char) : List Char := Text.trim (Text.before '#' line)

/-- What a line says. -/
def statement (line : List Char) : Except LineError Statement :=
  let line := significant line
  match Text.fields line with
  | [] => .ok .blank
  | [first, second] =>
    if first = "vertices".toList then do
      return .vertices (← number maxVertexCount second)
    else do
      let s ← number (maxVertexCount - 1) first
      let t ← number (maxVertexCount - 1) second
      return .edge s t
  | _ => .error (.unrecognised (String.ofList line))

/-- What the lines say, the first of them having the number `n`. -/
def statements (n : Nat) : List (List Char) → Except GraphError (List Statement)
  | [] => .ok []
  | line :: rest =>
    match statement line with
    | .error cause => .error (.malformedLine n cause)
    | .ok said => do return said :: (← statements (n + 1) rest)

/-- How many vertices a statement asks for. -/
def Statement.demand : Statement → Nat
  | blank => 0
  | vertices n => n
  | edge s t => max s t + 1

/-- The edge that a statement makes. -/
def Statement.edge? : Statement → Option (Nat × Nat)
  | edge s t => some (s, t)
  | _ => none

/-- The number of vertices that all statements together ask for. -/
def vertexCount (said : List Statement) : Nat := said.foldl (fun n x => max n x.demand) 0

end EdgeList

/-- Read an edge list. Vertices get the value `a` and edges the value `b`. -/
def Graph.ofEdgeList {ν ε : Type} (a : ν) (b : ε) (text : String) :
    Except GraphError (Graph ν ε) := do
  let said ← EdgeList.statements 1 (Text.lines text.toList)
  Graph.ofEdges a b (EdgeList.vertexCount said) (said.filterMap EdgeList.Statement.edge?)

end CommonSubgraph
