/-!
# Lines and fields of a text

A text is cut into lines and a line into the fields between its blanks. Blank are the characters
with the Unicode property `White_Space`.
-/

namespace CommonSubgraph.Text

/-- The ranges of code points with the Unicode property `White_Space`, ends included. -/
def blankRanges : List (Nat × Nat) :=
  [(0x9, 0xD), (0x20, 0x20), (0x85, 0x85), (0xA0, 0xA0), (0x1680, 0x1680), (0x2000, 0x200A),
    (0x2028, 0x2029), (0x202F, 0x202F), (0x205F, 0x205F), (0x3000, 0x3000)]

/-- Whether a character is blank. -/
def isBlank (c : Char) : Bool := blankRanges.any fun r => r.1 ≤ c.toNat && c.toNat ≤ r.2

/-! ## Pieces -/

/-- Put the character `c` in front: a separator begins a new piece, and any other character goes to
the front of the first piece. -/
def consPiece (isSep : Char → Bool) (c : Char) (rest : List (List Char)) : List (List Char) :=
  if isSep c then [] :: rest
  else match rest with
    | [] => [[c]]
    | piece :: more => (c :: piece) :: more

/-- The pieces between the separators of a text; there is always one more than separators. -/
def pieces (isSep : Char → Bool) (cs : List Char) : List (List Char) :=
  cs.foldr (consPiece isSep) [[]]

/-- Putting a character in front leaves at least one piece. -/
theorem consPiece_ne_nil (isSep : Char → Bool) (c : Char) (rest : List (List Char)) :
    consPiece isSep c rest ≠ [] := by
  unfold consPiece
  split
  · simp
  · split <;> simp

/-- Every text has a piece, if only an empty one. -/
theorem pieces_ne_nil (isSep : Char → Bool) (cs : List Char) : pieces isSep cs ≠ [] := by
  cases cs with
  | nil => simp [pieces]
  | cons c cs => exact consPiece_ne_nil isSep c (cs.foldr (consPiece isSep) [[]])

/-! ## Lines and fields -/

/-- A line without the carriage return that may stand at its end. -/
def dropReturn (line : List Char) : List Char :=
  if line.getLast? = some '\r' then line.dropLast else line

/-- The lines of a text. A line ends at a line feed, with or without a carriage return before it, or
at the end of the text; nothing follows the last line feed. -/
def lines (cs : List Char) : List (List Char) :=
  let all := pieces (fun c => c == '\n') cs
  let ended := all.dropLast.map dropReturn
  match all.getLast? with
  | some (c :: rest) => ended ++ [c :: rest]
  | _ => ended

/-- The part of a line before the first `mark`. -/
def before (mark : Char) (line : List Char) : List Char := line.takeWhile fun c => c != mark

/-- A line without the blanks at its two ends. -/
def trim (line : List Char) : List Char :=
  ((line.dropWhile isBlank).reverse.dropWhile isBlank).reverse

/-- The fields of a line: what stands between its blanks. -/
def fields (line : List Char) : List (List Char) :=
  (pieces isBlank line).filter fun piece => !piece.isEmpty

end CommonSubgraph.Text
