import CommonSubgraph.Size

/-!
# Numerals

A numeral is a row of decimal digits, at least one, with an optional plus sign in front; leading
zeros are allowed. Its number has to fit one machine word.
-/

namespace CommonSubgraph.Text

/-- The number that a row of digits stands for. -/
def digitsValue (digits : List Char) : Nat :=
  digits.foldl (fun n c => 10 * n + (c.toNat - '0'.toNat)) 0

/-- The digits of a numeral: the text without a plus sign in front. -/
def unsigned : List Char → List Char
  | '+' :: digits => digits
  | digits => digits

/-- The number written by a numeral; none if the text is no numeral or its number is too large. -/
def numeral? (cs : List Char) : Option Nat :=
  let digits := unsigned cs
  if digits.isEmpty || !digits.all Char.isDigit then none
  else
    let n := digitsValue digits
    if n ≤ Size.largest then some n else none

end CommonSubgraph.Text
