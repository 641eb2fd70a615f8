import CommonSubgraph.Text.Printable

/-!
# Quoted text

A text between double quotes, such that the quote at its end cannot be mistaken and every character
can be seen: quotes and backslashes get a backslash in front, common controls a letter, and whatever
cannot be shown alone is written as its code point in hexadecimal. Apostrophes stay as they are.
-/

namespace CommonSubgraph.Text

/-- A code point in lower-case hexadecimal between braces. -/
def codePoint (c : Char) : List Char :=
  "\\u\x7b".toList ++ Nat.toDigits 16 c.toNat ++ ['\x7d']

/-- How a character is written between double quotes. -/
def quotedChar (c : Char) : List Char :=
  if c = '"' then ['\\', '"']
  else if c = '\\' then ['\\', '\\']
  else if c = '\n' then ['\\', 'n']
  else if c = '\r' then ['\\', 'r']
  else if c = '\t' then ['\\', 't']
  else if c = '\x00' then ['\\', '0']
  else if isPrintable c then [c]
  else codePoint c

/-- A text between double quotes. -/
def quoted (text : String) : String :=
  "\"" ++ String.ofList (text.toList.flatMap quotedChar) ++ "\""

end CommonSubgraph.Text
