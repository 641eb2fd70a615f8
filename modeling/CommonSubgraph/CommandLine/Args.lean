import CommonSubgraph.Config
import CommonSubgraph.Text.Numeral

/-!
# Arguments of the command line

The command takes two files and options, in any order. An option with a value takes it from the same
word (`--limit=3`, `-n3`, `-n=3`) or is the next word. After the word `--` every word is a file.

Words are judged from left to right. The value of an option is judged when the next option or file
begins, or at the end, so that a word that is no argument at all is reported before a bad value in
front of it. What is missing is reported last.
-/

namespace CommonSubgraph.CommandLine

/-- What to search for. -/
inductive Mode where
  /-- Every common subgraph within the bounds on the size. -/
  | all
  /-- The first common subgraph of exactly the minimum size. -/
  | first
  /-- Every embedding of the whole first graph into the second. -/
  | exact
  /-- Only the largest common subgraphs. -/
  | maximum
deriving DecidableEq

/-- The mode of a name, which is case-sensitive. -/
def Mode.ofName? (name : String) : Option Mode :=
  match name with
  | "all" => some all
  | "first" => some first
  | "exact" => some exact
  | "maximum" => some maximum
  | _ => none

/-- An option that takes a value. -/
inductive Setting where
  | mode
  | minSize
  | maxSize
  | limit
  | arenaMultiplier
  | arenaLimit
deriving DecidableEq

/-- An option that takes no value and ends the reading of arguments. -/
inductive Inquiry where
  | help
  | version
deriving DecidableEq

/-- An option of either kind. -/
inductive Switch where
  | setting (s : Setting)
  | inquiry (q : Inquiry)
deriving DecidableEq

/-- The option with a name of several letters. -/
def Switch.ofLong? (name : String) : Option Switch :=
  match name with
  | "mode" => some (setting .mode)
  | "min-size" => some (setting .minSize)
  | "max-size" => some (setting .maxSize)
  | "limit" => some (setting .limit)
  | "arena-multiplier" => some (setting .arenaMultiplier)
  | "arena-limit" => some (setting .arenaLimit)
  | "help" => some (inquiry .help)
  | "version" => some (inquiry .version)
  | _ => none

/-- The option with a name of one letter. -/
def Switch.ofShort? (c : Char) : Option Switch :=
  match c with
  | 'm' => some (setting .mode)
  | 'n' => some (setting .limit)
  | 'h' => some (inquiry .help)
  | 'V' => some (inquiry .version)
  | _ => none

/-- What a setting is called. -/
def Setting.name : Setting → String
  | mode => "--mode"
  | minSize => "--min-size"
  | maxSize => "--max-size"
  | limit => "--limit"
  | arenaMultiplier => "--arena-multiplier"
  | arenaLimit => "--arena-limit"

/-- Why arguments are not accepted, or what was asked for instead of a search. -/
inductive Refusal where
  /-- A word that is no argument. -/
  | unknownArgument (word : String)
  /-- A setting without its value. -/
  | missingValue (s : Setting)
  /-- A mode that does not exist. -/
  | unknownMode (value : String)
  /-- A value that should be a number. -/
  | notANumber (s : Setting) (value : String)
  /-- A setting given a second time. -/
  | repeated (s : Setting)
  /-- A value for an option that takes none. -/
  | unwantedValue (value : String)
  /-- Fewer than two files. -/
  | missingFile
  /-- No error: information was asked for. -/
  | asked (q : Inquiry)
deriving DecidableEq

/-- The arguments given so far. -/
structure Given where
  /-- Files, in order; at most two. -/
  files : List String
  mode : Option Mode
  minSize : Option Nat
  maxSize : Option Nat
  limit : Option Nat
  arenaMultiplier : Option Nat
  arenaLimit : Option Nat

/-- Nothing given. -/
def Given.nothing : Given := ⟨[], none, none, none, none, none, none⟩

/-- A value that may be set once, to a number. -/
def setNumber (s : Setting) (former : Option Nat) (value : String) : Except Refusal (Option Nat) :=
  if former.isSome then .error (.repeated s)
  else match Text.numeral? value.toList with
    | some n => .ok (some n)
    | none => .error (.notANumber s value)

/-- Take the value of a setting. That a setting is repeated is reported before a bad value. -/
def Given.take (g : Given) (s : Setting) (value : String) : Except Refusal Given :=
  match s with
  | .mode =>
    if g.mode.isSome then .error (.repeated .mode)
    else match Mode.ofName? value with
      | some mode => .ok { g with mode := some mode }
      | none => .error (.unknownMode value)
  | .minSize => do return { g with minSize := ← setNumber s g.minSize value }
  | .maxSize => do return { g with maxSize := ← setNumber s g.maxSize value }
  | .limit => do return { g with limit := ← setNumber s g.limit value }
  | .arenaMultiplier => do
    return { g with arenaMultiplier := ← setNumber s g.arenaMultiplier value }
  | .arenaLimit => do return { g with arenaLimit := ← setNumber s g.arenaLimit value }

/-! ## Reading words -/

/-- A setting whose value is not yet judged. -/
inductive Pending where
  | nothing
  /-- The value is still to come. -/
  | awaiting (s : Setting)
  /-- The value has come. -/
  | holding (s : Setting) (value : String)

/-- How far the words have been read. -/
structure Reading where
  given : Given
  pending : Pending
  /-- Whether all further words are files. -/
  onlyFiles : Bool

namespace Reading

/-- Nothing read yet. -/
def start : Reading := ⟨Given.nothing, .nothing, false⟩

/-- Judge the pending value. -/
def settle (r : Reading) : Except Refusal Reading :=
  match r.pending with
  | .nothing => .ok r
  | .awaiting s => .error (.missingValue s)
  | .holding s value => do return { r with given := ← r.given.take s value, pending := .nothing }

/-- Begin a setting, whose value may stand in the same word. -/
def begin (r : Reading) (s : Setting) (value : Option String) : Except Refusal Reading := do
  let r ← r.settle
  match value with
  | some value =>
    -- a value in the word itself is judged at once
    let r := { r with pending := .holding s value }
    r.settle
  | none => return { r with pending := .awaiting s }

/-- Answer an inquiry, once the pending value is judged. -/
def inquire (r : Reading) (q : Inquiry) : Except Refusal Reading := do
  let _ ← r.settle
  throw (.asked q)

/-- Take a word as a file. -/
def file (r : Reading) (word : String) : Except Refusal Reading :=
  if r.given.files.length < 2 then do
    let r ← r.settle
    return { r with given := { r.given with files := r.given.files ++ [word] } }
  else throw (.unknownArgument word)

/-- Read what follows two hyphens: a name, with a value behind the first equals sign if there is
one. -/
def long (r : Reading) (word : List Char) : Except Refusal Reading :=
  let name := String.ofList (word.takeWhile fun c => c != '=')
  let value := match word.dropWhile fun c => c != '=' with
    | [] => none
    | _ :: value => some (String.ofList value)
  match Switch.ofLong? name, value with
  | none, _ => throw (.unknownArgument ("--" ++ name))
  | some (.setting s), value => r.begin s value
  | some (.inquiry q), none => r.inquire q
  | some (.inquiry _), some value => throw (.unwantedValue value)

/-- Read what follows one hyphen: letters, up to one whose option takes the rest as its value. -/
def short (r : Reading) (letters : List Char) : Except Refusal Reading :=
  match letters with
  | [] => .ok r
  | c :: rest =>
    match Switch.ofShort? c with
    | none => throw (.unknownArgument ("-" ++ c.toString))
    | some (.inquiry q) => r.inquire q
    | some (.setting s) =>
      match rest with
      | [] => r.begin s none
      | '=' :: value | value => r.begin s (some (String.ofList value))

/-- Read a word that is no option: the value of the setting that waits for one, or else a file. -/
def plain (r : Reading) (word : String) : Except Refusal Reading :=
  match r.pending with
  | .awaiting s => .ok { r with pending := .holding s word }
  | _ => r.file word

/-- Read one word. A hyphen alone is no option. -/
def word (r : Reading) (w : String) : Except Refusal Reading :=
  if r.onlyFiles then r.file w
  else match w.toList with
    | ['-', '-'] => .ok { r with onlyFiles := true }
    | '-' :: '-' :: rest => r.long rest
    | ['-'] => r.plain w
    | '-' :: rest => r.short rest
    | _ => r.plain w

end Reading

/-! ## Arguments -/

/-- Arguments of the command. -/
structure Args where
  graph1 : String
  graph2 : String
  mode : Mode
  minSize : Nat
  maxSize : Option Nat
  limit : Option Nat
  arenaMultiplier : Nat
  arenaLimit : Option Nat
deriving DecidableEq

/-- The arguments given, with defaults in place of what was not given. -/
def Given.complete (g : Given) : Except Refusal Args :=
  match g.files with
  | [graph1, graph2] =>
    .ok { graph1, graph2
          mode := g.mode.getD .all
          minSize := g.minSize.getD 1
          maxSize := g.maxSize
          limit := g.limit
          arenaMultiplier := g.arenaMultiplier.getD Config.defaultArenaMultiplier
          arenaLimit := g.arenaLimit }
  | _ => .error .missingFile

namespace Args

/-- Read the words of a command line, the name of the command not among them. -/
def ofWords (words : List String) : Except Refusal Args := do
  let r ← words.foldlM Reading.word Reading.start
  (← r.settle).given.complete

/-- The settings of the search asked for. -/
def toConfig (a : Args) : Config :=
  let c := { Config.default with arenaMultiplier := a.arenaMultiplier, arenaLimit := a.arenaLimit }
  let maximum := a.maxSize.getD Size.largest
  match a.mode with
  | .all => { c with minimum := a.minSize, maximum }
  | .first => { c with minimum := a.minSize, maximum := a.minSize }
  | .exact => { c with common := false }
  | .maximum => { c with minimum := a.minSize, maximum, monotonic := true }

/-- The number of solutions to stop after; one if only the first is wanted. -/
def effectiveLimit (a : Args) : Option Nat :=
  match a.mode with
  | .first => some 1
  | _ => a.limit

end Args

end CommonSubgraph.CommandLine
