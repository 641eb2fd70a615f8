import CommonSubgraph.CommandLine.Args
import CommonSubgraph.Graph.EdgeList
import CommonSubgraph.Preset
import CommonSubgraph.Text.Quoted

/-!
# The program behind the command line

Reads two edge lists, searches, and says what to print and how to exit. Files are read through a
function that is handed in, so that nothing here depends on where they are.

Solutions are printed in the order in which they are found. In the mode `maximum` a solution that is
found may be outgrown later, so solutions are collected first and at most as many are printed as the
limit says. In the other modes each solution is printed when it is found and the search is stopped
once the limit is reached, so that a limit of zero still lets one through.
-/

namespace CommonSubgraph.CommandLine

/-- Why a file cannot be read. -/
inductive ReadError where
  | notFound
  | isDirectory
  | notText
  | other (text : String)
deriving DecidableEq

/-- The words in which an unreadable file is reported. -/
def ReadError.message : ReadError → String
  | notFound => "No such file or directory (os error 2)"
  | isDirectory => "Is a directory (os error 21)"
  | notText => "stream did not contain valid UTF-8"
  | other text => text

/-- Why a search could not be done. -/
inductive ProgramError where
  /-- A file that cannot be read. -/
  | unreadable (path : String) (e : ReadError)
  /-- A file that is no edge list. -/
  | malformed (path : String) (e : GraphError)
  /-- An exhausted arena. -/
  | exhausted (e : ArenaExhausted)
  /-- A fault. -/
  | fault (f : Fault)
deriving DecidableEq

namespace ProgramError

/-- What is shown of an error. -/
def shown : ProgramError → String
  | unreadable path e => Text.quoted (path ++ ": " ++ e.message)
  | malformed path e => Text.quoted (path ++ ": " ++ e.message)
  | exhausted e =>
    s!"ArenaExhausted \x7b requested: {e.requested}, in_use: {e.inUse}, limit: {e.limit} \x7d"
  | fault f => f.message

/-- How the program exits on an error. -/
def exitCode : ProgramError → Nat
  | fault _ => 101
  | _ => 1

end ProgramError

/-- What a run of the program prints and how it exits. -/
structure Output where
  exitCode : Nat
  stdout : String
  stderr : String
deriving DecidableEq

/-- What is printed instead of solutions if there are none. -/
def nothingFound : String := "No common subgraph isomorphism found.\n"

/-- Print each solution and stop once there are as many as the limit says. -/
def printingProcessor (limit : Option Nat) : Processor Unit Unit Printout where
  process g₁ xs g₂ ys := do
    let _ ← Printout.processor.process g₁ xs g₂ ys
    let p ← get
    return if limit.any fun n => n ≤ p.count then .abort else .proceed

/-- Print solutions, as many as the limit says. -/
def printAll (limit : Option Nat) (solutions : List Solution) : Printout :=
  let due := match limit with
    | some n => solutions.take n
    | none => solutions
  due.foldl (fun p s => p.add s.xs s.ys) Printout.empty

/-- Search two graphs as the arguments say. The answer is what was printed, and the failure if there
was one. -/
def searchGraphs (a : Args) (g₁ g₂ : Graph Unit Unit) : Except Failure Unit × Printout :=
  match a.mode with
  | .maximum =>
    let search : EStateM Failure Unit Largest :=
      Problem.runWith g₁ g₂ Predicate.structural Largest.processor a.toConfig Largest.empty
    match search () with
    | .ok kept _ => (.ok (), printAll a.effectiveLimit kept.solutions.toList)
    | .error f _ => (.error f, Printout.empty)
  | _ =>
    let P : Problem Unit Unit Printout :=
      ⟨g₁, g₂, Predicate.structural, printingProcessor a.effectiveLimit, a.toConfig⟩
    match P.runOnce Printout.empty with
    | .ok _ p => (.ok (), p)
    | .error f p => (.error f, p)

/-- What the program leaves when it ends with an error after printing `stdout`. -/
def failed (stdout : String) (e : ProgramError) : Output :=
  ⟨e.exitCode, stdout, "Error: " ++ e.shown ++ "\n"⟩

/-- The whole output of a search of two graphs. -/
def report (a : Args) (g₁ g₂ : Graph Unit Unit) : Output :=
  match searchGraphs a g₁ g₂ with
  | (.ok _, p) => ⟨0, if p.count = 0 then nothingFound else p.text, ""⟩
  | (.error (.exhausted e), p) => failed p.text (.exhausted e)
  | (.error (.fault f), p) => failed p.text (.fault f)

section Files

variable {m : Type → Type} [Monad m]

/-- Read the graph in a file. -/
def loadGraph (read : String → m (Except ReadError String)) (path : String) :
    m (Except ProgramError (Graph Unit Unit)) := do
  match ← read path with
  | .error e => return .error (.unreadable path e)
  | .ok text => return (Graph.ofEdgeList () () text).mapError (.malformed path)

/-- Read the two files, the first one first, and search them. -/
def run (read : String → m (Except ReadError String)) (a : Args) : m Output := do
  match ← loadGraph read a.graph1 with
  | .error e => return failed "" e
  | .ok g₁ =>
    match ← loadGraph read a.graph2 with
    | .error e => return failed "" e
    | .ok g₂ => return report a g₁ g₂

end Files

/-! ## Usage -/

/-- A summary of the arguments. -/
def usage : String :=
  "Usage: csi [OPTIONS] <GRAPH1> <GRAPH2>\n"

/-- The answer to a request for help. -/
def help : String :=
  "Find common subgraph isomorphisms between two directed graphs\n\n" ++ usage ++ "\n"
    ++ "Arguments:\n"
    ++ "  <GRAPH1>  Edge list of the first graph\n"
    ++ "  <GRAPH2>  Edge list of the second graph\n\n"
    ++ "Options:\n"
    ++ "  -m, --mode <MODE>            all, first, exact or maximum [default: all]\n"
    ++ "      --min-size <N>           Smallest solution to report; in `first` mode, the size "
    ++ "wanted [default: 1]\n"
    ++ "      --max-size <N>           Largest solution to report\n"
    ++ "  -n, --limit <N>              Stop after this many solutions\n"
    ++ "      --arena-multiplier <N>   Arena slots set aside per vertex of the second graph "
    ++ "[default: 2]\n"
    ++ "      --arena-limit <N>        Fail instead of using more arena slots than this\n"
    ++ "  -h, --help                   Print help\n"
    ++ "  -V, --version                Print version\n"

/-- The answer to a request for the version. -/
def version : String := "csi 0.1.0\n"

/-- What is wrong with refused arguments. -/
def Refusal.message : Refusal → String
  | unknownArgument word => s!"unexpected argument '{word}' found"
  | missingValue s => s!"a value is required for '{s.name}' but none was supplied"
  | unknownMode value => s!"invalid value '{value}' for '--mode'"
  | notANumber s value => s!"invalid value '{value}' for '{s.name}'"
  | repeated s => s!"the argument '{s.name}' cannot be used multiple times"
  | unwantedValue value => s!"unexpected value '{value}' found; no more were expected"
  | missingFile => "the two edge lists were not provided"
  | asked _ => ""

/-- The output for arguments that ask for no search. -/
def refused : Refusal → Output
  | .asked .help => ⟨0, help, ""⟩
  | .asked .version => ⟨0, version, ""⟩
  | r => ⟨2, "", "error: " ++ r.message ++ "\n\n" ++ usage⟩

/-- The program: the words of its command line in, its output out. -/
def program {m : Type → Type} [Monad m] (read : String → m (Except ReadError String))
    (words : List String) : m Output :=
  match Args.ofWords words with
  | .ok a => run read a
  | .error r => return refused r

end CommonSubgraph.CommandLine
