import CommonSubgraph.CommandLine.Program

/-!
# The command

Reads the files named on the command line from the file system and prints the output of the program.
-/

open CommonSubgraph.CommandLine

/-- Read a file as text. -/
def readText (path : String) : IO (Except ReadError String) := do
  try
    let bytes ← IO.FS.readBinFile path
    match String.fromUTF8? bytes with
    | some text => return .ok text
    | none => return .error .notText
  catch
    | .noFileOrDirectory .. => return .error .notFound
    | .inappropriateType .. => return .error .isDirectory
    | e => return .error (.other (toString e))

/-- Run the program on the words of the command line. -/
def main (words : List String) : IO UInt32 := do
  let output ← program readText words
  (← IO.getStdout).putStr output.stdout
  (← IO.getStderr).putStr output.stderr
  return output.exitCode.toUInt32
