import TypeLang.Command.Run

/-!
# The command line

Reads the files that the words name and the standard input, runs the command on them, and writes
its report.
-/

open TypeLang TypeLang.Command

/-- The content of a file, if it can be read. -/
def readFile? (path : String) : IO (Option (List UInt8)) := do
  try
    return some (← IO.FS.readBinFile path).data.toList
  catch _ =>
    return none

/-- The paths that words name. -/
def pathsOf (words : List String) : List String :=
  match Invocation.ofWords words with
  | .read options => options.payload :: options.schemas.map (·.path)
  | _ => []

/-- Whether the payload is the standard input. -/
def readsStdin (words : List String) : Bool :=
  match Invocation.ofWords words with
  | .read options => options.payload == "-"
  | _ => false

/-- The command line. -/
def main (words : List String) : IO UInt32 := do
  let files ← (pathsOf words).mapM fun path => do return (path, ← readFile? path)
  let stdin ← if readsStdin words then (← IO.getStdin).readBinToEnd else pure ByteArray.empty
  let report := run ⟨fun path => (files.lookup path).bind id, stdin.data.toList⟩ words
  IO.print report.stdout
  IO.eprint report.stderr
  return report.exitCode
