import MetaPostEditor.CommandLine.Program

/-!
# The executable

Reads what a command line asks for, and leaves everything else to the program.
-/

open MetaPostEditor.CommandLine

namespace MetaPostEditor

/-- Reads a stream to its end, behind the bytes `acc`. -/
partial def readAll (stream : IO.FS.Stream) (acc : ByteArray) : IO ByteArray := do
  let chunk ← stream.read 65536
  if chunk.isEmpty then return acc else readAll stream (acc ++ chunk)

/-- What kept the system from reading. -/
def readErrorOf : IO.Error → ReadError
  | .noFileOrDirectory .. => .notFound
  | .inappropriateType _ code _ => if code = 21 then .isDirectory else .notDirectory
  | e => .other (toString e)

/-- The bytes of a source. -/
def readSource (source : Source) : IO (Except ReadError ByteArray) := do
  try
    match source with
    | .stdin => return .ok (← readAll (← IO.getStdin) .empty)
    | .file path => return .ok (← IO.FS.readBinFile path)
  catch e =>
    return .error (readErrorOf e)

/-- Writes what the program leaves behind. -/
def report (o : Outcome) : IO UInt32 := do
  IO.print o.stdout
  (← IO.getStdout).flush
  IO.eprint o.stderr
  return o.code.toUInt32

/-- How the program is called. -/
def usage : String :=
  "Usage: mpedit [-t] [-s ARGS]... [-p ENTRY]... [--spans | --plain] [FILE]\n"

end MetaPostEditor

def main (args : List String) : IO UInt32 := do
  match parse args with
  | .error e =>
    IO.eprint s!"error: {e.message}\n\n{MetaPostEditor.usage}"
    return 2
  | .ok .version => MetaPostEditor.report versionOutcome
  | .ok .help =>
    IO.print MetaPostEditor.usage
    return 0
  | .ok (.process r) => MetaPostEditor.report (r.run (← MetaPostEditor.readSource r.source))
