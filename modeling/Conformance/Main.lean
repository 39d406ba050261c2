import Conformance.Cli.Gather

/-!
# The command line

Collects the files that the arguments name, runs the program on them and prints what it leaves
behind.
-/

namespace Conformance

namespace Cli

/-- The reason for which the operating system does not give a file. -/
def fileError : IO.Error → FileError
  | .noFileOrDirectory .. => .notFound
  | .inappropriateType _ 21 _ => .isDirectory
  | .inappropriateType .. => .notDirectory
  | .invalidArgument _ 36 _ => .nameTooLong
  | .permissionDenied .. => .system "Permission denied" 13
  | e => .system e.toString 5

/-- What is at a path, links followed. Of a directory that cannot be listed no entry is known. -/
def look (path : String) : IO (Option Place) := do
  let place : IO.FS.DirEntry := ⟨path, ""⟩
  match ← place.root.metadata.toBaseIO with
  | .error _ => return none
  | .ok found =>
    match found.type with
    | .file => return some .file
    | .dir =>
      match ← place.root.readDir.toBaseIO with
      | .ok entries => return some (.directory (entries.toList.map (·.fileName)))
      | .error _ => return some (.directory [])
    | _ => return none

/-- What reading the file at a path gives. -/
def readFile (path : String) : IO (Except FileError String) := do
  match ← (IO.FS.readBinFile path).toBaseIO with
  | .ok bytes => return (Entry.ofBytes bytes).read
  | .error e => return .error (fileError e)

/-- The disk of the operating system. -/
def disk : Disk IO := ⟨look, readFile⟩

end Cli

end Conformance

/-- Runs the program on its arguments. -/
def main (arguments : List String) : IO UInt32 := do
  let invocation := Conformance.Cli.Invocation.ofArguments arguments
  let files ← Conformance.Cli.filesFor Conformance.Cli.disk invocation
  let outcome := Conformance.Cli.execute files invocation
  IO.print outcome.output
  IO.eprint outcome.diagnostics
  return outcome.code.toUInt32
