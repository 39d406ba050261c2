import Conformance.Cli.Program

/-!
# Gathering files

The program runs on files that were gathered from a disk before: the configuration, and the suite
files among the given paths and below the given directories. What a disk answers may depend on the
world, so the gathering goes on in any monad.
-/

namespace Conformance

/-- What a disk has at a path. -/
inductive Place where
  | file
  /-- A directory, with the names of its entries. -/
  | directory (names : List String)

/-- A disk that is asked in a monad. -/
structure Disk (m : Type → Type) where
  /-- What is at a path, if something is. -/
  look : String → m (Option Place)
  /-- What reading the file at a path gives. -/
  read : String → m (Except FileError String)

namespace Cli

variable {m : Type → Type} [Monad m] (disk : Disk m)

/-- The directory or suite file at a path, if there is one. Of a directory, other files are left
out. No name is empty, so paths grow on the way down, and the search goes no deeper than paths can
be long. -/
def collect (extension path : String) : m (Option Entry) := do
  match ← disk.look path with
  | none => return none
  | some .file =>
    if Path.extension? path = some extension then return some (.file (← disk.read path))
    else return none
  | some (.directory names) =>
    let entries ← names.filterMapM fun name => do
      if path.utf8ByteSize < (Path.join path name).utf8ByteSize ∧
          (Path.join path name).utf8ByteSize ≤ Entry.maxPathLength then
        return (← collect extension (Path.join path name)).map (name, ·)
      else return none
    return some (.directory entries)
termination_by Entry.maxPathLength - path.utf8ByteSize

/-- What some paths were found to lead to. -/
def known (entries : List (String × Entry)) : Files where
  entry path :=
    match entries.find? (·.1 == path) with
    | some (_, e) => .ok e
    | none => .error .notFound

variable [DocumentReader Overrides]

/-- The files that a run may read. -/
def gather (r : Request) : m Files := do
  let settings ← r.config.toList.mapM fun path => return (path, .file (← disk.read path))
  match r.configuration (known settings) with
  | .error _ => return known settings
  | .ok config =>
    let found ← r.searched.filterMapM fun path => do
      return (← collect disk config.extension path).map (path, ·)
    return known (found ++ settings)

/-- The files that the program may read. -/
def filesFor : Invocation → m Files
  | .run r => gather disk r
  | _ => return known []

end Cli

end Conformance
