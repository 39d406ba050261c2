import Conformance.Runner.Config

/-!
# Discovery

Suite files are the files with the extension of suites among the given paths and at any depth
below the given directories, once for each given path that reaches them. Paths that lead nowhere
are passed over. The result is sorted by path; equal paths stay in the order of the given ones.
-/

namespace Conformance

/-- A suite file: its path and what reading it gives. -/
structure SuiteFile where
  path : String
  content : Except FileError String

namespace Entry

mutual

/-- The suite files of an entry at a path. -/
def suiteFiles (extension path : String) : Entry → List SuiteFile
  | .file content =>
    if Path.extension? path = some extension then [⟨path, content⟩] else []
  | .directory entries => suiteFilesBelow extension path entries

/-- The suite files of some entries of a directory at a path. A path that is too long leads
nowhere. -/
def suiteFilesBelow (extension path : String) : List (String × Entry) → List SuiteFile
  | [] => []
  | (name, e) :: rest =>
    let inner := Path.join path name
    (if maxPathLength < inner.utf8ByteSize then [] else suiteFiles extension inner e) ++
      suiteFilesBelow extension path rest

end

end Entry

namespace SuiteFile

/-- Whether a file may come before another one. -/
def precedes (a b : SuiteFile) : Bool := (Path.compare a.path b.path).isLE

/-- The suite files that one given path reaches. -/
def reachedFrom (files : Files) (extension path : String) : List SuiteFile :=
  match files.entry path with
  | .ok e => e.suiteFiles extension path
  | .error _ => []

/-- The suite files that some given paths reach. -/
def discover (files : Files) (extension : String) (paths : List String) : List SuiteFile :=
  (paths.flatMap (reachedFrom files extension)).mergeSort precedes

end SuiteFile

end Conformance
