import Conformance.Files.Path

/-!
# Files and directories

A file is known by what reading it gives: a text, or the reason why there is none. A directory
has named entries. A path leads to an entry of a file system, from its root or from the directory
a program works in. A path has a limited length, and each of its names has one; both are counted
in bytes.
-/

namespace Conformance

/-- The reasons for which a file cannot be read. -/
inductive FileError where
  /-- A failure that the operating system reports under a number. -/
  | system (reason : String) (number : Nat)
  /-- Bytes that are no text. -/
  | notText
  /-- A path that no file can have. -/
  | nulInPath
  deriving DecidableEq, Repr

namespace FileError

/-- The message of a file that cannot be read. -/
def message : FileError → String
  | system reason number => s!"{reason} (os error {number})"
  | notText => "stream did not contain valid UTF-8"
  | nulInPath => "file name contained an unexpected NUL byte"

/-- A path that leads nowhere. -/
def notFound : FileError := .system "No such file or directory" 2

/-- A path through a file. -/
def notDirectory : FileError := .system "Not a directory" 20

/-- A directory instead of a file. -/
def isDirectory : FileError := .system "Is a directory" 21

/-- A path that is too long, or that has a name that is. -/
def nameTooLong : FileError := .system "File name too long" 36

end FileError

/-- A file or a directory. -/
inductive Entry where
  | file (content : Except FileError String)
  | directory (entries : List (String × Entry))

namespace Entry

/-- The file of some bytes. -/
def ofBytes (bytes : ByteArray) : Entry :=
  match String.fromUTF8? bytes with
  | some text => .file (.ok text)
  | none => .file (.error .notText)

/-- What reading an entry gives. -/
def read : Entry → Except FileError String
  | file content => content
  | directory _ => .error .isDirectory

/-- The largest number of bytes in a name. -/
def maxNameLength : Nat := 255

/-- The largest number of bytes in a path. -/
def maxPathLength : Nat := 4095

/-- The entry that some steps lead to, from an entry that the given directories lead to, the
nearest first. Only a directory can be left by a step, and names are looked at one by one. A
directory with none above it is its own parent. -/
def walk : List Entry → Entry → List String → Except FileError Entry
  | _, e, [] => .ok e
  | _, .file _, _ :: _ => .error .notDirectory
  | above, .directory entries, step :: steps =>
    if step = "" ∨ step = "." then walk above (.directory entries) steps
    else if step = ".." then
      match above with
      | parent :: above => walk above parent steps
      | [] => walk [] (.directory entries) steps
    else if maxNameLength < step.utf8ByteSize then .error .nameTooLong
    else
      match entries.find? (·.1 == step) with
      | some (_, e) => walk (.directory entries :: above) e steps
      | none => .error .notFound

end Entry

/-- What paths lead to. -/
structure Files where
  entry : String → Except FileError Entry

namespace Files

/-- What reading the file at a path gives. -/
def read (files : Files) (path : String) : Except FileError String :=
  (files.entry path).bind Entry.read

end Files

/-- A file system: the entries of its root, and the names that lead from the root to the directory
a program works in. -/
structure FileSystem where
  root : List (String × Entry)
  working : List String

namespace FileSystem

/-- The steps from the root along the segments of a path. A path that does not begin with a slash
begins at the working directory. -/
def steps (fs : FileSystem) (segments : List String) : List String :=
  if segments.head? = some "" then segments.tail else fs.working ++ segments

/-- The entry that a path leads to. -/
def resolve (fs : FileSystem) (path : String) : Except FileError Entry :=
  if path.isEmpty then .error .notFound
  else if path.toList.contains '\x00' then .error .nulInPath
  else if Entry.maxPathLength < path.utf8ByteSize then .error .nameTooLong
  else Entry.walk [] (.directory fs.root) (fs.steps (Path.segments path))

/-- What paths lead to in a file system. -/
def files (fs : FileSystem) : Files := ⟨fs.resolve⟩

end FileSystem

/-- What paths lead to from a home directory, which is the only entry of the root. -/
def Files.ofDirectory (home : Entry) : Files :=
  FileSystem.files ⟨[("home", home)], ["home"]⟩

end Conformance
