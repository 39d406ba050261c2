/-!
# Paths

A path is a text whose parts slashes divide. Paths are shown as they were written and compared by
their parts, so that repeated slashes and inner dots make no difference.
-/

namespace Conformance

namespace Path

/-- The parts that count when paths are compared. -/
inductive Component where
  | root
  /-- A dot that the path begins with. -/
  | current
  | parent
  | name (s : String)
  deriving DecidableEq, Repr

/-- The rank of a component among those of other kinds. -/
def Component.rank : Component → Nat
  | root => 0
  | current => 1
  | parent => 2
  | name _ => 3

/-- The order of components: by kind, names by their codepoints. -/
def Component.compare : Component → Component → Ordering
  | name s, name t => Ord.compare s t
  | a, b => Ord.compare a.rank b.rank

/-- The texts between the slashes of a path. -/
def segments (path : String) : List String :=
  (path.toList.splitOn '/').map String.ofList

/-- The component of a text between slashes that is no dot at the beginning. -/
def component? (segment : String) : Option Component :=
  if segment = "" ∨ segment = "." then none
  else if segment = ".." then some .parent
  else some (.name segment)

/-- The components of a path. -/
def components (path : String) : List Component :=
  match segments path with
  | "" :: _ :: _ => .root :: (segments path).filterMap component?
  | "." :: rest => .current :: rest.filterMap component?
  | all => all.filterMap component?

/-- The order of paths. -/
def compare (a b : String) : Ordering :=
  List.compareLex Component.compare (components a) (components b)

/-- The name of what a path leads to, unless that is a dot. -/
def fileName? (path : String) : Option String :=
  match (components path).getLast? with
  | some (.name s) => some s
  | _ => none

/-- What follows the last dot of a file name. A dot that the name begins with does not count. -/
def extension? (path : String) : Option String := do
  let name ← fileName? path
  let reversed := name.toList.reverse
  let after := reversed.takeWhile (· ≠ '.')
  match reversed.dropWhile (· ≠ '.') with
  | _ :: _ :: _ => some (String.ofList after.reverse)
  | _ => none

/-- The path of an entry of a directory. -/
def join (directory name : String) : String :=
  if directory.toList.getLast? = some '/' then directory ++ name else directory ++ "/" ++ name

end Path

end Conformance
