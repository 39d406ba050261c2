import Conformance.Runner.Config

/-!
# Invocations

The arguments of the program are read from left to right. Options and flags may stand between
the paths, each at most once; short ones may share a dash, and an option takes the rest of its
argument or the next one. After two dashes all arguments are paths. An option takes no next
argument that begins with a dash, unless that is the dash alone.
-/

namespace Conformance

namespace Cli

/-- What a run is asked for. -/
structure Request where
  /-- The given paths, the last one first. -/
  paths : List String
  filter : Option String
  verbose : Bool
  failFast : Bool
  format : Option ReportFormat
  config : Option String

/-- What the program is asked for. -/
inductive Invocation where
  | run (request : Request)
  | version
  | help
  /-- Arguments of no meaning. -/
  | misuse

/-- The options, which take a value. -/
inductive Setting where
  | filter
  | format
  | config

/-- The flags, which take none. -/
inductive Flag where
  | verbose
  | failFast
  | help

/-- A name that begins with dashes. -/
inductive Switch where
  | setting (s : Setting)
  | flag (f : Flag)

/-- What a name after two dashes stands for. -/
def Switch.ofName? : String → Option Switch
  | "filter" => some (.setting .filter)
  | "format" => some (.setting .format)
  | "config" => some (.setting .config)
  | "verbose" => some (.flag .verbose)
  | "fail-fast" => some (.flag .failFast)
  | "help" => some (.flag .help)
  | _ => none

/-- What a letter after one dash stands for. -/
def Switch.ofLetter? : Char → Option Switch
  | 'f' => some (.setting .filter)
  | 'v' => some (.flag .verbose)
  | 'h' => some (.flag .help)
  | _ => none

namespace Request

/-- A run that is asked for without arguments. -/
def empty : Request := ⟨[], none, false, false, none, none⟩

/-- The request with a path, which is not empty. -/
def addPath (r : Request) (path : String) : Option Request :=
  if path.isEmpty then none else some { r with paths := path :: r.paths }

/-- The request with a setting that it does not have yet. -/
def set (r : Request) (s : Setting) (value : String) : Option Request :=
  match s with
  | .filter => if r.filter.isSome then none else some { r with filter := some value }
  | .format =>
    if r.format.isSome then none
    else (ReportFormat.ofName? value).map fun format => { r with format := some format }
  | .config =>
    if r.config.isSome || value.isEmpty then none else some { r with config := some value }

end Request

/-- The state after some arguments. -/
inductive Progress where
  | going (request : Request)
  /-- The next argument is the value of a setting. -/
  | awaiting (request : Request) (s : Setting)
  /-- All that follows is paths. -/
  | paths (request : Request)
  | done (invocation : Invocation)

namespace Progress

/-- Goes on with a request, if there is one. -/
def ofRequest? : Option Request → Progress
  | some r => going r
  | none => done .misuse

/-- The state after a flag. -/
def raise (r : Request) : Flag → Progress
  | .verbose => if r.verbose then done .misuse else going { r with verbose := true }
  | .failFast => if r.failFast then done .misuse else going { r with failFast := true }
  | .help => done .help

/-- The state after a name that two dashes precede, with the value after its sign of equality. -/
def long (r : Request) (name : String) (value : Option String) : Progress :=
  match Switch.ofName? name, value with
  | some (.setting s), some v => ofRequest? (r.set s v)
  | some (.setting s), none => awaiting r s
  | some (.flag f), none => raise r f
  | _, _ => done .misuse

/-- The state after the letters that one dash precedes. -/
def short (r : Request) : List Char → Progress
  | [] => going r
  | letter :: rest =>
    match Switch.ofLetter? letter with
    | some (.flag f) =>
      match raise r f with
      | going r => short r rest
      | other => other
    | some (.setting s) =>
      match rest with
      | [] => awaiting r s
      | '=' :: value => ofRequest? (r.set s (String.ofList value))
      | value => ofRequest? (r.set s (String.ofList value))
    | none => done .misuse

/-- The name and the value of an argument that two dashes precede. -/
def splitName (s : List Char) : String × Option String :=
  let name := String.ofList (s.takeWhile (· ≠ '='))
  match s.dropWhile (· ≠ '=') with
  | _ :: value => (name, some (String.ofList value))
  | [] => (name, none)

/-- The state after one more argument. -/
def next : Progress → String → Progress
  | going r, argument =>
    match argument.toList with
    | ['-', '-'] => paths r
    | '-' :: '-' :: rest => long r (splitName rest).1 (splitName rest).2
    | '-' :: letter :: rest => short r (letter :: rest)
    | _ => ofRequest? (r.addPath argument)
  | awaiting r s, argument =>
    match argument.toList with
    | '-' :: _ :: _ => done .misuse
    | _ => ofRequest? (r.set s argument)
  | paths r, argument =>
    match r.addPath argument with
    | some r => paths r
    | none => done .misuse
  | done invocation, _ => done invocation

/-- What is asked for when no argument follows. -/
def finish : Progress → Invocation
  | going r => .run r
  | paths r => .run r
  | awaiting _ _ => .misuse
  | done invocation => invocation

end Progress

/-- What the arguments of the program ask for. The command `completions`, which prints a script that
the library of the command line makes for a shell, is left out: here its name means nothing. -/
def Invocation.ofArguments : List String → Invocation
  | "run" :: arguments => (arguments.foldl Progress.next (.going .empty)).finish
  | ["help"] | ["help", "run"] => .help
  | "--version" :: _ => .version
  | "--help" :: _ => .help
  | first :: _ =>
    match first.toList with
    | '-' :: 'V' :: _ => .version
    | '-' :: 'h' :: _ => .help
    | _ => .misuse
  | [] => .misuse

end Cli

end Conformance
