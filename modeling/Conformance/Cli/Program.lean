import Conformance.Cli.Invocation
import Conformance.Runner.Report

/-!
# The program

The program runs the suites below the given paths, by default the current directory, and reports.
Its exit status is 0 when all of them loaded and passed, 1 when not or when the configuration does
not load, and 2 when its arguments mean nothing. What the program logs on the way is left out.
-/

namespace Conformance

namespace Cli

/-- What the program leaves behind. -/
structure Outcome where
  /-- The exit status. -/
  code : Nat
  output : String
  diagnostics : String

/-- The text that tells how the program is used. -/
def usage : String :=
  "Usage: tessc run [PATHS]... [-f|--filter TEXT] [-v|--verbose] [--fail-fast]\n" ++
  "                 [--format text|json] [--config FILE]\n"

/-- The line that tells the version. -/
def version : String := "tessc 0.4.1\n"

namespace Request

/-- The given paths in order, or the current directory. -/
def searched (r : Request) : List String := if r.paths.isEmpty then ["."] else r.paths.reverse

/-- The settings that override the configuration. -/
def overrides (r : Request) : Overrides where
  filter := r.filter
  verbose := if r.verbose then some true else none
  failFast := if r.failFast then some true else none
  format := r.format
  extension := none

/-- The configuration of a run. -/
def configuration [DocumentReader Overrides] (files : Files) (r : Request) :
    Except LoadError Config :=
  match r.config with
  | some path => (Config.load files path).map (·.override r.overrides)
  | none => .ok (Config.standard.override r.overrides)

end Request

/-- What is left behind by a run of a configuration with a summary. -/
def Outcome.ofSummary (config : Config) (s : Summary) : Outcome :=
  let code := if s.success then 0 else 1
  match config.format with
  | .text => ⟨code, s.output config.verbose, s.diagnostics⟩
  | .json => ⟨code, s.toJson.pretty ++ "\n", ""⟩

variable [DocumentReader (List Case)] [DocumentReader Overrides]

/-- What a run leaves behind. -/
def runRequest (files : Files) (r : Request) : Outcome :=
  match r.configuration files with
  | .error e => ⟨1, "", s!"Error: {e.message}\n"⟩
  | .ok config =>
    .ofSummary config (config.run (SuiteFile.discover files config.extension r.searched))

/-- What the program leaves behind. -/
def execute (files : Files) : Invocation → Outcome
  | .run request => runRequest files request
  | .version => ⟨0, version, ""⟩
  | .help => ⟨0, usage, ""⟩
  | .misuse => ⟨2, "", usage⟩

end Cli

end Conformance
