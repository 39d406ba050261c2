import Conformance.Json
import Conformance.Runner.Run

/-!
# Reports

The text report has two streams. The output shows the files with their cases and the totals, the
diagnostics the files that did not load and the details of failed cases. The JSON report is one
document.
-/

namespace Conformance

namespace Summary

/-- A line of the output. -/
inductive OutputLine where
  | blank
  | heading (path : String)
  /-- The status of a case, with its time when that is shown. -/
  | status (name : String) (passed : Bool) (micros : Option Nat)
  | rule
  | totals (passed failed : Nat)

/-- A line of the output as it is written. -/
def OutputLine.text : OutputLine → String
  | blank => ""
  | heading path => s!"Running cases in {path}..."
  | status name passed micros =>
    let word := if passed then "ok" else "FAILED"
    match micros with
    | some n => s!"  {name} ... {word} ({n}us)"
    | none => s!"  {name} ... {word}"
  | rule => "========================================"
  | totals passed failed => s!"Results: {passed} passed, {failed} failed"

/-- A line of the diagnostics, or what is told of one thing. -/
inductive DiagnosticLine where
  | blank
  | unloaded (path : String)
  | reason (message : String)
  | failures
  | failure (path name : String)
  | detail (line : String)

/-- A line of the diagnostics as it is written. -/
def DiagnosticLine.text : DiagnosticLine → String
  | blank => ""
  | unloaded path => s!"Failed to load {path}:"
  | reason message => s!"  {message}"
  | failures => "FAILURES:"
  | failure path name => s!"{path}::{name}"
  | detail line => s!"  {line}"

/-- The lines of a text. A carriage return before a line feed belongs to the line break. -/
def textLines : List Char → List (List Char)
  | [] => []
  | '\n' :: rest => [] :: textLines rest
  | '\r' :: '\n' :: rest => [] :: textLines rest
  | c :: rest =>
    match textLines rest with
    | [] => [[c]]
    | line :: lines => (c :: line) :: lines

/-- The output on a file. Files that did not load or have no results are left out. -/
def fileOutput (verbose : Bool) (r : FileResult) : List OutputLine :=
  if r.loadError.isSome || r.cases.isEmpty then []
  else .blank :: .heading r.path ::
    r.cases.map fun c => .status c.name c.passed (if verbose then some c.micros else none)

/-- The lines of the output. -/
def outputLines (s : Summary) (verbose : Bool) : List OutputLine :=
  s.files.flatMap (fileOutput verbose) ++ [.blank, .rule, .totals s.passed s.failed]

/-- The diagnostics on a file that did not load. -/
def loadDiagnostics (r : FileResult) : List DiagnosticLine :=
  match r.loadError with
  | some message => [.blank, .unloaded r.path, .reason message]
  | none => []

/-- The diagnostics on a failed case. -/
def failureDiagnostics (path : String) (c : CaseResult) : List DiagnosticLine :=
  let lines := textLines (c.detail.getD "").toList
  .failure path c.name :: lines.map (.detail <| String.ofList ·) ++ [.blank]

/-- The failed cases with the paths of their files. -/
def failedCases (s : Summary) : List (String × CaseResult) :=
  s.files.flatMap fun r => (r.cases.filter (!·.passed)).map (r.path, ·)

/-- The lines of the diagnostics. -/
def diagnosticLines (s : Summary) : List DiagnosticLine :=
  let failed := s.failedCases
  s.files.flatMap loadDiagnostics ++
    (if failed.isEmpty then [] else [.blank, .failures, .blank]) ++
    failed.flatMap fun (path, c) => failureDiagnostics path c

/-- A text of lines, each of which ends with a line feed. -/
def ofLines (lines : List String) : String := String.join (lines.map (· ++ "\n"))

/-- The output of the text report. -/
def output (s : Summary) (verbose : Bool) : String :=
  ofLines ((s.outputLines verbose).map OutputLine.text)

/-- The diagnostics of the text report. -/
def diagnostics (s : Summary) : String := ofLines (s.diagnosticLines.map DiagnosticLine.text)

end Summary

/-- The result of a case in a JSON report. -/
def CaseResult.toJson (r : CaseResult) : Json :=
  .object [("duration_us", .nat r.micros), ("error", .ofText? r.detail), ("name", .string r.name),
    ("passed", .bool r.passed)]

/-- The results of a file in a JSON report. -/
def FileResult.toJson (r : FileResult) : Json :=
  .object [("cases", .array (r.cases.map CaseResult.toJson)),
    ("load_error", .ofText? r.loadError), ("path", .string r.path)]

/-- The JSON report. -/
def Summary.toJson (s : Summary) : Json :=
  .object [("failed", .nat s.failed), ("files", .array (s.files.map FileResult.toJson)),
    ("load_errors", .nat s.loadErrors), ("passed", .nat s.passed), ("total", .nat s.total)]

end Conformance
