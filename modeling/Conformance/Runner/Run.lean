import Conformance.Runner.Discovery

/-!
# Runs

A run checks the selected cases of each file in order. A file that does not load has no results.
A run that is to fail fast ends with the first case that fails or the first file that does not
load.
-/

namespace Conformance

/-- The result of a case. -/
structure CaseResult where
  name : String
  passed : Bool
  /-- The time it took in microseconds; nought when no time was taken. -/
  micros : Nat
  /-- What is told of a failed case. -/
  detail : Option String

/-- The results of a file. -/
structure FileResult where
  path : String
  cases : List CaseResult
  /-- What is told of a file that did not load. -/
  loadError : Option String

/-- The results of a run. -/
structure Summary where
  total : Nat
  passed : Nat
  failed : Nat
  files : List FileResult

/-- The result of checking a case. -/
def Case.result (c : Case) : CaseResult :=
  match c.check with
  | .ok () => ⟨c.name, true, 0, none⟩
  | .error e => ⟨c.name, false, 0, some e.message⟩

namespace Summary

/-- The summary of no files. -/
def empty : Summary := ⟨0, 0, 0, []⟩

/-- The summary with one more case counted. -/
def count (s : Summary) (r : CaseResult) : Summary :=
  if r.passed then { s with total := s.total + 1, passed := s.passed + 1 }
  else { s with total := s.total + 1, failed := s.failed + 1 }

/-- The summary with the results of one more file. -/
def add (s : Summary) (r : FileResult) : Summary :=
  let counted := r.cases.foldl count s
  { counted with files := counted.files ++ [r] }

theorem foldl_count (cases : List CaseResult) (s : Summary) :
    cases.foldl count s = ⟨s.total + cases.length, s.passed + cases.countP (·.passed),
      s.failed + cases.countP (!·.passed), s.files⟩ := by
  induction cases generalizing s with
  | nil => rfl
  | cons r rest ih =>
    rw [List.foldl_cons, ih, count, List.countP_cons, List.countP_cons, List.length_cons]
    cases r.passed <;> simp <;> omega

theorem add_eq (s : Summary) (r : FileResult) :
    s.add r = ⟨s.total + r.cases.length, s.passed + r.cases.countP (·.passed),
      s.failed + r.cases.countP (!·.passed), s.files ++ [r]⟩ := by
  rw [add, foldl_count]

@[simp] theorem files_add (s : Summary) (r : FileResult) : (s.add r).files = s.files ++ [r] := by
  rw [add_eq]

/-- The number of files that did not load. -/
def loadErrors (s : Summary) : Nat := s.files.countP (·.loadError.isSome)

/-- Whether all files loaded and no case failed. -/
def success (s : Summary) : Bool := s.failed == 0 && s.loadErrors == 0

end Summary

namespace Config

/-- The results of some cases. -/
def runCases (config : Config) : List Case → List CaseResult
  | [] => []
  | c :: rest =>
    let r := c.result
    if config.failFast && !r.passed then [r] else r :: config.runCases rest

/-- The results of the selected cases of a suite. -/
def runSuite (config : Config) (suite : Suite) : List CaseResult :=
  config.runCases (suite.cases.filter fun c => config.selects c.name)

variable [DocumentReader (List Case)]

/-- The results of a file. -/
def runFile (config : Config) (file : SuiteFile) : FileResult :=
  match Suite.load file.path file.content with
  | .ok suite => ⟨file.path, config.runSuite suite, none⟩
  | .error e => ⟨file.path, [], some e.message⟩

/-- The results of some files, after those of a summary. -/
def runAfter (config : Config) (s : Summary) : List SuiteFile → Summary
  | [] => s
  | file :: rest =>
    let s := s.add (config.runFile file)
    if config.failFast && !s.success then s else config.runAfter s rest

/-- The results of some files. -/
def run (config : Config) (files : List SuiteFile) : Summary := config.runAfter .empty files

end Config

end Conformance
