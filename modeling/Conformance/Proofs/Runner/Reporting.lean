import Mathlib.Data.List.Forall2
import Conformance.Proofs.Runner.FailFast
import Conformance.Proofs.Runner.Rendering
import Conformance.Proofs.Text.Occurrence

/-!
# Reports of a run

A run leaves a file that did not load without results, and it tells something of a case exactly if
the case failed. The reports go through the results on their own and leave out files for reasons of
their own; since the results are as they are, the text report still shows each case that the
counters count, and each once. Reading the JSON report gives the whole summary back.
-/

namespace Conformance

/-- What the results of every file of a run have in common. -/
structure FileResult.Consistent (r : FileResult) : Prop where
  /-- A file that did not load has no results. -/
  unloaded : r.loadError.isSome → r.cases = []
  /-- Something is told of a case exactly if it failed. -/
  detail : ∀ c ∈ r.cases, c.passed = true ↔ c.detail = none

theorem Case.passed_result_iff_detail (c : Case) :
    c.result.passed = true ↔ c.result.detail = none := by
  unfold Case.result
  cases c.check <;> simp

namespace Config

variable (config : Config)

/-- The name of a case that runs contains the text of the filter, if there is one. -/
theorem selects_iff (name : String) :
    config.selects name = true ↔ ∀ wanted ∈ config.filter, wanted.toList <:+: name.toList := by
  unfold selects
  cases config.filter with
  | none => simp
  | some wanted =>
      constructor
      · rintro h _ ⟨⟩
        exact Text.contains_iff.1 h
      · exact fun h => Text.contains_iff.2 (h wanted rfl)

/-- Every result of a file is that of one of its cases. -/
theorem exists_of_mem_runCases {cases : List Case} {r : CaseResult}
    (h : r ∈ config.runCases cases) : ∃ c ∈ cases, r = c.result := by
  induction cases with
  | nil => cases h
  | cons c rest ih =>
      rw [runCases] at h
      split at h
      · exact ⟨c, List.mem_cons_self, List.mem_singleton.1 h⟩
      · obtain rfl | hlater := List.mem_cons.1 h
        · exact ⟨c, List.mem_cons_self, rfl⟩
        · obtain ⟨c', hc', rfl⟩ := ih hlater
          exact ⟨c', List.mem_cons_of_mem _ hc', rfl⟩

variable [DocumentReader (List Case)]

theorem consistent_runFile (file : SuiteFile) : (config.runFile file).Consistent := by
  unfold runFile
  cases Suite.load file.path file.content with
  | error e =>
      refine ⟨fun _ => rfl, fun r hr => ?_⟩
      cases hr
  | ok suite =>
      refine ⟨nofun, fun r hr => ?_⟩
      obtain ⟨c, -, rfl⟩ := config.exists_of_mem_runCases hr
      exact c.passed_result_iff_detail

/-- What holds of the results of each file holds of all that a run adds to a summary. -/
theorem forall_files_runAfter {P : FileResult → Prop} (hP : ∀ file, P (config.runFile file))
    {s : Summary} (hs : ∀ r ∈ s.files, P r) (files : List SuiteFile) :
    ∀ r ∈ (config.runAfter s files).files, P r := by
  induction files generalizing s with
  | nil => exact hs
  | cons file rest ih =>
      have hadd : ∀ r ∈ (s.add (config.runFile file)).files, P r := by
        rw [Summary.files_add]
        exact List.forall_mem_append.2 ⟨hs, List.forall_mem_singleton.2 (hP file)⟩
      rw [runAfter]
      split
      · exact hadd
      · exact ih hadd

theorem consistent_run (files : List SuiteFile) : ∀ r ∈ (config.run files).files, r.Consistent :=
  config.forall_files_runAfter config.consistent_runFile (List.forall_mem_nil _) files

end Config

namespace Summary

variable {s : Summary}

theorem Tallied.total_eq (h : s.Tallied) : s.total = s.passed + s.failed := by
  rw [h.total, h.passed, h.failed, List.length_eq_countP_add_countP (·.passed)]
  simp

/-! ## The text report -/

/-- The case whose status a line of the output shows, and whether it shows that it passed. -/
def OutputLine.status? : OutputLine → Option (String × Bool)
  | status name passed _ => some (name, passed)
  | _ => none

/-- The numbers of passed and failed cases that a line of the output tells. -/
def OutputLine.totals? : OutputLine → Option (Nat × Nat)
  | totals passed failed => some (passed, failed)
  | _ => none

/-- The failed case that a line of the diagnostics names, after the path of its file. -/
def DiagnosticLine.failure? : DiagnosticLine → Option (String × String)
  | failure path name => some (path, name)
  | _ => none

/-- The files that some lines of the diagnostics tell not to have loaded, with the reasons. -/
def loadFailures : List DiagnosticLine → List (String × String)
  | .unloaded path :: .reason message :: rest => (path, message) :: loadFailures rest
  | _ :: rest => loadFailures rest
  | [] => []

theorem filterMap_status?_fileOutput (verbose : Bool) {r : FileResult} (h : r.Consistent) :
    (fileOutput verbose r).filterMap OutputLine.status? =
      r.cases.map fun c => (c.name, c.passed) := by
  unfold fileOutput
  split
  case isTrue hout =>
    have hempty : r.cases = [] := by
      rw [Bool.or_eq_true, List.isEmpty_iff] at hout
      exact hout.elim h.unloaded id
    rw [hempty]
    rfl
  case isFalse =>
    rw [List.filterMap_cons_none rfl, List.filterMap_cons_none rfl, List.filterMap_map]
    exact congrFun List.filterMap_eq_map r.cases

theorem filterMap_totals?_fileOutput (verbose : Bool) (r : FileResult) :
    (fileOutput verbose r).filterMap OutputLine.totals? = [] := by
  unfold fileOutput
  split
  · rfl
  · simp [OutputLine.totals?]

/-- The output shows the status of each case once, file by file. -/
theorem statuses_outputLines (h : ∀ r ∈ s.files, r.Consistent) (verbose : Bool) :
    (s.outputLines verbose).filterMap OutputLine.status? =
      s.cases.map fun c => (c.name, c.passed) := by
  have hfiles : ∀ r ∈ s.files, (fileOutput verbose r).filterMap OutputLine.status? =
      r.cases.map fun c => (c.name, c.passed) :=
    fun r hr => filterMap_status?_fileOutput verbose (h r hr)
  rw [outputLines, List.filterMap_append, List.filterMap_flatMap, Summary.cases, List.map_flatMap,
    List.flatMap_congr hfiles]
  simp [OutputLine.status?]

/-- The output ends with the counters, and tells no others. -/
theorem totals_outputLines (s : Summary) (verbose : Bool) :
    (s.outputLines verbose).filterMap OutputLine.totals? = [(s.passed, s.failed)] := by
  rw [outputLines, List.filterMap_append, List.filterMap_flatMap,
    List.flatMap_eq_nil_iff.2 fun r _ => filterMap_totals?_fileOutput verbose r]
  rfl

theorem filterMap_failure?_loadDiagnostics (r : FileResult) :
    (loadDiagnostics r).filterMap DiagnosticLine.failure? = [] := by
  unfold loadDiagnostics
  cases r.loadError <;> rfl

theorem filterMap_failure?_failureDiagnostics (path : String) (c : CaseResult) :
    (failureDiagnostics path c).filterMap DiagnosticLine.failure? = [(path, c.name)] := by
  simp [failureDiagnostics, DiagnosticLine.failure?, Function.comp_def]

/-- The diagnostics name each failed case once, file by file. -/
theorem failures_diagnosticLines (s : Summary) :
    s.diagnosticLines.filterMap DiagnosticLine.failure? =
      s.failedCases.map fun (path, c) => (path, c.name) := by
  have hheading : (if s.failedCases.isEmpty then [] else
      [DiagnosticLine.blank, .failures, .blank]).filterMap DiagnosticLine.failure? = [] := by
    split <;> rfl
  rw [diagnosticLines, List.filterMap_append, List.filterMap_append, List.filterMap_flatMap,
    List.filterMap_flatMap, hheading,
    List.flatMap_eq_nil_iff.2 fun r _ => filterMap_failure?_loadDiagnostics r]
  simp only [filterMap_failure?_failureDiagnostics]
  rw [List.map_eq_flatMap]
  rfl

theorem loadFailures_loadDiagnostics_append (r : FileResult) (lines : List DiagnosticLine) :
    loadFailures (loadDiagnostics r ++ lines) =
      (r.loadError.map (r.path, ·)).toList ++ loadFailures lines := by
  unfold loadDiagnostics
  cases r.loadError with
  | none => rfl
  | some message => simp [loadFailures]

theorem loadFailures_eq_nil {lines : List DiagnosticLine}
    (h : ∀ path, .unloaded path ∉ lines) : loadFailures lines = [] := by
  induction lines with
  | nil => rfl
  | cons line rest ih =>
      have hrest : loadFailures rest = [] :=
        ih fun path hmem => h path (List.mem_cons_of_mem _ hmem)
      cases line with
      | unloaded path => exact absurd List.mem_cons_self (h path)
      | _ => simpa [loadFailures] using hrest

/-- The diagnostics tell of each file that did not load once, with the reason. -/
theorem loadFailures_diagnosticLines (s : Summary) :
    loadFailures s.diagnosticLines =
      s.files.filterMap fun r => r.loadError.map (r.path, ·) := by
  have hrest : loadFailures ((if s.failedCases.isEmpty then [] else [.blank, .failures, .blank]) ++
      s.failedCases.flatMap fun (path, c) => failureDiagnostics path c) = [] := by
    apply loadFailures_eq_nil
    intro path
    split <;> simp [failureDiagnostics]
  rw [diagnosticLines, List.append_assoc]
  induction s.files with
  | nil => exact hrest
  | cons r files ih =>
      rw [List.flatMap_cons, List.append_assoc, loadFailures_loadDiagnostics_append, ih]
      cases hr : r.loadError <;> simp [hr]

theorem length_failedCases (s : Summary) :
    s.failedCases.length = s.cases.countP (!·.passed) := by
  rw [failedCases, Summary.cases, List.length_flatMap, List.countP_flatMap]
  simp only [List.length_map, List.countP_eq_length_filter, Function.comp_def]

/-- As many things are told of files that did not load as there are such files. -/
theorem length_filterMap_loadError {α : Type} (s : Summary) (tell : FileResult → String → α) :
    (s.files.filterMap fun r => r.loadError.map (tell r)).length = s.loadErrors := by
  simp [loadErrors, List.length_filterMap_eq_countP]

end Summary

/-! ## The JSON report -/

/-- What a member of an object is read as. -/
def Json.member? {α : Type} (read : Json → Option α) (key : String) : Json → Option α
  | object members => (members.find? (·.1 == key)).bind fun member => read member.2
  | _ => none

/-- The number that a value is. -/
def Json.nat? : Json → Option Nat
  | nat n => some n
  | _ => none

/-- The truth value that a value is. -/
def Json.bool? : Json → Option Bool
  | bool b => some b
  | _ => none

/-- The text, or the absence of one, that a value stands for. -/
def Json.text? : Json → Option (Option String)
  | string s => some (some s)
  | null => some none
  | _ => none

/-- What the elements of an array are read as. -/
def Json.items? {α : Type} (read : Json → Option α) : Json → Option (List α)
  | array items => items.mapM read
  | _ => none

/-- Reads the result of a case. -/
def CaseResult.ofJson? (j : Json) : Option CaseResult := do
  return ⟨← (← j.member? Json.text? "name"), ← j.member? Json.bool? "passed",
    ← j.member? Json.nat? "duration_us", ← j.member? Json.text? "error"⟩

/-- Reads the results of a file. -/
def FileResult.ofJson? (j : Json) : Option FileResult := do
  return ⟨← (← j.member? Json.text? "path"), ← j.member? (Json.items? CaseResult.ofJson?) "cases",
    ← j.member? Json.text? "load_error"⟩

/-- Reads the results of a run. -/
def Summary.ofJson? (j : Json) : Option Summary := do
  return ⟨← j.member? Json.nat? "total", ← j.member? Json.nat? "passed",
    ← j.member? Json.nat? "failed", ← j.member? (Json.items? FileResult.ofJson?) "files"⟩

namespace Json

@[simp] theorem nat?_nat (n : Nat) : (nat n).nat? = some n := rfl

@[simp] theorem bool?_bool (b : Bool) : (bool b).bool? = some b := rfl

@[simp] theorem text?_string (s : String) : (string s).text? = some (some s) := rfl

@[simp] theorem text?_ofText? (text : Option String) : (ofText? text).text? = some text := by
  cases text <;> rfl

/-- An array of values each of which is read back is read back. -/
theorem items?_array {α : Type} {write : α → Json} {read : Json → Option α}
    (h : ∀ a, read (write a) = some a) (items : List α) :
    (array (items.map write)).items? read = some items := by
  have hread : (fun a => read (write a)) = pure := funext h
  rw [items?, List.mapM_map, Function.comp_def, hread]
  exact List.mapM_pure.trans (congrArg some (List.map_id' items))

end Json

theorem CaseResult.ofJson?_toJson (r : CaseResult) : ofJson? r.toJson = some r := by
  simp [ofJson?, toJson, Json.member?]

theorem FileResult.ofJson?_toJson (r : FileResult) : ofJson? r.toJson = some r := by
  simp [ofJson?, toJson, Json.member?, Json.items?_array CaseResult.ofJson?_toJson]

/-- The JSON report tells all of a summary. -/
theorem Summary.ofJson?_toJson (s : Summary) : ofJson? s.toJson = some s := by
  simp [ofJson?, toJson, Json.member?, Json.items?_array FileResult.ofJson?_toJson]

/-- The results of a file from which no case is left out. -/
structure FileResult.Covers [DocumentReader (List Case)] (config : Config) (file : SuiteFile)
    (r : FileResult) : Prop where
  path : r.path = file.path
  /-- There is one result for each case that runs, in the order of the file. -/
  loaded : ∀ suite, Suite.load file.path file.content = .ok suite → r.loadError = none ∧
    r.cases = (suite.cases.filter fun c => config.selects c.name).map Case.result
  unloaded : ∀ e, Suite.load file.path file.content = .error e → r.loadError = some e.message

theorem Config.covers_runFile [DocumentReader (List Case)] {config : Config}
    (hfull : config.failFast = false) (file : SuiteFile) :
    (config.runFile file).Covers config file := by
  have hconfig : config.withFailFast false = config := hfull ▸ config.withFailFast_self
  have hsuite : ∀ suite, config.runSuite suite =
      (suite.cases.filter fun c => config.selects c.name).map Case.result := by
    intro suite
    rw [← hconfig, runSuite, runCases_full]
  constructor
  all_goals unfold runFile
  case path => split <;> rfl
  case loaded =>
    intro suite hload
    rw [hload]
    exact ⟨rfl, hsuite suite⟩
  case unloaded =>
    intro e hload
    rw [hload]

theorem Config.files_run_full [DocumentReader (List Case)] {config : Config}
    (hfull : config.failFast = false) (files : List SuiteFile) :
    (config.run files).files = files.map config.runFile := by
  have hconfig : config.withFailFast false = config := hfull ▸ config.withFailFast_self
  rw [← hconfig, run, files_runAfter_full]
  rfl

open Classical in
/-- A run of any files, with any filter, that may fail fast or not. The counters of its summary are
the numbers of all cases, of those that passed and of those that failed in the results; a file that
did not load has no results, and something is told of a case exactly if it failed. Without failing
fast there are the results of all files, with one result for each case of a file whose name contains
the text of the filter.

The reports show that summary. The output has one status for each case, in the order of the run,
with as many cases that passed and that failed as the one line of totals tells. The diagnostics
tell of each file that did not load, and name each failed case, once. The JSON report can be read
back, and counts the files that did not load.

The text of the two streams is given in full. Where paths and names have no line breaks, the lines
of the output that are a status are those of the cases in the order of the run, and as many of them
are `ok` and `FAILED` as the counters say. All this holds for every reader of documents. -/
theorem reports_show_run [DocumentReader (List Case)] (config : Config) (files : List SuiteFile)
    (verbose : Bool) :
    let s := config.run files
    let statuses := (s.outputLines verbose).filterMap Summary.OutputLine.status?
    let unloaded := Summary.loadFailures s.diagnosticLines
    let failures := s.diagnosticLines.filterMap Summary.DiagnosticLine.failure?
    (s.total = s.passed + s.failed ∧ s.passed = s.cases.countP (·.passed) ∧
      s.failed = s.cases.countP (!·.passed)) ∧
    (∀ r ∈ s.files, r.Consistent) ∧
    (config.failFast = false → List.Forall₂ (FileResult.Covers config) files s.files) ∧
    (∀ name, config.selects name = true ↔
      ∀ wanted ∈ config.filter, wanted.toList <:+: name.toList) ∧
    (statuses = s.cases.map (fun c => (c.name, c.passed)) ∧
      statuses.countP (·.2) = s.passed ∧ statuses.countP (!·.2) = s.failed ∧
      (s.outputLines verbose).filterMap Summary.OutputLine.totals? = [(s.passed, s.failed)]) ∧
    (unloaded = s.files.filterMap (fun r => r.loadError.map (r.path, ·)) ∧
      unloaded.length = s.loadErrors ∧
      failures = s.failedCases.map (fun (path, c) => (path, c.name)) ∧
      failures.length = s.failed) ∧
    (Summary.ofJson? s.toJson = some s ∧
      s.toJson.member? Json.nat? "load_errors" = some s.loadErrors) ∧
    s.output verbose = String.join (s.files.map (·.shown verbose)) ++
      "\n========================================\n" ++
      "Results: " ++ toString s.passed ++ " passed, " ++ toString s.failed ++ " failed\n" ∧
    (s.diagnostics = String.join (s.files.filterMap (·.loadFailure?)) ++
        (if s.failedCases = [] then "" else "\nFAILURES:\n\n") ++
        String.join (s.failedCases.map fun (path, c) => c.failureEntry path) ∧
      (s.files.filterMap (·.loadFailure?)).length = s.loadErrors ∧
      s.failedCases.length = s.failed) ∧
    ((∀ r ∈ s.files, '\n' ∉ r.path.toList) → (∀ c ∈ s.cases, '\n' ∉ c.name.toList) →
      let lines := Summary.lines (s.output verbose)
      lines.filter (∃ passed, Summary.IsStatus verbose passed ·) =
          s.cases.map (·.statusLine verbose) ∧
        lines.countP (Summary.IsStatus verbose true ·) = s.passed ∧
        lines.countP (Summary.IsStatus verbose false ·) = s.failed) := by
  intro s statuses unloaded failures
  have htallied : s.Tallied := Summary.tallied_run config files
  have hconsistent : ∀ r ∈ s.files, r.Consistent := config.consistent_run files
  have hempty : ∀ r ∈ s.files, r.loadError.isSome → r.cases = [] :=
    fun r hr => (hconsistent r hr).unloaded
  have hfailed : s.failedCases.length = s.failed :=
    s.length_failedCases.trans htallied.failed.symm
  have hstatuses : statuses = s.cases.map fun c => (c.name, c.passed) :=
    Summary.statuses_outputLines hconsistent verbose
  have hunloaded : unloaded = s.files.filterMap fun r => r.loadError.map (r.path, ·) :=
    s.loadFailures_diagnosticLines
  have hfailures : failures = s.failedCases.map fun (path, c) => (path, c.name) :=
    s.failures_diagnosticLines
  refine ⟨⟨htallied.total_eq, htallied.passed, htallied.failed⟩, hconsistent, ?_,
    config.selects_iff, ⟨hstatuses, ?_, ?_, s.totals_outputLines verbose⟩,
    ⟨hunloaded, ?_, hfailures, ?_⟩, ⟨s.ofJson?_toJson, rfl⟩, Summary.output_eq hempty verbose,
    ⟨s.diagnostics_eq, s.length_filterMap_loadError _, hfailed⟩, fun hpaths hnames => ?_⟩
  · intro hfull
    rw [Config.files_run_full hfull files, List.forall₂_map_right_iff, List.forall₂_same]
    exact fun file _ => Config.covers_runFile hfull file
  · rw [hstatuses, List.countP_map, htallied.passed]
    rfl
  · rw [hstatuses, List.countP_map, htallied.failed]
    rfl
  · rw [hunloaded, s.length_filterMap_loadError]
  · rw [hfailures, List.length_map, hfailed]
  · refine ⟨Summary.filter_isStatus_output hempty hpaths hnames verbose, ?_, ?_⟩
    · rw [Summary.countP_isStatus_output hempty hpaths hnames, htallied.passed]
      simp only [beq_true]
    · rw [Summary.countP_isStatus_output hempty hpaths hnames, htallied.failed]
      simp only [beq_false]

open Classical in
/-- A file of three cases, of which the filter leaves out one and one fails, and a file that is no
text. -/
theorem reports_show_run_filtered :
    let text := "[[case]]\nname=\"ab\"\nrun.op=\"len\"\nrun.text=\"\"\nexpect=0\n" ++
      "[[case]]\nname=\"a\"\nrun.op=\"len\"\nrun.text=\"\"\nexpect=0\n" ++
      "[[case]]\nname=\"b\"\nrun.op=\"len\"\nrun.text=\"\"\nexpect=1\n"
    let files : List SuiteFile := [⟨"a.toml", .ok text⟩, ⟨"b.toml", .error .notText⟩]
    let config : Config := ⟨some "b", false, false, .text, "toml"⟩
    let s := config.run files
    config.failFast = false ∧ List.Forall₂ (FileResult.Covers config) files s.files ∧
      (s.outputLines true).filterMap Summary.OutputLine.status? = [("ab", true), ("b", false)] ∧
      (s.total, s.passed, s.failed, s.loadErrors) = (2, 1, 1, 1) ∧
      s.output true = "\nRunning cases in a.toml...\n  ab ... ok (0us)\n  b ... FAILED (0us)\n" ++
        "\n========================================\nResults: 1 passed, 1 failed\n" ∧
      (Summary.lines (s.output true)).filter (∃ passed, Summary.IsStatus true passed ·) =
        ["  ab ... ok (0us)", "  b ... FAILED (0us)"] ∧
      (Summary.lines (s.output true)).countP (Summary.IsStatus true true ·) = 1 := by
  intro text files config s
  obtain ⟨-, -, hcovers, -, ⟨hstatuses, -⟩, -, -, houtput, -, hlines⟩ :=
    reports_show_run config files true
  have hrun : s.cases.map (fun c => (c.name, c.passed)) = [("ab", true), ("b", false)] ∧
      (s.total, s.passed, s.failed, s.loadErrors) = (2, 1, 1, 1) := by decide +kernel
  have hshown : s.files.map (·.shown true) =
      ["\nRunning cases in a.toml...\n  ab ... ok (0us)\n  b ... FAILED (0us)\n", ""] ∧
      s.cases.map (·.statusLine true) = ["  ab ... ok (0us)", "  b ... FAILED (0us)"] := by
    decide +kernel
  have hbreaks : (∀ r ∈ s.files, '\n' ∉ r.path.toList) ∧ ∀ c ∈ s.cases, '\n' ∉ c.name.toList := by
    decide +kernel
  obtain ⟨hfilter, hpassed, -⟩ := hlines hbreaks.1 hbreaks.2
  have hcounters : s.passed = 1 ∧ s.failed = 1 := by decide +kernel
  refine ⟨rfl, hcovers rfl, hstatuses.trans hrun.1, hrun.2, ?_, hfilter.trans hshown.2,
    hpassed.trans hcounters.1⟩
  rw [houtput, hshown.1, hcounters.1, hcounters.2]
  decide +kernel

end Conformance
