import Conformance.Cli.Program
import Conformance.Proofs.Runner.Tally

/-!
# Runs that fail fast

A run that is to fail fast gives the results of the full run up to the first failure. It stops at
two places, within a file and between files, and both stops together cut the full results once: the
counters of the summary turn bad after a file exactly if that file did not pass. So both runs are
successes or neither of them is.
-/

namespace Conformance

/-- A list as it is when it ends with its first bad element, in whose place another one may stand.
A list without bad elements is left whole. -/
inductive UpToFailure {α : Type} (good : α → Prop) (last : α → α → Prop) : List α → List α → Prop
  | whole {all : List α} (hall : ∀ a ∈ all, good a) : UpToFailure good last all all
  | cut {before after : List α} {a a' : α} (hbefore : ∀ b ∈ before, good b) (ha : ¬ good a)
      (hlast : last a a') : UpToFailure good last (before ++ a :: after) (before ++ [a'])

/-- The results of a file as they are when they end with the first failed case. -/
inductive FileResult.CutShort : FileResult → FileResult → Prop
  | unloaded {r : FileResult} (h : r.loadError ≠ none) : CutShort r r
  | loaded {r : FileResult} {cases : List CaseResult} (h : r.loadError = none)
      (hcases : UpToFailure (·.passed = true) Eq r.cases cases) : CutShort r { r with cases }

namespace UpToFailure

variable {α : Type} {good : α → Prop} {last : α → α → Prop} {all short : List α} {a a' : α}

theorem nil : UpToFailure good last [] [] := .whole nofun

theorem head (ha : ¬ good a) (hlast : last a a') (after : List α) :
    UpToFailure good last (a :: after) [a'] := by
  have hnil : ∀ b ∈ ([] : List α), good b := nofun
  exact .cut hnil ha hlast

theorem cons (ha : good a) (h : UpToFailure good last all short) :
    UpToFailure good last (a :: all) (a :: short) := by
  cases h with
  | whole hall => exact .whole (List.forall_mem_cons.2 ⟨ha, hall⟩)
  | cut hbefore hbad hlast =>
      have hmore := List.forall_mem_cons.2 ⟨ha, hbefore⟩
      exact .cut hmore hbad hlast

/-- Without bad elements nothing is left out. -/
theorem eq_of_forall (h : UpToFailure good last all short) (hall : ∀ a ∈ all, good a) :
    short = all := by
  cases h with
  | whole => rfl
  | cut hbefore hbad hlast => exact absurd (hall _ (by simp)) hbad

/-- The list that is cut has a bad element if the whole one does, as long as the element in the
place of the first bad one is bad too. -/
theorem forall_iff (h : UpToFailure good last all short)
    (hbad : ∀ a a', last a a' → ¬ good a → ¬ good a') :
    (∀ a ∈ short, good a) ↔ ∀ a ∈ all, good a := by
  cases h with
  | whole => rfl
  | cut hbefore ha hlast =>
      constructor
      · exact fun hshort => absurd (hshort _ (by simp)) (hbad _ _ hlast ha)
      · exact fun hall => absurd (hall _ (by simp)) ha

end UpToFailure

theorem Case.passed_result_iff (c : Case) : c.result.passed = true ↔ c.check = .ok () := by
  unfold Case.result
  cases c.check <;> simp

namespace FileResult

variable {r r' : FileResult}

/-- A file that is cut short did not pass, no more than the whole one. -/
theorem CutShort.passed_iff (h : r.CutShort r') : r'.Passed ↔ r.Passed := by
  cases h with
  | unloaded h => rfl
  | loaded h hcases =>
      have hforall := hcases.forall_iff fun a a' heq ha => heq ▸ ha
      exact ⟨fun hp => ⟨h, hforall.1 hp.cases⟩, fun hp => ⟨h, hforall.2 hp.cases⟩⟩

theorem CutShort.eq_of_passed (h : r.CutShort r') (hr : r.Passed) : r' = r := by
  cases h with
  | unloaded h => rfl
  | loaded h hcases => rw [hcases.eq_of_forall hr.cases]

end FileResult

namespace Config

variable (config : Config)

/-- The configuration of a run that is to fail fast, or is not. -/
def withFailFast (failFast : Bool) : Config := { config with failFast }

@[simp] theorem failFast_withFailFast (b : Bool) : (config.withFailFast b).failFast = b := rfl

theorem selects_withFailFast (b : Bool) (name : String) :
    (config.withFailFast b).selects name = config.selects name := rfl

theorem withFailFast_self : config.withFailFast config.failFast = config := rfl

theorem runCases_full (cases : List Case) :
    (config.withFailFast false).runCases cases = cases.map Case.result := by
  induction cases with
  | nil => rfl
  | cons c rest ih => simp [runCases, ih]

/-- Within a file the run stops after the first failed case. -/
theorem runCases_upToFailure (cases : List Case) :
    UpToFailure (·.passed = true) Eq ((config.withFailFast false).runCases cases)
      ((config.withFailFast true).runCases cases) := by
  rw [runCases_full]
  induction cases with
  | nil => exact .nil
  | cons c rest ih =>
      rw [runCases, failFast_withFailFast, List.map_cons]
      cases hc : c.result.passed with
      | true => exact .cons hc ih
      | false => exact .head (by simp [hc]) rfl _

variable [DocumentReader (List Case)]

theorem runFile_cutShort (file : SuiteFile) :
    ((config.withFailFast false).runFile file).CutShort
      ((config.withFailFast true).runFile file) := by
  unfold runFile
  cases Suite.load file.path file.content with
  | error e => exact .unloaded nofun
  | ok suite => exact .loaded rfl (config.runCases_upToFailure _)

theorem files_runAfter_full (s : Summary) (files : List SuiteFile) :
    ((config.withFailFast false).runAfter s files).files =
      s.files ++ files.map (config.withFailFast false).runFile := by
  induction files generalizing s with
  | nil => simp [runAfter]
  | cons file rest ih => simp [runAfter, ih]

/-- Between files the run stops after the first that did not pass. -/
theorem runAfter_upToFailure {s : Summary} (htallied : s.Tallied) (hs : s.success = true)
    (files : List SuiteFile) : ∃ short,
      ((config.withFailFast true).runAfter s files).files = s.files ++ short ∧
      UpToFailure FileResult.Passed FileResult.CutShort
        (files.map (config.withFailFast false).runFile) short := by
  induction files generalizing s with
  | nil => exact ⟨[], (List.append_nil _).symm, .nil⟩
  | cons file rest ih =>
      have hcut := config.runFile_cutShort file
      have htallied' := htallied.add ((config.withFailFast true).runFile file)
      have hsuccess : (s.add ((config.withFailFast true).runFile file)).success = true ↔
          ((config.withFailFast true).runFile file).Passed := by
        rw [htallied'.success_iff, Summary.files_add, List.forall_mem_append,
          List.forall_mem_singleton, and_iff_right (htallied.success_iff.1 hs)]
      rw [runAfter, failFast_withFailFast, Bool.true_and, List.map_cons]
      by_cases hpassed : ((config.withFailFast false).runFile file).Passed
      · have hgo := hsuccess.2 (hcut.passed_iff.2 hpassed)
        obtain ⟨short, hfiles, hshort⟩ := ih htallied' hgo
        refine ⟨(config.withFailFast true).runFile file :: short, ?_, ?_⟩
        · simp [hgo, hfiles]
        · rw [hcut.eq_of_passed hpassed]
          exact .cons hpassed hshort
      · have hstop := mt hsuccess.1 (mt hcut.passed_iff.1 hpassed)
        refine ⟨[(config.withFailFast true).runFile file], ?_, .head hpassed hcut _⟩
        simp [hstop]

theorem run_upToFailure (files : List SuiteFile) :
    UpToFailure FileResult.Passed FileResult.CutShort ((config.withFailFast false).run files).files
      ((config.withFailFast true).run files).files := by
  obtain ⟨short, hfiles, hshort⟩ := config.runAfter_upToFailure Summary.tallied_empty rfl files
  rw [run, run, files_runAfter_full, hfiles]
  exact hshort

/-- The verdict on a run is that on the full run. -/
theorem success_run_withFailFast (b : Bool) (files : List SuiteFile) :
    ((config.withFailFast b).run files).success =
      ((config.withFailFast false).run files).success := by
  cases b with
  | false => rfl
  | true =>
      rw [Bool.eq_iff_iff, (Summary.tallied_run ..).success_iff,
        (Summary.tallied_run ..).success_iff]
      exact (config.run_upToFailure files).forall_iff fun _ _ h => mt h.passed_iff.1

theorem passed_runFile_full_iff (file : SuiteFile) :
    ((config.withFailFast false).runFile file).Passed ↔
      ∃ suite, Suite.load file.path file.content = .ok suite ∧
        ∀ c ∈ suite.cases, config.selects c.name = true → c.check = .ok () := by
  unfold runFile
  cases Suite.load file.path file.content with
  | error e =>
      constructor
      · exact fun h => nomatch h.loaded
      · rintro ⟨_, ⟨⟩, -⟩
  | ok suite =>
      have hcases : (∀ r ∈ (config.withFailFast false).runSuite suite, r.passed = true) ↔
          ∀ c ∈ suite.cases, config.selects c.name = true → c.check = .ok () := by
        simp only [runSuite, runCases_full, selects_withFailFast, List.forall_mem_map,
          List.mem_filter, and_imp, Case.passed_result_iff]
      constructor
      · exact fun h => ⟨suite, rfl, hcases.1 h.cases⟩
      · rintro ⟨_, ⟨⟩, h⟩
        exact ⟨rfl, hcases.2 h⟩

/-- A run is a success exactly if all files load and all selected cases pass. -/
theorem success_run_iff (files : List SuiteFile) :
    (config.run files).success = true ↔ ∀ file ∈ files,
      ∃ suite, Suite.load file.path file.content = .ok suite ∧
        ∀ c ∈ suite.cases, config.selects c.name = true → c.check = .ok () := by
  have hfull := config.success_run_withFailFast config.failFast files
  rw [withFailFast_self] at hfull
  rw [hfull, (Summary.tallied_run ..).success_iff, run, files_runAfter_full]
  simp only [Summary.empty, List.nil_append, List.forall_mem_map, passed_runFile_full_iff]

end Config

/-- The status tells the verdict, whatever the form of the report. -/
theorem Cli.Outcome.code_ofSummary (config : Config) (s : Summary) :
    (Cli.Outcome.ofSummary config s).code = if s.success then 0 else 1 := by
  unfold Cli.Outcome.ofSummary
  cases config.format <;> rfl

/-- A run that fails fast gives the results of the full run up to the first file that did not load
or has a failed case, which is its last one, and of that one the results up to the first failed
case; without such a file it gives the summary of the full run. Both are successes or neither of
them is. The status of the program, for whatever configuration it finds, is nought exactly if each
of the discovered files loads and each of its selected cases passes, and one otherwise. All this
holds for every reader of documents. -/
theorem fail_fast_keeps_verdict [DocumentReader (List Case)] [DocumentReader Overrides] :
    (∀ (config : Config) (files : List SuiteFile),
      let full := (config.withFailFast false).run files
      let fast := (config.withFailFast true).run files
      UpToFailure FileResult.Passed FileResult.CutShort full.files fast.files ∧
      ((∀ r ∈ full.files, r.Passed) → fast = full) ∧ fast.success = full.success) ∧
    ∀ (files : Files) (request : Cli.Request) (config : Config),
      request.configuration files = .ok config →
      let code := (Cli.execute files (.run request)).code
      (code = 0 ↔ ∀ file ∈ SuiteFile.discover files config.extension request.searched,
        ∃ suite, Suite.load file.path file.content = .ok suite ∧
          ∀ c ∈ suite.cases, config.selects c.name = true → c.check = .ok ()) ∧
      (code = 0 ∨ code = 1) := by
  constructor
  · intro config files full fast
    have hcut := config.run_upToFailure files
    refine ⟨hcut, fun hall => ?_, config.success_run_withFailFast true files⟩
    exact (Summary.tallied_run ..).ext (Summary.tallied_run ..) (hcut.eq_of_forall hall)
  · intro files request config hconfig code
    have hcode : code = if (config.run (SuiteFile.discover files config.extension
        request.searched)).success then 0 else 1 := by
      rw [← Cli.Outcome.code_ofSummary config]
      simp only [code, Cli.execute, Cli.runRequest, hconfig]
    rw [hcode, ← config.success_run_iff]
    constructor <;> split <;> simp_all

/-- A suite whose second case fails: a run passes when its filter leaves that case out. -/
theorem fail_fast_keeps_verdict_filtered :
    let text := "[[case]]\nname = \"abc\"\nrun.op = \"len\"\nrun.text = \"abc\"\nexpect = 3\n" ++
      "[[case]]\nname = \"empty\"\nrun.op = \"len\"\nrun.text = \"\"\nexpect = 1\n"
    let files : Files := ⟨fun _ => .ok (.file (.ok text))⟩
    let request : Option String → Cli.Request := fun filter =>
      ⟨["a.toml"], filter, false, true, some .json, none⟩
    let config : Option String → Config := fun filter => ⟨filter, false, true, .json, "toml"⟩
    let good : Option String → Prop := fun filter =>
      ∀ file ∈ SuiteFile.discover files "toml" ["a.toml"],
        ∃ suite, Suite.load file.path file.content = .ok suite ∧
          ∀ c ∈ suite.cases, (config filter).selects c.name = true → c.check = .ok ()
    (request (some "b")).configuration files = .ok (config (some "b")) ∧ good (some "b") ∧
      ¬ good none := by
  intro text files request config good
  refine ⟨rfl, ?_, ?_⟩
  · exact (fail_fast_keeps_verdict.2 files (request (some "b")) _ rfl).1.1 (by decide +kernel)
  · have hcode : (Cli.execute files (.run (request none))).code = 1 := by decide +kernel
    intro hgood
    have hzero := (fail_fast_keeps_verdict.2 files (request none) _ rfl).1.2 hgood
    rw [hcode] at hzero
    cases hzero

end Conformance
