import Conformance.Runner.Run

/-!
# Counters of a run

The counters of a summary are updated file by file. After any number of files they are the numbers
of all cases, of those that passed and of those that failed in the results of the files, and so the
summary is a success exactly if no file is left without success.
-/

namespace Conformance

/-- The file loaded and none of its cases failed. -/
structure FileResult.Passed (r : FileResult) : Prop where
  loaded : r.loadError = none
  cases : ∀ c ∈ r.cases, c.passed = true

/-- The results of all cases of a summary, file by file. -/
def Summary.cases (s : Summary) : List CaseResult := s.files.flatMap (·.cases)

/-- The counters of a summary are the numbers that its files show. -/
structure Summary.Tallied (s : Summary) : Prop where
  total : s.total = s.cases.length
  passed : s.passed = s.cases.countP (·.passed)
  failed : s.failed = s.cases.countP (!·.passed)

namespace Summary

variable {s s' : Summary}

theorem tallied_empty : Summary.empty.Tallied := ⟨rfl, rfl, rfl⟩

theorem cases_add (s : Summary) (r : FileResult) : (s.add r).cases = s.cases ++ r.cases := by
  simp [Summary.cases]

theorem Tallied.add (h : s.Tallied) (r : FileResult) : (s.add r).Tallied := by
  constructor
  all_goals rw [cases_add, add_eq]
  · rw [List.length_append, h.total]
  · rw [List.countP_append, h.passed]
  · rw [List.countP_append, h.failed]

/-- Every file that a run adds is counted. -/
theorem Tallied.runAfter [DocumentReader (List Case)] (h : s.Tallied) (config : Config)
    (files : List SuiteFile) : (config.runAfter s files).Tallied := by
  induction files generalizing s with
  | nil => exact h
  | cons file rest ih =>
      rw [Config.runAfter]
      split
      · exact h.add _
      · exact ih (h.add _)

theorem tallied_run [DocumentReader (List Case)] (config : Config) (files : List SuiteFile) :
    (config.run files).Tallied :=
  tallied_empty.runAfter config files

/-- The counters add nothing to what the files show. -/
theorem Tallied.ext (h : s.Tallied) (h' : s'.Tallied) (hfiles : s.files = s'.files) : s = s' := by
  have hcases : s.cases = s'.cases := by rw [Summary.cases, Summary.cases, hfiles]
  have htotal : s.total = s'.total := by rw [h.total, h'.total, hcases]
  have hpassed : s.passed = s'.passed := by rw [h.passed, h'.passed, hcases]
  have hfailed : s.failed = s'.failed := by rw [h.failed, h'.failed, hcases]
  cases s
  cases s'
  simp only [mk.injEq]
  exact ⟨htotal, hpassed, hfailed, hfiles⟩

theorem Tallied.failed_eq_zero_iff (h : s.Tallied) :
    s.failed = 0 ↔ ∀ r ∈ s.files, ∀ c ∈ r.cases, c.passed = true := by
  rw [h.failed, List.countP_eq_zero, Summary.cases]
  simp only [List.mem_flatMap]
  grind

/-- A summary is a success if all of its files passed. -/
theorem Tallied.success_iff (h : s.Tallied) : s.success = true ↔ ∀ r ∈ s.files, r.Passed := by
  have hloaded : s.loadErrors = 0 ↔ ∀ r ∈ s.files, r.loadError = none := by
    simp [loadErrors, List.countP_eq_zero]
  rw [success, Bool.and_eq_true, beq_iff_eq, beq_iff_eq, h.failed_eq_zero_iff, hloaded]
  exact ⟨fun ⟨hcases, hloads⟩ r hr => ⟨hloads r hr, hcases r hr⟩,
    fun hall => ⟨fun r hr => (hall r hr).cases, fun r hr => (hall r hr).loaded⟩⟩

end Summary

end Conformance
