import Mathlib.Data.List.Basic
import Conformance.Proofs.Runner.Tally
import Conformance.Runner.Report

/-!
# The text of the reports

The output is one section for each file with results and then the totals; the diagnostics are one
block for each file that did not load and one entry for each failed case. Where names and paths
have no line breaks, the lines of the output that tell a status are those of the cases.
-/

namespace Conformance

/-- The name and the status of a case in the output. -/
def CaseResult.status (c : CaseResult) : String :=
  "  " ++ c.name ++ " ... " ++ if c.passed then "ok" else "FAILED"

/-- The line of the output on a case, with the time it took if that is shown. -/
def CaseResult.statusLine (verbose : Bool) (c : CaseResult) : String :=
  if verbose then c.status ++ " (" ++ toString c.micros ++ "us)" else c.status

/-- What the output shows of a file. Nothing is shown of a file without results. -/
def FileResult.shown (verbose : Bool) (r : FileResult) : String :=
  if r.cases = [] then ""
  else "\nRunning cases in " ++ r.path ++ "...\n" ++
    String.join (r.cases.map fun c => c.statusLine verbose ++ "\n")

/-- What the diagnostics tell of a file that did not load. -/
def FileResult.loadFailure? (r : FileResult) : Option String :=
  r.loadError.map fun message => "\nFailed to load " ++ r.path ++ ":\n  " ++ message ++ "\n"

/-- What the diagnostics tell of a failed case. -/
def CaseResult.failureEntry (path : String) (c : CaseResult) : String :=
  path ++ "::" ++ c.name ++ "\n" ++
    String.join ((Summary.textLines (c.detail.getD "").toList).map fun line =>
      "  " ++ String.ofList line ++ "\n") ++ "\n"

namespace Summary

variable {s : Summary} {r : FileResult} {verbose : Bool}

/-! ## Lines joined -/

theorem ofLines_nil : ofLines [] = "" := rfl

theorem ofLines_cons (line : String) (lines : List String) :
    ofLines (line :: lines) = line ++ "\n" ++ ofLines lines := by
  simp [ofLines]

theorem ofLines_append (front back : List String) :
    ofLines (front ++ back) = ofLines front ++ ofLines back := by
  simp [ofLines]

theorem ofLines_map {α : Type} (f : α → String) (items : List α) :
    ofLines (items.map f) = String.join (items.map fun item => f item ++ "\n") := by
  rw [ofLines, List.map_map]
  rfl

theorem ofLines_flatMap {α : Type} (f : α → List String) (items : List α) :
    ofLines (items.flatMap f) = String.join (items.map fun item => ofLines (f item)) := by
  induction items with
  | nil => rfl
  | cons item rest ih => rw [List.flatMap_cons, ofLines_append, ih, List.map_cons, String.join_cons]

namespace OutputLine

theorem text_blank : blank.text = "" := rfl

theorem text_heading (path : String) :
    (heading path).text = "Running cases in " ++ path ++ "..." := rfl

theorem text_status (verbose : Bool) (c : CaseResult) :
    (status c.name c.passed (if verbose then some c.micros else none)).text =
      c.statusLine verbose := by
  cases verbose <;> rfl

theorem text_rule : rule.text = "========================================" := rfl

theorem text_totals (passed failed : Nat) : (totals passed failed).text =
    "Results: " ++ toString passed ++ " passed, " ++ toString failed ++ " failed" := rfl

end OutputLine

/-! ## The output -/

theorem fileOutput_of_empty (h : r.cases = []) : fileOutput verbose r = [] := by
  rw [fileOutput, if_pos]
  rw [h, Bool.or_eq_true]
  exact .inr rfl

theorem fileOutput_of_nonempty (hcases : r.cases ≠ []) (hloaded : r.loadError = none) :
    fileOutput verbose r = .blank :: .heading r.path ::
      r.cases.map fun c => .status c.name c.passed (if verbose then some c.micros else none) := by
  rw [fileOutput, if_neg]
  rw [hloaded, Bool.or_eq_true, List.isEmpty_iff]
  exact not_or.2 ⟨Bool.noConfusion, hcases⟩

theorem map_text_fileOutput (h : r.loadError.isSome → r.cases = []) (hcases : r.cases ≠ []) :
    (fileOutput verbose r).map OutputLine.text =
      "" :: ("Running cases in " ++ r.path ++ "...") :: r.cases.map (·.statusLine verbose) := by
  have hloaded : r.loadError = none := Option.not_isSome_iff_eq_none.1 (mt h hcases)
  simp only [fileOutput_of_nonempty hcases hloaded, List.map_cons, List.map_map,
    OutputLine.text_blank, OutputLine.text_heading, Function.comp_def, OutputLine.text_status]

theorem ofLines_fileOutput (h : r.loadError.isSome → r.cases = []) :
    ofLines ((fileOutput verbose r).map OutputLine.text) = r.shown verbose := by
  rw [FileResult.shown]
  split
  case isTrue hempty => rw [fileOutput_of_empty hempty, List.map_nil, ofLines_nil]
  case isFalse hcases =>
    rw [map_text_fileOutput h hcases, ofLines_cons, ofLines_cons, ofLines_map]
    simp only [← String.toList_inj, String.toList_append, List.append_assoc]
    rfl

/-- The output in full. -/
theorem output_eq (h : ∀ r ∈ s.files, r.loadError.isSome → r.cases = []) (verbose : Bool) :
    s.output verbose = String.join (s.files.map (·.shown verbose)) ++
      "\n========================================\n" ++
      "Results: " ++ toString s.passed ++ " passed, " ++ toString s.failed ++ " failed\n" := by
  have hfiles : ∀ r ∈ s.files,
      ofLines ((fileOutput verbose r).map OutputLine.text) = r.shown verbose :=
    fun r hr => ofLines_fileOutput (h r hr)
  rw [output, outputLines, List.map_append, List.map_flatMap, ofLines_append, ofLines_flatMap,
    List.map_congr_left hfiles]
  simp only [List.map_cons, List.map_nil, ofLines_cons, ofLines_nil, OutputLine.text_blank,
    OutputLine.text_rule, OutputLine.text_totals, ← String.toList_inj, String.toList_append,
    List.append_assoc]
  rfl

/-! ## The diagnostics -/

theorem ofLines_loadDiagnostics (r : FileResult) :
    ofLines ((loadDiagnostics r).map DiagnosticLine.text) = r.loadFailure?.getD "" := by
  unfold loadDiagnostics FileResult.loadFailure?
  cases r.loadError with
  | none => rfl
  | some message =>
      simp only [List.map_cons, List.map_nil, ofLines_cons, ofLines_nil, DiagnosticLine.text,
        Option.map_some, Option.getD_some, ← String.toList_inj, String.toList_append,
        List.append_assoc]
      rfl

theorem ofLines_failureDiagnostics (path : String) (c : CaseResult) :
    ofLines ((failureDiagnostics path c).map DiagnosticLine.text) = c.failureEntry path := by
  have hlines : ofLines (((textLines (c.detail.getD "").toList).map
      (DiagnosticLine.detail <| String.ofList ·)).map DiagnosticLine.text) =
        String.join ((textLines (c.detail.getD "").toList).map fun line =>
          "  " ++ String.ofList line ++ "\n") := by
    rw [List.map_map, ofLines_map]
    rfl
  rw [failureDiagnostics, List.cons_append, List.map_cons, List.map_append, ofLines_cons,
    ofLines_append, hlines, CaseResult.failureEntry, ← String.append_assoc]
  rfl

theorem join_map_getD {α : Type} (f : α → Option String) (items : List α) :
    String.join (items.map fun item => (f item).getD "") = String.join (items.filterMap f) := by
  induction items with
  | nil => rfl
  | cons item rest ih =>
      rw [List.map_cons, String.join_cons, ih, List.filterMap_cons]
      cases f item with
      | none => exact String.empty_append
      | some text => exact String.join_cons.symm

/-- The diagnostics in full. -/
theorem diagnostics_eq (s : Summary) : s.diagnostics =
    String.join (s.files.filterMap (·.loadFailure?)) ++
      (if s.failedCases = [] then "" else "\nFAILURES:\n\n") ++
      String.join (s.failedCases.map fun (path, c) => c.failureEntry path) := by
  have hheading : ofLines ((if s.failedCases.isEmpty then [] else
      [DiagnosticLine.blank, .failures, .blank]).map DiagnosticLine.text) =
        if s.failedCases = [] then "" else "\nFAILURES:\n\n" := by
    cases s.failedCases <;> rfl
  rw [diagnostics, diagnosticLines, List.map_append, List.map_append, ofLines_append,
    ofLines_append, hheading, List.map_flatMap, List.map_flatMap, ofLines_flatMap, ofLines_flatMap,
    ← join_map_getD]
  simp only [ofLines_loadDiagnostics, ofLines_failureDiagnostics]

/-! ## Reading the output -/

/-- The lines of a text. What follows the last line feed is a line as well. -/
def lines (text : String) : List String := (text.toList.splitOn '\n').map String.ofList

/-- A line that is the status of some case, which passed or did not. -/
def IsStatus (verbose passed : Bool) (line : String) : Prop :=
  ∃ c : CaseResult, c.passed = passed ∧ line = c.statusLine verbose

theorem lines_ofLines {all : List String} (h : ∀ line ∈ all, '\n' ∉ line.toList) :
    lines (ofLines all) = all ++ [""] := by
  induction all with
  | nil => rfl
  | cons line rest ih =>
      obtain ⟨hline, hrest⟩ := List.forall_mem_cons.1 h
      have hcons : (ofLines (line :: rest)).toList =
          line.toList ++ '\n' :: (ofLines rest).toList := by
        rw [ofLines_cons, String.toList_append, String.toList_append, List.append_assoc]
        rfl
      rw [lines, hcons, List.splitOn_append_cons_self, List.splitOn_eq_singleton hline,
        List.map_append, List.map_singleton, String.ofList_toList, List.singleton_append,
        List.cons_append, ← ih hrest, lines]

theorem isDigit_of_mem_toString {n : Nat} {c : Char} (hc : c ∈ (toString n).toList) :
    c.isDigit = true := by
  have hdigits : (toString n).toList = Nat.toDigits 10 n := Nat.toList_repr
  rw [hdigits] at hc
  exact Nat.isDigit_of_mem_toDigits (by decide) (by decide) hc

theorem not_mem_toString (n : Nat) : '\n' ∉ (toString n).toList :=
  fun hmem => absurd (isDigit_of_mem_toString hmem) (by decide)

/-- A number that is written behind something other than a digit is read back with what it is
written behind. -/
theorem eq_of_append_digits_eq {front front' digits digits' : List Char} {c c' : Char}
    (hdigits : ∀ d ∈ digits, d.isDigit = true) (hdigits' : ∀ d ∈ digits', d.isDigit = true)
    (hc : c.isDigit = false) (hc' : c'.isDigit = false)
    (h : front ++ c :: digits = front' ++ c' :: digits') : front = front' := by
  have hstrip {front digits : List Char} {c : Char} (hdigits : ∀ d ∈ digits, d.isDigit = true)
      (hc : c.isDigit = false) :
      (front ++ c :: digits).reverse.dropWhile (·.isDigit) = c :: front.reverse := by
    have hdigits' : ∀ d ∈ digits.reverse, d.isDigit = true := by simpa using hdigits
    rw [List.reverse_append, List.reverse_cons, List.append_assoc,
      List.dropWhile_append_of_pos hdigits']
    simp [hc]
  have heq := congrArg (fun l : List Char => l.reverse.dropWhile (·.isDigit)) h
  simp only [hstrip hdigits hc, hstrip hdigits' hc'] at heq
  exact List.reverse_injective (List.cons.inj heq).2

end Summary

namespace CaseResult

variable {c c' : CaseResult} {verbose : Bool}

/-- The time may differ where the lines are equal otherwise. -/
theorem status_eq_of_statusLine_eq (h : c.statusLine verbose = c'.statusLine verbose) :
    c.status = c'.status := by
  cases verbose with
  | false => exact h
  | true =>
      have hline (c : CaseResult) : (c.statusLine true).toList =
          (c.status.toList ++ [' ']) ++ '(' :: (toString c.micros).toList ++ "us)".toList := by
        simp only [statusLine, if_true, String.toList_append, List.append_assoc]
        rfl
      have hchars := congrArg String.toList h
      rw [hline, hline] at hchars
      have hfront := Summary.eq_of_append_digits_eq
        (fun _ => Summary.isDigit_of_mem_toString) (fun _ => Summary.isDigit_of_mem_toString)
        (by decide) (by decide) (List.append_cancel_right hchars)
      exact String.toList_inj.1 (List.append_cancel_right hfront)

/-- The last codepoint of a status tells whether the case passed. -/
theorem getLast?_status (c : CaseResult) :
    c.status.toList.getLast? = some (if c.passed then 'k' else 'D') := by
  rw [status, String.toList_append, List.getLast?_append]
  cases c.passed <;> rfl

theorem isStatus_statusLine_iff {passed : Bool} :
    Summary.IsStatus verbose passed (c.statusLine verbose) ↔ c.passed = passed := by
  constructor
  · rintro ⟨c', rfl, h⟩
    have hlast := c.getLast?_status
    rw [status_eq_of_statusLine_eq h, getLast?_status] at hlast
    cases hc : c.passed <;> cases hc' : c'.passed <;> simp_all
  · exact fun h => ⟨c, h, rfl⟩

theorem head?_statusLine (c : CaseResult) :
    (c.statusLine verbose).toList.head? = some ' ' := by
  cases verbose
  all_goals
    simp only [statusLine, status, if_true, Bool.false_eq_true, if_false, String.toList_append]
    rfl

theorem not_mem_statusLine (h : '\n' ∉ c.name.toList) :
    '\n' ∉ (c.statusLine verbose).toList := by
  have hstatus : '\n' ∉ c.status.toList := by
    cases hc : c.passed <;> simp [status, hc, h]
  cases verbose with
  | false => exact hstatus
  | true => simpa [statusLine, hstatus] using Summary.not_mem_toString c.micros

end CaseResult

namespace Summary

variable {s : Summary} {r : FileResult} {verbose : Bool}

theorem not_isStatus {line : String} (h : line.toList.head? ≠ some ' ') :
    ¬ ∃ passed, IsStatus verbose passed line := by
  rintro ⟨-, c, -, rfl⟩
  exact h c.head?_statusLine

open Classical in
/-- What tells a status among the lines on a file are the statuses of its cases. -/
theorem filter_isStatus_fileOutput (h : r.loadError.isSome → r.cases = []) :
    ((fileOutput verbose r).map OutputLine.text).filter (∃ passed, IsStatus verbose passed ·) =
      r.cases.map (·.statusLine verbose) := by
  by_cases hcases : r.cases = []
  · rw [fileOutput_of_empty hcases, hcases]
    rfl
  · have hheading : ("Running cases in " ++ r.path ++ "...").toList.head? ≠ some ' ' := by
      rw [String.toList_append, String.toList_append]
      exact fun heq => absurd (Option.some.inj heq) (by decide)
    rw [map_text_fileOutput h hcases, List.filter_cons_of_neg, List.filter_cons_of_neg,
      List.filter_eq_self]
    · intro line hline
      obtain ⟨c, -, rfl⟩ := List.mem_map.1 hline
      exact decide_eq_true ⟨c.passed, c, rfl, rfl⟩
    · exact fun hstatus => not_isStatus hheading (of_decide_eq_true hstatus)
    · exact fun hstatus => not_isStatus (by decide) (of_decide_eq_true hstatus)

theorem not_mem_text_fileOutput (h : r.loadError.isSome → r.cases = [])
    (hpath : '\n' ∉ r.path.toList) (hnames : ∀ c ∈ r.cases, '\n' ∉ c.name.toList) :
    ∀ line ∈ (fileOutput verbose r).map OutputLine.text, '\n' ∉ line.toList := by
  by_cases hcases : r.cases = []
  · rw [fileOutput_of_empty hcases]
    exact List.forall_mem_nil _
  · rw [map_text_fileOutput h hcases]
    refine List.forall_mem_cons.2 ⟨by decide, List.forall_mem_cons.2 ⟨by simp [hpath], ?_⟩⟩
    exact List.forall_mem_map.2 fun c hc => CaseResult.not_mem_statusLine (hnames c hc)

/-- The lines behind those on the files. -/
theorem map_text_trailer (passed failed : Nat) :
    [OutputLine.blank, .rule, .totals passed failed].map OutputLine.text =
      ["", "========================================",
        "Results: " ++ toString passed ++ " passed, " ++ toString failed ++ " failed"] := rfl

open Classical in
/-- No line behind those on the files tells a status. -/
theorem filter_isStatus_trailer (passed failed : Nat) :
    ([OutputLine.blank, .rule, .totals passed failed].map OutputLine.text ++ [""]).filter
      (∃ passed, IsStatus verbose passed ·) = [] := by
  have htotals : ("Results: " ++ toString passed ++ " passed, " ++ toString failed ++
      " failed").toList.head? ≠ some ' ' := by
    simp only [String.toList_append]
    exact fun heq => absurd (Option.some.inj heq) (by decide)
  rw [map_text_trailer, List.filter_eq_nil_iff]
  simp only [decide_eq_true_eq, List.cons_append, List.nil_append, List.forall_mem_cons]
  exact ⟨not_isStatus (by decide), not_isStatus (by decide), not_isStatus htotals,
    not_isStatus (by decide), List.forall_mem_nil _⟩

theorem not_mem_text_trailer (passed failed : Nat) :
    ∀ line ∈ [OutputLine.blank, .rule, .totals passed failed].map OutputLine.text,
      '\n' ∉ line.toList := by
  have htotals : '\n' ∉ ("Results: " ++ toString passed ++ " passed, " ++ toString failed ++
      " failed").toList := by
    simp only [String.toList_append, List.mem_append, not_or, not_mem_toString, not_false_eq_true,
      and_true]
    decide
  rw [map_text_trailer]
  exact List.forall_mem_cons.2 ⟨by decide, List.forall_mem_cons.2
    ⟨by decide, List.forall_mem_singleton.2 htotals⟩⟩

theorem lines_output (h : ∀ r ∈ s.files, r.loadError.isSome → r.cases = [])
    (hpaths : ∀ r ∈ s.files, '\n' ∉ r.path.toList)
    (hnames : ∀ c ∈ s.cases, '\n' ∉ c.name.toList) (verbose : Bool) :
    lines (s.output verbose) = (s.outputLines verbose).map OutputLine.text ++ [""] := by
  refine lines_ofLines ?_
  rw [outputLines, List.map_append, List.map_flatMap, List.forall_mem_append]
  refine ⟨fun line hline => ?_, not_mem_text_trailer s.passed s.failed⟩
  obtain ⟨r, hr, hline⟩ := List.mem_flatMap.1 hline
  have hfile : ∀ c ∈ r.cases, '\n' ∉ c.name.toList :=
    fun c hc => hnames c (List.mem_flatMap.2 ⟨r, hr, hc⟩)
  exact not_mem_text_fileOutput (h r hr) (hpaths r hr) hfile line hline

open Classical in
/-- The lines of the output that tell a status are those of the cases, in order. -/
theorem filter_isStatus_output (h : ∀ r ∈ s.files, r.loadError.isSome → r.cases = [])
    (hpaths : ∀ r ∈ s.files, '\n' ∉ r.path.toList)
    (hnames : ∀ c ∈ s.cases, '\n' ∉ c.name.toList) (verbose : Bool) :
    (lines (s.output verbose)).filter (∃ passed, IsStatus verbose passed ·) =
      s.cases.map (·.statusLine verbose) := by
  have hfiles : ∀ r ∈ s.files, ((fileOutput verbose r).map OutputLine.text).filter
      (∃ passed, IsStatus verbose passed ·) = r.cases.map (·.statusLine verbose) :=
    fun r hr => filter_isStatus_fileOutput (h r hr)
  rw [lines_output h hpaths hnames, outputLines, List.map_append, List.append_assoc,
    List.filter_append, filter_isStatus_trailer, List.append_nil, List.map_flatMap,
    List.filter_flatMap, List.flatMap_congr hfiles, Summary.cases, List.map_flatMap]

open Classical in
theorem countP_isStatus_output (h : ∀ r ∈ s.files, r.loadError.isSome → r.cases = [])
    (hpaths : ∀ r ∈ s.files, '\n' ∉ r.path.toList)
    (hnames : ∀ c ∈ s.cases, '\n' ∉ c.name.toList) (verbose passed : Bool) :
    (lines (s.output verbose)).countP (IsStatus verbose passed ·) =
      s.cases.countP (·.passed == passed) := by
  have hfilter : (lines (s.output verbose)).countP (IsStatus verbose passed ·) =
      ((lines (s.output verbose)).filter (∃ passed, IsStatus verbose passed ·)).countP
        (IsStatus verbose passed ·) := by
    rw [List.countP_filter]
    refine List.countP_congr fun line _ => ?_
    simp only [decide_eq_true_eq, Bool.and_eq_true]
    exact ⟨fun hstatus => ⟨hstatus, passed, hstatus⟩, And.left⟩
  rw [hfilter, filter_isStatus_output h hpaths hnames, List.countP_map]
  refine List.countP_congr fun c _ => ?_
  simp only [Function.comp_apply, decide_eq_true_eq, CaseResult.isStatus_statusLine_iff, beq_iff_eq]

end Summary

end Conformance
