import Conformance.Proofs.Suite.Expectation
import Conformance.Proofs.Traversal
import Conformance.Runner.Run

/-!
# Acceptable suites

A document is accepted as a suite exactly if its cases are in order one by one and have different
names. The check goes through the cases once and keeps the names that it has met, so the first
case that breaks a rule is the one reported. Accepted cases are never refused when they are
checked, and their results are told apart by their names.
-/

namespace Conformance

namespace Category

theorem ofLabel?_eq_some_iff {label : String} {category : Category} :
    ofLabel? label = some category ↔ category.label = label := by
  constructor
  · intro h
    simpa using List.find?_some h
  · rintro rfl
    exact ofLabel?_label category

theorem ofLabel?_eq_none_iff {label : String} :
    ofLabel? label = none ↔ ∀ category : Category, category.label ≠ label := by
  simp only [Option.eq_none_iff_forall_ne_some, ne_eq, ofLabel?_eq_some_iff]

end Category

namespace Case

/-- A case has one expectation, a value or the label of a category. -/
structure Expects (c : Case) : Prop where
  /-- It has a value or a label, and not both. -/
  one : c.expect.isSome ≠ c.error.isSome
  /-- The label names a category. -/
  known : ∀ label, c.error = some label → ∃ category : Category, category.label = label

/-- What is wrong with the expectation of a case. -/
inductive Misexpects (c : Case) : CaseFlaw → Prop
  | both {expected : Toml} {label : String} (hexpect : c.expect = some expected)
      (herror : c.error = some label) : Misexpects c .twoExpectations
  | neither (hexpect : c.expect = none) (herror : c.error = none) : Misexpects c .noExpectation
  | unknown {label : String} (hexpect : c.expect = none) (herror : c.error = some label)
      (hlabel : ∀ category : Category, category.label ≠ label) :
      Misexpects c (.unknownCategory label)

/-- The rule that a case breaks after cases with some names. Its name matters only if its
expectation is in order. -/
inductive Breaks (earlier : List String) (c : Case) : CaseFlaw → Prop
  | expectation {flaw : CaseFlaw} (h : c.Misexpects flaw) : Breaks earlier c flaw
  | duplicate (hc : c.Expects) (h : c.name ∈ earlier) : Breaks earlier c .duplicateName

variable {c : Case}

theorem expectation_eq_error_iff {flaw : CaseFlaw} :
    c.expectation = .error flaw ↔ c.Misexpects flaw := by
  constructor
  · intro h
    unfold expectation at h
    split at h
    case h_1 => cases h
    case h_2 hexpect herror =>
      split at h
      case h_1 => cases h
      case h_2 hlabel =>
        cases h
        exact .unknown hexpect herror (Category.ofLabel?_eq_none_iff.1 hlabel)
    case h_3 hexpect herror =>
      cases h
      exact .both hexpect herror
    case h_4 hexpect herror =>
      cases h
      exact .neither hexpect herror
  · intro h
    cases h with
    | both hexpect herror | neither hexpect herror => simp [expectation, hexpect, herror]
    | unknown hexpect herror hlabel =>
        simp [expectation, hexpect, herror, Category.ofLabel?_eq_none_iff.2 hlabel]

theorem exists_expectation_iff : (∃ e, c.expectation = .ok e) ↔ c.Expects := by
  constructor
  · rintro ⟨e, he⟩
    rw [expectation_eq_ok_iff.1 he]
    cases e with
    | value expected => exact ⟨nofun, nofun⟩
    | error category =>
        refine ⟨nofun, ?_⟩
        rintro _ ⟨⟩
        exact ⟨category, rfl⟩
  · intro hc
    have hone := hc.one
    cases h : c.expectation with
    | ok e => exact ⟨e, rfl⟩
    | error flaw =>
        cases expectation_eq_error_iff.1 h with
        | both hexpect herror | neither hexpect herror => simp [hexpect, herror] at hone
        | unknown hexpect herror hlabel =>
            obtain ⟨category, hcategory⟩ := hc.known _ herror
            exact absurd hcategory (hlabel category)

theorem Breaks.mono {earlier earlier' : List String} {flaw : CaseFlaw}
    (h : c.Breaks earlier flaw) (hsub : earlier ⊆ earlier') : c.Breaks earlier' flaw := by
  cases h with
  | expectation h => exact .expectation h
  | duplicate hc h => exact .duplicate hc (hsub h)

theorem compare_ne (expectation : Expectation) (r : Except Scenario.EvalError Toml)
    (e : InvalidCase) : expectation.compare r ≠ .error (.invalid e) := by
  unfold Expectation.compare
  split <;> (try split) <;> nofun

/-- Checking a case with one expectation does not fail for what the case is. -/
theorem Expects.check_ne (hc : c.Expects) (e : InvalidCase) : c.check ≠ .error (.invalid e) := by
  obtain ⟨expectation, h⟩ := exists_expectation_iff.2 hc
  rw [check, h]
  exact compare_ne expectation _ e

end Case

namespace Suite

/-- The cases of a suite each have one expectation, and different names. -/
structure Acceptable (cases : List Case) : Prop where
  expects : ∀ c ∈ cases, c.Expects
  nodup : (cases.map (·.name)).Nodup

theorem acceptable_cons_iff {c : Case} {rest : List Case} : Acceptable (c :: rest) ↔
    c.Expects ∧ c.name ∉ rest.map (·.name) ∧ Acceptable rest := by
  constructor
  · rintro ⟨hexpects, hnodup⟩
    obtain ⟨hc, hrest⟩ := List.forall_mem_cons.1 hexpects
    obtain ⟨hname, hnodup⟩ := List.nodup_cons.1 hnodup
    exact ⟨hc, hname, hrest, hnodup⟩
  · rintro ⟨hc, hname, hrest, hnodup⟩
    exact ⟨List.forall_mem_cons.2 ⟨hc, hrest⟩, List.nodup_cons.2 ⟨hname, hnodup⟩⟩

variable {earlier : List String} {cases : List Case}

theorem findInvalid?_cons (earlier : List String) (c : Case) (rest : List Case) :
    findInvalid? earlier (c :: rest) =
      (findInvalid? earlier [c]).or (findInvalid? (c.name :: earlier) rest) := by
  simp only [findInvalid?]
  cases c.expectation with
  | error flaw => rfl
  | ok e => cases earlier.contains c.name <;> rfl

/-- One case is refused for the rule that it breaks. -/
theorem findInvalid?_singleton_iff {c : Case} {e : InvalidCase} :
    findInvalid? earlier [c] = some e ↔
      ∃ flaw, c.Breaks earlier flaw ∧ e = ⟨c.name, flaw⟩ := by
  rw [findInvalid?]
  cases h : c.expectation with
  | error flaw =>
      constructor
      · rintro ⟨⟩
        exact ⟨flaw, .expectation (Case.expectation_eq_error_iff.1 h), rfl⟩
      · rintro ⟨_, hflaw | ⟨hc, -⟩, rfl⟩
        · cases h.symm.trans (Case.expectation_eq_error_iff.2 hflaw)
          rfl
        · obtain ⟨_, hok⟩ := Case.exists_expectation_iff.2 hc
          cases h.symm.trans hok
  | ok expectation =>
      have hc : c.Expects := Case.exists_expectation_iff.1 ⟨expectation, h⟩
      have hname : earlier.contains c.name = true ↔ c.name ∈ earlier := List.contains_iff_mem
      simp only [hname]
      constructor
      · intro heq
        split at heq
        case isTrue hmem =>
          cases heq
          exact ⟨_, .duplicate hc hmem, rfl⟩
        case isFalse => cases heq
      · rintro ⟨_, hflaw | ⟨-, hmem⟩, rfl⟩
        · cases h.symm.trans (Case.expectation_eq_error_iff.2 hflaw)
        · exact if_pos hmem

theorem findInvalid?_singleton_eq_none_iff {c : Case} :
    findInvalid? earlier [c] = none ↔ c.Expects ∧ c.name ∉ earlier := by
  rw [← Case.exists_expectation_iff, findInvalid?]
  cases c.expectation with
  | error flaw => simp
  | ok expectation => simp [findInvalid?]

/-- Cases are accepted after others exactly if they are acceptable and have none of their names. -/
theorem findInvalid?_eq_none_iff : findInvalid? earlier cases = none ↔
    Acceptable cases ∧ ∀ c ∈ cases, c.name ∉ earlier := by
  induction cases generalizing earlier with
  | nil =>
      have hnil : Acceptable [] := ⟨List.forall_mem_nil _, List.nodup_nil⟩
      simp [findInvalid?, hnil]
  | cons c rest ih =>
      rw [findInvalid?_cons, Option.or_eq_none_iff, findInvalid?_singleton_eq_none_iff, ih,
        acceptable_cons_iff, List.forall_mem_cons]
      -- A later case avoids the earlier names and that of the first case.
      have hsplit : (∀ d ∈ rest, d.name ∉ c.name :: earlier) ↔
          c.name ∉ rest.map (·.name) ∧ ∀ d ∈ rest, d.name ∉ earlier := by
        grind
      rw [hsplit]
      tauto

/-- The first case that breaks a rule after those before it is the one that is refused. -/
theorem findInvalid?_eq_some_iff {e : InvalidCase} : findInvalid? earlier cases = some e ↔
    ∃ before c after, cases = before ++ c :: after ∧ findInvalid? earlier before = none ∧
      findInvalid? ((before.map (·.name)).reverse ++ earlier) [c] = some e := by
  induction cases generalizing earlier with
  | nil => simp [findInvalid?]
  | cons first rest ih =>
      rw [findInvalid?_cons, Option.or_eq_some_iff, ih]
      constructor
      · rintro (hfirst | ⟨hfirst, before, c, after, rfl, hbefore, hc⟩)
        · exact ⟨[], first, rest, rfl, rfl, hfirst⟩
        · refine ⟨first :: before, c, after, rfl, ?_, ?_⟩
          · rw [findInvalid?_cons, hfirst, hbefore, Option.or_none]
          · simpa using hc
      · rintro ⟨_ | ⟨first', before⟩, c, after, heq, hbefore, hc⟩
        · obtain ⟨rfl, rfl⟩ := List.cons.inj heq
          exact .inl hc
        · obtain ⟨rfl, rfl⟩ := List.cons.inj heq
          rw [findInvalid?_cons, Option.or_eq_none_iff] at hbefore
          exact .inr ⟨hbefore.1, before, c, after, rfl, hbefore.2, by simpa using hc⟩

theorem ofCases_eq_ok_iff {suite : Suite} :
    ofCases cases = .ok suite ↔ Acceptable cases ∧ suite.cases = cases := by
  have hnone : findInvalid? [] cases = none ↔ Acceptable cases := by
    simp [findInvalid?_eq_none_iff]
  rw [ofCases, ← hnone]
  cases findInvalid? [] cases with
  | some e => simp
  | none =>
      constructor
      · rintro ⟨⟩
        exact ⟨rfl, rfl⟩
      · rintro ⟨-, rfl⟩
        rfl

theorem ofCases_eq_error_iff {e : InvalidCase} : ofCases cases = .error e ↔
    ∃ before c after flaw, cases = before ++ c :: after ∧ Acceptable before ∧
      c.Breaks (before.map (·.name)) flaw ∧ e = ⟨c.name, flaw⟩ := by
  have herror : ofCases cases = .error e ↔ findInvalid? [] cases = some e := by
    rw [ofCases]
    cases findInvalid? [] cases <;> simp
  rw [herror, findInvalid?_eq_some_iff]
  simp only [findInvalid?_eq_none_iff, findInvalid?_singleton_iff]
  constructor
  · rintro ⟨before, c, after, rfl, ⟨hbefore, -⟩, flaw, hc, rfl⟩
    exact ⟨before, c, after, flaw, rfl, hbefore, hc.mono (by simp), rfl⟩
  · rintro ⟨before, c, after, flaw, rfl, hbefore, hc, rfl⟩
    have hfresh : ∀ b ∈ before, b.name ∉ [] := fun _ _ => List.not_mem_nil
    exact ⟨before, c, after, rfl, ⟨hbefore, hfresh⟩, flaw, hc.mono (by simp), rfl⟩

variable [DocumentReader (List Case)]

theorem parse_eq {text : String} (h : DocumentReader.read text = .ok cases) (path : String) :
    parse path text = (ofCases cases).mapError LoadError.invalidCase := by
  rw [parse, readDocument, h]
  rfl

/-- The cases of a suite that comes from a document are acceptable. -/
theorem acceptable_of_parse {path text : String} {suite : Suite}
    (h : parse path text = .ok suite) : Acceptable suite.cases := by
  cases hread : (DocumentReader.read text : Except String (List Case)) with
  | error message =>
      rw [parse, readDocument, hread] at h
      cases h
  | ok cases =>
      rw [parse_eq hread, mapError_eq_ok_iff] at h
      obtain ⟨hcases, rfl⟩ := ofCases_eq_ok_iff.1 h
      exact hcases

theorem acceptable_of_load {path : String} {content : Except FileError String} {suite : Suite}
    (h : load path content = .ok suite) : Acceptable suite.cases := by
  cases content with
  | error cause => cases h
  | ok text => exact acceptable_of_parse h

end Suite

namespace Config

/-- The results are those of the first cases, in order. -/
theorem runCases_prefix (config : Config) (cases : List Case) :
    config.runCases cases <+: cases.map Case.result := by
  induction cases with
  | nil => exact List.prefix_rfl
  | cons c rest ih =>
      rw [runCases, List.map_cons]
      cases config.failFast && !c.result.passed with
      | true => exact ⟨rest.map Case.result, rfl⟩
      | false => exact (List.cons_prefix_cons).2 ⟨rfl, ih⟩

theorem name_result (c : Case) : c.result.name = c.name := by
  unfold Case.result
  cases c.check <;> rfl

/-- The results of an accepted file have different names. -/
theorem nodup_runFile [DocumentReader (List Case)] (config : Config) (file : SuiteFile) :
    ((config.runFile file).cases.map (·.name)).Nodup := by
  unfold runFile
  cases hload : Suite.load file.path file.content with
  | error e => exact List.nodup_nil
  | ok suite =>
      have hnames : ∀ cases : List Case,
          (cases.map Case.result).map (·.name) = cases.map (·.name) :=
        fun cases => by simp [name_result]
      have hnodup := (Suite.acceptable_of_load hload).nodup
      rw [← hnames] at hnodup
      -- The results are a prefix of those of the selected cases, which are some of all.
      have hsub : (config.runSuite suite).Sublist (suite.cases.map Case.result) := by
        refine (config.runCases_prefix _).sublist.trans ?_
        exact List.filter_sublist.map _
      exact (hsub.map _).nodup hnodup

end Config

/-- A document that is read as cases, by whatever reader, is accepted exactly if each case has one
expectation, a value or the label of a category, and no two cases have the same name; the suite
then has its cases in their order. Otherwise the first case is refused that does not go with those
before it: for its expectation if that is not in order, or else for a name that an earlier case
has. So no accepted case fails its check for what it expects, and the results of a file, with any
configuration, have different names. -/
theorem accepted_iff_acceptable [DocumentReader (List Case)] :
    (∀ path text cases, DocumentReader.read text = .ok cases →
      (∀ suite, Suite.parse path text = .ok suite ↔ Suite.Acceptable cases ∧ suite.cases = cases) ∧
      ∀ e, Suite.parse path text = .error e ↔ ∃ before c after flaw,
        cases = before ++ c :: after ∧ Suite.Acceptable before ∧
        c.Breaks (before.map (·.name)) flaw ∧ e = .invalidCase ⟨c.name, flaw⟩) ∧
    (∀ path text suite, Suite.parse path text = .ok suite →
      ∀ c ∈ suite.cases, ∀ e, c.check ≠ .error (.invalid e)) ∧
    ∀ (config : Config) (file : SuiteFile), ((config.runFile file).cases.map (·.name)).Nodup := by
  refine ⟨fun path text cases hread => ⟨fun suite => ?_, fun e => ?_⟩, ?_, Config.nodup_runFile⟩
  · rw [Suite.parse_eq hread, mapError_eq_ok_iff, Suite.ofCases_eq_ok_iff]
  · rw [Suite.parse_eq hread, mapError_eq_error_iff]
    simp only [Suite.ofCases_eq_error_iff]
    constructor
    · rintro ⟨_, ⟨before, c, after, flaw, rfl, hbefore, hc, rfl⟩, rfl⟩
      exact ⟨before, c, after, flaw, rfl, hbefore, hc, rfl⟩
    · rintro ⟨before, c, after, flaw, rfl, hbefore, hc, rfl⟩
      exact ⟨_, ⟨before, c, after, flaw, rfl, hbefore, hc, rfl⟩, rfl⟩
  · intro path text suite hparse c hc
    exact ((Suite.acceptable_of_parse hparse).expects c hc).check_ne

/-- A document of one case is accepted. Of three cases the first is that one, the second has its
name and two expectations, and the third has an unknown category: the second is refused, and for
its expectations. -/
theorem accepted_iff_acceptable_defects :
    let single := "[[case]]\nname = \"a\"\nrun = [\"len\", \"\"]\nexpect = 0\n"
    let text := single ++
      "[[case]]\nname = \"a\"\nrun = [\"len\", \"\"]\nexpect = 0\nerror = \"type\"\n" ++
      "[[case]]\nname = \"b\"\nrun = [\"len\", \"\"]\nerror = \"length\"\n"
    (∃ suite, Suite.parse "" single = .ok suite ∧
      ∀ c ∈ suite.cases, ∀ e, c.check ≠ .error (.invalid e)) ∧
    ∃ cases, DocumentReader.read text = .ok cases ∧
      cases.map (·.name) = ["a", "a", "b"] ∧ ¬ Suite.Acceptable cases ∧
      ∃ before c after, cases = before ++ c :: after ∧ Suite.Acceptable before ∧
        c.Breaks (before.map (·.name)) .twoExpectations := by
  intro single text
  have hsingle : (Suite.parse "" single).map (·.cases.length) = .ok 1 := by decide +kernel
  have hread : (DocumentReader.read text).map (fun cases : List Case =>
      (cases.map (·.name), (Suite.ofCases cases).map (·.cases.length))) =
        .ok (["a", "a", "b"], .error ⟨"a", .twoExpectations⟩) := by decide +kernel
  -- Nothing more is computed from the texts.
  clear_value text single
  obtain ⟨hdocuments, hchecks, -⟩ := accepted_iff_acceptable
  constructor
  · cases hparse : Suite.parse "" single with
    | error e =>
        rw [hparse] at hsingle
        cases hsingle
    | ok suite => exact ⟨suite, rfl, hchecks "" single suite hparse⟩
  · obtain ⟨cases, hread, hcases⟩ := map_eq_ok_iff.1 hread
    obtain ⟨hnames, hrefused⟩ := Prod.mk.inj hcases
    obtain ⟨haccepted, herror⟩ := hdocuments "" text cases hread
    have hparse : Suite.parse "" text = .error (.invalidCase ⟨"a", .twoExpectations⟩) := by
      rw [Suite.parse_eq hread, mapError_eq_error_iff]
      exact ⟨_, map_eq_error_iff.1 hrefused, rfl⟩
    refine ⟨cases, hread, hnames, fun hacceptable => ?_, ?_⟩
    · cases hparse.symm.trans ((haccepted ⟨cases⟩).2 ⟨hacceptable, rfl⟩)
    · obtain ⟨before, c, after, flaw, hcases, hbefore, hc, heq⟩ := (herror _).1 hparse
      obtain ⟨-, rfl⟩ : "a" = c.name ∧ .twoExpectations = flaw := by simpa using heq
      exact ⟨before, c, after, hcases, hbefore, hc⟩

end Conformance
