import Conformance.Proofs.Scenario.Refusal
import Conformance.Proofs.Toml.Equality
import Conformance.Suite.Case

/-!
# Expectations of cases

What a scenario gives is met by one expectation: a value by itself, and a fault by its category.
Floats are the only TOML values that do not compare as themselves, and no scenario gives one. A
refused scenario is met by no expectation, and a case that has not exactly one is not run.
-/

namespace Conformance

namespace Scenario

/-- A value has no float in its TOML form. -/
theorem isFloatFree_of_ofValue {v : Value} {t : Toml} (h : ofValue v = .ok t) :
    t.IsFloatFree := by
  intro part hpart hfloat
  have hplain := exists_toValue_iff.1 ⟨v.untupled, toValue_of_ofValue h⟩ part hpart
  rw [hfloat] at hplain
  cases hplain

theorem Outcome.HasToml.isFloatFree {o : Outcome} (ho : o.HasToml) {t : Toml}
    (h : o.form = .ok t) : t.IsFloatFree := by
  cases o with
  | value v => exact isFloatFree_of_ofValue h
  | bindings b =>
      obtain ⟨entries, htable, hsorted, hentries⟩ := exists_ofBindings (List.forall_mem_map.1 ho)
      cases htable.symm.trans h
      rw [Toml.isFloatFree_table]
      rintro ⟨name, form⟩ hmem
      have hrel := hentries name
      rw [(Toml.Entries.get?_eq_some_iff hsorted.nodup).2 hmem] at hrel
      generalize b.latest? name = latest at hrel
      cases hrel with
      | some hform => exact isFloatFree_of_ofValue hform

/-- No float is in what a scenario gives, at any depth. -/
theorem isFloatFree_of_evaluate {op : Operation} {t : Toml} (h : evaluate op = .ok t) :
    t.IsFloatFree := by
  obtain ⟨o, s, t', -, ho, -, htoml, heval⟩ | ⟨_, _, -, -, heval⟩ := evaluate_cases op
  · cases heval.symm.trans h
    apply ho.isFloatFree
    rw [ho.toToml_eq, ofConversion, Run.run_lift] at htoml
    cases hform : o.form with
    | ok => simpa [hform, Except.mapError] using htoml
    | error => simp [hform, Except.mapError] at htoml
  · cases heval.symm.trans h

end Scenario

/-- The expectation that the result of a scenario meets. -/
def Expectation.metBy : Except Scenario.EvalError Toml → Option Expectation
  | .ok t => some (.value t)
  | .error (.fault e) => some (.error e.category)
  | .error (.invalid _) => none

theorem Expectation.compare_evaluate_iff {e : Expectation} {op : Scenario.Operation} :
    e.compare (Scenario.evaluate op) = .ok () ↔ metBy (Scenario.evaluate op) = some e := by
  cases heval : Scenario.evaluate op with
  | ok actual =>
      have hsame : ∀ expected, (actual == expected) = true ↔ actual = expected := fun _ =>
        Toml.beq_iff_of_isFloatFree (Scenario.isFloatFree_of_evaluate heval)
      cases e with
      | value expected =>
          rw [compare]
          split
          case isTrue h => simp [metBy, (hsame expected).1 h]
          case isFalse h => simpa [metBy] using mt (hsame expected).2 h
      | error expected => simp [compare, metBy]
  | error cause =>
      cases cause with
      | invalid cause => cases e <;> simp [compare, metBy]
      | fault fault =>
          cases e with
          | value expected => simp [compare, metBy]
          | error expected =>
              rw [compare]
              split <;> simp_all [metBy]

namespace Case

/-- The case that has one expectation of an operation. -/
def expecting (name : String) (op : Scenario.Operation) : Expectation → Case
  | .value expected => ⟨name, op, some expected, none⟩
  | .error category => ⟨name, op, none, some category.label⟩

theorem expectation_expecting (name : String) (op : Scenario.Operation) (e : Expectation) :
    (expecting name op e).expectation = .ok e := by
  cases e <;> simp [expecting, expectation]

theorem expectation_eq_ok_iff {c : Case} {e : Expectation} :
    c.expectation = .ok e ↔ c = expecting c.name c.run e := by
  obtain ⟨name, op, expect, error⟩ := c
  constructor
  · intro h
    match expect, error with
    | some expected, none =>
        cases h
        rfl
    | none, some label =>
        cases hlabel : Category.ofLabel? label with
        | none => simp [expectation, hlabel] at h
        | some category =>
            have hname := List.find?_some hlabel
            simp only [expectation, hlabel, Except.ok.injEq] at h
            simp only [← h, expecting, eq_of_beq hname]
    | some expected, some label => cases h
    | none, none => cases h
  · intro h
    rw [h]
    exact expectation_expecting ..

/-- A case passes if it has one expectation, and that is the one which the result meets. -/
theorem check_eq_ok_iff {c : Case} : c.check = .ok () ↔
    ∃ e, c.expectation = .ok e ∧ Expectation.metBy (Scenario.evaluate c.run) = some e := by
  cases h : c.expectation with
  | error flaw => simp [check, h]
  | ok e => simp [check, h, Expectation.compare_evaluate_iff]

theorem check_expecting_iff {name : String} {op : Scenario.Operation} {e : Expectation} :
    (expecting name op e).check = .ok () ↔
      Expectation.metBy (Scenario.evaluate op) = some e := by
  have hrun : (expecting name op e).run = op := by cases e <;> rfl
  simp [check_eq_ok_iff, expectation_expecting, hrun]

end Case

/-- A case of a scenario that gives a value passes if it expects that value, and with no other
expectation; one of a scenario that fails with a fault passes if it expects the category of the
fault, and with no other expectation. So of all expectations, each value and each category, exactly
one lets a case of a scenario that is not refused pass. A case of a refused scenario never passes,
and neither does a case with two expectations, with none, or with an unknown category. -/
theorem one_expectation_passes (name : String) (op : Scenario.Operation) :
    (∀ t, Scenario.evaluate op = .ok t →
      ∀ e, (Case.expecting name op e).check = .ok () ↔ e = .value t) ∧
    (∀ fault, Scenario.evaluate op = .error (.fault fault) →
      ∀ e, (Case.expecting name op e).check = .ok () ↔ e = .error fault.category) ∧
    ((∀ cause, Scenario.evaluate op ≠ .error (.invalid cause)) →
      ∃! e, (Case.expecting name op e).check = .ok ()) ∧
    (∀ cause, Scenario.evaluate op = .error (.invalid cause) →
      ∀ c : Case, c.run = op → c.check ≠ .ok ()) ∧
    ∀ c : Case, (c.expect.isSome ∧ c.error.isSome) ∨ (c.expect = none ∧ c.error = none) ∨
      (∃ label, c.error = some label ∧ ∀ category : Category, category.label ≠ label) →
      c.check ≠ .ok () := by
  have hmet : ∀ e', Expectation.metBy (Scenario.evaluate op) = some e' →
      ∀ e, (Case.expecting name op e).check = .ok () ↔ e = e' := by
    intro e' he' e
    rw [Case.check_expecting_iff, he', Option.some.injEq, eq_comm]
  refine ⟨fun t heval => hmet _ ?_, fun fault heval => hmet _ ?_, fun hvalid => ?_, ?_, ?_⟩
  · rw [heval]
    rfl
  · rw [heval]
    rfl
  · obtain ⟨e', he'⟩ : ∃ e', Expectation.metBy (Scenario.evaluate op) = some e' := by
      match heval : Scenario.evaluate op with
      | .ok t => exact ⟨_, rfl⟩
      | .error (.fault fault) => exact ⟨_, rfl⟩
      | .error (.invalid cause) => exact absurd heval (hvalid cause)
    exact ⟨e', (hmet e' he' e').2 rfl, fun e => (hmet e' he' e).1⟩
  · rintro cause heval c rfl hpass
    obtain ⟨e, -, he⟩ := Case.check_eq_ok_iff.1 hpass
    rw [heval] at he
    cases he
  · intro c hflawed hpass
    obtain ⟨e, he, -⟩ := Case.check_eq_ok_iff.1 hpass
    rw [Case.expectation_eq_ok_iff.1 he] at hflawed
    cases e with
    | value expected =>
        obtain ⟨-, hsome⟩ | ⟨hnone, -⟩ | ⟨label, hlabel, -⟩ := hflawed
        · cases hsome
        · cases hnone
        · cases hlabel
    | error category =>
        obtain ⟨hsome, -⟩ | ⟨-, hnone⟩ | ⟨label, hlabel, hunknown⟩ := hflawed
        · cases hsome
        · cases hnone
        · cases hlabel
          exact hunknown category rfl

/-- An unpacked pair in a table, an index past the end of a text, and a float without a value. -/
theorem one_expectation_passes_each :
    let pair : Scenario.Operation := .unpack "b, a" [.integer 1, .integer 2] true
    let table : Toml := .table [("a", .integer 2), ("b", .integer 1)]
    let past : Scenario.Operation := .index (.ofString "abc") 5
    let float : Scenario.Operation := .str (.float 1.5)
    (Scenario.evaluate pair = .ok table ∧
      (Case.expecting "pair" pair (.value table)).check = .ok ()) ∧
    (Scenario.evaluate past = .error (.fault (.indexOutOfRange 5 3)) ∧
      (Case.expecting "past" past (.error .index)).check = .ok ()) ∧
    (Scenario.evaluate float = .error (.invalid (.noValue .float)) ∧
      (Case.expecting "float" float (.error .value)).check ≠ .ok ()) := by
  intro pair table past float
  have hpair : Scenario.evaluate pair = .ok table :=
    (Scenario.evaluate_eager pair).symm.trans rfl
  have hpast : Scenario.evaluate past = .error (.fault (.indexOutOfRange 5 3)) := rfl
  have hfloat : Scenario.evaluate float = .error (.invalid (.noValue .float)) := rfl
  refine ⟨⟨hpair, ?_⟩, ⟨hpast, ?_⟩, hfloat, ?_⟩
  · exact ((one_expectation_passes "pair" pair).1 table hpair _).2 rfl
  · exact ((one_expectation_passes "past" past).2.1 _ hpast _).2 rfl
  · exact (one_expectation_passes "float" float).2.2.2.1 _ hfloat _ rfl

end Conformance
