import Conformance.Proofs.Scenario.Results
import Conformance.Proofs.Scenario.RoundTrip

/-!
# Refused scenarios

A scenario is refused, rather than failing with a fault, for one reason only: a TOML value that is
embedded in its operation has no value. Its result always has a TOML form, so none is refused for
what it gives.
-/

namespace Conformance

namespace Scenario

/-- A scenario gives the TOML value of its outcome, or fails as its operation does. -/
theorem evaluate_cases (op : Operation) :
    (∃ o s t, op.outcome.run .empty = some (.ok o, s) ∧ o.HasToml ∧ AllConvert op.embedded ∧
      o.toToml.run s = some (.ok t, s) ∧ evaluate op = .ok t) ∨
    ∃ e s, op.outcome.run .empty = some (.error e, s) ∧ e.Arises op.embedded ∧
      evaluate op = .error e := by
  obtain ⟨r, s, hrun, -⟩ := op.outcome_ends .empty Store.listed_empty
  obtain ⟨hok, herror⟩ := Operation.outcome_cases hrun
  cases r with
  | ok o =>
      obtain ⟨ho, hconvert⟩ := hok o rfl
      obtain ⟨t, ht⟩ := ho.exists_form
      have htoml : o.toToml.run s = some (.ok t, s) := by
        rw [ho.toToml_eq, ht]
        rfl
      have heval : op.run.run .empty = some (.ok t, s) :=
        (Run.run_bind_of_ok hrun Outcome.toToml).trans htoml
      refine .inl ⟨o, s, t, hrun, ho, hconvert, htoml, ?_⟩
      simp only [evaluate, heval, Option.get_some]
  | error e =>
      have heval : op.run.run .empty = some (.error e, s) :=
        Run.run_bind_of_error hrun Outcome.toToml
      refine .inr ⟨e, s, hrun, herror e rfl, ?_⟩
      simp only [evaluate, heval, Option.get_some]

/-- A scenario in which no float, date or table is embedded, at any depth, gives a TOML value or
fails with a fault, and a refused one has an embedded TOML value with the same cause. One in which
a float, date or table is embedded gives no TOML value, whether or not that would be used. There is
neither nothing nor a sequence at any depth in an outcome, and its conversion succeeds and leaves
the sequences alone. Sums of arguments are no reason to refuse a scenario either: they are sums of
words, which wrap round. -/
theorem refused_only_for_embedded (op : Operation) :
    ((∀ t ∈ op.embedded, ∀ part ∈ t.parts, part.kind.isForeign = false) →
      (∃ t, evaluate op = .ok t) ∨ ∃ e, evaluate op = .error (.fault e)) ∧
    (∀ cause, evaluate op = .error (.invalid cause) →
      ∃ t ∈ op.embedded, toValue t = .error cause) ∧
    ((∃ t ∈ op.embedded, ∃ part ∈ t.parts, part.kind.isForeign = true) →
      ∃ e, evaluate op = .error e) ∧
    ∀ o s, op.outcome.run .empty = some (.ok o, s) →
      (∀ v ∈ o.values, ∀ part ∈ v.parts, part ≠ .nothing ∧ ∀ h, part ≠ .lazy h) ∧
      ∃ t, o.toToml.run s = some (.ok t, s) ∧ evaluate op = .ok t := by
  have hrefused : ∀ cause, evaluate op = .error (.invalid cause) →
      ∃ t ∈ op.embedded, toValue t = .error cause := by
    intro cause hcause
    obtain ⟨_, _, t, -, -, -, -, heval⟩ | ⟨e, -, -, harises, heval⟩ := evaluate_cases op
    · rw [heval] at hcause
      cases hcause
    · rw [heval] at hcause
      cases hcause
      cases harises with
      | refused ht h => exact ⟨_, ht, h⟩
  refine ⟨fun hplain => ?_, hrefused, ?_, ?_⟩
  · cases heval : evaluate op with
    | ok t => exact .inl ⟨t, rfl⟩
    | error e =>
        cases e with
        | fault e => exact .inr ⟨e, rfl⟩
        | invalid cause =>
            obtain ⟨t, ht, hcause⟩ := hrefused cause heval
            obtain ⟨v, hv⟩ := exists_toValue_iff.2 (hplain t ht)
            cases hv.symm.trans hcause
  · rintro ⟨t, ht, part, hpart, hforeign⟩
    obtain ⟨_, _, _, -, -, hconvert, -⟩ | ⟨e, -, -, -, heval⟩ := evaluate_cases op
    · have hplain := exists_toValue_iff.1 (hconvert t ht) part hpart
      rw [hforeign] at hplain
      cases hplain
    · exact ⟨e, heval⟩
  · intro o s hrun
    obtain ⟨o', s', t, hrun', ho, -, htoml, heval⟩ | ⟨_, _, hrun', -⟩ := evaluate_cases op
    · rw [hrun] at hrun'
      cases hrun'
      exact ⟨fun v hv => hasToml_iff.1 (ho v hv), t, htoml, heval⟩
    · rw [hrun] at hrun'
      cases hrun'

/-- A float in a local name that is not read, a table as a default that is replaced and a float in
an argument too many each keep an operation from giving a TOML value. Joining texts gives one, and
so does a sum that leaves the words of 64 bits. -/
theorem refused_only_for_embedded_unused :
    let unread : Operation := .assign "a" [("b", .integer 1), ("c", .float 0)] ["b"]
    let replaced : Operation := .bind ⟨"f", [], none, [("a", .table [])]⟩
      [.keyword "a" (.integer 1)]
    let surplus : Operation := .call ⟨"f", [], none, []⟩ [.positional (.array [.float 0])] false
    let plain : Operation := .join (.ofString "-") [.string "a", .string "b"] false
    let wrapped : Operation := .call ⟨"f", [], some "args", []⟩
      [.positional (.integer 9223372036854775807), .positional (.integer 1)] false
    (∃ e, evaluate unread = .error e) ∧ (∃ e, evaluate replaced = .error e) ∧
      (∃ e, evaluate surplus = .error e) ∧ evaluate plain = .ok (.string "a-b") ∧
      evaluate wrapped = .ok (.integer (-9223372036854775808)) := by
  intro unread replaced surplus plain wrapped
  refine ⟨?_, ?_, ?_, ?_, ?_⟩
  · exact (refused_only_for_embedded unread).2.2.1
      ⟨.float 0, by simp [unread, Operation.embedded], .float 0, by simp [Toml.parts], rfl⟩
  · exact (refused_only_for_embedded replaced).2.2.1
      ⟨.table [], by simp [replaced, Operation.embedded, Params.embedded], .table [],
        by simp [Toml.parts], rfl⟩
  · exact (refused_only_for_embedded surplus).2.2.1
      ⟨.array [.float 0], by simp [surplus, Operation.embedded, Params.embedded, Arg.embedded],
        .float 0, by simp [Toml.parts, Toml.partsOf], rfl⟩
  · have hrun : plain.outcome.run .empty = some (.ok (.value (.str (.ofString "a-b"))), .empty) :=
      rfl
    obtain ⟨-, t, htoml, heval⟩ := (refused_only_for_embedded plain).2.2.2 _ _ hrun
    cases htoml
    exact heval
  · have hrun : wrapped.outcome.run .empty =
        some (.ok (.value (.int (-9223372036854775808))), .empty) := rfl
    obtain ⟨-, t, htoml, heval⟩ := (refused_only_for_embedded wrapped).2.2.2 _ _ hrun
    cases htoml
    exact heval

end Scenario

end Conformance
