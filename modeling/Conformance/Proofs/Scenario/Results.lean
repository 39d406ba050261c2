import Conformance.Proofs.Scenario.Feeding
import Conformance.Proofs.Value.Readable

/-!
# Results of scenarios

A scenario drains the generators that it feeds before it gives anything, so no sequence is in its
results. Values without sequences are told apart by how they are written, so the results are too.
-/

namespace Conformance

namespace Scenario

/-- What an operation comes to when it runs on its own: an outcome with TOML forms, of TOML values
that all convert, or an error of which these are the reason if it is no fault. -/
theorem Operation.outcome_cases {op : Operation} {r : Except EvalError Outcome} {s : Store}
    (h : op.outcome.run .empty = some (r, s)) :
    (∀ o, r = .ok o → o.HasToml ∧ AllConvert op.embedded) ∧
      ∀ e, r = .error e → e.Arises op.embedded := by
  obtain ⟨r, s₁, r', s₂, hrun, heager, halike⟩ := op.outcome_agree
  rw [h] at hrun
  cases hrun
  rw [halike.eq]
  exact op.eager_ensures .empty r' s₂ heager

/-- No sequence is in what a scenario gives. -/
theorem Operation.isLazyFree_of_outcome {op : Operation} {o : Outcome} {s : Store}
    (h : op.outcome.run .empty = some (.ok o, s)) : ∀ v ∈ o.values, v.isLazyFree = true :=
  fun v hv => (((outcome_cases h).1 o rfl).1 v hv).isLazyFree

/-- Values without sequences are written differently inside a container unless they are the same.
So two lists of them are shown differently, as lists and as tuples, and so are two values that
scenarios give, in which no sequence ever is. -/
theorem repr_injective :
    (∀ v w : Value, v.isLazyFree = true → w.isLazyFree = true → v.repr = w.repr → v = w) ∧
    (∀ vs ws : List Value, (∀ v ∈ vs, v.isLazyFree = true) → (∀ w ∈ ws, w.isLazyFree = true) →
      ((Value.list vs).display = (Value.list ws).display → vs = ws) ∧
      ((Value.tuple vs).display = (Value.tuple ws).display → vs = ws)) ∧
    ∀ (op op' : Operation) (o o' : Outcome) (s s' : Store),
      op.outcome.run .empty = some (.ok o, s) → op'.outcome.run .empty = some (.ok o', s') →
      ∀ v ∈ o.values, ∀ w ∈ o'.values,
        v.isLazyFree = true ∧ w.isLazyFree = true ∧ (v.repr = w.repr → v = w) := by
  refine ⟨fun v w => Value.eq_of_repr_eq, fun vs ws hvs hws => ⟨fun h => ?_, fun h => ?_⟩, ?_⟩
  · exact Value.list.inj (Value.eq_of_repr_eq ((Value.isLazyFree_list vs).2 hvs)
      ((Value.isLazyFree_list ws).2 hws) h)
  · exact Value.tuple.inj (Value.eq_of_repr_eq ((Value.isLazyFree_tuple vs).2 hvs)
      ((Value.isLazyFree_tuple ws).2 hws) h)
  · intro op op' o o' s s' h h' v hv w hw
    have hfree := Operation.isLazyFree_of_outcome h v hv
    have hfree' := Operation.isLazyFree_of_outcome h' w hw
    exact ⟨hfree, hfree', Value.eq_of_repr_eq hfree hfree'⟩

/-- Two scenarios whose texts are spaced differently give the same words, one with an apostrophe and
one that is a backslash. Around the words is a tuple of one element. -/
theorem repr_injective_quoted :
    let t := Text.ofString "it's \\"
    let t' := Text.ofString " it's\t\\\n"
    let v := Value.list (t.words.map .str)
    let w := Value.list (t'.words.map .str)
    (Operation.words t).outcome.run .empty = some (.ok (.value v), .empty) ∧
      (Operation.words t').outcome.run .empty = some (.ok (.value w), .empty) ∧
      (Value.tuple [v]).repr = .ofString "(['it\\'s', '\\\\'],)" ∧
      (Value.tuple [w]).repr = .ofString "(['it\\'s', '\\\\'],)" ∧
      Value.tuple [v] = .tuple [w] ∧ [v] = [w] ∧ v = w := by
  intro t t' v w
  have hwords : (Operation.words t).outcome.run .empty = some (.ok (.value v), .empty) := rfl
  have hwords' : (Operation.words t').outcome.run .empty = some (.ok (.value w), .empty) := rfl
  have hrepr : (Value.tuple [v]).repr = .ofString "(['it\\'s', '\\\\'],)" := by decide +kernel
  have hrepr' : (Value.tuple [w]).repr = .ofString "(['it\\'s', '\\\\'],)" := by decide +kernel
  obtain ⟨hvalues, hcontainers, hresults⟩ := repr_injective
  obtain ⟨hv, hw, hsame⟩ := hresults _ _ _ _ _ _ hwords hwords' v (List.mem_singleton_self v) w
    (List.mem_singleton_self w)
  have hvs : ∀ u ∈ [v], u.isLazyFree = true := List.forall_mem_singleton.2 hv
  have hws : ∀ u ∈ [w], u.isLazyFree = true := List.forall_mem_singleton.2 hw
  have hdisplay := hrepr.trans hrepr'.symm
  refine ⟨hwords, hwords', hrepr, hrepr', ?_, (hcontainers [v] [w] hvs hws).2 hdisplay, ?_⟩
  · exact hvalues _ _ ((Value.isLazyFree_tuple [v]).2 hvs) ((Value.isLazyFree_tuple [w]).2 hws)
      hdisplay
  · exact hsame (by decide +kernel)

end Scenario

end Conformance
