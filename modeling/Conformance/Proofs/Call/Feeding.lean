import Conformance.Proofs.Call.Defaults
import Conformance.Proofs.Sequence.Agreement

/-!
# Generators as arguments

The arguments of one call stand for those of another one when they differ in spreads only, where
the first call spreads a generator of the values that the second one spreads. Both calls come to
the same end.
-/

namespace Conformance

/-- An argument stands for another one of its kind. -/
inductive Argument.StandsFor (s : Store) : Argument Value → Argument Value → Prop
  | positional {v : Value} (hfree : v.isLazyFree = true) :
      StandsFor s (.positional v) (.positional v)
  | spread {v w : Value} (h : v.StandsFor s w) : StandsFor s (.spread v) (.spread w)
  | keyword (name : String) {v : Value} (hfree : v.isLazyFree = true) :
      StandsFor s (.keyword name v) (.keyword name v)

/-- The arguments of a call stand for those of another one, and each generator among them is
spread once. -/
inductive StandFor (s : Store) : List (Argument Value) → List (Argument Value) → Prop
  | nil : StandFor s [] []
  | cons {a b : Argument Value} {as bs : List (Argument Value)} (head : a.StandsFor s b)
      (apart : ∀ h, a.value = .lazy h → ∀ arg ∈ as, arg.value ≠ .lazy h) (tail : StandFor s as bs) :
      StandFor s (a :: as) (b :: bs)

variable {s s' : Store}

/-- What a value stands for depends on the sequence that it names, and on no other. -/
theorem Value.StandsFor.frame {v w : Value} (h : v.StandsFor s w)
    (hframe : ∀ k, v = .lazy k → s'.state k = s.state k) : v.StandsFor s' w := by
  cases h with
  | same hfree => exact .same hfree
  | generator hstate hfree => exact .generator ((hframe _ rfl).trans hstate) hfree

theorem Argument.StandsFor.frame {a b : Argument Value} (h : a.StandsFor s b)
    (hframe : ∀ k, a.value = .lazy k → s'.state k = s.state k) : a.StandsFor s' b := by
  cases h with
  | positional hfree => exact .positional hfree
  | spread h => exact .spread (h.frame hframe)
  | keyword name hfree => exact .keyword name hfree

theorem Argument.StandsFor.isLazyFree {a b : Argument Value} (h : a.StandsFor s b) :
    b.value.isLazyFree = true := by
  cases h with
  | positional hfree => exact hfree
  | spread h => exact h.isLazyFree
  | keyword name hfree => exact hfree

namespace StandFor

variable {as bs : List (Argument Value)}

theorem frame (h : StandFor s as bs)
    (hframe : ∀ arg ∈ as, ∀ k, arg.value = .lazy k → s'.state k = s.state k) :
    StandFor s' as bs := by
  induction h with
  | nil => exact .nil
  | cons head apart tail ih =>
      obtain ⟨hhead, htail⟩ := List.forall_mem_cons.1 hframe
      exact .cons (head.frame hhead) apart (ih htail)

theorem isLazyFree (h : StandFor s as bs) : ∀ arg ∈ bs, arg.value.isLazyFree = true := by
  induction h with
  | nil => exact nofun
  | cons head apart tail ih => exact List.forall_mem_cons.2 ⟨head.isLazyFree, ih⟩

/-- Expansion drains the generators from left to right. Draining one of them leaves those that
come later as they are. -/
theorem expand (h : StandFor s as bs) (function : String) (supplied : Supplied) (t : Store) :
    Agree (fun _ => Eq) (expand function as supplied) s (Conformance.expand function bs supplied)
      t := by
  -- the store changes with each spread, so the induction is on the arguments alone
  induction as generalizing s t bs supplied with
  | nil =>
      cases h
      exact Agree.pure rfl
  | cons a rest ih =>
      obtain _ | ⟨head, apart, tail⟩ := h
      cases head with
      | positional hfree => exact ih tail _ t
      | spread hvalue =>
          apply (hvalue.agree t).bind
          rintro s' values _ t' - ⟨rfl, hframe⟩
          refine ih (tail.frame ?_) _ t'
          intro arg harg k hk
          exact hframe k fun heq => apart k heq.symm arg harg hk
      | keyword name hfree =>
          unfold Conformance.expand
          split
          · exact Agree.throw _ _ s t
          · exact ih tail _ t

/-- Both calls bind their parameters to the same values, or fail alike. -/
theorem bind (h : StandFor s as bs) (signature : Signature) (t : Store) :
    Agree (fun _ => Eq) (signature.bind as) s (signature.bind bs) t :=
  (h.expand signature.name ⟨[], []⟩ t).bind_eq fun supplied =>
    Agree.lift_eq (signature.distribute supplied)

theorem call_summing (h : StandFor s as bs) (signature : Signature) (t : Store) :
    Agree (fun _ => Eq) ((Function.summing signature).call as) s
      ((Function.summing signature).call bs) t :=
  (h.bind signature t).bind_eq fun _ _ _ => Agree.pure rfl

/-- A function that forwards its positional arguments spreads the tuple of their values, which
stands for itself. -/
theorem call_forwarding_summing (h : StandFor s as bs) {forwarder : Signature}
    (hnodup : forwarder.names.Nodup) (hdefaults : forwarder.defaults = []) (param : String)
    (signature : Signature) (t : Store) :
    Agree (fun _ => Eq) ((Function.forwarding forwarder param (.summing signature)).call as) s
      ((Function.forwarding forwarder param (.summing signature)).call bs) t := by
  obtain ⟨r, hbind, hfree⟩ := Signature.bind_of_isLazyFree hnodup h.isLazyFree
  have htaken : (forwarder.taken (keywordsOf bs)).IsLazyFree := by
    intro entry hentry
    have hdefault := (Signature.mem_taken_iff.1 hentry).1
    rw [hdefaults] at hdefault
    exact absurd hdefault List.not_mem_nil
  apply (h.bind forwarder t).bind
  rintro s' env _ t' hrun rfl
  rw [hbind] at hrun
  cases hrun
  have hvalue := ((hfree env rfl).2 htaken).valueOf param
  have hself : StandFor s' [.spread (env.valueOf param)] [.spread (env.valueOf param)] :=
    .cons (.spread (.same hvalue)) (fun _ _ => nofun) .nil
  exact hself.call_summing signature t

end StandFor

end Conformance
