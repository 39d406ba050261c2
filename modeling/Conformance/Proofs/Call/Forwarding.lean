import Conformance.Proofs.Call.Binding
import Conformance.Proofs.Call.Regrouping
import Conformance.Scenario.Evaluate

/-!
# Forwarding

A function may take whatever positional values it is called with and spread them again for another
function. Without keywords the detour leaves no trace: the values are expanded once, and the other
function finds them in the same order. A keyword does not get through, since no parameter of the
function between the two takes one.
-/

namespace Conformance

variable {function : String} {arguments : List (Argument Value)} {st st' : Store}

theorem keywordsOf_cons_eq_nil_iff {arg : Argument Value} {rest : List (Argument Value)} :
    keywordsOf (arg :: rest) = [] ↔ arg.keyword? = none ∧ keywordsOf rest = [] := by
  rw [keywordsOf_cons, List.append_eq_nil_iff, Option.toList_eq_nil_iff]

/-- Without keywords, expansion does nothing but collect the positional values. -/
theorem expand_of_keywordsOf_eq_nil (hnone : keywordsOf arguments = []) (supplied : Supplied) :
    expand function arguments supplied =
      (fun values => ⟨supplied.positionals ++ values, supplied.keywords⟩) <$>
        expansion arguments := by
  have hfresh := @expand_of_fresh function arguments supplied
  simpa [hnone] using hfresh

/-- A function refuses one of the keywords of a call. -/
def Fault.RefusesKeyword (e : Fault) (function : String) (keywords : Bindings) : Prop :=
  ∃ name ∈ keywords.map (·.1),
    e = .multipleValues function name ∨ e = .unexpectedKeyword function name

theorem Fault.RefusesKeyword.category_eq {e : Fault} {keywords : Bindings}
    (h : e.RefusesKeyword function keywords) : e.category = .name := by
  obtain ⟨name, -, rfl | rfl⟩ := h <;> rfl

theorem mem_of_firstRepeat? {seen names : List String} {name : String}
    (h : firstRepeat? seen names = some name) : name ∈ names := by
  induction names generalizing seen with
  | nil => cases h
  | cons first rest ih =>
      rw [firstRepeat?] at h
      split at h
      · cases h
        exact List.mem_cons_self
      · exact List.mem_cons_of_mem _ (ih h)

/-- Expansion fails on nothing but a repeated keyword, if every spread has elements to give. -/
theorem exists_eq_extend_of_isIterable {function : String} {arguments : List (Argument Value)}
    (hspreads : ∀ v, .spread v ∈ arguments → v.IsIterable st)
    {supplied : Supplied} {r : Except Fault Supplied}
    (hrun : (expand function arguments supplied).run st = some (r, st')) :
    ∃ values, r = supplied.extend function values (keywordsOf arguments) := by
  induction arguments generalizing supplied st with
  | nil =>
      cases hrun
      exact ⟨[], by rw [keywordsOf, List.filterMap_nil, Supplied.extend_nil, List.append_nil]⟩
  | cons arg rest ih =>
      obtain ⟨hfirst, hlater⟩ :
          (∀ v, arg = .spread v → v.IsIterable st) ∧
            ∀ v, .spread v ∈ rest → v.IsIterable st := by
        constructor
        · rintro v rfl
          exact hspreads v List.mem_cons_self
        · exact fun v hv => hspreads v (List.mem_cons_of_mem _ hv)
      rw [keywordsOf_cons]
      cases arg with
      | positional value =>
          obtain ⟨values, rfl⟩ := ih hlater hrun
          exact ⟨[value] ++ values, (supplied.extend_append [value] values _).symm⟩
      | spread value =>
          obtain ⟨own, st₁, hown, hrest⟩ | ⟨e, hown, -⟩ := Run.bind_eq_some_iff.1 hrun
          · have hframe := (Value.materialize_ok_iff hown).1
            obtain ⟨values, rfl⟩ :=
              ih (fun v hv => (Value.isIterable_iff_of_evolves hframe v).2 (hlater v hv)) hrest
            exact ⟨own ++ values, (supplied.extend_append own values _).symm⟩
          · obtain ⟨_, hok⟩ := (Value.materialize_ok_iff hown).2.2 (hfirst value rfl)
            cases hok
      | keyword name value =>
          simp only [Argument.keyword?, Option.toList_some, List.singleton_append,
            Supplied.extend_cons]
          rw [expand] at hrun
          split at hrun
          · cases hrun
            exact ⟨[], by simp [*]⟩
          · obtain ⟨values, rfl⟩ := ih hlater hrun
            exact ⟨values, by simp [*]⟩

namespace Signature

/-- The signature of a function that takes any positional values and nothing else. -/
def collecting (name param : String) : Signature := ⟨name, [], some param, []⟩

theorem distribute_collecting (name param : String) (values : List Value) :
    (collecting name param).distribute ⟨values, []⟩ = .ok ⟨[(param, .tuple values)]⟩ := rfl

/-- No parameter takes the first of the keywords. -/
theorem distribute_collecting_cons (name param : String) (values : List Value)
    (keyword : String × Value) (keywords : Bindings) :
    (collecting name param).distribute ⟨values, keyword :: keywords⟩ =
      .error (.unexpectedKeyword name keyword.1) := by
  cases values <;> rfl

/-- Where every spread has elements, binding settles some values with the keywords. -/
theorem exists_eq_settle_of_isIterable (s : Signature)
    (hspreads : ∀ v, .spread v ∈ arguments → v.IsIterable st) {r : Except Fault Environment}
    (hrun : (s.bind arguments).run st = some (r, st')) :
    ∃ values, r = s.settle values (keywordsOf arguments) := by
  obtain ⟨supplied, st₁, hexpand, hlift⟩ | ⟨e, hexpand, rfl⟩ := Run.bind_eq_some_iff.1 hrun
  · obtain ⟨values, heq⟩ := exists_eq_extend_of_isIterable hspreads hexpand
    rw [Run.run_lift] at hlift
    cases hlift
    exact ⟨values, by rw [settle, ← heq]; rfl⟩
  · obtain ⟨values, heq⟩ := exists_eq_extend_of_isIterable hspreads hexpand
    exact ⟨values, by rw [settle, ← heq]; rfl⟩

/-- Keywords are not let through: one that is repeated is refused, or else the first of all. -/
theorem settle_collecting {keywords : Bindings} (hsome : keywords ≠ []) (name param : String)
    (values : List Value) : ∃ e, (collecting name param).settle values keywords = .error e ∧
      e.RefusesKeyword name keywords := by
  obtain ⟨first, rest, rfl⟩ := List.exists_cons_of_ne_nil hsome
  unfold settle Supplied.extend
  rw [List.map_nil]
  cases hrepeat : firstRepeat? [] ((first :: rest).map (·.1)) with
  | some twice => exact ⟨_, rfl, twice, mem_of_firstRepeat? hrepeat, .inl rfl⟩
  | none =>
      have hrefused := distribute_collecting_cons name param values first rest
      exact ⟨_, hrefused, first.1, List.mem_cons_self, .inr rfl⟩

theorem error_of_bind_collecting (hsome : keywordsOf arguments ≠ []) {name param : String}
    (hspreads : ∀ v, .spread v ∈ arguments → v.IsIterable st) {r : Except Fault Environment}
    (hrun : ((collecting name param).bind arguments).run st = some (r, st')) :
    ∃ e, r = .error e ∧ e.RefusesKeyword name (keywordsOf arguments) := by
  obtain ⟨values, rfl⟩ := exists_eq_settle_of_isIterable _ hspreads hrun
  exact settle_collecting hsome name param values

end Signature

/-! ## One function behind another -/

namespace Function

variable {f : Function} {name param : String}

/-- A call without keywords expands its arguments and goes on with the positional values. -/
theorem call_of_keywordsOf_eq_nil (f : Function) (hnone : keywordsOf arguments = []) :
    f.call arguments = expansion arguments >>= fun values =>
      liftExcept (f.signature.distribute ⟨values, []⟩) >>= f.body := by
  rw [call, Signature.bind, expand_of_keywordsOf_eq_nil hnone]
  simp only [List.nil_append, map_eq_pure_bind, bind_assoc, pure_bind]

/-- A call with a tuple as its only spread. -/
theorem call_spread_tuple (f : Function) (values : List Value) :
    f.call [.spread (.tuple values)] =
      liftExcept (f.signature.distribute ⟨values, []⟩) >>= f.body := by
  rw [call_of_keywordsOf_eq_nil f rfl, expansion_cons, expansion_nil]
  simp [Argument.elements, Value.materialize]

/-- Without keywords a call through another function is the call itself. -/
theorem call_forwarding (f : Function) (name param : String) (hnone : keywordsOf arguments = []) :
    (forwarding (.collecting name param) param f).call arguments = f.call arguments := by
  rw [call_of_keywordsOf_eq_nil _ hnone, call_of_keywordsOf_eq_nil f hnone]
  apply bind_congr
  intro values
  calc liftExcept ((Signature.collecting name param).distribute ⟨values, []⟩) >>=
        (forwarding (.collecting name param) param f).body
      = f.call [.spread ((⟨[(param, .tuple values)]⟩ : Environment).valueOf param)] := by
        rw [Signature.distribute_collecting]
        rfl
    _ = f.call [.spread (.tuple values)] := by
        simp [Environment.valueOf, Environment.get?, Bindings.get?_cons]
    _ = liftExcept (f.signature.distribute ⟨values, []⟩) >>= f.body := f.call_spread_tuple values

/-- A call whose parameters cannot be bound ends there, whatever the body would do. -/
theorem run_call_of_bind_fails {e : Fault}
    (hbind : (f.signature.bind arguments).run st = some (.error e, st')) :
    (f.call arguments).run st = some (.error e, st') :=
  Run.run_bind_of_error hbind f.body

theorem exists_bind_fails_of_keywords (f : Function) (hsome : keywordsOf arguments ≠ [])
    (hspreads : ∀ v, .spread v ∈ arguments → v.IsIterable st) {r : Except Fault Value}
    (hrun : ((forwarding (.collecting name param) param f).call arguments).run st =
      some (r, st')) :
    ∃ e, r = .error e ∧ e.RefusesKeyword name (keywordsOf arguments) ∧
      ((Signature.collecting name param).bind arguments).run st = some (.error e, st') := by
  obtain ⟨env, st₁, hbind, -⟩ | ⟨e, hbind, rfl⟩ := Run.bind_eq_some_iff.1 hrun
  · obtain ⟨e, heq, -⟩ := Signature.error_of_bind_collecting hsome hspreads hbind
    cases heq
  · obtain ⟨e', heq, hrefused⟩ := Signature.error_of_bind_collecting hsome hspreads hbind
    cases heq
    exact ⟨e, rfl, hrefused, hbind⟩

/-- With a keyword it does not matter which function would be called in the end. -/
theorem run_forwarding_congr (f f' : Function) (hsome : keywordsOf arguments ≠ [])
    (hspreads : ∀ v, .spread v ∈ arguments → v.IsIterable st) :
    ((forwarding (.collecting name param) param f).call arguments).run st =
      ((forwarding (.collecting name param) param f').call arguments).run st := by
  have hgo : ∀ (f f' : Function) o,
      ((forwarding (.collecting name param) param f).call arguments).run st = some o →
      ((forwarding (.collecting name param) param f').call arguments).run st = some o := by
    rintro f f' ⟨r, st'⟩ hrun
    obtain ⟨e, rfl, -, hbind⟩ := exists_bind_fails_of_keywords f hsome hspreads hrun
    exact run_call_of_bind_fails hbind
  apply Option.ext
  exact fun o => ⟨hgo f f' o, hgo f' f o⟩

end Function

namespace Scenario

/-- What an argument of a scenario becomes is a keyword if the argument is one. -/
theorem bind_argument_congr {β : Type} {arg : Arg}
    (hkeyword : ∀ name item, arg ≠ .keyword name item)
    {k k' : Argument Value → Eval β} (h : ∀ a, a.keyword? = none → k a = k' a) :
    argument arg >>= k = argument arg >>= k' := by
  cases arg with
  | keyword name item => exact absurd rfl (hkeyword name item)
  | positional | spread | spreadLazy =>
      simp only [argument, bind_assoc, pure_bind]
      exact bind_congr fun v => h _ rfl

theorem bind_arguments_congr {β : Type} {args : List Arg}
    (hkeywords : ∀ name item, .keyword name item ∉ args)
    {k k' : List (Argument Value) → Eval β} (h : ∀ as, keywordsOf as = [] → k as = k' as) :
    args.mapM argument >>= k = args.mapM argument >>= k' := by
  induction args generalizing k k' with
  | nil => simpa using h [] rfl
  | cons arg rest ih =>
      simp only [List.mapM_cons, bind_assoc, pure_bind]
      apply bind_argument_congr
      · rintro name item rfl
        exact hkeywords name item List.mem_cons_self
      · intro a ha
        apply ih
        · exact fun name item hmem => hkeywords name item (List.mem_cons_of_mem _ hmem)
        · exact fun as has => h _ (keywordsOf_cons_eq_nil_iff.2 ⟨ha, has⟩)

/-- A scenario that calls a function without keywords may as well forward the call. -/
theorem outcome_call_forward (params : Params) {args : List Arg}
    (hkeywords : ∀ name item, .keyword name item ∉ args) :
    (Operation.call params args true).outcome = (Operation.call params args false).outcome := by
  simp only [Operation.outcome]
  apply bind_congr
  intro signature
  apply bind_arguments_congr hkeywords
  intro as has
  simp only [if_true, Bool.false_eq_true, if_false]
  rw [show (forwarder (.summing signature)).call as = (Function.summing signature).call as from
    Function.call_forwarding _ "g" "args" has]

/-- A call without keywords does the same through the forwarder as without it, whatever the
arguments and the function are: it gives the same value or fails with the same fault, and leaves
the same sequences behind. So a scenario that calls a function without keywords gives the same,
forwarded or not. With a keyword, and only spreads that have elements and are not in progress, the
forwarded call fails where the forwarder binds its own parameters: it comes to an end if expansion
does, each of its outcomes is a fault of a name that is raised for the forwarder, and no other
function in the place of the one behind would make a difference. -/
theorem forwarder_transparent :
    (∀ (f : Function) (arguments : List (Argument Value)), keywordsOf arguments = [] →
      ∀ st, ((forwarder f).call arguments).run st = (f.call arguments).run st) ∧
    (∀ (params : Params) (args : List Arg), (∀ name item, .keyword name item ∉ args) →
      evaluate (.call params args true) = evaluate (.call params args false)) ∧
    ∀ (f : Function) (arguments : List (Argument Value)) (st : Store),
      keywordsOf arguments ≠ [] → (∀ v, .spread v ∈ arguments → v.IsIterable st) →
      (∀ r st', ((forwarder f).call arguments).run st = some (r, st') →
        ∃ e, r = .error e ∧ e.RefusesKeyword "g" (keywordsOf arguments) ∧ e.category = .name ∧
          ((forwarder f).signature.bind arguments).run st = some (.error e, st')) ∧
      ((∃ o, (expansion arguments).run st = some o) →
        ∃ o, ((forwarder f).call arguments).run st = some o) ∧
      ∀ f' : Function,
        ((forwarder f).call arguments).run st = ((forwarder f').call arguments).run st := by
  refine ⟨?_, ?_, ?_⟩
  · intro f arguments hnone st
    exact congrArg (fun run : Run Value => run.run st) (f.call_forwarding "g" "args" hnone)
  · intro params args hkeywords
    simp only [evaluate, Operation.run, outcome_call_forward params hkeywords]
  · intro f arguments st hsome hspreads
    refine ⟨?_, ?_, fun f' => Function.run_forwarding_congr f f' hsome hspreads⟩
    · intro r st' hrun
      obtain ⟨e, rfl, hrefused, hbind⟩ :=
        Function.exists_bind_fails_of_keywords f hsome hspreads hrun
      exact ⟨e, rfl, hrefused, hrefused.category_eq, hbind⟩
    · intro hends
      obtain ⟨⟨r, st'⟩, hbind⟩ := Signature.bind_ends (s := (forwarder f).signature) hends
      obtain ⟨e, rfl, -⟩ := Signature.error_of_bind_collecting hsome hspreads hbind
      exact ⟨_, Function.run_call_of_bind_fails hbind⟩

/-- A value too many for the function behind the forwarder, after a spread of a sequence; the same
values in a scenario; and a keyword that the function behind declares, but not the forwarder. -/
theorem forwarder_transparent_surplus :
    let f := Function.summing ⟨"f", ["a", "b"], none, [("c", .int 16)]⟩
    let st : Store := ⟨[⟨.eager [.int 1, .int 2] 0, 0⟩], []⟩
    let params : Params := ⟨"f", ["a", "b"], none, [("c", .integer 16)]⟩
    let args : List Arg := [.spread (.array [.integer 1, .integer 2]), .positional (.integer 3)]
    let keyed : List (Argument Value) :=
      [.spread (.list [.int 1, .int 2]), .keyword "c" (.int 3)]
    ((forwarder f).call [.spread (.lazy ⟨0⟩), .positional (.int 3)]).run st =
      (f.call [.spread (.lazy ⟨0⟩), .positional (.int 3)]).run st ∧
    evaluate (.call params args true) = .error (.fault (.tooManyPositional "f" 2 3)) ∧
    ∃ e st', ((forwarder f).call keyed).run st = some (.error e, st') ∧ e.category = .name := by
  intro f st params args keyed
  refine ⟨forwarder_transparent.1 f _ rfl st, ?_, ?_⟩
  · have hkeywords : ∀ name item, .keyword name item ∉ args := by simp [args]
    exact (forwarder_transparent.2.1 params args hkeywords).trans rfl
  · have hspreads : ∀ v, .spread v ∈ keyed → v.IsIterable st := by simp [keyed, Value.IsIterable]
    have hsome : keywordsOf keyed ≠ [] := by simp [keyed, keywordsOf, Argument.keyword?]
    obtain ⟨hrefused, hends, -⟩ := forwarder_transparent.2.2 f keyed st hsome hspreads
    obtain ⟨⟨r, st'⟩, hrun⟩ := hends ⟨_, rfl⟩
    obtain ⟨e, rfl, -, hcategory, -⟩ := hrefused r st' hrun
    exact ⟨e, st', hrun, hcategory⟩

end Scenario

end Conformance
