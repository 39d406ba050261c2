import Conformance.Proofs.Call.Binding
import Conformance.Proofs.Call.Walk

/-!
# Why arguments are not bound

A call may break several rules at once. Binding reports the first of them: the rules of the walk
over the arguments, then the room for positional values, then the keywords in call order, and last
the parameters that nothing fills. A fault is raised exactly if it is the first in this order.
-/

namespace Conformance

namespace Signature

/-- How a keyword is refused when the call gives `n` positional values. -/
inductive Refuses (s : Signature) (n : ℕ) (name : String) : Fault → Prop
  | filled (hname : name ∈ s.fixed.take n) : Refuses s n name (.multipleValues s.name name)
  | unknown (hfixed : name ∉ s.fixed) (hdefaults : name ∉ s.defaults.map (·.1)) :
      Refuses s n name (.unexpectedKeyword s.name name)

/-- There is a parameter for each of `n` positional values. -/
def HasRoom (s : Signature) (n : ℕ) : Prop := s.variadic = none → n ≤ s.fixed.length

/-- How expanded arguments are rejected: for the first reason in the order of the constructors. -/
inductive Rejects (s : Signature) (values : List Value) (keywords : Bindings) : Fault → Prop
  /-- More positional values than fixed parameters, and no variadic one. -/
  | surplus (hroom : ¬ s.HasRoom values.length) :
      Rejects s values keywords (.tooManyPositional s.name s.fixed.length values.length)
  /-- The first keyword, in call order, that is refused. -/
  | keyword {before after : Bindings} {name : String} {value : Value} {e : Fault}
      (hroom : s.HasRoom values.length) (split : keywords = before ++ (name, value) :: after)
      (accepted : ∀ k ∈ before.map (·.1), ∀ e', ¬ s.Refuses values.length k e')
      (refused : s.Refuses values.length name e) : Rejects s values keywords e
  /-- The first fixed parameter, in declaration order, with neither a positional value nor a
  keyword. -/
  | missing {before after : List String} {name : String} (hroom : s.HasRoom values.length)
      (accepted : ∀ k ∈ keywords.map (·.1), ∀ e', ¬ s.Refuses values.length k e')
      (split : s.fixed.drop values.length = before ++ name :: after)
      (given : ∀ k ∈ before, k ∈ keywords.map (·.1)) (lacks : name ∉ keywords.map (·.1)) :
      Rejects s values keywords (.missingArgument s.name name)

variable {s : Signature} {n : ℕ} {name : String} {keywords : Bindings} {e : Fault}

theorem not_hasRoom_iff : ¬ s.HasRoom n ↔ s.variadic = none ∧ s.fixed.length < n := by
  rw [HasRoom, Classical.not_imp, Nat.not_le]

theorem not_refuses_iff : (∀ e, ¬ s.Refuses n name e) ↔
    name ∉ s.fixed.take n ∧ (name ∈ s.fixed ∨ name ∈ s.defaults.map (·.1)) := by
  constructor
  · intro h
    refine ⟨fun hname => h _ (.filled hname), ?_⟩
    by_contra hnot
    exact h _ (.unknown (fun hf => hnot (.inl hf)) fun hd => hnot (.inr hd))
  · rintro ⟨hfilled, hknown⟩ e (hname | ⟨hfixed, hdefaults⟩)
    · exact hfilled hname
    · exact hknown.elim hfixed hdefaults

theorem Refuses.unique {e' : Fault} (h : s.Refuses n name e) (h' : s.Refuses n name e') :
    e = e' := by
  cases h with
  | filled hname =>
      cases h' with
      | filled => rfl
      | unknown hfixed => exact absurd (List.mem_of_mem_take hname) hfixed
  | unknown hfixed =>
      cases h' with
      | filled hname => exact absurd (List.mem_of_mem_take hname) hfixed
      | unknown => rfl

theorem Refuses.checkKeywords_cons (h : s.Refuses n name e) (value : Value) (rest : Bindings) :
    s.checkKeywords (s.fixed.take n) ((name, value) :: rest) = .error e := by
  cases h with
  | filled hname => rw [checkKeywords, if_pos hname]
  | unknown hfixed hdefaults =>
      have hfilled : name ∉ s.fixed.take n := fun hname => hfixed (List.mem_of_mem_take hname)
      rw [checkKeywords, if_neg hfilled, if_neg fun h => h.elim hfixed hdefaults]

theorem checkKeywords_cons_of_not_refuses (h : ∀ e, ¬ s.Refuses n name e) (value : Value)
    (rest : Bindings) : s.checkKeywords (s.fixed.take n) ((name, value) :: rest) =
      s.checkKeywords (s.fixed.take n) rest := by
  obtain ⟨hfilled, hknown⟩ := not_refuses_iff.1 h
  rw [checkKeywords, if_neg hfilled, if_pos hknown]

/-- The check fails with the fault of the first keyword that is refused. -/
theorem checkKeywords_eq_error_iff : s.checkKeywords (s.fixed.take n) keywords = .error e ↔
    ∃ before name value after, keywords = before ++ (name, value) :: after ∧
      (∀ k ∈ before.map (·.1), ∀ e', ¬ s.Refuses n k e') ∧ s.Refuses n name e := by
  induction keywords with
  | nil => simp [checkKeywords]
  | cons keyword rest ih =>
      obtain ⟨first, value⟩ := keyword
      by_cases hfirst : ∃ e₀, s.Refuses n first e₀
      · obtain ⟨e₀, he₀⟩ := hfirst
        rw [he₀.checkKeywords_cons]
        constructor
        · rintro ⟨⟩
          exact ⟨[], first, value, rest, rfl, by simp, he₀⟩
        · rintro ⟨_ | ⟨k, before⟩, name, v, after, heq, haccepted, he⟩
          · cases heq
            rw [he₀.unique he]
          · cases heq
            exact absurd he₀ (haccepted first List.mem_cons_self e₀)
      · rw [not_exists] at hfirst
        rw [checkKeywords_cons_of_not_refuses hfirst, ih]
        constructor
        · rintro ⟨before, name, v, after, rfl, haccepted, he⟩
          exact ⟨(first, value) :: before, name, v, after, rfl,
            List.forall_mem_cons.2 ⟨hfirst, haccepted⟩, he⟩
        · rintro ⟨_ | ⟨k, before⟩, name, v, after, heq, haccepted, he⟩
          · cases heq
            exact absurd he (hfirst e)
          · cases heq
            exact ⟨before, name, v, after, rfl, (List.forall_mem_cons.1 haccepted).2, he⟩

theorem cons_eq_error_iff {binding : String × Value} {others : Except Fault Bindings} :
    (do return binding :: (← others)) = Except.error e ↔ others = .error e := by
  cases others with
  | error e' => exact Iff.rfl
  | ok rest => exact ⟨nofun, nofun⟩

/-- Filling fails for the first parameter past the positional values that has no keyword. -/
theorem fillFixed_eq_error_iff {names : List String} {values : List Value} :
    s.fillFixed keywords names values = .error e ↔
      ∃ before name after, names.drop values.length = before ++ name :: after ∧
        (∀ k ∈ before, k ∈ keywords.map (·.1)) ∧ name ∉ keywords.map (·.1) ∧
          e = .missingArgument s.name name := by
  suffices hfind : s.fillFixed keywords names values = .error e ↔
      ∃ name, (names.drop values.length).find? (fun k => decide (k ∉ keywords.map (·.1))) =
        some name ∧ e = .missingArgument s.name name by
    rw [hfind]
    simp only [List.find?_eq_some_iff_append, decide_eq_true_eq, decide_not, Bool.not_not]
    constructor
    · rintro ⟨name, ⟨hlacks, before, after, hsplit, hgiven⟩, rfl⟩
      exact ⟨before, name, after, hsplit, hgiven, by simpa using hlacks, rfl⟩
    · rintro ⟨before, name, after, hsplit, hgiven, hlacks, rfl⟩
      exact ⟨name, ⟨by simpa using hlacks, before, after, hsplit, hgiven⟩, rfl⟩
  induction names generalizing values with
  | nil => simp [fillFixed]
  | cons first rest ih =>
      cases values with
      | cons value values =>
          rw [fillFixed, cons_eq_error_iff, ih, List.length_cons, List.drop_succ_cons]
      | nil =>
          have hget := Bindings.isSome_get?_iff keywords first
          rw [fillFixed, List.length_nil, List.drop_zero, List.find?_cons]
          cases hfirst : keywords.get? first with
          | none =>
              have hlacks : first ∉ keywords.map (·.1) := by simpa [hfirst] using hget
              simp [hlacks, eq_comm]
          | some value =>
              have hgiven : first ∈ keywords.map (·.1) := hget.1 (by rw [hfirst]; rfl)
              have hrest := @ih []
              rw [List.length_nil, List.drop_zero] at hrest
              simp only [cons_eq_error_iff, hrest, hgiven, not_true_eq_false, decide_false]

theorem checkKeywords_eq_ok_iff_not_refuses :
    s.checkKeywords (s.fixed.take n) keywords = .ok () ↔
      ∀ k ∈ keywords.map (·.1), ∀ e, ¬ s.Refuses n k e := by
  simp only [checkKeywords_eq_ok_iff, not_refuses_iff]

/-- Expanded arguments are rejected for these reasons and for no other. -/
theorem distribute_eq_error_iff {values : List Value} :
    s.distribute ⟨values, keywords⟩ = .error e ↔ s.Rejects values keywords e := by
  have hcode : (s.variadic.isNone ∧ values.drop s.fixed.length ≠ []) ↔
      ¬ s.HasRoom values.length := by
    rw [not_hasRoom_iff, Option.isNone_iff_eq_none, Ne, List.drop_eq_nil_iff, Nat.not_le]
  constructor
  · intro h
    unfold distribute at h
    by_cases hroom : s.HasRoom values.length
    · rw [if_neg (mt hcode.1 (not_not_intro hroom))] at h
      cases hcheck : s.checkKeywords (s.fixed.take values.length) keywords with
      | error e' =>
          rw [hcheck] at h
          cases h
          obtain ⟨_, _, _, _, split, accepted, refused⟩ := checkKeywords_eq_error_iff.1 hcheck
          exact .keyword hroom split accepted refused
      | ok =>
          rw [hcheck] at h
          have accepted := checkKeywords_eq_ok_iff_not_refuses.1 hcheck
          cases hfill : s.fillFixed keywords s.fixed values with
          | ok fixed =>
              rw [hfill] at h
              cases h
          | error e' =>
              rw [hfill] at h
              cases h
              obtain ⟨_, _, _, split, given, lacks, rfl⟩ := fillFixed_eq_error_iff.1 hfill
              exact .missing hroom accepted split given lacks
    · rw [if_pos (hcode.2 hroom)] at h
      cases h
      exact .surplus hroom
  · intro h
    unfold distribute
    cases h with
    | surplus hroom =>
        rw [if_pos (hcode.2 hroom)]
        rfl
    | keyword hroom split accepted refused =>
        have hcheck := checkKeywords_eq_error_iff.2 ⟨_, _, _, _, split, accepted, refused⟩
        rw [if_neg (mt hcode.1 (not_not_intro hroom)), hcheck]
        rfl
    | missing hroom accepted split given lacks =>
        have hcheck := checkKeywords_eq_ok_iff_not_refuses.2 accepted
        have hfill := (fillFixed_eq_error_iff (s := s)).2 ⟨_, _, _, split, given, lacks, rfl⟩
        rw [if_neg (mt hcode.1 (not_not_intro hroom)), hcheck, hfill]
        rfl

/-- How a call fails, and the store it leaves: for the first reason in the order of the walk over
its arguments and of the rejection of what they supply. -/
inductive FirstFault (s : Signature) (st : Store) (arguments : List (Argument Value)) :
    Fault → Store → Prop
  /-- The first argument that fails, after those before it were expanded. -/
  | argument {before after : List (Argument Value)} {arg : Argument Value} {values : List Value}
      {e : Fault} {st' : Store} (split : arguments = before ++ arg :: after)
      (passed : NoneFails s.name st before)
      (expanded : (expansion before).run st = some (.ok values, st'))
      (fails : arg.Fails s.name st ((keywordsOf before).map (·.1)) e) :
      FirstFault s st arguments e st'
  /-- No argument fails, but what they supply is rejected. -/
  | rejected {values : List Value} {e : Fault} {st' : Store}
      (passed : NoneFails s.name st arguments)
      (expanded : (expansion arguments).run st = some (.ok values, st'))
      (rejects : s.Rejects values (keywordsOf arguments) e) : FirstFault s st arguments e st'

variable {arguments : List (Argument Value)} {st st' : Store}

/-- Binding goes through the walk and then through the distribution of what it supplied. -/
theorem run_bind_iff {r : Except Fault Environment} :
    (s.bind arguments).run st = some (r, st') ↔
      ∃ supplied, ExpandsTo s.name st arguments supplied st' ∧
        r = supplied.bind s.distribute := by
  rw [bind, Run.bind_eq_some_iff]
  simp only [run_expand_iff, Run.run_lift, Option.some.injEq, Prod.mk.injEq]
  constructor
  · rintro (⟨supplied, _, hwalk, rfl, rfl⟩ | ⟨e, hwalk, rfl⟩)
    · exact ⟨.ok supplied, hwalk, rfl⟩
    · exact ⟨.error e, hwalk, rfl⟩
  · rintro ⟨e | supplied, hwalk, rfl⟩
    · exact .inr ⟨e, hwalk, rfl⟩
    · exact .inl ⟨supplied, st', hwalk, rfl, rfl⟩

theorem run_bind_eq_error_iff :
    (s.bind arguments).run st = some (.error e, st') ↔ s.FirstFault st arguments e st' := by
  rw [run_bind_iff]
  constructor
  · rintro ⟨supplied, hwalk, heq⟩
    cases hwalk with
    | whole passed expanded =>
        exact .rejected passed expanded (distribute_eq_error_iff.1 heq.symm)
    | failed split passed expanded fails =>
        cases heq
        exact .argument split passed expanded fails
  · intro h
    cases h with
    | argument split passed expanded fails =>
        exact ⟨_, .failed split passed expanded fails, rfl⟩
    | rejected passed expanded rejects =>
        exact ⟨_, .whole passed expanded, (distribute_eq_error_iff.2 rejects).symm⟩

/-- A keyword never reaches the variadic parameter, not even under its name. -/
theorem refuses_variadic_iff (hs : s.names.Nodup) {rest : String} (hrest : s.variadic = some rest) :
    s.Refuses n rest e ↔ e = .unexpectedKeyword s.name rest := by
  rw [names, hrest, Option.toList_some, List.append_assoc, List.singleton_append,
    List.nodup_middle, List.nodup_cons, List.mem_append, not_or] at hs
  obtain ⟨⟨hfixed, hdefaults⟩, -⟩ := hs
  have hunknown : s.Refuses n rest (.unexpectedKeyword s.name rest) := .unknown hfixed hdefaults
  constructor
  · exact fun hrefused => hrefused.unique hunknown
  · rintro rfl
    exact hunknown

end Signature

/-- Binding to a declared signature fails exactly with the first fault of a fixed order, and with
its exact contents, however many rules the call breaks. The first argument comes first, in call
order, that is a spread without elements, a spread of a sequence whose step is in progress, or a
keyword that an earlier argument gave, whether or not it is declared. Then come, for what all
arguments supply, the lack of room for the positional values, the first keyword in call order that
is refused, and the first fixed parameter in declaration order that nothing fills. A keyword that
names the variadic parameter is refused as one that is not declared. -/
theorem bind_fails_with_first {name : String} {declarations : List (Declaration Value)}
    {s : Signature} (hs : Signature.declare name declarations = .ok s)
    (arguments : List (Argument Value)) (st : Store) :
    (∀ e st', (s.bind arguments).run st = some (.error e, st') ↔
      s.FirstFault st arguments e st') ∧
    ∀ rest, s.variadic = some rest → ∀ n e,
      s.Refuses n rest e ↔ e = .unexpectedKeyword s.name rest := by
  refine ⟨fun e st' => Signature.run_bind_eq_error_iff, ?_⟩
  intro rest hrest n e
  exact Signature.refuses_variadic_iff (Signature.nodup_of_declare hs) hrest

/-- A keyword that is repeated before a spread without elements; and, in a call that also names a
filled parameter and leaves another one open, a keyword for the variadic parameter. -/
theorem bind_fails_with_first_of_many :
    let s : Signature := ⟨"f", ["a", "b"], some "rest", [("c", .int 16)]⟩
    Signature.declare "f" [.fixed "a", .fixed "b", .variadic "rest", .keyword "c" (.int 16)] =
      .ok s ∧
    (s.bind [.keyword "z" .nothing, .positional (.int 1), .keyword "z" .nothing,
      .spread (.int 2)]).run .empty = some (.error (.multipleValues "f" "z"), .empty) ∧
    (s.bind [.positional (.int 1), .keyword "rest" .nothing, .keyword "a" .nothing]).run .empty =
      some (.error (.unexpectedKeyword "f" "rest"), .empty) := by
  intro s
  have hs : Signature.declare "f"
      [.fixed "a", .fixed "b", .variadic "rest", .keyword "c" (.int 16)] = .ok s := by rfl
  refine ⟨hs, ?_, ?_⟩
  · let before : List (Argument Value) := [.keyword "z" .nothing, .positional (.int 1)]
    let after : List (Argument Value) := [.spread (.int 2)]
    have passed : NoneFails "f" .empty before := noneFails_iff.2 ⟨by simp [before], by decide⟩
    have hfirst := (bind_fails_with_first hs (before ++ .keyword "z" .nothing :: after) .empty).1
    exact (hfirst _ _).2 (.argument rfl passed rfl (.repeated List.mem_cons_self))
  · obtain ⟨hfirst, hvariadic⟩ := bind_fails_with_first hs
      [.positional (.int 1), .keyword "rest" .nothing, .keyword "a" .nothing] .empty
    have refused : s.Refuses 1 "rest" (.unexpectedKeyword "f" "rest") :=
      (hvariadic "rest" rfl 1 _).2 rfl
    have rejects : s.Rejects [.int 1] [("rest", .nothing), ("a", .nothing)]
        (.unexpectedKeyword "f" "rest") :=
      .keyword nofun (List.nil_append _).symm nofun refused
    apply (hfirst _ _).2
    exact .rejected (noneFails_iff.2 ⟨by simp, by decide⟩) rfl rejects

end Conformance
