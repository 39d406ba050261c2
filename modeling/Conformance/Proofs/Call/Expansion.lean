import Mathlib.Data.List.Nodup
import Conformance.Call.Binding
import Conformance.Proofs.Sequence.Series

/-!
# Positional values and keywords of a call

The positional values of a call are those of all positional arguments and spreads together, in
call order; the keywords are counted apart. Expansion collects both, unless a keyword is repeated
or a spread has no elements to give.
-/

namespace Conformance

/-- The positional values that one argument contributes. -/
def Argument.elements : Argument Value → Run (List Value)
  | positional value => pure [value]
  | spread value => value.materialize
  | keyword .. => pure []

/-- The positional values of all arguments, in call order. -/
def expansion (arguments : List (Argument Value)) : Run (List Value) :=
  List.flatten <$> arguments.mapM Argument.elements

/-- The keyword of an argument, with its value. -/
def Argument.keyword? : Argument Value → Option (String × Value)
  | keyword name value => some (name, value)
  | positional _ | spread _ => none

/-- The keywords of all arguments, in call order. -/
def keywordsOf (arguments : List (Argument Value)) : Bindings :=
  arguments.filterMap Argument.keyword?

/-- The value has elements, and no step of its sequence is in progress. -/
def Value.IsIterable (st : Store) : Value → Prop
  | str _ | list _ | tuple _ => True
  | lazy h => st.state h ≠ .running
  | _ => False

variable {st st' : Store}

@[simp] theorem expansion_nil : expansion [] = pure [] := by
  simp [expansion]

theorem expansion_cons (arg : Argument Value) (rest : List (Argument Value)) :
    expansion (arg :: rest) =
      arg.elements >>= fun values => (values ++ ·) <$> expansion rest := by
  simp [expansion, List.mapM_cons]

/-- The elements of a value are given, unless it has none or its step is in progress. -/
theorem Value.materialize_ok_iff {v : Value} {r : Except Fault (List Value)}
    (hrun : v.materialize.run st = some (r, st')) :
    st.Evolves st' ∧ ((∃ values, r = .ok values) ↔ v.IsIterable st) := by
  cases v with
  | lazy h =>
      have hdrain : st.drain h [] = some (r, st') := hrun
      refine ⟨Store.evolves_outcome.2.1 _ _ _ _ _ hdrain, ?_⟩
      by_cases hs : st.state h = .running
      · rw [Store.drain_of_error (Store.pull_running hs)] at hdrain
        cases hdrain
        simp [IsIterable, hs]
      · obtain ⟨values, rfl, -⟩ := (Store.drain_eq_some_iff hs [] r).1 hdrain
        simp [IsIterable, hs]
  | _ =>
      cases hrun
      exact ⟨.refl st, by simp [IsIterable]⟩

theorem expansion_cons_ok_iff {arg : Argument Value} {rest : List (Argument Value)}
    {values : List Value} : (expansion (arg :: rest)).run st = some (.ok values, st') ↔
      ∃ own st₁ others, arg.elements.run st = some (.ok own, st₁) ∧
        (expansion rest).run st₁ = some (.ok others, st') ∧ values = own ++ others := by
  rw [expansion_cons, Run.bind_eq_ok_iff]
  simp only [Run.map_eq_ok_iff, eq_comm (b := values)]
  grind

theorem keywordsOf_cons (arg : Argument Value) (rest : List (Argument Value)) :
    keywordsOf (arg :: rest) = arg.keyword?.toList ++ keywordsOf rest := by
  rw [keywordsOf, List.filterMap_cons]
  cases arg.keyword? <;> rfl

/-- An argument is a keyword that was supplied before. -/
def Supplied.Repeats (supplied : Supplied) (arg : Argument Value) : Prop :=
  ∃ keyword ∈ arg.keyword?.toList, keyword.1 ∈ supplied.keywords.map (·.1)

theorem Supplied.nodup_append_iff (supplied : Supplied)
    (h : (supplied.keywords.map (·.1)).Nodup) (arg : Argument Value) :
    ((supplied.keywords ++ arg.keyword?.toList).map (·.1)).Nodup ↔ ¬ supplied.Repeats arg := by
  unfold Supplied.Repeats
  cases arg.keyword? with
  | none => simpa using h
  | some keyword =>
      have hmem : (∃ k ∈ (some keyword).toList, k.1 ∈ supplied.keywords.map (·.1)) ↔
          keyword.1 ∈ supplied.keywords.map (·.1) := by
        simp
      rw [hmem, List.map_append, List.nodup_append_comm]
      exact List.nodup_cons.trans (and_iff_left h)

theorem expand_of_repeats (function : String) (rest : List (Argument Value)) {supplied : Supplied}
    {arg : Argument Value} (h : supplied.Repeats arg) :
    ∃ name, expand function (arg :: rest) supplied = throw (.multipleValues function name) := by
  obtain ⟨keyword, hkeyword, hname⟩ := h
  cases arg with
  | positional | spread => simp [Argument.keyword?] at hkeyword
  | keyword name value =>
      obtain rfl : keyword = (name, value) := by simpa [Argument.keyword?] using hkeyword
      refine ⟨name, ?_⟩
      rw [expand, if_pos (by simpa using hname)]

theorem expand_of_not_repeats (function : String) (rest : List (Argument Value))
    {supplied : Supplied} {arg : Argument Value} (h : ¬ supplied.Repeats arg) :
    expand function (arg :: rest) supplied = arg.elements >>= fun own =>
      expand function rest
        ⟨supplied.positionals ++ own, supplied.keywords ++ arg.keyword?.toList⟩ := by
  cases arg with
  | positional value => simp [expand, Argument.elements, Argument.keyword?]
  | spread value => simp [expand, Argument.elements, Argument.keyword?]
  | keyword name value =>
      rw [expand, if_neg]
      · simp [Argument.elements, Argument.keyword?]
      · simpa [Supplied.Repeats, Argument.keyword?] using h

/-- Where no keyword is repeated, expansion does nothing but collect the positional values. -/
theorem expand_of_fresh (function : String) {arguments : List (Argument Value)}
    {supplied : Supplied} (hnodup : ((keywordsOf arguments).map (·.1)).Nodup)
    (hfresh : ∀ keyword ∈ keywordsOf arguments, keyword.1 ∉ supplied.keywords.map (·.1)) :
    expand function arguments supplied =
      (fun values => ⟨supplied.positionals ++ values, supplied.keywords ++ keywordsOf arguments⟩)
        <$> expansion arguments := by
  induction arguments generalizing supplied with
  | nil => simp [expand, keywordsOf]
  | cons arg rest ih =>
      rw [keywordsOf_cons, List.map_append, List.nodup_append] at hnodup
      rw [keywordsOf_cons, List.forall_mem_append] at hfresh
      have hnew : ¬ supplied.Repeats arg := fun ⟨keyword, hkeyword, hname⟩ =>
        hfresh.1 keyword hkeyword hname
      have hlater : ∀ keyword ∈ keywordsOf rest,
          keyword.1 ∉ (supplied.keywords ++ arg.keyword?.toList).map (·.1) := by
        intro keyword hkeyword hname
        rw [List.map_append, List.mem_append] at hname
        obtain hseen | hown := hname
        · exact hfresh.2 keyword hkeyword hseen
        · exact hnodup.2.2 _ hown _ (List.mem_map_of_mem hkeyword) rfl
      rw [expand_of_not_repeats function rest hnew, expansion_cons, map_bind]
      apply bind_congr
      intro own
      rw [ih hnodup.2.1 hlater, Functor.map_map, keywordsOf_cons]
      simp only [List.append_assoc]

/-- Expansion collects the positional values and the keywords, if no keyword is repeated. -/
theorem expand_ok_iff {function : String} {arguments : List (Argument Value)}
    (supplied : Supplied) {result : Supplied} (hsupplied : (supplied.keywords.map (·.1)).Nodup) :
    (expand function arguments supplied).run st = some (.ok result, st') ↔
      ((supplied.keywords ++ keywordsOf arguments).map (·.1)).Nodup ∧
      ∃ values, (expansion arguments).run st = some (.ok values, st') ∧
        result = ⟨supplied.positionals ++ values, supplied.keywords ++ keywordsOf arguments⟩ := by
  induction arguments generalizing st supplied with
  | nil =>
      constructor
      · intro h
        cases h
        refine ⟨by simpa [keywordsOf] using hsupplied, [], ?_, by simp [keywordsOf]⟩
        rw [expansion_nil]
        rfl
      · rintro ⟨-, values, hvalues, rfl⟩
        rw [expansion_nil] at hvalues
        cases hvalues
        simp only [keywordsOf, List.filterMap_nil, List.append_nil]
        rfl
  | cons arg rest ih =>
      simp only [keywordsOf_cons, ← List.append_assoc]
      by_cases h : supplied.Repeats arg
      · obtain ⟨name, hthrow⟩ := expand_of_repeats function rest h
        rw [hthrow]
        constructor
        · intro hrun
          cases hrun
        · rintro ⟨hnodup, -⟩
          rw [List.map_append] at hnodup
          exact absurd h ((supplied.nodup_append_iff hsupplied arg).1 hnodup.of_append_left)
      · have hnodup := (supplied.nodup_append_iff hsupplied arg).2 h
        rw [expand_of_not_repeats function rest h, Run.bind_eq_ok_iff]
        constructor
        · rintro ⟨own, st₁, hown, hrest⟩
          obtain ⟨hall, others, hothers, rfl⟩ := (ih _ hnodup).1 hrest
          have hvalues := expansion_cons_ok_iff.2 ⟨own, st₁, others, hown, hothers, rfl⟩
          exact ⟨hall, own ++ others, hvalues, by rw [List.append_assoc]⟩
        · rintro ⟨hall, values, hvalues, rfl⟩
          obtain ⟨own, st₁, others, hown, hothers, rfl⟩ := expansion_cons_ok_iff.1 hvalues
          exact ⟨own, st₁, hown, (ih _ hnodup).2 ⟨hall, others, hothers, by simp⟩⟩

/-- Expansion comes to an end if the elements of all arguments do. -/
theorem expand_ends (function : String) {arguments : List (Argument Value)}
    (supplied : Supplied) (hends : ∃ o, (expansion arguments).run st = some o) :
    ∃ o, (expand function arguments supplied).run st = some o := by
  induction arguments generalizing st supplied with
  | nil => exact ⟨_, rfl⟩
  | cons arg rest ih =>
      by_cases h : supplied.Repeats arg
      · obtain ⟨name, hthrow⟩ := expand_of_repeats function rest h
        rw [hthrow]
        exact ⟨_, rfl⟩
      · obtain ⟨⟨r, st'⟩, hrun⟩ := hends
        rw [expansion_cons, Run.bind_eq_some_iff] at hrun
        rw [expand_of_not_repeats function rest h]
        obtain ⟨own, st₁, hown, hrest⟩ | ⟨e, hown, -⟩ := hrun
        · obtain ⟨r₀, hothers, -⟩ := Run.map_eq_some_iff.1 hrest
          obtain ⟨o', ho'⟩ := ih _ ⟨_, hothers⟩
          exact ⟨o', (Run.run_bind_of_ok hown _).trans ho'⟩
        · exact ⟨(.error e, st'), Run.bind_eq_some_iff.2 (.inr ⟨e, hown, rfl⟩)⟩

theorem Value.isIterable_iff_of_evolves (h : st.Evolves st') (v : Value) :
    v.IsIterable st' ↔ v.IsIterable st := by
  cases v <;> simp [IsIterable, h.running_iff]

theorem Argument.elements_ok_iff {arg : Argument Value} {r : Except Fault (List Value)}
    (hrun : arg.elements.run st = some (r, st')) :
    st.Evolves st' ∧ ((∃ values, r = .ok values) ↔ ∀ v, arg = .spread v → v.IsIterable st) := by
  cases arg with
  | spread value => simpa using Value.materialize_ok_iff hrun
  | positional | keyword =>
      cases hrun
      exact ⟨.refl st, by simp⟩

/-- There are positional values if each spread has elements and is not in progress. -/
theorem expansion_ok_iff {arguments : List (Argument Value)} {r : Except Fault (List Value)}
    (hrun : (expansion arguments).run st = some (r, st')) :
    (∃ values, r = .ok values) ↔ ∀ v, .spread v ∈ arguments → v.IsIterable st := by
  induction arguments generalizing st r with
  | nil =>
      rw [expansion_nil] at hrun
      cases hrun
      simp
  | cons arg rest ih =>
      rw [expansion_cons, Run.bind_eq_some_iff] at hrun
      obtain ⟨own, st₁, hown, hrest⟩ | ⟨e, hown, rfl⟩ := hrun
      · obtain ⟨hframe, hfirst⟩ := Argument.elements_ok_iff hown
        obtain ⟨others, hothers, rfl⟩ := Run.map_eq_some_iff.1 hrest
        have hmap : (∃ values, Except.map (own ++ ·) others = .ok values) ↔
            ∃ values, others = .ok values := by
          cases others <;> simp [Except.map]
        have hlater := ih hothers
        simp only [Value.isIterable_iff_of_evolves hframe] at hlater
        rw [hmap, hlater]
        have hown := hfirst.1 ⟨own, rfl⟩
        grind
      · have hfirst := (Argument.elements_ok_iff hown).2
        grind

end Conformance
