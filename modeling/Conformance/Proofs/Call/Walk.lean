import Mathlib.Data.List.Induction
import Conformance.Proofs.Call.Expansion

/-!
# The walk over the arguments of a call

Expansion walks over the arguments of a call from left to right and ends at the first one that
fails: a spread without elements, a spread of a sequence whose step is in progress, or a keyword
that stood before. What failed is said of the store before the call, since the walk itself neither
begins nor ends a step that is in progress.
-/

namespace Conformance

variable {function : String} {arguments : List (Argument Value)} {st st' : Store}

/-- How an argument fails when it comes after keywords of some names. -/
inductive Argument.Fails (function : String) (st : Store) (earlier : List String) :
    Argument Value → Fault → Prop
  | notIterable {v : Value} (hv : v.type ∈ [.nothing, .bool, .int]) :
      Fails function st earlier (.spread v) (.notIterable v.type)
  | running {h : Handle} (hs : st.state h = .running) :
      Fails function st earlier (.spread (.lazy h)) .generatorRunning
  | repeated {name : String} {value : Value} (hname : name ∈ earlier) :
      Fails function st earlier (.keyword name value) (.multipleValues function name)

/-- No argument fails after the keywords before it. -/
def NoneFails (function : String) (st : Store) (arguments : List (Argument Value)) : Prop :=
  ∀ earlier arg later e, arguments = earlier ++ arg :: later →
    ¬ arg.Fails function st ((keywordsOf earlier).map (·.1)) e

namespace Argument

theorem spread_not_fails_iff {v : Value} {earlier : List String} :
    (∀ e, ¬ (spread v).Fails function st earlier e) ↔ v.IsIterable st := by
  constructor
  · intro h
    cases v with
    | lazy k => exact fun hs => h _ (.running hs)
    | str | list | tuple => trivial
    | nothing | bool | int => exact h _ (.notIterable (by simp [Value.type]))
  · intro h e hfails
    cases hfails with
    | notIterable hv => cases v <;> simp_all [Value.type, Value.IsIterable]
    | running hs => exact h hs

theorem not_fails_iff {arg : Argument Value} {earlier : List String} :
    (∀ e, ¬ arg.Fails function st earlier e) ↔
      (∀ v, arg = .spread v → v.IsIterable st) ∧
        ∀ keyword ∈ arg.keyword?.toList, keyword.1 ∉ earlier := by
  cases arg with
  | positional v =>
      constructor
      · intro
        exact ⟨by simp, by simp [keyword?]⟩
      · intro _ e hfails
        cases hfails
  | spread v =>
      rw [spread_not_fails_iff]
      simp [keyword?]
  | keyword name v =>
      constructor
      · intro h
        refine ⟨by simp, ?_⟩
        simp only [keyword?, Option.toList_some, List.forall_mem_singleton]
        exact fun hname => h _ (.repeated hname)
      · rintro ⟨-, h⟩ e (_ | _ | hname)
        exact h (name, v) (by simp [keyword?]) hname

/-- A spread that has elements does not fail, so an argument that fails repeats a keyword. -/
theorem Fails.repeats_of_isIterable {arg : Argument Value} {earlier : List String} {e : Fault}
    (h : arg.Fails function st earlier e) (hspread : ∀ v, arg = .spread v → v.IsIterable st) :
    ∃ name ∈ earlier, e = .multipleValues function name := by
  cases arg with
  | positional => cases h
  | spread v => exact absurd h (spread_not_fails_iff.2 (hspread v rfl) e)
  | keyword name =>
      cases h with
      | repeated hname => exact ⟨name, hname, rfl⟩

/-- The fault does not depend on what the walk did before. -/
theorem Fails.evolves {arg : Argument Value} {earlier : List String} {e : Fault}
    (h : arg.Fails function st earlier e) (hframe : st.Evolves st') :
    arg.Fails function st' earlier e := by
  cases h with
  | notIterable hv => exact .notIterable hv
  | running hs => exact .running ((hframe.running_iff _).2 hs)
  | repeated hname => exact .repeated hname

/-- An argument that fails ends the walk, and changes nothing. -/
theorem Fails.run_expand {arg : Argument Value} {e : Fault} {supplied : Supplied}
    (h : arg.Fails function st (supplied.keywords.map (·.1)) e) (rest : List (Argument Value)) :
    (expand function (arg :: rest) supplied).run st = some (.error e, st) := by
  cases h with
  | @notIterable v hv =>
      have hrun : v.materialize.run st = some (.error (.notIterable v.type), st) := by
        cases v <;> first | rfl | simp [Value.type] at hv
      exact Run.run_bind_of_error hrun _
  | @running k hs =>
      have hrun : (Value.lazy k).materialize.run st = some (.error .generatorRunning, st) :=
        Store.drain_of_error (Store.pull_running hs) []
      exact Run.run_bind_of_error hrun _
  | repeated hname =>
      rw [expand, if_pos (by simpa using hname)]
      rfl

end Argument

theorem keywordsOf_append (left right : List (Argument Value)) :
    keywordsOf (left ++ right) = keywordsOf left ++ keywordsOf right :=
  List.filterMap_append ..

theorem expand_append (function : String) (left right : List (Argument Value))
    (supplied : Supplied) :
    expand function (left ++ right) supplied =
      expand function left supplied >>= expand function right := by
  induction left generalizing supplied with
  | nil => simp [expand]
  | cons arg rest ih =>
      rw [List.cons_append]
      cases arg with
      | positional v => simp only [expand, ih]
      | spread v => simp only [expand, ih, bind_assoc]
      | keyword name v =>
          rw [expand, expand]
          split
          · rfl
          · exact ih _

theorem evolves_expansion {r : Except Fault (List Value)}
    (hrun : (expansion arguments).run st = some (r, st')) : st.Evolves st' := by
  induction arguments generalizing st r with
  | nil =>
      rw [expansion_nil] at hrun
      cases hrun
      exact .refl _
  | cons arg rest ih =>
      rw [expansion_cons, Run.bind_eq_some_iff] at hrun
      obtain ⟨own, st₁, hown, hrest⟩ | ⟨e, hown, -⟩ := hrun
      · obtain ⟨r₀, hothers, -⟩ := Run.map_eq_some_iff.1 hrest
        exact (Argument.elements_ok_iff hown).1.trans (ih hothers)
      · exact (Argument.elements_ok_iff hown).1

/-! ## Where the walk ends -/

theorem noneFails_nil : NoneFails function st [] := by
  intro earlier arg later e hsplit
  simp at hsplit

theorem noneFails_concat_iff {arg : Argument Value} :
    NoneFails function st (arguments ++ [arg]) ↔ NoneFails function st arguments ∧
      ∀ e, ¬ arg.Fails function st ((keywordsOf arguments).map (·.1)) e := by
  constructor
  · intro h
    refine ⟨?_, fun e => h arguments arg [] e rfl⟩
    rintro earlier prior later e rfl
    exact h earlier prior (later ++ [arg]) e (by simp)
  · rintro ⟨hbefore, hlast⟩ earlier prior later e hsplit
    obtain rfl | ⟨middle, last, rfl⟩ := List.eq_nil_or_concat later
    · obtain ⟨rfl, heq⟩ := List.append_inj' hsplit rfl
      cases heq
      exact hlast e
    · have hsplit : arguments ++ [arg] = (earlier ++ prior :: middle) ++ [last] := by
        simpa using hsplit
      obtain ⟨rfl, -⟩ := List.append_inj' hsplit rfl
      exact hbefore earlier prior middle e rfl

/-- No argument fails if every spread has elements and no keyword is repeated. -/
theorem noneFails_iff : NoneFails function st arguments ↔
    (∀ v, .spread v ∈ arguments → v.IsIterable st) ∧
      ((keywordsOf arguments).map (·.1)).Nodup := by
  induction arguments using List.reverseRecOn with
  | nil => simp [noneFails_nil, keywordsOf]
  | append_singleton before arg ih =>
      have hspreads : (∀ v, .spread v ∈ before ++ [arg] → v.IsIterable st) ↔
          (∀ v, .spread v ∈ before → v.IsIterable st) ∧
            ∀ v, arg = .spread v → v.IsIterable st := by
        simp only [List.mem_append, List.mem_singleton, or_imp, forall_and, eq_comm]
      have hkeywords : ((keywordsOf (before ++ [arg])).map (·.1)).Nodup ↔
          ((keywordsOf before).map (·.1)).Nodup ∧
            ∀ keyword ∈ arg.keyword?.toList, keyword.1 ∉ (keywordsOf before).map (·.1) := by
        rw [keywordsOf_append, keywordsOf_cons, List.map_append, List.nodup_append_comm]
        cases arg.keyword? with
        | none => simp [keywordsOf]
        | some keyword => simp [keywordsOf, and_comm]
      rw [noneFails_concat_iff, ih, Argument.not_fails_iff, hspreads, hkeywords]
      tauto

theorem noneFails_or_fails (function : String) (st : Store) (arguments : List (Argument Value)) :
    NoneFails function st arguments ∨ ∃ before arg after e, arguments = before ++ arg :: after ∧
      NoneFails function st before ∧
        arg.Fails function st ((keywordsOf before).map (·.1)) e := by
  induction arguments using List.reverseRecOn with
  | nil => exact .inl noneFails_nil
  | append_singleton before arg ih =>
      obtain hbefore | ⟨front, failing, after, e, rfl, hfront, hfails⟩ := ih
      · by_cases hlast : ∃ e, arg.Fails function st ((keywordsOf before).map (·.1)) e
        · obtain ⟨e, hfails⟩ := hlast
          exact .inr ⟨before, arg, [], e, rfl, hbefore, hfails⟩
        · exact .inl (noneFails_concat_iff.2 ⟨hbefore, not_exists.1 hlast⟩)
      · exact .inr ⟨front, failing, after ++ [arg], e, by simp, hfront, hfails⟩

/-- How the walk over some arguments ends: with all that they supply, or with the fault of the
first one that fails, after those before it were expanded. -/
inductive ExpandsTo (function : String) (st : Store) (arguments : List (Argument Value)) :
    Except Fault Supplied → Store → Prop
  | whole {values : List Value} {st' : Store} (passed : NoneFails function st arguments)
      (expanded : (expansion arguments).run st = some (.ok values, st')) :
      ExpandsTo function st arguments (.ok ⟨values, keywordsOf arguments⟩) st'
  | failed {before : List (Argument Value)} {arg : Argument Value}
      {after : List (Argument Value)} {e : Fault} {values : List Value} {st' : Store}
      (split : arguments = before ++ arg :: after) (passed : NoneFails function st before)
      (expanded : (expansion before).run st = some (.ok values, st'))
      (fails : arg.Fails function st ((keywordsOf before).map (·.1)) e) :
      ExpandsTo function st arguments (.error e) st'

theorem run_expand_of_noneFails (h : NoneFails function st arguments) {r : Except Fault Supplied} :
    (expand function arguments ⟨[], []⟩).run st = some (r, st') ↔
      ∃ values, r = .ok ⟨values, keywordsOf arguments⟩ ∧
        (expansion arguments).run st = some (.ok values, st') := by
  obtain ⟨hspreads, hkeywords⟩ := noneFails_iff.1 h
  rw [expand_of_fresh function hkeywords fun _ _ => List.not_mem_nil, Run.map_eq_some_iff]
  constructor
  · rintro ⟨r₀, hvalues, rfl⟩
    obtain ⟨values, rfl⟩ := (expansion_ok_iff hvalues).2 hspreads
    exact ⟨values, rfl, hvalues⟩
  · rintro ⟨values, rfl, hvalues⟩
    exact ⟨_, hvalues, rfl⟩

/-- The walk ends in these ways and in no other. -/
theorem run_expand_iff {r : Except Fault Supplied} :
    (expand function arguments ⟨[], []⟩).run st = some (r, st') ↔
      ExpandsTo function st arguments r st' := by
  constructor
  · intro hrun
    obtain hall | ⟨before, arg, after, e, rfl, hbefore, hfails⟩ :=
      noneFails_or_fails function st arguments
    · obtain ⟨values, rfl, hvalues⟩ := (run_expand_of_noneFails hall).1 hrun
      exact .whole hall hvalues
    · rw [expand_append, Run.bind_eq_some_iff] at hrun
      obtain ⟨supplied, st₁, hfirst, hrest⟩ | ⟨e', hfirst, -⟩ := hrun
      · obtain ⟨values, heq, hvalues⟩ := (run_expand_of_noneFails hbefore).1 hfirst
        cases heq
        have hfails₁ := hfails.evolves (evolves_expansion hvalues)
        cases (hfails₁.run_expand after).symm.trans hrest
        exact .failed rfl hbefore hvalues hfails
      · obtain ⟨values, heq, -⟩ := (run_expand_of_noneFails hbefore).1 hfirst
        cases heq
  · intro h
    cases h with
    | whole passed expanded => exact (run_expand_of_noneFails passed).2 ⟨_, rfl, expanded⟩
    | failed split passed expanded fails =>
        have hfirst := (run_expand_of_noneFails passed).2 ⟨_, rfl, expanded⟩
        rw [split, expand_append, Run.run_bind_of_ok hfirst]
        exact (fails.evolves (evolves_expansion expanded)).run_expand _

end Conformance
