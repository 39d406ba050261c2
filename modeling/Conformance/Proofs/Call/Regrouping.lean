import Conformance.Proofs.Call.Expansion
import Conformance.Proofs.Sequence.Contents

/-!
# Regrouping arguments

What binding gives depends on two things only: the positional values of the call, all arguments
together, and its keywords in their order. It does not matter which values are written out and
which come from spreads, what the spreads spread, and where the keywords stand between them.
-/

namespace Conformance

/-- Whether an entry counts as repeated shows in which names were seen, not in their order. -/
theorem firstRepeat?_congr {seen seen' : List String} (h : ∀ name, name ∈ seen ↔ name ∈ seen')
    (names : List String) : firstRepeat? seen names = firstRepeat? seen' names := by
  induction names generalizing seen seen' with
  | nil => rfl
  | cons name rest ih =>
      have hcons : ∀ other, other ∈ name :: seen ↔ other ∈ name :: seen' := by
        simp [h]
      simp only [firstRepeat?, h name, ih hcons]

/-- What expansion makes of positional values and keywords: the first repeated keyword is
refused. -/
def Supplied.extend (supplied : Supplied) (function : String) (values : List Value)
    (keywords : Bindings) : Except Fault Supplied :=
  match firstRepeat? (supplied.keywords.map (·.1)) (keywords.map (·.1)) with
  | some name => .error (.multipleValues function name)
  | none => .ok ⟨supplied.positionals ++ values, supplied.keywords ++ keywords⟩

namespace Supplied

variable {function : String}

@[simp] theorem extend_nil (supplied : Supplied) (values : List Value) :
    supplied.extend function values [] =
      .ok ⟨supplied.positionals ++ values, supplied.keywords⟩ := by
  simp [extend, firstRepeat?]

theorem extend_append (supplied : Supplied) (own others : List Value) (keywords : Bindings) :
    supplied.extend function (own ++ others) keywords =
      (⟨supplied.positionals ++ own, supplied.keywords⟩ : Supplied).extend function others
        keywords := by
  simp [extend]

theorem extend_cons (supplied : Supplied) (values : List Value) (name : String) (value : Value)
    (keywords : Bindings) :
    supplied.extend function values ((name, value) :: keywords) =
      if supplied.keywords.any (·.1 == name) then .error (.multipleValues function name)
      else (⟨supplied.positionals, supplied.keywords ++ [(name, value)]⟩ : Supplied).extend
        function values keywords := by
  have hany : supplied.keywords.any (·.1 == name) = true ↔
      name ∈ supplied.keywords.map (·.1) := by
    simp
  have hseen : ∀ other, other ∈ name :: supplied.keywords.map (·.1) ↔
      other ∈ (supplied.keywords ++ [(name, value)]).map (·.1) := by
    simp [or_comm]
  by_cases hname : name ∈ supplied.keywords.map (·.1)
  · simp only [extend, List.map_cons, firstRepeat?, if_pos hname, if_pos (hany.2 hname)]
  · simp only [extend, List.map_cons, firstRepeat?, if_neg hname, if_neg (mt hany.1 hname),
      firstRepeat?_congr hseen, List.append_assoc, List.singleton_append]

end Supplied

variable {st st' : Store} {values : List Value}

/-- Expansion looks at the arguments only through their values and their keywords. -/
theorem expand_eq_extend (function : String) {arguments : List (Argument Value)}
    (supplied : Supplied) (hvalues : (expansion arguments).run st = some (.ok values, st')) :
    ∃ t, (expand function arguments supplied).run st =
      some (supplied.extend function values (keywordsOf arguments), t) := by
  induction arguments generalizing st supplied values with
  | nil =>
      rw [expansion_nil] at hvalues
      cases hvalues
      refine ⟨st', ?_⟩
      rw [keywordsOf, List.filterMap_nil, Supplied.extend_nil, List.append_nil]
      rfl
  | cons arg rest ih =>
      obtain ⟨own, st₁, others, hown, hothers, rfl⟩ := expansion_cons_ok_iff.1 hvalues
      rw [keywordsOf_cons]
      cases arg with
      | positional value =>
          cases hown
          obtain ⟨t, ht⟩ := ih ⟨supplied.positionals ++ [value], supplied.keywords⟩ hothers
          exact ⟨t, by rw [Supplied.extend_append]; exact ht⟩
      | spread value =>
          obtain ⟨t, ht⟩ := ih ⟨supplied.positionals ++ own, supplied.keywords⟩ hothers
          exact ⟨t, by rw [Supplied.extend_append]; exact (Run.run_bind_of_ok hown _).trans ht⟩
      | keyword name value =>
          cases hown
          obtain ⟨t, ht⟩ := ih ⟨supplied.positionals, supplied.keywords ++ [(name, value)]⟩ hothers
          simp only [Argument.keyword?, Option.toList_some, List.singleton_append, List.nil_append,
            Supplied.extend_cons, expand]
          split
          · exact ⟨st, rfl⟩
          · exact ⟨t, ht⟩

namespace Signature

/-- What binding makes of the positional values and the keywords of a call. -/
def settle (s : Signature) (values : List Value) (keywords : Bindings) :
    Except Fault Environment :=
  ((⟨[], []⟩ : Supplied).extend s.name values keywords).bind s.distribute

theorem bind_eq_settle (s : Signature) {arguments : List (Argument Value)}
    (hvalues : (expansion arguments).run st = some (.ok values, st')) :
    ∃ t, (s.bind arguments).run st = some (s.settle values (keywordsOf arguments), t) := by
  obtain ⟨t, hexpand⟩ := expand_eq_extend s.name ⟨[], []⟩ hvalues
  refine ⟨t, ?_⟩
  unfold bind settle
  cases hextend : (⟨[], []⟩ : Supplied).extend s.name values (keywordsOf arguments) with
  | error e =>
      rw [hextend] at hexpand
      rw [Run.run_bind, hexpand]
      rfl
  | ok supplied =>
      rw [hextend] at hexpand
      rw [Run.run_bind_of_ok hexpand]
      exact Run.run_lift (s.distribute supplied) t

theorem bind_congr (s : Signature) {left right : List (Argument Value)}
    {values : List Value} {st₁ st₁' st₂ st₂' : Store}
    (hleft : (expansion left).run st₁ = some (.ok values, st₁'))
    (hright : (expansion right).run st₂ = some (.ok values, st₂'))
    (hkeywords : keywordsOf left = keywordsOf right) :
    ∃ result t₁ t₂, (s.bind left).run st₁ = some (result, t₁) ∧
      (s.bind right).run st₂ = some (result, t₂) := by
  obtain ⟨t₁, hbind₁⟩ := s.bind_eq_settle hleft
  obtain ⟨t₂, hbind₂⟩ := s.bind_eq_settle hright
  rw [hkeywords] at hbind₁
  exact ⟨_, t₁, t₂, hbind₁, hbind₂⟩

end Signature

theorem expansion_positionals (values : List Value) (st : Store) :
    (expansion (values.map .positional)).run st = some (.ok values, st) := by
  induction values with
  | nil =>
      rw [List.map_nil, expansion_nil]
      rfl
  | cons value rest ih => exact expansion_cons_ok_iff.2 ⟨[value], st, rest, rfl, ih, rfl⟩

theorem expansion_spread {a : Value} (hvalues : a.materialize.run st = some (.ok values, st')) :
    (expansion [.spread a]).run st = some (.ok values, st') :=
  expansion_cons_ok_iff.2 ⟨values, st', [], hvalues, by rw [expansion_nil]; rfl, by simp⟩

theorem keywordsOf_positionals (values : List Value) :
    keywordsOf (values.map .positional) = [] := by
  simp [keywordsOf, Argument.keyword?]

/-- Two calls whose positional values are the same, however they are grouped into positional
arguments and spreads, and whose keywords are the same in the same order, wherever they stand, are
bound with the same result, an environment or a fault. In particular spreading what holds some
values binds like writing out these values. -/
theorem bind_regrouped (s : Signature) :
    (∀ (left right : List (Argument Value)) (values : List Value) (st₁ st₁' st₂ st₂' : Store),
      (expansion left).run st₁ = some (.ok values, st₁') →
      (expansion right).run st₂ = some (.ok values, st₂') →
      keywordsOf left = keywordsOf right →
      ∃ result t₁ t₂, (s.bind left).run st₁ = some (result, t₁) ∧
        (s.bind right).run st₂ = some (result, t₂)) ∧
    ∀ (a : Value) (values : List Value) (st : Store), a.Holds st values →
      ∃ result t₁ t₂, (s.bind [.spread a]).run st = some (result, t₁) ∧
        (s.bind (values.map .positional)).run st = some (result, t₂) := by
  constructor
  · intro left right values st₁ st₁' st₂ st₂' hleft hright hkeywords
    exact s.bind_congr hleft hright hkeywords
  · intro a values st holds
    obtain ⟨st', hvalues⟩ := Value.exists_materialize_iff.2 holds
    exact s.bind_congr (expansion_spread hvalues) (expansion_positionals values st)
      (keywordsOf_positionals values).symm

/-- A sequence of two values spread at once, and two spreads around a keyword against a written
value before a spread. -/
theorem bind_regrouped_mixed :
    let s : Signature := ⟨"f", ["a", "b"], none, [("c", .int 16)]⟩
    let st : Store := ⟨[⟨.eager [.int 1, .int 2] 0, 0⟩], []⟩
    (Value.lazy ⟨0⟩).Holds st [.int 1, .int 2] ∧
    (∃ result t₁ t₂, (s.bind [.spread (.lazy ⟨0⟩)]).run st = some (result, t₁) ∧
      (s.bind [.positional (.int 1), .positional (.int 2)]).run st = some (result, t₂)) ∧
    ∃ result t₁ t₂, (s.bind [.spread (.list [.int 1]), .keyword "c" (.int 3),
        .spread (.tuple [.int 2])]).run .empty = some (result, t₁) ∧
      (s.bind [.positional (.int 1), .spread (.list [.int 2]),
        .keyword "c" (.int 3)]).run st = some (result, t₂) := by
  intro s st
  have hstate : st.state ⟨0⟩ = .eager [.int 1, .int 2] 0 := rfl
  have hproduction := funext (Store.production_eager hstate)
  have holds : (Value.lazy ⟨0⟩).Holds st [.int 1, .int 2] :=
    ⟨by simp [hstate], by rw [hproduction]; rfl, by rw [hproduction]; rfl⟩
  refine ⟨holds, (bind_regrouped s).2 _ _ st holds, ?_⟩
  exact (bind_regrouped s).1 _ _ [.int 1, .int 2] .empty .empty st st rfl rfl rfl

end Conformance
