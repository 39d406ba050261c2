import Conformance.Proofs.Assignment.Unpack
import Conformance.Proofs.Call.Binding

/-!
# Positional values, bound and unpacked

A call with positional values only and an assignment of the same values both give the first names
one value each and the last name what remains, if a last name takes the rest. A call keeps the
remainder as a tuple and an assignment keeps it as a list; they succeed on the same numbers of
values.
-/

namespace Conformance

/-- Fixed parameters of the given names, and a variadic one for the rest. -/
def parametersOf (names : List String) (rest : Option String) : List (Declaration Value) :=
  names.map .fixed ++ rest.toList.map .variadic

/-- Plain targets of the given names, and a starred one for the rest. -/
def targetsOf (names : List String) (rest : Option String) : List Target :=
  names.map (⟨·, false⟩) ++ rest.toList.map (⟨·, true⟩)

/-- The names with one value each, and the rest with the values that remain. -/
def dealt (names : List String) (rest : Option String) (keep : List Value → Value)
    (values : List Value) : Bindings :=
  names.zip values ++ rest.toList.map fun name => (name, keep (values.drop names.length))

/-- There are values for all names, and none is left over without a name for the rest. -/
structure Suffice (names : List String) (rest : Option String) (values : List Value) : Prop where
  enough : names.length ≤ values.length
  room : rest = none → values.length ≤ names.length

variable {names : List String} {rest : Option String} {values : List Value}

theorem suffice_none_iff : Suffice names none values ↔ values.length = names.length := by
  constructor
  · intro h
    exact Nat.le_antisymm (h.room rfl) h.enough
  · intro h
    exact ⟨Nat.le_of_eq h.symm, fun _ => Nat.le_of_eq h⟩

theorem suffice_some_iff {name : String} :
    Suffice names (some name) values ↔ names.length ≤ values.length :=
  ⟨Suffice.enough, fun h => ⟨h, nofun⟩⟩

/-! ## Binding -/

namespace Signature

theorem gather_parametersOf (function : String) (names : List String) (rest : Option String) :
    gather function (parametersOf names rest) = ⟨function, names, rest, []⟩ := by
  have hfixed : ∀ fixed, (names.map Declaration.fixed).foldl add ⟨function, fixed, none, []⟩ =
      ⟨function, fixed ++ names, none, []⟩ := by
    induction names with
    | nil => simp
    | cons name names ih =>
        intro fixed
        rw [List.map_cons, List.foldl_cons, add, ih, List.append_assoc, List.singleton_append]
  rw [gather, parametersOf, List.foldl_append, hfixed, List.nil_append]
  cases rest <;> rfl

theorem declare_parametersOf (function : String) (hnames : (names ++ rest.toList).Nodup) :
    declare function (parametersOf names rest) = .ok ⟨function, names, rest, []⟩ := by
  have hnone : firstRepeat? [] (names ++ rest.toList) = none := by
    apply (firstRepeat?_eq_none_iff ..).2
    exact ⟨hnames, fun _ _ => List.not_mem_nil⟩
  simp [declare, gather_parametersOf, Signature.names, hnone]

variable (s : Signature)

theorem fillFixed_of_le (h : names.length ≤ values.length) :
    s.fillFixed [] names values = .ok (names.zip values) := by
  induction names generalizing values with
  | nil => rfl
  | cons name names ih =>
      obtain ⟨value, values, rfl⟩ := List.exists_cons_of_length_pos (Nat.zero_lt_of_lt h)
      rw [fillFixed, ih (Nat.le_of_succ_le_succ h)]
      rfl

/-- Without keywords the first parameter past the values is the one that is missed. -/
theorem fillFixed_of_lt (h : values.length < names.length) :
    s.fillFixed [] names values = .error (.missingArgument s.name names[values.length]) := by
  induction names generalizing values with
  | nil => exact absurd h (Nat.not_lt_zero _)
  | cons name names ih =>
      cases values with
      | nil => rfl
      | cons value values =>
          rw [fillFixed, ih (Nat.lt_of_succ_lt_succ h)]
          rfl

variable {function : String}

theorem distribute_of_suffice (h : Suffice names rest values) :
    distribute ⟨function, names, rest, []⟩ ⟨values, []⟩ = .ok ⟨dealt names rest .tuple values⟩ := by
  have hroom : ¬ (rest.isNone ∧ values.drop names.length ≠ []) := by
    rintro ⟨hrest, hsurplus⟩
    exact hsurplus (List.drop_eq_nil_of_le (h.room (Option.isNone_iff_eq_none.1 hrest)))
  rw [distribute, if_neg hroom, fillFixed_of_le _ h.enough]
  simp only [checkKeywords, Bindings.get?_nil, Option.getD_none, List.map_nil, List.append_nil,
    bind_pure_comp, Except.map_ok, dealt]
  rfl

theorem distribute_of_surplus (h : names.length < values.length) :
    distribute ⟨function, names, none, []⟩ ⟨values, []⟩ =
      .error (.tooManyPositional function names.length values.length) := by
  have hsurplus : values.drop names.length ≠ [] := by
    simpa using h
  rw [distribute, if_pos ⟨rfl, hsurplus⟩]
  rfl

theorem distribute_of_lack (h : values.length < names.length) :
    distribute ⟨function, names, rest, []⟩ ⟨values, []⟩ =
      .error (.missingArgument function names[values.length]) := by
  have hsurplus : ¬ (rest.isNone ∧ values.drop names.length ≠ []) := by
    simp [List.drop_eq_nil_of_le (Nat.le_of_lt h)]
  rw [distribute, if_neg hsurplus, fillFixed_of_lt _ h]
  rfl

end Signature

theorem expand_positionals (function : String) (values : List Value) (supplied : Supplied) :
    expand function (values.map .positional) supplied =
      pure ⟨supplied.positionals ++ values, supplied.keywords⟩ := by
  induction values generalizing supplied with
  | nil => rw [List.append_nil]; rfl
  | cons value rest ih =>
      rw [List.map_cons, expand, ih, List.append_assoc, List.singleton_append]

/-- Positional values are bound without a pull. -/
theorem Signature.run_bind_positionals (s : Signature) (values : List Value) (st : Store) :
    (s.bind (values.map .positional)).run st = some (s.distribute ⟨values, []⟩, st) := by
  rw [bind, expand_positionals, pure_bind, List.nil_append, Run.run_lift]

/-! ## Unpacking -/

/-- The dealt values are shared out among the targets. -/
theorem Suffice.shares (h : Suffice names rest values) :
    Shares (targetsOf names rest) values (dealt names rest .list values) := by
  induction names generalizing values with
  | nil =>
      cases rest with
      | none =>
          obtain rfl := List.eq_nil_of_length_eq_zero (suffice_none_iff.1 h)
          exact .nil
      | some name =>
          have hrun := Shares.starred name values .nil
          rwa [List.append_nil] at hrun
  | cons name names ih =>
      obtain ⟨value, values, rfl⟩ := List.exists_cons_of_length_pos (Nat.zero_lt_of_lt h.enough)
      apply Shares.plain name value
      apply ih
      exact ⟨Nat.le_of_succ_le_succ h.enough, fun hrest => Nat.le_of_succ_le_succ (h.room hrest)⟩

theorem countP_targetsOf_le (names : List String) (rest : Option String) :
    (targetsOf names rest).countP (·.starred) ≤ 1 := by
  cases rest <;> simp [targetsOf, Function.comp_def]

theorem exists_ofTargets (names : List String) (rest : Option String) :
    ∃ p, Pattern.ofTargets (targetsOf names rest) = .ok p ∧ p.targets = targetsOf names rest :=
  ⟨⟨_, countP_targetsOf_le names rest⟩, dif_pos (countP_targetsOf_le names rest), rfl⟩

namespace Pattern

variable {p : Pattern} (hp : p.targets = targetsOf names rest)

include hp

theorem isSome_star?_of_targetsOf : p.star?.isSome = rest.isSome := by
  rw [star?_isSome, hp]
  cases rest <;> simp [targetsOf]

theorem required_of_targetsOf : p.required = names.length := by
  rw [required, isSome_star?_of_targetsOf hp, hp]
  cases rest <;> simp [targetsOf]

theorem accepts_iff_suffice : p.Accepts values.length ↔ Suffice names rest values := by
  rw [Accepts, isSome_star?_of_targetsOf hp, required_of_targetsOf hp]
  cases rest with
  | none => simp [suffice_none_iff]
  | some name => simp [suffice_some_iff]

theorem exists_unpack_iff_suffice (values : List Value) :
    (∃ bindings, p.unpack values = .ok bindings) ↔ Suffice names rest values :=
  exists_unpack_iff.trans (accepts_iff_suffice hp)

/-- Unpacking deals out values that suffice. -/
theorem unpack_of_suffice (h : Suffice names rest values) :
    p.unpack values = .ok (dealt names rest .list values) := by
  apply unpack_eq_ok_iff.2
  rw [hp]
  exact h.shares

theorem unpack_of_not_suffice (h : ¬ Suffice names rest values) :
    p.unpack values = .error (.unpackMismatch names.length values.length rest.isSome) := by
  rw [unpack_of_not_accepts (mt (accepts_iff_suffice hp).1 h), required_of_targetsOf hp,
    isSome_star?_of_targetsOf hp]

end Pattern

/-! ## Comparison -/

/-- Binding deals the values out exactly if they suffice. -/
theorem exists_distribute_iff (function : String) (names : List String) (rest : Option String)
    (values : List Value) :
    (∃ env, Signature.distribute ⟨function, names, rest, []⟩ ⟨values, []⟩ = .ok env) ↔
      Suffice names rest values := by
  constructor
  · rintro ⟨env, hok⟩
    constructor
    · by_contra hlack
      rw [Signature.distribute_of_lack (Nat.lt_of_not_le hlack)] at hok
      cases hok
    · rintro rfl
      by_contra hsurplus
      rw [Signature.distribute_of_surplus (Nat.lt_of_not_le hsurplus)] at hok
      cases hok
  · intro h
    exact ⟨_, Signature.distribute_of_suffice h⟩

/-- Values are bound to parameters of some names, and unpacked into targets of the same names. The
last name, if there is one for the rest, belongs to the variadic parameter and to the starred
target. Both succeed on the same values and give the same names the same values in the same order,
but that the remainder is a tuple in the one and a list in the other. Without a name for the rest
both succeed if there are as many values as names, and report the same counts if there are more. -/
theorem bind_unpack_agree (function : String) {names : List String} {rest : Option String}
    (hnames : (names ++ rest.toList).Nodup) (values : List Value) :
    ∃ s p bound, Signature.declare function (parametersOf names rest) = .ok s ∧
      Pattern.ofTargets (targetsOf names rest) = .ok p ∧
      (∀ st, (s.bind (values.map .positional)).run st = some (bound, st)) ∧
      ((∃ env, bound = .ok env) ↔ ∃ bindings, p.unpack values = .ok bindings) ∧
      (∀ env bindings, bound = .ok env → p.unpack values = .ok bindings →
        env.bindings = names.zip values ++
          rest.toList.map (fun name => (name, .tuple (values.drop names.length))) ∧
        bindings = names.zip values ++
          rest.toList.map (fun name => (name, .list (values.drop names.length))) ∧
        bindings.map (·.1) = names ++ rest.toList) ∧
      (rest = none →
        ((∃ env, bound = .ok env) ↔ values.length = names.length) ∧
        (names.length < values.length →
          bound = .error (.tooManyPositional function names.length values.length) ∧
          p.unpack values = .error (.unpackMismatch names.length values.length false))) := by
  obtain ⟨p, hofTargets, hp⟩ := exists_ofTargets names rest
  have hbound := exists_distribute_iff function names rest values
  have hunpack := Pattern.exists_unpack_iff_suffice hp values
  refine ⟨_, p, _, Signature.declare_parametersOf function hnames, hofTargets,
    Signature.run_bind_positionals _ values, hbound.trans hunpack.symm, ?_, ?_⟩
  · intro env bindings henv hbindings
    have h := hunpack.1 ⟨bindings, hbindings⟩
    rw [Signature.distribute_of_suffice h] at henv
    rw [Pattern.unpack_of_suffice hp h] at hbindings
    cases henv
    cases hbindings
    refine ⟨rfl, rfl, ?_⟩
    rw [h.shares.names_eq]
    simp [targetsOf, Function.comp_def]
  · rintro rfl
    refine ⟨hbound.trans suffice_none_iff, fun hsurplus => ?_⟩
    have h : ¬ Suffice names none values := fun h => Nat.not_le_of_lt hsurplus (h.room rfl)
    exact ⟨Signature.distribute_of_surplus hsurplus, Pattern.unpack_of_not_suffice hp h⟩

/-- Three values for two names and a rest, and for the two names alone. -/
theorem bind_unpack_agree_pair :
    let names := ["a", "b"]
    let values : List Value := [.int 1, .int 2, .int 3]
    let call : List (Argument Value) := values.map .positional
    ((names ++ (some "rest").toList).Nodup ∧ ∃ (s : Signature) (p : Pattern) (env : Environment),
      Signature.declare "f" (parametersOf names (some "rest")) = .ok s ∧
      Pattern.ofTargets (targetsOf names (some "rest")) = .ok p ∧
      (s.bind call).run .empty = some (.ok env, .empty) ∧
      env.bindings = [("a", .int 1), ("b", .int 2), ("rest", .tuple [.int 3])] ∧
      p.unpack values = .ok [("a", .int 1), ("b", .int 2), ("rest", .list [.int 3])]) ∧
    (names ++ (none : Option String).toList).Nodup ∧ ∃ s : Signature,
      Signature.declare "f" (parametersOf names none) = .ok s ∧
      (s.bind call).run .empty = some (.error (.tooManyPositional "f" 2 3), .empty) := by
  intro names values call
  have hrest : (names ++ (some "rest").toList).Nodup := by decide
  have hnone : (names ++ (none : Option String).toList).Nodup := by decide
  refine ⟨⟨hrest, ?_⟩, hnone, ?_⟩
  · obtain ⟨s, p, bound, hs, hp, hrun, hiff, hsame, -⟩ := bind_unpack_agree "f" hrest values
    have hunpack := Pattern.unpack_of_suffice (Pattern.targets_of_ofTargets hp)
      (suffice_some_iff.2 (by decide : names.length ≤ values.length))
    obtain ⟨env, rfl⟩ := hiff.2 ⟨_, hunpack⟩
    exact ⟨s, p, env, hs, hp, hrun .empty, (hsame env _ rfl hunpack).1, hunpack⟩
  · obtain ⟨s, p, bound, hs, -, hrun, -, -, hcounts⟩ := bind_unpack_agree "f" hnone values
    obtain ⟨rfl, -⟩ := (hcounts rfl).2 (by decide)
    exact ⟨s, hs, hrun .empty⟩

end Conformance
