import Conformance.Proofs.Call.Expansion
import Conformance.Proofs.Traversal

/-!
# Which arguments fit a signature

Binding succeeds exactly on the arguments that fit, and then gives every parameter the one value
that is meant for it. Fitting is said of the expanded arguments: there is room for all positional
values, each keyword has a parameter that is still open, and no parameter stays open.
-/

namespace Conformance

/-- The names with the values that they have. -/
def Bindings.given (bindings : Bindings) : List (String × Option Value) :=
  bindings.map fun (name, value) => (name, some value)

@[simp] theorem Bindings.given_nil : Bindings.given [] = [] := rfl

@[simp] theorem Bindings.given_cons (binding : String × Value) (bindings : Bindings) :
    Bindings.given (binding :: bindings) = (binding.1, some binding.2) :: bindings.given := rfl

theorem Bindings.given_injective : Function.Injective Bindings.given := by
  apply List.map_injective_iff.2
  rintro ⟨name, value⟩ ⟨name', value'⟩ h
  simpa using h

theorem Bindings.map_fst_given (bindings : Bindings) :
    bindings.given.map (·.1) = bindings.map (·.1) := by
  simp [Bindings.given]

theorem Bindings.mem_given_iff {bindings : Bindings} {name : String} {v : Value} :
    (name, some v) ∈ bindings.given ↔ (name, v) ∈ bindings := by
  simp [Bindings.given]

theorem Bindings.isSome_get?_iff (bindings : Bindings) (name : String) :
    (bindings.get? name).isSome ↔ name ∈ bindings.map (·.1) := by
  simp [Bindings.get?]

theorem Bindings.get?_of_mem {bindings : Bindings} (hnodup : (bindings.map (·.1)).Nodup)
    {name : String} {v : Value} (hmem : (name, v) ∈ bindings) : bindings.get? name = some v :=
  (map_find?_key_eq_some_iff hnodup).2 hmem

theorem Bindings.mem_of_get? {bindings : Bindings} {name : String} {v : Value}
    (h : bindings.get? name = some v) : (name, v) ∈ bindings :=
  mem_of_map_find?_key h

theorem Bindings.get?_append (front back : Bindings) (name : String) :
    Bindings.get? (front ++ back) name = (front.get? name).or (back.get? name) := by
  rw [get?, List.find?_append, Option.map_or]
  rfl

theorem Bindings.get?_eq_none_iff {bindings : Bindings} {name : String} :
    bindings.get? name = none ↔ name ∉ bindings.map (·.1) := by
  rw [← isSome_get?_iff, Option.not_isSome_iff_eq_none]

/-- Where no name occurs twice, the order of bindings does not matter. -/
theorem Bindings.get?_of_perm {left right : Bindings} (hnodup : (left.map (·.1)).Nodup)
    (hperm : left.Perm right) (name : String) : left.get? name = right.get? name := by
  have hnames := hperm.map (·.1)
  cases hget : left.get? name with
  | some v => exact (get?_of_mem (hnames.nodup hnodup) (hperm.mem_iff.1 (mem_of_get? hget))).symm
  | none =>
      rw [get?_eq_none_iff, hnames.mem_iff] at hget
      exact (get?_eq_none_iff.2 hget).symm

namespace Signature

/-- The positional values and the keywords of a call fit the parameters. -/
structure Fits (s : Signature) (values : List Value) (keywords : Bindings) : Prop where
  /-- There is room for all positional values. -/
  room : s.variadic = none → values.length ≤ s.fixed.length
  /-- Each keyword has a parameter that takes it. -/
  known : ∀ name ∈ keywords.map (·.1),
    name ∈ s.fixed.drop values.length ∨ name ∈ s.defaults.map (·.1)
  /-- Each fixed parameter has a value. -/
  filled : ∀ name ∈ s.fixed.drop values.length, name ∈ keywords.map (·.1)

/-- All parameters in declaration order, with the values that are meant for them. -/
def layout (s : Signature) (values : List Value) (keywords : Bindings) :
    List (String × Option Value) :=
  (s.fixed.mapIdx fun i name =>
    (name, if i < values.length then values[i]? else keywords.get? name)) ++
  s.variadic.toList.map (fun name => (name, some (.tuple (values.drop s.fixed.length)))) ++
  s.defaults.map fun (name, default) => (name, some ((keywords.get? name).getD default))

theorem map_fst_layout (s : Signature) (values : List Value) (keywords : Bindings) :
    (s.layout values keywords).map (·.1) = s.names := by
  have hfixed : (s.fixed.mapIdx fun i name => (name,
      if i < values.length then values[i]? else keywords.get? name)).map (·.1) = s.fixed := by
    apply List.ext_getElem?
    intro i
    simp [List.getElem?_mapIdx, Function.comp_def]
  simp [layout, names, hfixed, Function.comp_def]

variable {s : Signature}

theorem checkKeywords_eq_ok_iff {filled : List String} {keywords : Bindings} :
    s.checkKeywords filled keywords = .ok () ↔ ∀ name ∈ keywords.map (·.1),
      name ∉ filled ∧ (name ∈ s.fixed ∨ name ∈ s.defaults.map (·.1)) := by
  induction keywords with
  | nil => simp [checkKeywords]
  | cons keyword rest ih =>
      obtain ⟨name, value⟩ := keyword
      rw [checkKeywords, List.map_cons, List.forall_mem_cons]
      by_cases hfilled : name ∈ filled
      · rw [if_pos hfilled]
        exact ⟨nofun, fun h => absurd hfilled h.1.1⟩
      · rw [if_neg hfilled]
        by_cases hknown : name ∈ s.fixed ∨ name ∈ s.defaults.map (·.1)
        · rw [if_pos hknown, ih]
          exact (and_iff_right ⟨hfilled, hknown⟩).symm
        · rw [if_neg hknown]
          exact ⟨nofun, fun h => absurd h.1.2 hknown⟩

theorem cons_eq_ok_iff {binding : String × Value} {others : Except Fault Bindings}
    {bindings : Bindings} : (do return binding :: (← others)) = Except.ok bindings ↔
      ∃ rest, others = .ok rest ∧ bindings = binding :: rest := by
  cases others with
  | error e => exact ⟨nofun, fun ⟨_, h, _⟩ => nomatch h⟩
  | ok rest =>
      constructor
      · intro h
        cases h
        exact ⟨rest, rfl, rfl⟩
      · rintro ⟨_, h, rfl⟩
        cases h
        rfl

theorem exists_cons_eq_ok_iff {binding : String × Value} {others : Except Fault Bindings} :
    (∃ bindings, (do return binding :: (← others)) = Except.ok bindings) ↔
      ∃ rest, others = .ok rest := by
  simp only [cons_eq_ok_iff]
  grind

/-- Each fixed parameter is given a positional value, or else the value of its keyword. -/
theorem fillFixed_eq_ok_iff {keywords : Bindings} {names : List String} {values : List Value}
    {bindings : Bindings} : s.fillFixed keywords names values = .ok bindings ↔
      bindings.given = names.mapIdx fun i name =>
        (name, if i < values.length then values[i]? else keywords.get? name) := by
  induction names generalizing values bindings with
  | nil => cases bindings <;> simp [fillFixed]
  | cons name rest ih =>
      rw [List.mapIdx_cons]
      cases values with
      | nil =>
          simp only [List.length_nil, Nat.not_lt_zero, if_false] at ih ⊢
          rw [fillFixed]
          cases hget : keywords.get? name with
          | none => cases bindings <;> simp
          | some value =>
              rw [cons_eq_ok_iff]
              simp only [ih]
              cases bindings <;> simp [Prod.ext_iff, and_comm]
      | cons value values =>
          rw [fillFixed, cons_eq_ok_iff]
          simp only [ih]
          cases bindings <;> simp [Prod.ext_iff, and_comm]

theorem exists_fillFixed_iff (s : Signature) (keywords : Bindings) (names : List String)
    (values : List Value) : (∃ bindings, s.fillFixed keywords names values = .ok bindings) ↔
      ∀ name ∈ names.drop values.length, name ∈ keywords.map (·.1) := by
  induction names generalizing values with
  | nil => simp [fillFixed]
  | cons name rest ih =>
      cases values with
      | nil =>
          have hrest := ih []
          rw [List.length_nil, List.drop_zero] at hrest ⊢
          rw [List.forall_mem_cons, ← Bindings.isSome_get?_iff, fillFixed, ← hrest]
          cases keywords.get? name with
          | none => simp
          | some value => simp only [exists_cons_eq_ok_iff, Option.isSome_some, true_and]
      | cons value values =>
          rw [List.length_cons, List.drop_succ_cons, ← ih, fillFixed]
          simp only [exists_cons_eq_ok_iff]

/-- A keyword that fits is not for a parameter with a positional value. -/
theorem fits_keyword_iff (hs : s.names.Nodup) (n : ℕ) (name : String) :
    name ∉ s.fixed.take n ∧ (name ∈ s.fixed ∨ name ∈ s.defaults.map (·.1)) ↔
      name ∈ s.fixed.drop n ∨ name ∈ s.defaults.map (·.1) := by
  rw [names, List.append_assoc, List.nodup_append] at hs
  obtain ⟨hfixed, -, hapart⟩ := hs
  rw [← List.take_append_drop n s.fixed, List.nodup_append] at hfixed
  have hsplit : name ∈ s.fixed ↔ name ∈ s.fixed.take n ∨ name ∈ s.fixed.drop n := by
    rw [← List.mem_append, List.take_append_drop]
  have hdefault : name ∈ s.fixed → name ∉ s.defaults.map (·.1) := fun h h' =>
    hapart name h name (List.mem_append_right _ h') rfl
  have hdrop : name ∈ s.fixed.take n → name ∉ s.fixed.drop n := fun h h' =>
    hfixed.2.2 name h name h' rfl
  tauto

/-- The bindings that distribution puts together are laid out. -/
theorem given_eq_layout {keywords fixed : Bindings} {values : List Value}
    (hfill : s.fillFixed keywords s.fixed values = .ok fixed) :
    Bindings.given (fixed ++
      s.variadic.toList.map (fun name => (name, .tuple (values.drop s.fixed.length))) ++
      s.defaults.map fun (name, default) => (name, (keywords.get? name).getD default)) =
    s.layout values keywords := by
  rw [layout, ← fillFixed_eq_ok_iff.1 hfill]
  simp only [Bindings.given, List.map_append, List.map_map]
  rfl

/-- Distribution succeeds exactly on what fits, and lays it out. -/
theorem distribute_eq_ok_iff (hs : s.names.Nodup) {values : List Value} {keywords : Bindings}
    {env : Environment} : s.distribute ⟨values, keywords⟩ = .ok env ↔
      s.Fits values keywords ∧ env.bindings.given = s.layout values keywords := by
  have hknown : s.checkKeywords (s.fixed.take values.length) keywords = .ok () ↔
      ∀ name ∈ keywords.map (·.1),
        name ∈ s.fixed.drop values.length ∨ name ∈ s.defaults.map (·.1) := by
    simp only [checkKeywords_eq_ok_iff, fits_keyword_iff hs]
  have hfilled := s.exists_fillFixed_iff keywords s.fixed values
  unfold distribute
  by_cases hroom : s.variadic.isNone ∧ values.drop s.fixed.length ≠ []
  · rw [if_pos hroom]
    refine ⟨nofun, fun ⟨hfits, _⟩ => ?_⟩
    have hle := hfits.room (Option.isNone_iff_eq_none.1 hroom.1)
    exact absurd (List.drop_eq_nil_of_le hle) hroom.2
  · rw [if_neg hroom]
    have hroom : s.variadic = none → values.length ≤ s.fixed.length := by
      simpa [List.drop_eq_nil_iff] using hroom
    cases hcheck : s.checkKeywords (s.fixed.take values.length) keywords with
    | error e =>
        refine ⟨nofun, fun ⟨hfits, _⟩ => ?_⟩
        rw [hknown.2 hfits.known] at hcheck
        cases hcheck
    | ok =>
        cases hfill : s.fillFixed keywords s.fixed values with
        | error e =>
            refine ⟨nofun, fun ⟨hfits, _⟩ => ?_⟩
            obtain ⟨bindings, hok⟩ := hfilled.2 hfits.filled
            rw [hok] at hfill
            cases hfill
        | ok fixed =>
            have hfits : s.Fits values keywords :=
              ⟨hroom, hknown.1 hcheck, hfilled.1 ⟨fixed, hfill⟩⟩
            rw [and_iff_right hfits, ← given_eq_layout hfill, Bindings.given_injective.eq_iff]
            constructor
            · intro h
              cases h
              rfl
            · intro h
              obtain ⟨bindings⟩ := env
              cases h
              rfl

/-- Binding expands the arguments, and distributes what it was supplied with. -/
theorem bind_eq_ok_iff (hs : s.names.Nodup) {arguments : List (Argument Value)} {st st' : Store}
    {env : Environment} : (s.bind arguments).run st = some (.ok env, st') ↔
      ((keywordsOf arguments).map (·.1)).Nodup ∧
      ∃ values, (expansion arguments).run st = some (.ok values, st') ∧
        s.Fits values (keywordsOf arguments) ∧
        env.bindings.given = s.layout values (keywordsOf arguments) := by
  rw [bind, Run.bind_eq_ok_iff]
  simp only [Run.lift_eq_ok_iff, expand_ok_iff ⟨[], []⟩ List.nodup_nil, List.nil_append]
  constructor
  · rintro ⟨_, st₁, ⟨hkeywords, values, hvalues, rfl⟩, hdistribute, rfl⟩
    exact ⟨hkeywords, values, hvalues, (distribute_eq_ok_iff hs).1 hdistribute⟩
  · rintro ⟨hkeywords, values, hvalues, hfits⟩
    exact ⟨_, st', ⟨hkeywords, values, hvalues, rfl⟩, (distribute_eq_ok_iff hs).2 hfits, rfl⟩

theorem bind_ends {arguments : List (Argument Value)} {st : Store}
    (hends : ∃ o, (expansion arguments).run st = some o) :
    ∃ o, (s.bind arguments).run st = some o := by
  obtain ⟨⟨e | supplied, st'⟩, hexpand⟩ := expand_ends s.name ⟨[], []⟩ hends
  · exact ⟨(.error e, st'), Run.bind_eq_some_iff.2 (.inr ⟨e, hexpand, rfl⟩)⟩
  · rw [bind, Run.run_bind_of_ok hexpand]
    cases s.distribute supplied with
    | error e => exact ⟨_, rfl⟩
    | ok env => exact ⟨_, rfl⟩

theorem Fits.exists_layout {values : List Value} {keywords : Bindings}
    (h : s.Fits values keywords) :
    ∃ env : Environment, env.bindings.given = s.layout values keywords := by
  obtain ⟨fixed, hfill⟩ := (s.exists_fillFixed_iff keywords s.fixed values).2 h.filled
  exact ⟨⟨_⟩, given_eq_layout hfill⟩

end Signature

/-- Arguments are bound to a declared signature. Binding succeeds exactly if every spread has
elements and is not in progress, no keyword is repeated, and the positional values and the
keywords fit the parameters. It then leaves the sequences as expansion left them, and lists all
parameters in declaration order, each with the value meant for it. When expansion comes to an
end, there are positional values exactly if every spread has elements and is not in progress, and
binding comes to an end too. -/
theorem bind_ok_iff {name : String} {declarations : List (Declaration Value)} {s : Signature}
    (hs : Signature.declare name declarations = .ok s) (arguments : List (Argument Value))
    (st : Store) :
    ((∃ env st', (s.bind arguments).run st = some (.ok env, st')) ↔
      (∀ v, .spread v ∈ arguments → v.IsIterable st) ∧
      ((keywordsOf arguments).map (·.1)).Nodup ∧
      ∃ values st', (expansion arguments).run st = some (.ok values, st') ∧
        s.Fits values (keywordsOf arguments)) ∧
    (∀ env st', (s.bind arguments).run st = some (.ok env, st') →
      ∃ values, (expansion arguments).run st = some (.ok values, st') ∧
        env.bindings.given = s.layout values (keywordsOf arguments)) ∧
    ∀ expanded st₁, (expansion arguments).run st = some (expanded, st₁) →
      ((∃ values, expanded = .ok values) ↔ ∀ v, .spread v ∈ arguments → v.IsIterable st) ∧
      ∃ o, (s.bind arguments).run st = some o := by
  have hnodup := Signature.nodup_of_declare hs
  refine ⟨⟨?_, ?_⟩, ?_, ?_⟩
  · rintro ⟨env, st', hbind⟩
    obtain ⟨hkeywords, values, hvalues, hfits, -⟩ := (Signature.bind_eq_ok_iff hnodup).1 hbind
    exact ⟨(expansion_ok_iff hvalues).1 ⟨values, rfl⟩, hkeywords, values, st', hvalues, hfits⟩
  · rintro ⟨-, hkeywords, values, st', hvalues, hfits⟩
    obtain ⟨env, henv⟩ := hfits.exists_layout
    exact ⟨env, st', (Signature.bind_eq_ok_iff hnodup).2
      ⟨hkeywords, values, hvalues, hfits, henv⟩⟩
  · intro env st' hbind
    obtain ⟨-, values, hvalues, -, henv⟩ := (Signature.bind_eq_ok_iff hnodup).1 hbind
    exact ⟨values, hvalues, henv⟩
  · intro expanded st₁ hrun
    exact ⟨expansion_ok_iff hrun, Signature.bind_ends ⟨_, hrun⟩⟩

/-- Keywords for a fixed parameter and for one with a default, around a spread. -/
theorem bind_ok_iff_around_spread :
    let s : Signature := ⟨"f", ["a", "b"], some "rest", [("c", .int 16)]⟩
    Signature.declare "f" [.fixed "a", .keyword "c" (.int 16), .variadic "rest", .fixed "b"] =
      .ok s ∧
    ∃ env st', (s.bind [.keyword "b" (.int 2), .spread (.list [.int 1]),
      .keyword "c" (.int 3)]).run .empty = some (.ok env, st') := by
  intro s
  have hs : Signature.declare "f"
      [.fixed "a", .keyword "c" (.int 16), .variadic "rest", .fixed "b"] = .ok s := by rfl
  refine ⟨hs, (bind_ok_iff hs _ .empty).1.2 ⟨?_, by decide, [.int 1], .empty, ?_, ?_⟩⟩
  · simp [Value.IsIterable]
  · rfl
  · constructor <;> simp [s, keywordsOf, Argument.keyword?]

end Conformance
