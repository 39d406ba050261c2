import Conformance.Proofs.Call.Declaring
import Conformance.Proofs.Scenario.Refusal

/-!
# Environments as tables

A scenario declares its parameters before it binds its arguments, so the names of the parameters
are distinct. What is bound is then a table with one entry for each of them. This ends a chain
that starts with the declarations: the groups that they form, the names that these list, and the
environments over those names.
-/

namespace Conformance

namespace Scenario

open Declaration

/-- The names of the parameters of a function in a scenario, in declaration order. -/
def Params.names (params : Params) : List String :=
  params.fixed ++ params.variadic.toList ++ params.defaults.map (·.1)

/-- Declarations of defaults name what they are declared for, and nothing else. -/
theorem filterMap_defaults {entries : List (String × Toml)} {defaults : List (Declaration Value)}
    (h : List.Forall₂ (fun entry d => ∃ v, d = .keyword entry.1 v) entries defaults) :
    defaults.filterMap fixed? = [] ∧ defaults.filterMap variadic? = [] ∧
      (defaults.filterMap keyword?).map (·.1) = entries.map (·.1) := by
  induction h with
  | nil => exact ⟨rfl, rfl, rfl⟩
  | cons hfirst hrest ih =>
      obtain ⟨v, rfl⟩ := hfirst
      simpa [List.filterMap_cons, fixed?, variadic?, keyword?] using ih

variable {params : Params} {args : List Arg}

theorem names_gather {defaults : List (Declaration Value)}
    (h : List.Forall₂ (fun entry d => ∃ v, d = .keyword entry.1 v) params.defaults defaults) :
    (Signature.gather params.name (params.fixed.map .fixed ++
      params.variadic.toList.map .variadic ++ defaults)).names = params.names := by
  obtain ⟨hfixed, hvariadic, hkeyword⟩ := filterMap_defaults h
  rw [Signature.gather_eq, Signature.names, Params.names]
  simp only [List.filterMap_append, List.filterMap_map, hfixed, hvariadic, List.map_append,
    hkeyword]
  cases params.variadic <;> simp [fixed?, variadic?, keyword?, Function.comp_def]

/-- The signature of a scenario has the parameters that the scenario names, each once. -/
theorem names_signature {s : Signature} {st st' : Store}
    (h : (signature params).run st = some (.ok s, st')) :
    s.names = params.names ∧ s.names.Nodup := by
  obtain ⟨defaults, st₁, hrun, hdeclare⟩ := Run.bind_eq_ok_iff.1 h
  have hkeyword : ∀ entry ∈ params.defaults, Ensures (fun d => ∃ v, d = .keyword entry.1 v)
      (fun _ => True) (defaultDeclaration entry) :=
    fun entry _ => (Ensures.any _).bind fun v _ => .pure ⟨v, rfl⟩
  have hdefaults := (Ensures.mapM hkeyword st _ st₁ hrun).1 defaults rfl
  rw [ofResult, Run.run_lift] at hdeclare
  generalize hs : Signature.declare _ _ = declared at hdeclare
  cases declared with
  | error e => cases hdeclare
  | ok s' =>
      cases hdeclare
      obtain ⟨rfl, hnodup⟩ := Signature.declare_eq_ok_iff.1 hs
      exact ⟨names_gather hdefaults, hnodup⟩

/-- A scenario declares a signature, computes the arguments, and binds them in an environment. -/
def Binds (params : Params) (args : List Arg) (env : Environment) : Prop :=
  ∃ s arguments st₁ st₂ st₃, (signature params).run .empty = some (.ok s, st₁) ∧
    (args.mapM argument).run st₁ = some (.ok arguments, st₂) ∧
    (s.bind arguments).run st₂ = some (.ok env, st₃)

theorem Binds.names {env : Environment} (h : Binds params args env) :
    env.bindings.map (·.1) = params.names ∧ params.names.Nodup := by
  obtain ⟨s, arguments, st₁, st₂, st₃, hs, -, hbind⟩ := h
  obtain ⟨hnames, hnodup⟩ := names_signature hs
  exact ⟨(Signature.names_of_bind hnodup hbind).trans hnames, hnames ▸ hnodup⟩

theorem ofRun_eq_ok_iff {α : Type} {x : Run α} {st st' : Store} {a : α} :
    (ofRun x).run st = some (.ok a, st') ↔ x.run st = some (.ok a, st') := by
  constructor
  · intro h
    obtain ⟨⟨r, st₁⟩, hrun, hresult⟩ := Option.bind_eq_some_iff.1 h
    cases r with
    | error e => cases hresult
    | ok a' =>
        cases hresult
        exact hrun
  · exact fun h => Option.bind_eq_some_iff.2 ⟨_, h, rfl⟩

theorem outcome_bind_eq_ok_iff {o : Outcome} :
    (∃ st, (Operation.bind params args).outcome.run .empty = some (.ok o, st)) ↔
      ∃ env, Binds params args env ∧ o = .bindings env.bindings := by
  simp only [Operation.outcome, Run.bind_eq_ok_iff, ofRun_eq_ok_iff]
  constructor
  · rintro ⟨st, s, st₁, hs, arguments, st₂, harguments, env, st₃, hbind, hresult⟩
    cases hresult
    exact ⟨env, ⟨s, arguments, st₁, st₂, st, hs, harguments, hbind⟩, rfl⟩
  · rintro ⟨env, ⟨s, arguments, st₁, st₂, st₃, hs, harguments, hbind⟩, rfl⟩
    exact ⟨st₃, s, st₁, hs, arguments, st₂, harguments, env, st₃, hbind, rfl⟩

/-- The table has the names that the environment binds, each with the TOML value of its value. -/
def IsTableOf (env : Environment) (entries : Toml.Entries) : Prop :=
  entries.Sorted ∧ ∀ name, Option.Rel (fun v t => ofValue v = .ok t) (env.get? name)
    (entries.get? name)

theorem IsTableOf.perm {env : Environment} {entries : Toml.Entries} (h : IsTableOf env entries)
    (hnodup : (env.bindings.map (·.1)).Nodup) :
    (entries.map (·.1)).Perm (env.bindings.map (·.1)) := by
  rw [List.perm_ext_iff_of_nodup h.1.nodup hnodup]
  intro name
  rw [← Toml.Entries.isSome_get?_iff, ← Bindings.isSome_get?_iff]
  have hrel := h.2 name
  rw [Environment.get?] at hrel
  generalize env.bindings.get? name = v?, entries.get? name = t? at hrel ⊢
  cases hrel <;> rfl

theorem IsTableOf.unique {env : Environment} {entries entries' : Toml.Entries}
    (h : IsTableOf env entries) (h' : IsTableOf env entries') : entries = entries' :=
  h.1.ext h'.1 fun name =>
    rel_unique (fun _ _ _ ht ht' => Except.ok.inj (ht.symm.trans ht')) (h.2 name) (h'.2 name)

/-- A scenario that binds its arguments in an environment gives a table of it. -/
theorem Binds.exists_table {env : Environment} (h : Binds params args env) :
    ∃ entries, IsTableOf env entries ∧ evaluate (.bind params args) = .ok (.table entries) := by
  obtain ⟨st, hrun⟩ := outcome_bind_eq_ok_iff.2 ⟨env, h, rfl⟩
  obtain ⟨o, st', t, hrun', ho, -, htoml, heval⟩ | ⟨_, _, hrun', -⟩ :=
    evaluate_cases (.bind params args)
  · cases hrun.symm.trans hrun'
    obtain ⟨hnames, hnodup⟩ := h.names
    obtain ⟨entries, hentries, hsorted, hrel⟩ := exists_ofBindings (List.forall_mem_map.1 ho)
    rw [ho.toToml_eq, Outcome.form, hentries] at htoml
    cases htoml
    refine ⟨entries, ⟨hsorted, fun name => ?_⟩, heval⟩
    rw [Environment.get?, ← Bindings.latest?_eq_get? (hnames ▸ hnodup)]
    exact hrel name
  · cases hrun.symm.trans hrun'

/-- A scenario that binds gives the table of the environment in which it binds its arguments. -/
theorem evaluate_bind_eq_ok_iff {t : Toml} : evaluate (.bind params args) = .ok t ↔
    ∃ env entries, Binds params args env ∧ IsTableOf env entries ∧ t = .table entries := by
  constructor
  · intro heval
    obtain ⟨o, st, _, hrun, -⟩ | ⟨e, _, -, -, herror⟩ := evaluate_cases (.bind params args)
    · obtain ⟨env, hbinds, -⟩ := outcome_bind_eq_ok_iff.1 ⟨st, hrun⟩
      obtain ⟨entries, htable, hok⟩ := hbinds.exists_table
      exact ⟨env, entries, hbinds, htable, Except.ok.inj (heval.symm.trans hok)⟩
    · cases heval.symm.trans herror
  · rintro ⟨env, entries, hbinds, htable, rfl⟩
    obtain ⟨entries', htable', hok⟩ := hbinds.exists_table
    rw [htable.unique htable', hok]

end Scenario

open Declaration in
/-- Declarations are accepted exactly if no name is twice in the list of the names of fixed
parameters, the last variadic name, and the names of parameters with defaults. The groups of the
declarations are then those of the signature, and declarations with the same groups are treated
alike. Otherwise the first name in the list that is equal to an earlier one is reported. So what is
bound to declared parameters has one binding for each of them, under which the value meant for it
is found, and no other. A scenario that binds arguments to parameters gives exactly the table of
what it binds, in which each declared name has one entry. -/
theorem declared_names_distinct :
    (∀ (function : String) (declarations : List (Declaration Value)),
      let groups : Signature := ⟨function, declarations.filterMap fixed?,
        (declarations.filterMap variadic?).getLast?, declarations.filterMap keyword?⟩
      (∀ s, Signature.declare function declarations = .ok s ↔ groups.names.Nodup ∧ s = groups) ∧
      (∀ e, Signature.declare function declarations = .error e ↔ ∃ before twice after,
        groups.names = before ++ twice :: after ∧ before.Nodup ∧ twice ∈ before ∧
        e = .duplicateParameter function twice) ∧
      ∀ declarations' : List (Declaration Value),
        declarations'.filterMap fixed? = declarations.filterMap fixed? →
        (declarations'.filterMap variadic?).getLast? =
          (declarations.filterMap variadic?).getLast? →
        declarations'.filterMap keyword? = declarations.filterMap keyword? →
        Signature.declare function declarations' = Signature.declare function declarations) ∧
    (∀ function declarations s arguments st env st',
      Signature.declare function declarations = .ok s →
      (s.bind arguments).run st = some (.ok env, st') →
      (env.bindings.map (·.1)).Nodup ∧
      env.bindings.length =
        s.fixed.length + (if s.variadic.isSome then 1 else 0) + s.defaults.length ∧
      (∀ name, (env.get? name).isSome ↔ name ∈ s.names) ∧
      ∃ values, (expansion arguments).run st = some (.ok values, st') ∧
        ∀ name v, env.get? name = some v ↔
          (name, some v) ∈ s.layout values (keywordsOf arguments)) ∧
    ∀ params args,
      (∀ t, Scenario.evaluate (.bind params args) = .ok t ↔ ∃ env entries,
        Scenario.Binds params args env ∧ Scenario.IsTableOf env entries ∧ t = .table entries) ∧
      ∀ t, Scenario.evaluate (.bind params args) = .ok t → ∃ entries : Toml.Entries,
        t = .table entries ∧ params.names.Nodup ∧ (entries.map (·.1)).Perm params.names := by
  refine ⟨fun function declarations => ⟨fun s => ?_, fun e => ?_, ?_⟩, ?_, fun params args =>
    ⟨fun t => Scenario.evaluate_bind_eq_ok_iff, fun t heval => ?_⟩⟩
  · rw [Signature.declare_eq_ok_iff, Signature.gather_eq]
    constructor
    · rintro ⟨rfl, hnodup⟩
      exact ⟨hnodup, rfl⟩
    · rintro ⟨hnodup, rfl⟩
      exact ⟨rfl, hnodup⟩
  · rw [Signature.declare_eq_error_iff, Signature.gather_eq]
  · intro declarations' hfixed hvariadic hkeyword
    rw [Signature.declare, Signature.declare, Signature.gather_eq, Signature.gather_eq, hfixed,
      hvariadic, hkeyword]
  · intro function declarations s arguments st env st' hs hbind
    have hnodup := Signature.nodup_of_declare hs
    have hnames := Signature.names_of_bind hnodup hbind
    have hkeys : (env.bindings.map (·.1)).Nodup := hnames ▸ hnodup
    obtain ⟨-, values, hvalues, -, hlayout⟩ := (Signature.bind_eq_ok_iff hnodup).1 hbind
    refine ⟨hkeys, ?_, fun name => ?_, values, hvalues, fun name v => ?_⟩
    · rw [← s.length_names, ← hnames, List.length_map]
    · rw [Environment.get?, Bindings.isSome_get?_iff, hnames]
    · rw [← hlayout, Bindings.mem_given_iff]
      exact ⟨Bindings.mem_of_get?, Bindings.get?_of_mem hkeys⟩
  · obtain ⟨env, entries, hbinds, htable, rfl⟩ := Scenario.evaluate_bind_eq_ok_iff.1 heval
    obtain ⟨hnames, hnodup⟩ := hbinds.names
    exact ⟨entries, rfl, hnodup, hnames ▸ htable.perm (hnames ▸ hnodup)⟩

/-- Declarations of all groups in mixed order, two of them variadic, give what declarations in
order give, and a call binds four names. What a scenario binds is a table, with the surplus as an
array. -/
theorem declared_names_distinct_mixed :
    let mixed : List (Declaration Value) :=
      [.keyword "c" (.int 16), .variadic "a", .fixed "a", .variadic "rest", .fixed "b"]
    let ordered : List (Declaration Value) :=
      [.fixed "a", .fixed "b", .variadic "rest", .keyword "c" (.int 16)]
    let s : Signature := ⟨"f", ["a", "b"], some "rest", [("c", .int 16)]⟩
    let arguments : List (Argument Value) := [.positional (.int 1), .positional (.int 2)]
    let env : Environment := ⟨[("a", .int 1), ("b", .int 2), ("rest", .tuple []), ("c", .int 16)]⟩
    let bound : Scenario.Operation := .bind ⟨"f", ["b"], some "a", []⟩
      [.positional (.integer 1), .positional (.integer 2)]
    let table : Toml.Entries := [("a", .array [.integer 2]), ("b", .integer 1)]
    Signature.declare "f" mixed = .ok s ∧
      Signature.declare "f" mixed = Signature.declare "f" ordered ∧
      (s.bind arguments).run .empty = some (.ok env, .empty) ∧ env.bindings.length = 4 ∧
      Scenario.evaluate bound = .ok (.table table) ∧ (table.map (·.1)).Perm ["b", "a"] := by
  intro mixed ordered s arguments env bound table
  obtain ⟨hdeclared, hbound, htable⟩ := declared_names_distinct
  obtain ⟨hok, -, hgroups⟩ := hdeclared "f" ordered
  have hordered : Signature.declare "f" ordered = .ok s := (hok s).2 ⟨by decide, rfl⟩
  have hmixed : Signature.declare "f" mixed = Signature.declare "f" ordered :=
    hgroups mixed rfl rfl rfl
  have hbind : (s.bind arguments).run .empty = some (.ok env, .empty) := rfl
  obtain ⟨-, hlength, -⟩ := hbound _ _ _ _ _ _ _ hordered hbind
  have heval : Scenario.evaluate bound = .ok (.table table) := rfl
  obtain ⟨entries, hentries, -, hperm⟩ := (htable _ _).2 _ heval
  cases hentries
  exact ⟨hmixed.trans hordered, hmixed, hbind, hlength, heval, hperm⟩

end Conformance
