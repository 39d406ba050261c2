import Conformance.Proofs.Call.Defaults
import Conformance.Proofs.Scenario.Convert
import Conformance.Proofs.Sequence.Ensures
import Conformance.Scenario.Evaluate

/-!
# Outcomes of operations

An operation embeds TOML values and converts all of them before it computes anything. So it is
refused only for one of them, and it gives an outcome only if all of them have values. What it
hands on are these values, their items, and lists and tuples of them, so all that it gives has a
TOML form.
-/

namespace Conformance

variable {P : Value → Prop}

theorem Signature.forall_mem_defaults_gather {declarations : List (Declaration Value)}
    (h : ∀ name default, .keyword name default ∈ declarations → P default) (name : String) :
    ∀ entry ∈ (gather name declarations).defaults, P entry.2 := by
  suffices hadd : ∀ s : Signature, (∀ entry ∈ s.defaults, P entry.2) →
      ∀ entry ∈ (declarations.foldl add s).defaults, P entry.2 from hadd _ nofun
  induction declarations with
  | nil => exact fun _ hs => hs
  | cons d rest ih =>
      intro s hs
      apply ih fun name default hmem => h name default (List.mem_cons_of_mem d hmem)
      cases d with
      | fixed | variadic => exact hs
      | keyword name default =>
          have hdefault := h name default List.mem_cons_self
          exact List.forall_mem_append.2 ⟨hs, List.forall_mem_singleton.2 hdefault⟩

theorem Scope.forall_of_get?_write {s : Scope} (hs : ∀ name v, s.get? name = some v → P v)
    {bindings : Bindings} (hbindings : ∀ binding ∈ bindings, P binding.2) {name : String}
    {v : Value} (hget : (s.write bindings).get? name = some v) : P v := by
  rw [get?_write, Option.or_eq_some_iff] at hget
  obtain hlatest | ⟨-, hget⟩ := hget
  · exact hbindings _ (Bindings.mem_of_latest? hlatest)
  · exact hs name v hget

theorem Scope.forall_of_get?_assignNames
    (hlist : ∀ items : List Value, (∀ v ∈ items, P v) → P (.list items)) {s s' : Scope}
    (hs : ∀ name v, s.get? name = some v → P v) {p : Pattern} {names : List String}
    (hassign : s.assignNames p names = .ok s') {name : String} {v : Value}
    (hget : s'.get? name = some v) : P v := by
  obtain ⟨values, bindings, hvalues, hshares, rfl⟩ := Scope.assignNames_eq_ok_iff.1 hassign
  refine forall_of_get?_write hs (hshares.forall_value hlist fun w hw => ?_) hget
  have hread : some w ∈ names.map s.get? := by
    rw [hvalues]
    exact List.mem_map_of_mem hw
  obtain ⟨other, -, hother⟩ := List.mem_map.1 hread
  exact hs other w hother

namespace Scenario

/-! ## Embedded values -/

/-- The TOML values in the parameters of a function: the defaults. -/
def Params.embedded (params : Params) : List Toml := params.defaults.map (·.2)

/-- The TOML values in an argument. -/
def Arg.embedded : Arg → List Toml
  | positional t | spread t | keyword _ t => [t]
  | spreadLazy items => items

/-- The TOML values in an operation. -/
def Operation.embedded : Operation → List Toml
  | str t => [t]
  | join _ items _ => items
  | bind params args | call params args _ => params.embedded ++ args.flatMap Arg.embedded
  | unpack _ values _ => values
  | assign _ locals _ => locals.map (·.2)
  | _ => []

/-- All of some TOML values have a value. -/
def AllConvert (ts : List Toml) : Prop := ∀ t ∈ ts, ∃ v, toValue t = .ok v

/-- An error is a fault, or it is the refusal of one of some TOML values. -/
inductive EvalError.Arises (ts : List Toml) : EvalError → Prop
  | fault (e : Fault) : Arises ts (.fault e)
  | refused {t : Toml} {cause : Nonsense} (ht : t ∈ ts) (h : toValue t = .error cause) :
      Arises ts (.invalid cause)

theorem EvalError.Arises.mono {ts ts' : List Toml} {e : EvalError} (h : e.Arises ts)
    (hsub : ∀ t ∈ ts, t ∈ ts') : e.Arises ts' := by
  cases h with
  | fault e => exact .fault e
  | refused ht hcause => exact .refused (hsub _ ht) hcause

/-! ## Conversions of embedded values -/

theorem ofResult_ensures {α : Type} {Q : α → Prop} {r : Except Fault α} {ts : List Toml}
    (h : ∀ a, r = .ok a → Q a) : Ensures Q (EvalError.Arises ts) (ofResult r) := by
  cases r with
  | ok a => exact Ensures.pure (h a rfl)
  | error e => exact Ensures.throw (.fault e)

theorem ofRun_ensures {α : Type} {Q : α → Prop} {x : Run α} {ts : List Toml}
    (hx : Ensures Q (fun _ => True) x) : Ensures Q (EvalError.Arises ts) (ofRun x) := by
  intro s r s' hrun
  obtain ⟨⟨r₀, s₁⟩, hfirst, hrest⟩ := Option.bind_eq_some_iff.1 hrun
  cases hrest
  have hQ := (hx s r₀ _ hfirst).1
  cases r₀ with
  | ok a =>
      refine ⟨?_, nofun⟩
      rintro _ ⟨⟩
      exact hQ a rfl
  | error e =>
      refine ⟨nofun, ?_⟩
      rintro _ ⟨⟩
      exact .fault e

theorem ofConversion_ensures {α : Type} {r : Except Nonsense α} {ts : List Toml}
    (h : ∀ cause, r = .error cause → ∃ t ∈ ts, toValue t = .error cause) :
    Ensures (fun a => r = .ok a) (EvalError.Arises ts) (ofConversion r) := by
  cases r with
  | ok a => exact Ensures.pure rfl
  | error cause =>
      obtain ⟨t, ht, hcause⟩ := h cause rfl
      exact Ensures.throw (.refused ht hcause)

theorem mapM_ensures {α β : Type} {f : α → Eval β} {R : α → β → Prop} {embedded : α → List Toml}
    {as : List α} {ts : List Toml} (hts : ∀ a ∈ as, ∀ t ∈ embedded a, t ∈ ts)
    (hf : ∀ a ∈ as, Ensures (R a) (EvalError.Arises (embedded a)) (f a)) :
    Ensures (List.Forall₂ R as) (EvalError.Arises ts) (as.mapM f) := by
  refine (Ensures.mapM hf).mono (fun _ => id) ?_
  rintro e ⟨a, ha, he⟩
  exact he.mono (hts a ha)

theorem exists_mem_of_toValues_eq_error {items : List Toml} {cause : Nonsense}
    (h : toValues items = .error cause) : ∃ t ∈ items, toValue t = .error cause := by
  rw [toValues_eq_mapM, mapM_eq_error_iff] at h
  obtain ⟨before, t, after, rfl, -, ht⟩ := h
  exact ⟨t, by simp, ht⟩

theorem allConvert_of_toValues {items : List Toml} {values : List Value}
    (h : toValues items = .ok values) : AllConvert items := by
  rw [toValues_eq_mapM] at h
  exact exists_mapM_eq_ok_iff.1 ⟨values, h⟩

theorem hasToml_of_toValue {t : Toml} {v : Value} (h : toValue t = .ok v) : HasToml v :=
  ⟨t, ofValue_of_toValue h⟩

theorem toValue_ensures (t : Toml) :
    Ensures (fun v => toValue t = .ok v) (EvalError.Arises [t]) (ofConversion (toValue t)) :=
  ofConversion_ensures fun _ h => ⟨t, List.mem_singleton_self t, h⟩

theorem toValues_ensures (items : List Toml) :
    Ensures (fun values => toValues items = .ok values) (EvalError.Arises items)
      (ofConversion (toValues items)) :=
  ofConversion_ensures fun _ => exists_mem_of_toValues_eq_error

theorem sequence_ensures (items : List Toml) :
    Ensures (fun v => ∃ values, v = .list values ∧ toValues items = .ok values)
      (EvalError.Arises items) (sequence items false) :=
  (toValues_ensures items).bind fun values hvalues => Ensures.pure ⟨values, rfl, hvalues⟩

/-- The argument that spreads the array of the values that a generator would give. -/
def Arg.eager : Arg → Arg
  | spreadLazy items => spread (.array items)
  | arg => arg

theorem argument_ensures (arg : Arg) :
    Ensures (fun a => HasToml a.value ∧ AllConvert arg.embedded)
      (EvalError.Arises arg.embedded) (argument arg.eager) := by
  have hgiven : ∀ {t : Toml} {v : Value}, toValue t = .ok v → HasToml v ∧ AllConvert [t] :=
    fun h => ⟨hasToml_of_toValue h, List.forall_mem_singleton.2 ⟨_, h⟩⟩
  cases arg with
  | positional t | spread t | keyword name t =>
      exact (toValue_ensures t).bind fun v hv => Ensures.pure (hgiven hv)
  | spreadLazy items =>
      have harray : Ensures (fun v => HasToml v ∧ AllConvert items) (EvalError.Arises items)
          (ofConversion (toValue (.array items))) := by
        rw [toValue, ofConversion_map]
        refine (toValues_ensures items).bind fun values hvalues => Ensures.pure ⟨?_, ?_⟩
        · exact hasToml_list (hasToml_of_toValues hvalues)
        · exact allConvert_of_toValues hvalues
      exact harray.bind fun v hv => Ensures.pure hv

theorem arguments_ensures (args : List Arg) :
    Ensures (fun as => (∀ a ∈ as, HasToml a.value) ∧ AllConvert (args.flatMap Arg.embedded))
      (EvalError.Arises (args.flatMap Arg.embedded)) ((args.map Arg.eager).mapM argument) := by
  rw [List.mapM_map]
  refine (mapM_ensures ?_ fun arg _ => argument_ensures arg).mono ?_ fun _ => id
  · exact fun arg harg t ht => List.mem_flatMap.2 ⟨arg, harg, ht⟩
  · intro as has
    refine ⟨forall_mem_of_forall₂ (fun _ _ h => h.1) has, fun t ht => ?_⟩
    obtain ⟨arg, harg, ht⟩ := List.mem_flatMap.1 ht
    exact forall_mem_of_forall₂ (fun _ _ h => h.2) has.flip arg harg t ht

theorem declaration_ensures (entry : String × Toml) :
    Ensures (fun d => (∀ name default, d = .keyword name default → HasToml default) ∧
      ∃ v, toValue entry.2 = .ok v) (EvalError.Arises [entry.2]) (defaultDeclaration entry) := by
  refine (toValue_ensures entry.2).bind fun v hv => Ensures.pure ⟨?_, v, hv⟩
  rintro name default ⟨⟩
  exact hasToml_of_toValue hv

/-- The names of a signature are distinct, and its defaults have TOML forms. -/
theorem signature_ensures (params : Params) :
    Ensures (fun s => (s.names.Nodup ∧ ∀ entry ∈ s.defaults, HasToml entry.2) ∧
      AllConvert params.embedded) (EvalError.Arises params.embedded) (signature params) := by
  have hmem : ∀ entry ∈ params.defaults, ∀ t ∈ [entry.2], t ∈ params.embedded :=
    fun _ hentry => List.forall_mem_singleton.2 (List.mem_map_of_mem hentry)
  refine (mapM_ensures hmem fun entry _ => declaration_ensures entry).bind
    fun defaults hdefaults => ofResult_ensures fun s hs => ?_
  obtain ⟨rfl, hnodup⟩ := Signature.declare_eq_ok_iff.1 hs
  refine ⟨⟨hnodup, Signature.forall_mem_defaults_gather (fun name default hmem => ?_) _⟩, ?_⟩
  · have hkeyword : .keyword name default ∈ defaults := by simpa using hmem
    exact forall_mem_of_forall₂ (fun _ _ h => h.1) hdefaults _ hkeyword name default rfl
  · rw [AllConvert, Params.embedded, List.forall_mem_map]
    exact forall_mem_of_forall₂ (fun _ _ h => h.2) hdefaults.flip

/-- The elements of a value that has a TOML form have one, too. -/
theorem materialize_ensures {v : Value} (hv : HasToml v) :
    Ensures (fun values => ∀ w ∈ values, HasToml w) (fun _ => True) v.materialize := by
  cases v with
  | str t =>
      refine Ensures.pure fun w hw => ?_
      obtain ⟨c, -, rfl⟩ := List.mem_map.1 hw
      exact ⟨_, rfl⟩
  | list items | tuple items => exact Ensures.pure ((hasToml_of_items? rfl).1 hv)
  | lazy h =>
      obtain ⟨t, ht⟩ := hv
      cases ht
  | nothing | bool | int => exact Ensures.throw trivial

theorem elements_ensures {a : Argument Value} (ha : HasToml a.value) :
    Ensures (fun values => ∀ v ∈ values, HasToml v) (fun _ => True) a.elements := by
  cases a with
  | positional v => exact Ensures.pure (List.forall_mem_singleton.2 ha)
  | keyword name v => exact Ensures.pure nofun
  | spread v => exact materialize_ensures ha

theorem expansion_ensures {args : List (Argument Value)} (hargs : ∀ a ∈ args, HasToml a.value) :
    Ensures (fun values => ∀ v ∈ values, HasToml v) (fun _ => True) (expansion args) := by
  rw [expansion, ← bind_pure_comp]
  refine ((Ensures.mapM fun a ha => elements_ensures (hargs a ha)).mono (fun _ => id)
    fun _ _ => trivial).bind fun values hvalues => Ensures.pure ?_
  intro v hv
  obtain ⟨own, hown, hv⟩ := List.mem_flatten.1 hv
  exact forall_mem_of_forall₂ (P := fun own : List Value => ∀ v ∈ own, HasToml v)
    (fun _ _ h => h) hvalues own hown v hv

theorem bind_ensures {s : Signature} (hnodup : s.names.Nodup)
    (hdefaults : ∀ entry ∈ s.defaults, HasToml entry.2) {args : List (Argument Value)}
    (hargs : ∀ a ∈ args, HasToml a.value) :
    Ensures (fun env => ∀ binding ∈ env.bindings, HasToml binding.2) (fun _ => True)
      (s.bind args) := by
  intro st r st' hrun
  refine ⟨?_, fun _ _ => trivial⟩
  rintro env rfl ⟨name, v⟩ hmem
  obtain ⟨-, values, hvalues, -, hlayout⟩ := (Signature.bind_eq_ok_iff hnodup).1 hrun
  rw [← Bindings.mem_given_iff, hlayout] at hmem
  refine Signature.forall_mem_layout (fun items => (hasToml_of_items? rfl).2) ?_ ?_ ?_ hmem
  · exact (expansion_ensures hargs st _ st' hvalues).1 values rfl
  · intro keyword hkeyword
    obtain ⟨a, ha, hak⟩ := List.mem_filterMap.1 hkeyword
    cases a with
    | keyword name v =>
        cases hak
        exact hargs _ ha
    | positional | spread => cases hak
  · exact fun entry hentry => hdefaults entry (Signature.mem_taken_iff.1 hentry).1

theorem call_ensures (s : Signature) (args : List (Argument Value)) (forward : Bool) :
    let f : Function := .summing s
    Ensures HasToml (fun _ => True) ((if forward then forwarder f else f).call args) := by
  have hsum : ∀ args, Ensures HasToml (fun _ => True) ((Function.summing s).call args) :=
    fun args => (Ensures.any (s.bind args)).bind fun _ _ => Ensures.pure ⟨_, rfl⟩
  cases forward with
  | false => exact hsum args
  | true => exact (Ensures.any _).bind fun _ _ => hsum _

/-- Unpacking a list uses no sequences. -/
theorem ofRun_unpackValue_list (p : Pattern) (values : List Value) :
    ofRun (p.unpackValue (.list values)) = ofResult (p.unpack values) := by
  rw [Pattern.unpackValue, Value.materialize, pure_bind]
  cases p.unpack values <;> rfl

theorem written_eq_ok_iff {scope : Scope} {p : Pattern} {w : Bindings} :
    written scope p = .ok w ↔ List.Forall₂ (fun target binding =>
      target.name = binding.1 ∧ scope.get? target.name = some binding.2) p.targets w := by
  rw [written, mapM_eq_ok_iff]
  simp only [map_mk_eq_ok_iff, Scope.load_eq_ok_iff]

theorem locals_ensures (locals : Toml.Entries) :
    Ensures (fun bindings : Bindings => (∀ binding ∈ bindings, HasToml binding.2) ∧
        AllConvert (locals.map (·.2)))
      (EvalError.Arises (locals.map (·.2))) (ofConversion (locals.mapM localBinding)) := by
  refine (ofConversion_ensures ?_).mono ?_ fun _ => id
  · intro cause h
    obtain ⟨before, entry, after, rfl, -, hentry⟩ := mapM_eq_error_iff.1 h
    exact ⟨entry.2, by simp, map_eq_error_iff.1 hentry⟩
  · intro bindings h
    have hentries := (mapM_eq_ok_iff.1 h).imp fun _ _ hentry => (map_mk_eq_ok_iff.1 hentry).2
    refine ⟨forall_mem_of_forall₂ (P := fun binding : String × Value => HasToml binding.2)
      (fun _ _ => hasToml_of_toValue) hentries, ?_⟩
    rw [AllConvert, List.forall_mem_map]
    exact forall_mem_of_forall₂ (fun _ entry h => ⟨_, h⟩) hentries.flip

/-! ## Whole operations -/

/-- The operation that feeds lists wherever this one feeds generators. -/
def Operation.eager : Operation → Operation
  | join sep items _ => join sep items false
  | bind params args => bind params (args.map Arg.eager)
  | call params args forward => call params (args.map Arg.eager) forward
  | unpack targets values _ => unpack targets values false
  | op => op

/-- The values that an outcome consists of. -/
def Outcome.values : Outcome → List Value
  | value v => [v]
  | bindings b => b.map (·.2)

/-- All values of an outcome have TOML forms. -/
def Outcome.HasToml (o : Outcome) : Prop := ∀ v ∈ o.values, Scenario.HasToml v

/-- The TOML value of an outcome without sequences. -/
def Outcome.form : Outcome → Except Nonsense Toml
  | value v => ofValue v
  | bindings b => ofBindings b

theorem Outcome.HasToml.exists_form {o : Outcome} (ho : o.HasToml) : ∃ t, o.form = .ok t := by
  cases o with
  | value v => exact ho v (List.mem_singleton_self v)
  | bindings b =>
      obtain ⟨entries, htable, -⟩ := exists_ofBindings (List.forall_mem_map.1 ho)
      exact ⟨.table entries, htable⟩

/-- An outcome with TOML forms is converted without any computation on sequences. -/
theorem Outcome.HasToml.toToml_eq {o : Outcome} (ho : o.HasToml) :
    o.toToml = ofConversion o.form := by
  cases o with
  | value v => exact toToml_of_isLazyFree (ho v (List.mem_singleton_self v)).isLazyFree
  | bindings b =>
      exact bindingsToToml_of_isLazyFree fun binding hmem =>
        (List.forall_mem_map.1 ho binding hmem).isLazyFree

theorem Outcome.hasToml_value {v : Value} (hv : Scenario.HasToml v) : (Outcome.value v).HasToml :=
  List.forall_mem_singleton.2 hv

theorem Outcome.hasToml_texts (parts : List Text) :
    (Outcome.value (.list (parts.map .str))).HasToml := by
  apply hasToml_value
  apply hasToml_list
  rw [List.forall_mem_map]
  exact fun t _ => ⟨_, rfl⟩

theorem Outcome.hasToml_bindings {b : Bindings} (hb : ∀ binding ∈ b, Scenario.HasToml binding.2) :
    (Outcome.bindings b).HasToml := List.forall_mem_map.2 hb

/-- An operation that feeds lists only fails with a fault or with the refusal of an embedded TOML
value, and if it does not fail, all these have values and what it gives has a TOML form. -/
theorem Operation.eager_ensures (op : Operation) :
    Ensures (fun o => o.HasToml ∧ AllConvert op.embedded) (EvalError.Arises op.embedded)
      op.eager.outcome := by
  cases op with
  | bind params args =>
      refine ((signature_ensures params).mono (fun _ => id) fun _ he =>
        he.mono fun t => List.mem_append_left _).bind fun s hs => ?_
      refine ((arguments_ensures args).mono (fun _ => id) fun _ he =>
        he.mono fun t => List.mem_append_right _).bind fun as has => ?_
      refine (ofRun_ensures (bind_ensures hs.1.1 hs.1.2 has.1)).bind fun env henv => ?_
      exact Ensures.pure ⟨Outcome.hasToml_bindings henv, List.forall_mem_append.2 ⟨hs.2, has.2⟩⟩
  | call params args forward =>
      refine ((signature_ensures params).mono (fun _ => id) fun _ he =>
        he.mono fun t => List.mem_append_left _).bind fun s hs => ?_
      refine ((arguments_ensures args).mono (fun _ => id) fun _ he =>
        he.mono fun t => List.mem_append_right _).bind fun as has => ?_
      refine (ofRun_ensures (call_ensures s as forward)).bind fun v hv => ?_
      exact Ensures.pure ⟨Outcome.hasToml_value hv, List.forall_mem_append.2 ⟨hs.2, has.2⟩⟩
  | join sep items lazy =>
      refine (sequence_ensures items).bind ?_
      rintro _ ⟨values, rfl, hvalues⟩
      refine (ofRun_ensures (Ensures.any _)).bind fun t _ => Ensures.pure ?_
      exact ⟨Outcome.hasToml_value ⟨_, rfl⟩, allConvert_of_toValues hvalues⟩
  | unpack targets items lazy =>
      refine (ofResult_ensures fun _ _ => trivial).bind fun p _ => ?_
      refine (sequence_ensures items).bind ?_
      rintro _ ⟨values, rfl, hvalues⟩
      rw [ofRun_unpackValue_list]
      refine (ofResult_ensures fun b hb => hb).bind fun b hb => Ensures.pure ?_
      have hshares := Pattern.unpack_eq_ok_iff.1 hb
      exact ⟨Outcome.hasToml_bindings (hasToml_of_shares hshares (hasToml_of_toValues hvalues)),
        allConvert_of_toValues hvalues⟩
  | assign targets locals sources =>
      refine (ofResult_ensures fun _ _ => trivial).bind fun p _ => ?_
      refine (locals_ensures locals).bind fun bindings hbindings => ?_
      refine (ofResult_ensures fun scope h => h).bind fun scope hscope => ?_
      refine (ofResult_ensures fun w hw => hw).bind fun w hw => Ensures.pure ?_
      -- What is read back may be older than the assignment, so all of the scope has TOML forms.
      have hempty : ∀ name v, Scope.empty.get? name = some v → Scenario.HasToml v := by
        rintro name v ⟨⟩
      have hvalues : ∀ name v, scope.get? name = some v → Scenario.HasToml v := fun name v =>
        Scope.forall_of_get?_assignNames (fun _ => hasToml_list)
          (fun _ _ => Scope.forall_of_get?_write hempty hbindings.1) hscope
      refine ⟨Outcome.hasToml_bindings ?_, hbindings.2⟩
      exact forall_mem_of_forall₂ (P := fun binding : String × Value => Scenario.HasToml binding.2)
        (fun _ _ h => hvalues _ _ h.2) (written_eq_ok_iff.1 hw)
  | str t =>
      refine (toValue_ensures t).bind fun v hv => Ensures.pure ?_
      exact ⟨Outcome.hasToml_value ⟨_, rfl⟩, List.forall_mem_singleton.2 ⟨v, hv⟩⟩
  | split t sep =>
      refine (ofResult_ensures fun _ _ => trivial).bind fun parts _ => Ensures.pure ?_
      exact ⟨Outcome.hasToml_texts parts, nofun⟩
  | words t => exact Ensures.pure ⟨Outcome.hasToml_texts t.words, nofun⟩
  | index | slice | replicate =>
      refine (ofResult_ensures fun _ _ => trivial).bind fun t _ => Ensures.pure ?_
      exact ⟨Outcome.hasToml_value ⟨_, rfl⟩, nofun⟩
  | _ => exact Ensures.pure ⟨Outcome.hasToml_value ⟨_, rfl⟩, nofun⟩

end Scenario

end Conformance
