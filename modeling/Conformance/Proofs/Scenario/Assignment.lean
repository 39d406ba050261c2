import Conformance.Proofs.Scenario.Feeding
import Conformance.Scenario.Decode

/-!
# Assigning in a scenario

A scenario that assigns names through a scope gives the same table as one that unpacks the values
of these names, or fails with it. Reading the targets back gives each of them the value that was
written to it last, which is the one that counts in the table of the bindings.
-/

namespace Conformance

namespace Scenario

theorem liftExcept_bind {ε α β : Type} (x : Except ε α) (f : α → Except ε β) :
    (liftExcept (x >>= f) : ExceptT ε (StateT Store Option) β) =
      liftExcept x >>= fun a => liftExcept (f a) := by
  cases x <;> rfl

/-- An operation whose outcome takes no computation on sequences gives the form of its outcome. -/
theorem evaluate_eq_of_outcome {op : Operation} {r : Except EvalError Outcome}
    (houtcome : op.eager.outcome = liftExcept r) :
    evaluate op = r >>= fun o => o.form.mapError .invalid := by
  have hrun : op.eager.run = liftExcept (r >>= fun o => o.form.mapError .invalid) := by
    rw [liftExcept_bind, Operation.run, houtcome]
    cases r with
    | error e => rfl
    | ok o =>
        have ho : op.eager.outcome.run .empty = some (.ok o, .empty) := by rw [houtcome]; rfl
        exact ((op.eager_ensures .empty _ .empty ho).1 o rfl).1.toToml_eq
  have hlift : op.eager.run.run .empty =
      some (r >>= fun o => o.form.mapError .invalid, .empty) := by
    rw [hrun, Run.run_lift]
  rw [← evaluate_eager]
  simp only [evaluate, hlift, Option.get_some]

/-- What unpacking gives. The pattern is read first, then the values are converted. -/
theorem evaluate_unpack (targets : String) (items : List Toml) (lazy : Bool) :
    evaluate (.unpack targets items lazy) = (do
      let p ← (Pattern.parse targets).mapError .fault
      let values ← (toValues items).mapError .invalid
      let bindings ← (p.unpack values).mapError .fault
      (ofBindings bindings).mapError .invalid) := by
  have houtcome : (Operation.unpack targets items lazy).eager.outcome = liftExcept (do
      let p ← (Pattern.parse targets).mapError EvalError.fault
      let values ← (toValues items).mapError .invalid
      let bindings ← (p.unpack values).mapError .fault
      return .bindings bindings) := by
    simp only [liftExcept_bind, Operation.eager, Operation.outcome, sequence, Bool.false_eq_true,
      if_false, ofRun_unpackValue_list, ofResult, ofConversion, bind_assoc, pure_bind]
    rfl
  rw [evaluate_eq_of_outcome houtcome]
  simp only [bind_assoc, pure_bind, Outcome.form]

/-- What an assignment gives. The pattern is read first, then all locals are converted. -/
theorem evaluate_assign (targets : String) (locals : Toml.Entries) (sources : List String) :
    evaluate (.assign targets locals sources) = (do
      let p ← (Pattern.parse targets).mapError .fault
      let values ← (locals.mapM localBinding).mapError .invalid
      let scope ← ((Scope.empty.write values).assignNames p sources).mapError .fault
      let bindings ← (written scope p).mapError .fault
      (ofBindings bindings).mapError .invalid) := by
  have houtcome : (Operation.assign targets locals sources).eager.outcome = liftExcept (do
      let p ← (Pattern.parse targets).mapError EvalError.fault
      let values ← (locals.mapM localBinding).mapError .invalid
      let scope ← ((Scope.empty.write values).assignNames p sources).mapError .fault
      let bindings ← (written scope p).mapError .fault
      return .bindings bindings) := by
    simp only [liftExcept_bind, Operation.eager, Operation.outcome, ofResult, ofConversion]
    rfl
  rw [evaluate_eq_of_outcome houtcome]
  simp only [bind_assoc, pure_bind, Outcome.form]

theorem exists_written_iff {scope : Scope} {p : Pattern} :
    (∃ w, written scope p = .ok w) ↔ ∀ name ∈ p.targets.map (·.name), (scope.get? name).isSome := by
  rw [List.forall_mem_map]
  simp only [written, exists_mapM_eq_ok_iff, exists_map_mk_eq_ok_iff, Scope.load_eq_ok_iff,
    Option.isSome_iff_exists]

/-- Reading back the targets that were written gives each name its last value. -/
theorem written_write {p : Pattern} {values : List Value} {bindings : Bindings}
    (h : Shares p.targets values bindings) (scope : Scope) :
    ∃ w, written (scope.write bindings) p = .ok w ∧ (∀ binding ∈ w, binding ∈ bindings) ∧
      ∀ name, Bindings.latest? w name = bindings.latest? name := by
  have hbound : ∀ name ∈ p.targets.map (·.name), (bindings.latest? name).isSome ∧
      (scope.write bindings).get? name = bindings.latest? name := by
    intro name hname
    rw [← h.names_eq, ← Bindings.isSome_latest?_iff] at hname
    obtain ⟨v, hv⟩ := Option.isSome_iff_exists.1 hname
    exact ⟨hname, by rw [Scope.get?_write, hv, Option.some_or]⟩
  obtain ⟨w, hw⟩ : ∃ w, written (scope.write bindings) p = .ok w := by
    apply exists_written_iff.2
    intro name hname
    rw [(hbound name hname).2]
    exact (hbound name hname).1
  have hread := written_eq_ok_iff.1 hw
  have hnames : p.targets.map (·.name) = w.map (·.1) :=
    map_eq_map_of_forall₂ (hread.imp fun _ _ related => related.1)
  have hlast : ∀ binding ∈ w, bindings.latest? binding.1 = some binding.2 := by
    intro binding hbinding
    have hget : (scope.write bindings).get? binding.1 = some binding.2 :=
      forall_mem_of_forall₂ (fun _ _ related => related.1 ▸ related.2) hread binding hbinding
    rw [← hget, (hbound binding.1 ?_).2]
    rw [hnames]
    exact List.mem_map_of_mem hbinding
  refine ⟨w, hw, fun binding hbinding => Bindings.mem_of_latest? (hlast binding hbinding), ?_⟩
  intro name
  cases hlatest : Bindings.latest? w name with
  | none =>
      rw [Bindings.latest?_eq_none_iff, ← hnames, ← h.names_eq] at hlatest
      exact ((bindings.latest?_eq_none_iff name).2 hlatest).symm
  | some v => exact (hlast (name, v) (Bindings.mem_of_latest? hlatest)).symm

/-- Targets that are read back have the table of the bindings that were written. -/
theorem ofBindings_written {p : Pattern} {values : List Value} {bindings : Bindings}
    (h : Shares p.targets values bindings) (hvalues : ∀ v ∈ values, HasToml v) (scope : Scope) :
    ∃ w, written (scope.write bindings) p = .ok w ∧ ofBindings w = ofBindings bindings := by
  obtain ⟨w, hw, hmem, hlatest⟩ := written_write h scope
  have hbindings := hasToml_of_shares h hvalues
  refine ⟨w, hw, ofBindings_congr ?_ hbindings hlatest⟩
  exact fun binding hbinding => hbindings binding (hmem binding hbinding)

/-- Reading names in the scope of some locals gives the values of their TOML values. -/
theorem map_get?_write_locals {locals : Toml.Entries} (hkeys : (locals.map (·.1)).Nodup)
    {bindings : Bindings} (hbindings : locals.mapM localBinding = .ok bindings)
    {sources : List String} {items : List Toml} (hitems : sources.map locals.get? = items.map some)
    {values : List Value} (hvalues : toValues items = .ok values) :
    sources.map (Scope.empty.write bindings).get? = values.map some := by
  have hlocals : List.Forall₂ (fun entry binding =>
      entry.1 = binding.1 ∧ toValue entry.2 = .ok binding.2) locals bindings :=
    (mapM_eq_ok_iff.1 hbindings).imp fun _ _ h => map_mk_eq_ok_iff.1 h
  have hnames : locals.map (·.1) = bindings.map (·.1) :=
    map_eq_map_of_forall₂ (hlocals.imp fun _ _ related => related.1)
  have hget : ∀ name, (Scope.empty.write bindings).get? name =
      (locals.get? name).bind fun t => (toValue t).toOption := by
    intro name
    have hrel : Option.Rel (fun t v => toValue t = .ok v) (locals.get? name)
        (bindings.get? name) := rel_find? hlocals name
    rw [Scope.get?_write, Bindings.latest?_eq_get? (hnames ▸ hkeys)]
    generalize locals.get? name = t?, bindings.get? name = v? at hrel
    cases hrel with
    | none => rfl
    | some ht =>
        rw [Option.bind_some, ht]
        rfl
  have hforms : items.map (fun t => (toValue t).toOption) = values.map some := by
    rw [toValues_eq_mapM, mapM_eq_ok_iff] at hvalues
    exact map_eq_map_of_forall₂ (hvalues.imp fun t v ht => by rw [ht]; rfl)
  calc sources.map (Scope.empty.write bindings).get?
      = (sources.map locals.get?).map (·.bind fun t => (toValue t).toOption) := by
        rw [List.map_map]
        exact List.map_congr_left fun name _ => hget name
    _ = items.map fun t => (toValue t).toOption := by
        rw [hitems, List.map_map]
        rfl
    _ = values.map some := hforms

/-- The values of locals can be converted if all locals can. -/
theorem exists_toValues_of_locals {locals : Toml.Entries}
    (hforms : ∀ entry ∈ locals, ∃ v, toValue entry.2 = .ok v) {sources : List String}
    {items : List Toml} (hitems : sources.map locals.get? = items.map some) :
    ∃ values, toValues items = .ok values := by
  rw [toValues_eq_mapM]
  apply exists_mapM_eq_ok_iff.2
  intro item hitem
  have hread : some item ∈ sources.map locals.get? := by
    rw [hitems]
    exact List.mem_map_of_mem hitem
  obtain ⟨name, -, hget⟩ := List.mem_map.1 hread
  exact hforms _ (Toml.Entries.mem_of_get? hget)

theorem nodup_of_decodeLocals {t : Toml} {locals : Toml.Entries}
    (h : decodeLocals t = some locals) : (locals.map (·.1)).Nodup := by
  unfold decodeLocals at h
  split at h
  · cases h
    exact List.nodup_singleton _
  · obtain ⟨entries, -, h⟩ := Option.bind_eq_some_iff.1 h
    obtain ⟨decoded, -, h⟩ := Option.bind_eq_some_iff.1 h
    cases h
    exact (Toml.Entries.sorted_ofList decoded).nodup

theorem seq_eq_some_iff {α β : Type} {f : Option (α → β)} {a : Option α} {b : β} :
    f <*> a = some b ↔ ∃ g, f = some g ∧ ∃ x, a = some x ∧ g x = b := by
  cases f <;> cases a <;> simp [Seq.seq]

theorem nodup_of_reader? {op : String} {reader : Reader} {entries : Toml.Entries}
    {targets : String} {locals : Toml.Entries} {sources : List String}
    (hreader : reader? op = some reader)
    (h : reader.decode entries = some (.assign targets locals sources)) :
    (locals.map (·.1)).Nodup := by
  unfold reader? at hreader
  split at hreader
  case h_23 =>
    cases hreader
    simp only [bind, Option.bind_eq_some_iff, pure, Option.some.injEq, Operation.assign.injEq] at h
    obtain ⟨-, -, given, hgiven, -, -, -, rfl, -⟩ := h
    unfold Toml.field? at hgiven
    cases hget : entries.get? "locals" with
    | none =>
        rw [hget] at hgiven
        cases hgiven
        exact List.nodup_nil
    | some t =>
        rw [hget] at hgiven
        obtain ⟨decoded, hdecoded, rfl⟩ := Option.map_eq_some_iff.1 hgiven
        exact nodup_of_decodeLocals hdecoded
  case h_24 => cases hreader
  -- The other readers give other operations.
  all_goals
    cases hreader
    simp [onText, onTexts, onTextAndInt, onSet, Option.bind_eq_some_iff, seq_eq_some_iff] at h

/-- An assignment that is written down has each key of its locals once. -/
theorem nodup_of_decodeOperation {t : Toml} {targets : String} {locals : Toml.Entries}
    {sources : List String} (h : decodeOperation t = some (.assign targets locals sources)) :
    (locals.map (·.1)).Nodup := by
  unfold decodeOperation at h
  split at h
  · obtain ⟨op, -, h⟩ := Option.bind_eq_some_iff.1 h
    obtain ⟨reader, hreader, h⟩ := Option.bind_eq_some_iff.1 h
    exact nodup_of_reader? hreader h
  · obtain ⟨reader, hreader, h⟩ := Option.bind_eq_some_iff.1 h
    obtain ⟨fields, -, h⟩ := Option.bind_eq_some_iff.1 h
    exact nodup_of_reader? hreader h
  · cases h

/-- A scenario has a table of locals, each key of which is there once, as in every scenario that is
written down, and each value of which can be converted. It assigns the values of some of the keys
to targets, and gives what unpacking these values into the targets gives, whether they come lazily
or not: the same table, or the same failure. -/
theorem evaluate_assign_eq_unpack {locals : Toml.Entries} (hkeys : (locals.map (·.1)).Nodup)
    (hforms : ∀ entry ∈ locals, ∃ v, toValue entry.2 = .ok v) {sources : List String}
    {items : List Toml} (hitems : sources.map locals.get? = items.map some) (targets : String)
    (lazy : Bool) : evaluate (.assign targets locals sources) =
      evaluate (.unpack targets items lazy) := by
  obtain ⟨bindings, hbindings⟩ : ∃ bindings, locals.mapM localBinding = .ok bindings :=
    exists_mapM_eq_ok_iff.2 fun entry hentry => exists_map_mk_eq_ok_iff.2 (hforms entry hentry)
  obtain ⟨values, hvalues⟩ := exists_toValues_of_locals hforms hitems
  rw [evaluate_assign, evaluate_unpack, hbindings, hvalues]
  cases Pattern.parse targets with
  | error e => rfl
  | ok p =>
      have hassign : (Scope.empty.write bindings).assignNames p sources =
          (p.unpack values).map (Scope.empty.write bindings).write := by
        rw [Scope.assignNames, Scope.mapM_load_eq_ok_iff.2
          (map_get?_write_locals hkeys hbindings hitems hvalues)]
        rfl
      simp only [Except.mapError, bind, Except.bind, hassign]
      cases hunpack : p.unpack values with
      | error e => rfl
      | ok result =>
          have hshares := Pattern.unpack_eq_ok_iff.1 hunpack
          obtain ⟨w, hw, htable⟩ := ofBindings_written hshares (hasToml_of_toValues hvalues)
            (Scope.empty.write bindings)
          simp only [Except.map, hw, htable]

/-- A target that is there twice, and sources that are written. -/
theorem evaluate_assign_eq_unpack_swapped :
    let locals : Toml.Entries := [("a", .integer 1), ("b", .string "x"), ("c", .array [])]
    let items : List Toml := [.string "x", .integer 1, .array [], .integer 1]
    evaluate (.assign "a, *b, a" locals ["b", "a", "c", "a"]) =
        evaluate (.unpack "a, *b, a" items true) ∧
      evaluate (.unpack "a, *b, a" items true) =
        .ok (.table [("a", .integer 1), ("b", .array [.integer 1, .array []])]) := by
  intro locals items
  have hwritten : decodeOperation (.table [("op", .string "assign"),
      ("targets", .string "a, *b, a"), ("locals", .table locals),
      ("rhs", .array [.string "b", .string "a", .string "c", .string "a"])]) =
        some (.assign "a, *b, a" locals ["b", "a", "c", "a"]) := by rfl
  have hkeys : (locals.map (·.1)).Nodup := nodup_of_decodeOperation hwritten
  have hforms : ∀ entry ∈ locals, ∃ v, toValue entry.2 = .ok v := by
    simp [locals, toValue, toValues, Except.map]
  have hitems : ["b", "a", "c", "a"].map locals.get? = items.map some := by rfl
  have hparse : Pattern.parse "a, *b, a" =
      .ok ⟨[⟨"a", false⟩, ⟨"b", true⟩, ⟨"a", false⟩], by decide⟩ := by decide +kernel
  refine ⟨evaluate_assign_eq_unpack hkeys hforms hitems "a, *b, a" true, ?_⟩
  rw [evaluate_unpack, hparse]
  rfl

end Scenario

end Conformance
