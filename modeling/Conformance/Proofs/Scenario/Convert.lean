import Conformance.Proofs.Assignment.Scope
import Conformance.Proofs.Toml.Entries
import Conformance.Proofs.Traversal
import Conformance.Proofs.Value.Parts
import Conformance.Scenario.Result

/-!
# Conversions there and back

A value without sequences is converted to TOML without any computation on sequences. What a TOML
value is converted to is such a value, and converting it back gives the TOML value again. The table
of some bindings holds for each name the last value that it is bound to.
-/

namespace Conformance

namespace Scenario

/-! ## Values without sequences -/

mutual

/-- The TOML value of a value without sequences. -/
def ofValue : Value → Except Nonsense Toml
  | .int n => .ok (.integer n)
  | .bool b => .ok (.boolean b)
  | .str t => .ok (.string t.toString)
  | .list items | .tuple items => (ofValues items).map .array
  | .nothing | .lazy _ => .error .noToml

/-- The TOML values of some values without sequences, in order. -/
def ofValues : List Value → Except Nonsense (List Toml)
  | [] => .ok []
  | v :: rest =>
    match ofValue v with
    | .error e => .error e
    | .ok t => (ofValues rest).map (t :: ·)

end

/-- The TOML values of some bindings. -/
def ofEntries : Bindings → Except Nonsense (List (String × Toml))
  | [] => .ok []
  | (name, v) :: rest =>
    match ofValue v with
    | .error e => .error e
    | .ok t => (ofEntries rest).map ((name, t) :: ·)

/-- The table of some bindings, of which the last value of a name counts. -/
def ofBindings (bindings : Bindings) : Except Nonsense Toml :=
  (ofEntries bindings).map fun pairs => .table (Toml.Entries.ofList pairs)

theorem ofConversion_map {α β : Type} (f : α → β) (r : Except Nonsense α) :
    ofConversion (r.map f) = (do return f (← ofConversion r) : Eval β) := by
  cases r <;> rfl

mutual

theorem convert_of_isLazyFree (ofSequence : Handle → Eval Toml) :
    (v : Value) → v.isLazyFree = true → convert ofSequence v = ofConversion (ofValue v)
  | .nothing, _ | .bool _, _ | .int _, _ | .str _, _ => rfl
  | .list items, h | .tuple items, h => by
      rw [convert, ofValue, convertItems_of_areLazyFree ofSequence items h, ofConversion_map]

theorem convertItems_of_areLazyFree (ofSequence : Handle → Eval Toml) :
    (items : List Value) → Value.areLazyFree items = true →
      convertItems ofSequence items = ofConversion (ofValues items)
  | [], _ => rfl
  | v :: rest, h => by
      rw [Value.areLazyFree, Bool.and_eq_true] at h
      rw [convertItems, convert_of_isLazyFree ofSequence v h.1,
        convertItems_of_areLazyFree ofSequence rest h.2, ofValues]
      cases ofValue v with
      | error e => rfl
      | ok t => exact (ofConversion_map (t :: ·) (ofValues rest)).symm

end

/-- A value without sequences is converted in every store in the same way. -/
theorem toToml_of_isLazyFree {v : Value} (hv : v.isLazyFree = true) :
    toToml v = ofConversion (ofValue v) :=
  convert_of_isLazyFree Handle.toToml v hv

theorem mapM_bindingToToml_of_isLazyFree {bindings : Bindings}
    (h : ∀ binding ∈ bindings, binding.2.isLazyFree = true) :
    bindings.mapM bindingToToml = ofConversion (ofEntries bindings) := by
  induction bindings with
  | nil => rfl
  | cons binding rest ih =>
      obtain ⟨hfirst, hrest⟩ := List.forall_mem_cons.1 h
      rw [List.mapM_cons, ih hrest, bindingToToml, toToml_of_isLazyFree hfirst, ofEntries]
      cases ofValue binding.2 with
      | error e => rfl
      | ok t => exact (ofConversion_map ((binding.1, t) :: ·) (ofEntries rest)).symm

theorem bindingsToToml_of_isLazyFree {bindings : Bindings}
    (h : ∀ binding ∈ bindings, binding.2.isLazyFree = true) :
    bindingsToToml bindings = ofConversion (ofBindings bindings) := by
  rw [bindingsToToml, mapM_bindingToToml_of_isLazyFree h, ofBindings, ofConversion_map]

theorem toValues_eq_mapM (items : List Toml) : toValues items = items.mapM toValue := by
  induction items with
  | nil => rfl
  | cons t rest ih =>
      rw [toValues, List.mapM_cons, ih]
      cases toValue t <;> rfl

theorem ofValues_eq_mapM (items : List Value) : ofValues items = items.mapM ofValue := by
  induction items with
  | nil => rfl
  | cons v rest ih =>
      rw [ofValues, List.mapM_cons, ih]
      cases ofValue v <;> rfl

theorem ofEntries_eq_mapM (bindings : Bindings) :
    ofEntries bindings = bindings.mapM fun binding =>
      (ofValue binding.2).map fun t => (binding.1, t) := by
  induction bindings with
  | nil => rfl
  | cons binding rest ih =>
      rw [ofEntries, List.mapM_cons, ih]
      cases ofValue binding.2 <;> rfl

theorem ofValue_of_items? {v : Value} {items : List Value} (hv : v.items? = some items) :
    ofValue v = (items.mapM ofValue).map .array := by
  cases v <;> cases hv <;> rw [ofValue, ofValues_eq_mapM]

/-! ## Converting there and back -/

/-- The relation holds between all TOML values without items and the values they are converted
to, and between an array and a list if it does between their items. -/
structure FollowsConversion (P : Toml → Value → Prop) : Prop where
  integer (n : Int) : P (.integer n) (.int n)
  boolean (b : Bool) : P (.boolean b) (.bool b)
  string (s : String) : P (.string s) (.str (Text.ofString s))
  array {items : List Toml} {values : List Value} (hitems : List.Forall₂ P items values) :
    P (.array items) (.list values)

variable {P : Toml → Value → Prop}

mutual

/-- A relation that follows the conversion holds wherever the conversion succeeds. -/
theorem FollowsConversion.rel (hP : FollowsConversion P) :
    (t : Toml) → {v : Value} → toValue t = .ok v → P t v
  | .integer n, _, h => by
      cases h
      exact hP.integer n
  | .boolean b, _, h => by
      cases h
      exact hP.boolean b
  | .string s, _, h => by
      cases h
      exact hP.string s
  | .array items, v, h => by
      rw [toValue] at h
      cases hitems : toValues items with
      | error e =>
          rw [hitems] at h
          cases h
      | ok values =>
          rw [hitems] at h
          cases h
          exact hP.array (hP.forall₂ items hitems)
  | .float _, _, h | .datetime _, _, h | .table _, _, h => by cases h

theorem FollowsConversion.forall₂ (hP : FollowsConversion P) :
    (items : List Toml) → {values : List Value} → toValues items = .ok values →
      List.Forall₂ P items values
  | [], _, h => by
      cases h
      exact .nil
  | t :: rest, values, h => by
      rw [toValues_eq_mapM, mapM_eq_ok_iff] at h
      obtain _ | ⟨hfirst, hrest⟩ := h
      rw [← mapM_eq_ok_iff, ← toValues_eq_mapM] at hrest
      exact .cons (hP.rel t hfirst) (hP.forall₂ rest hrest)

end

theorem followsConversion_isLazyFree : FollowsConversion fun _ v => v.isLazyFree = true where
  integer _ := rfl
  boolean _ := rfl
  string _ := rfl
  array hitems := by
    apply (Value.isLazyFree_list _).2
    exact forall_mem_of_forall₂ (P := (Value.isLazyFree · = true)) (fun _ _ hfree => hfree) hitems

theorem followsConversion_ofValue : FollowsConversion fun t v => ofValue v = .ok t where
  integer _ := rfl
  boolean _ := rfl
  string s := by rw [ofValue, Text.toString_ofString]
  array hitems := by
    rw [ofValue, ofValues_eq_mapM, mapM_eq_ok_iff.2 hitems.flip]
    rfl

/-- The value of a TOML value has no sequence in it. -/
theorem isLazyFree_of_toValue {t : Toml} {v : Value} (h : toValue t = .ok v) :
    v.isLazyFree = true :=
  followsConversion_isLazyFree.rel t h

/-- Converting a TOML value there and back gives it again. -/
theorem ofValue_of_toValue {t : Toml} {v : Value} (h : toValue t = .ok v) : ofValue v = .ok t :=
  followsConversion_ofValue.rel t h

/-- The value has a TOML form. -/
def HasToml (v : Value) : Prop := ∃ t, ofValue v = .ok t

theorem hasToml_of_items? {v : Value} {items : List Value} (hv : v.items? = some items) :
    HasToml v ↔ ∀ w ∈ items, HasToml w := by
  have hmap : HasToml v ↔ ∃ ts, items.mapM ofValue = .ok ts := by
    rw [HasToml, ofValue_of_items? hv]
    cases items.mapM ofValue <;> simp [Except.map]
  exact hmap.trans exists_mapM_eq_ok_iff

/-- Exactly the values without nothing and without sequences, at any depth, have a TOML form. -/
theorem hasToml_iff {v : Value} :
    HasToml v ↔ ∀ part ∈ v.parts, part ≠ .nothing ∧ ∀ h, part ≠ .lazy h := by
  induction v using Value.items_induction with
  | leaf v hv =>
      rw [Value.parts_of_items?_eq_none hv, List.forall_mem_singleton]
      cases v <;> simp_all [HasToml, ofValue, Value.items?]
  | items v items hv ih =>
      have hself : v ≠ .nothing ∧ ∀ h, v ≠ .lazy h := by
        constructor
        · rintro rfl
          cases hv
        · rintro h rfl
          cases hv
      rw [hasToml_of_items? hv, Value.forall_mem_parts_iff hv, and_iff_right hself]
      exact forall₂_congr ih

theorem HasToml.isLazyFree {v : Value} (hv : HasToml v) : v.isLazyFree = true :=
  Value.isLazyFree_iff.2 fun part hpart => (hasToml_iff.1 hv part hpart).2

theorem hasToml_list {items : List Value} (h : ∀ v ∈ items, HasToml v) : HasToml (.list items) :=
  (hasToml_of_items? rfl).2 h

theorem hasToml_of_toValues {items : List Toml} {values : List Value}
    (h : toValues items = .ok values) : ∀ v ∈ values, HasToml v :=
  forall_mem_of_forall₂ (fun t _ ht => ⟨t, ht⟩) (followsConversion_ofValue.forall₂ items h)

/-- What targets take of values with TOML forms has one too. -/
theorem hasToml_of_shares {targets : List Target} {values : List Value} {bindings : Bindings}
    (h : Shares targets values bindings) (hvalues : ∀ v ∈ values, HasToml v) :
    ∀ binding ∈ bindings, HasToml binding.2 :=
  h.forall_value (fun _ => hasToml_list) hvalues

/-- The table of some bindings has each name once, with the last value that it is bound to. -/
theorem exists_ofBindings {bindings : Bindings} (h : ∀ binding ∈ bindings, HasToml binding.2) :
    ∃ entries : Toml.Entries, ofBindings bindings = .ok (.table entries) ∧ entries.Sorted ∧
      ∀ name, Option.Rel (fun v t => ofValue v = .ok t) (bindings.latest? name)
        (entries.get? name) := by
  obtain ⟨pairs, hpairs⟩ := exists_mapM_eq_ok_iff.2 fun binding hmem =>
    exists_map_mk_eq_ok_iff.2 (h binding hmem)
  refine ⟨Toml.Entries.ofList pairs, ?_, Toml.Entries.sorted_ofList pairs, fun name => ?_⟩
  · rw [ofBindings, ofEntries_eq_mapM, hpairs]
    rfl
  · rw [Toml.Entries.get?_ofList]
    apply rel_find?
    rw [List.forall₂_reverse_iff]
    exact (mapM_eq_ok_iff.1 hpairs).imp fun _ _ hentry => map_mk_eq_ok_iff.1 hentry

/-- Bindings that bind each name to the same value at last have the same table. -/
theorem ofBindings_congr {bindings bindings' : Bindings}
    (h : ∀ binding ∈ bindings, HasToml binding.2) (h' : ∀ binding ∈ bindings', HasToml binding.2)
    (hlatest : ∀ name, bindings.latest? name = bindings'.latest? name) :
    ofBindings bindings = ofBindings bindings' := by
  obtain ⟨entries, htable, hsorted, hrel⟩ := exists_ofBindings h
  obtain ⟨entries', htable', hsorted', hrel'⟩ := exists_ofBindings h'
  have hsame : entries = entries' := by
    apply hsorted.ext hsorted'
    intro name
    have hrel := hrel name
    rw [hlatest] at hrel
    exact rel_unique (fun v t t' ht ht' => Except.ok.inj (ht.symm.trans ht')) hrel (hrel' name)
  rw [htable, htable', hsame]

end Scenario

end Conformance
