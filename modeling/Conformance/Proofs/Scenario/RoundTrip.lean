import Conformance.Proofs.Scenario.Convert
import Conformance.Proofs.Sequence.Ensures
import Conformance.Proofs.Toml.Parts

/-!
# Conversions as inverses

The two conversions are inverse to each other on the TOML values without floats, dates and tables
and the values that they have. Tuples have the TOML values of lists, so a value comes back from
TOML with lists in the place of its tuples.
-/

namespace Conformance

namespace Value

mutual

/-- The value with lists in the place of tuples, at every depth. -/
def untupled : Value → Value
  | nothing => nothing
  | bool b => bool b
  | int n => int n
  | str t => str t
  | lazy h => lazy h
  | list items | tuple items => list (untupledItems items)

/-- The values with lists in the place of tuples, at every depth. -/
def untupledItems : List Value → List Value
  | [] => []
  | v :: rest => untupled v :: untupledItems rest

end

theorem untupledItems_eq_map (items : List Value) : untupledItems items = items.map untupled := by
  induction items with
  | nil => rfl
  | cons v rest ih => rw [untupledItems, ih, List.map_cons]

theorem untupled_of_items? {v : Value} {items : List Value} (hv : v.items? = some items) :
    v.untupled = list (items.map untupled) := by
  cases v <;> cases hv <;> rw [untupled, untupledItems_eq_map]

end Value

namespace Scenario

/-! ## From TOML -/

/-- A conversion fails for a part that it meets, or succeeds if it meets none. -/
inductive StopsAt {α : Type} : Option Toml → Except Nonsense α → Prop
  | foreign (part : Toml) : StopsAt (some part) (.error (.noValue part.kind))
  | none (a : α) : StopsAt none (.ok a)

theorem StopsAt.map {α β : Type} {part? : Option Toml} {r : Except Nonsense α}
    (h : StopsAt part? r) (f : α → β) : StopsAt part? (r.map f) := by
  cases h with
  | foreign part => exact .foreign part
  | none a => exact .none (f a)

mutual

/-- The conversion of a TOML value stops at its first part, in depth-first order, of a type that no
value has. -/
theorem toValue_stopsAt :
    (t : Toml) → StopsAt (t.parts.find? (·.kind.isForeign)) (toValue t)
  | .string _ | .integer _ | .boolean _ => .none _
  | .float x => .foreign (.float x)
  | .datetime d => .foreign (.datetime d)
  | .table entries => .foreign (.table entries)
  | .array items => (toValues_stopsAt items).map _

theorem toValues_stopsAt :
    (items : List Toml) → StopsAt ((Toml.partsOf items).find? (·.kind.isForeign)) (toValues items)
  | [] => .none _
  | t :: rest => by
      rw [Toml.partsOf, List.find?_append, toValues]
      have hfirst := toValue_stopsAt t
      generalize t.parts.find? (·.kind.isForeign) = part?, toValue t = r at hfirst ⊢
      cases hfirst with
      | foreign part => exact .foreign part
      | none v => exact (toValues_stopsAt rest).map _

end

theorem exists_toValue_iff {t : Toml} :
    (∃ v, toValue t = .ok v) ↔ ∀ part ∈ t.parts, part.kind.isForeign = false := by
  have hstops := toValue_stopsAt t
  have hnone : t.parts.find? (·.kind.isForeign) = none ↔
      ∀ part ∈ t.parts, part.kind.isForeign = false := by
    simp [List.find?_eq_none]
  rw [← hnone]
  generalize t.parts.find? (·.kind.isForeign) = part?, toValue t = r at hstops ⊢
  cases hstops <;> simp

theorem toValue_eq_error_iff {t : Toml} {cause : Nonsense} : toValue t = .error cause ↔
    ∃ part, t.parts.find? (·.kind.isForeign) = some part ∧ cause = .noValue part.kind := by
  have hstops := toValue_stopsAt t
  generalize t.parts.find? (·.kind.isForeign) = part?, toValue t = r at hstops ⊢
  cases hstops <;> simp [eq_comm]

/-! ## To TOML -/

theorem ofValue_eq_ok_iff {v : Value} {items : List Value} (hv : v.items? = some items)
    {t : Toml} : ofValue v = .ok t ↔
      ∃ ts, t = .array ts ∧ List.Forall₂ (fun w t => ofValue w = .ok t) items ts := by
  rw [ofValue_of_items? hv]
  simp only [← mapM_eq_ok_iff]
  cases items.mapM ofValue <;> simp [Except.map, eq_comm]

/-- A value comes back from its TOML value with lists in the place of tuples. -/
theorem toValue_of_ofValue {v : Value} : ∀ {t : Toml}, ofValue v = .ok t →
    toValue t = .ok v.untupled := by
  induction v using Value.items_induction with
  | leaf v hv =>
      intro t ht
      cases v with
      | int | bool =>
          cases ht
          rfl
      | str text =>
          cases ht
          rw [toValue, Text.ofString_toString, Value.untupled]
      | nothing | lazy => cases ht
      | list | tuple => cases hv
  | items v items hv ih =>
      intro t ht
      obtain ⟨ts, rfl, hts⟩ := (ofValue_eq_ok_iff hv).1 ht
      have hitems := (List.forall₂_and_left items ts).2 ⟨ih, hts⟩
      have hback : toValues ts = .ok (items.map Value.untupled) := by
        rw [toValues_eq_mapM, mapM_eq_ok_iff, List.forall₂_map_right_iff]
        exact (hitems.imp fun _ _ h => h.1 h.2).flip
      rw [toValue, hback, Value.untupled_of_items? hv]
      rfl

theorem ofValue_eq_error {v : Value} : ∀ {cause : Nonsense}, ofValue v = .error cause →
    cause = .noToml := by
  induction v using Value.items_induction with
  | leaf v hv =>
      intro cause h
      cases v with
      | nothing | lazy =>
          cases h
          rfl
      | int | bool | str => cases h
      | list | tuple => cases hv
  | items v items hv ih =>
      intro cause h
      rw [ofValue_of_items? hv] at h
      cases hts : items.mapM ofValue with
      | ok ts =>
          rw [hts] at h
          cases h
      | error e =>
          rw [hts] at h
          cases h
          obtain ⟨before, w, after, rfl, -, hw⟩ := mapM_eq_error_iff.1 hts
          exact ih w (by simp) hw

theorem convertItems_eq_mapM (ofSequence : Handle → Eval Toml) (items : List Value) :
    convertItems ofSequence items = items.mapM (convert ofSequence) := by
  induction items with
  | nil => rfl
  | cons v rest ih => rw [convertItems, List.mapM_cons, ih]

theorem convert_of_items? {v : Value} {items : List Value} (hv : v.items? = some items)
    (ofSequence : Handle → Eval Toml) : convert ofSequence v =
      (do return .array (← items.mapM (convert ofSequence)) : Eval Toml) := by
  cases v <;> cases hv <;> rw [convert, convertItems_eq_mapM]

/-- Where a conversion succeeds there is nothing at no depth, whatever sequences give. -/
theorem convert_ensures (ofSequence : Handle → Eval Toml) (v : Value) :
    Ensures (fun _ => ∀ part ∈ v.parts, part ≠ .nothing) (fun _ => True)
      (convert ofSequence v) := by
  induction v using Value.items_induction with
  | leaf v hv =>
      rw [Value.parts_of_items?_eq_none hv]
      cases v with
      | nothing => exact Ensures.throw trivial
      | lazy h => exact (Ensures.any _).mono (by simp) fun _ => id
      | bool | int | str => exact Ensures.pure (by simp)
      | list | tuple => cases hv
  | items v items hv ih =>
      rw [convert_of_items? hv]
      refine ((Ensures.mapM ih).mono (fun _ => id) fun _ _ => trivial).bind fun ts hts =>
        Ensures.pure ?_
      rw [Value.forall_mem_parts_iff hv]
      refine ⟨?_, forall_mem_of_forall₂
        (P := fun w : Value => ∀ part ∈ w.parts, part ≠ .nothing) (fun _ _ h => h) hts.flip⟩
      rintro rfl
      cases hv

theorem run_toToml_of_ofValue {v : Value} (hv : v.isLazyFree = true) {r : Except Nonsense Toml}
    (hr : ofValue v = r) (s : Store) : (toToml v).run s = some (r.mapError .invalid, s) := by
  rw [toToml_of_isLazyFree hv, hr, ofConversion, Run.run_lift]

/-- A TOML value has a value exactly if no float, date or table is in it at any depth. Its value is
converted back to it, in every store and without a change to it; if it has none, the message names
the type of the first such part in depth-first order. A value without nothing and without sequences
at any depth has a TOML value, and comes back from it with lists in the place of its tuples. With
nothing in it at any depth a conversion does not succeed: it fails whenever it comes to an end,
which it does if all sequences give the values of lists, and it fails for this cause if there are
no sequences in the value. -/
theorem conversions_inverse :
    (∀ t : Toml,
      ((∃ v, toValue t = .ok v) ↔ ∀ part ∈ t.parts, part.kind.isForeign = false) ∧
      (∀ v, toValue t = .ok v → ∀ s, (toToml v).run s = some (.ok t, s)) ∧
      ∀ cause, toValue t = .error cause → ∃ part,
        t.parts.find? (·.kind.isForeign) = some part ∧
          cause.message = s!"{part.kind.name} values have no runtime form") ∧
    (∀ v : Value, (∀ part ∈ v.parts, part ≠ .nothing ∧ ∀ h, part ≠ .lazy h) →
      ∃ t, (∀ s, (toToml v).run s = some (.ok t, s)) ∧ toValue t = .ok v.untupled) ∧
    ∀ v : Value, .nothing ∈ v.parts →
      (∀ s r s', (toToml v).run s = some (r, s') → ∃ e, r = .error e) ∧
      (∀ s, s.Listed → ∃ e s', (toToml v).run s = some (.error e, s')) ∧
      ((∀ part ∈ v.parts, ∀ h, part ≠ .lazy h) →
        ∀ s, (toToml v).run s = some (.error (.invalid .noToml), s)) := by
  refine ⟨fun t => ⟨exists_toValue_iff, ?_, ?_⟩, ?_, ?_⟩
  · intro v hv s
    exact run_toToml_of_ofValue (isLazyFree_of_toValue hv) (ofValue_of_toValue hv) s
  · intro cause hcause
    obtain ⟨part, hpart, rfl⟩ := toValue_eq_error_iff.1 hcause
    exact ⟨part, hpart, rfl⟩
  · intro v hv
    obtain ⟨t, ht⟩ := hasToml_iff.2 hv
    have hfree : v.isLazyFree = true := Value.isLazyFree_iff.2 fun part hpart => (hv part hpart).2
    exact ⟨t, run_toToml_of_ofValue hfree ht, toValue_of_ofValue ht⟩
  · intro v hnothing
    have hfails : ∀ s r s', (toToml v).run s = some (r, s') → ∃ e, r = .error e := by
      intro s r s' hrun
      cases r with
      | error e => exact ⟨e, rfl⟩
      | ok t =>
          exact absurd rfl ((convert_ensures Handle.toToml v s _ s' hrun).1 t rfl _ hnothing)
    refine ⟨hfails, fun s hs => ?_, fun hlazy s => ?_⟩
    · obtain ⟨r, s', hrun, -⟩ := toToml_ends v s hs
      obtain ⟨e, rfl⟩ := hfails s r s' hrun
      exact ⟨e, s', hrun⟩
    · have hfree : v.isLazyFree = true := Value.isLazyFree_iff.2 hlazy
      cases hv : ofValue v with
      | ok t => exact absurd rfl (hasToml_iff.1 ⟨t, hv⟩ _ hnothing).1
      | error cause =>
          rw [ofValue_eq_error hv] at hv
          exact run_toToml_of_ofValue hfree hv s

/-- A list in a tuple comes back as a list in a list; a table comes before the float in it. -/
theorem conversions_inverse_nested :
    let v : Value := .tuple [.int 1, .list [.str (.ofString "a")], .bool true]
    let t : Toml := .array [.integer 1, .array [.string "a"], .boolean true]
    let t' : Toml := .array [.integer 1, .table [("k", .float 0)], .float 0]
    (toToml v).run .empty = some (.ok t, .empty) ∧ toValue t = .ok v.untupled ∧
      ∃ cause, toValue t' = .error cause ∧ cause.message = "table values have no runtime form" := by
  intro v t t'
  obtain ⟨hthere, hback, -⟩ := conversions_inverse
  have hrun : (toToml v).run .empty = some (.ok t, .empty) := rfl
  obtain ⟨form, hform, hvalue⟩ := hback v (by simp [v, Value.parts, Value.partsOf])
  have hsame : form = t := by
    have hruns := (hform .empty).symm.trans hrun
    cases hruns
    rfl
  rw [hsame] at hvalue
  refine ⟨hrun, hvalue, _, rfl, ?_⟩
  obtain ⟨part, hpart, hmessage⟩ := (hthere t').2.2 _ rfl
  cases hpart
  exact hmessage

end Scenario

end Conformance
