import Conformance.Proofs.Value.LazyFree

/-!
# Parts of values

The parts of a value are the value itself and what is in it at any depth, in depth-first order.
Lists and tuples are the values with items; where the two are treated alike, induction takes them
together.
-/

namespace Conformance

namespace Value

mutual

/-- A value and all values in it, each before those that are in it. -/
def parts : Value → List Value
  | nothing => [nothing]
  | bool b => [bool b]
  | int n => [int n]
  | str t => [str t]
  | lazy h => [lazy h]
  | list items => list items :: partsOf items
  | tuple items => tuple items :: partsOf items

/-- The parts of some values, one value after the other. -/
def partsOf : List Value → List Value
  | [] => []
  | v :: rest => parts v ++ partsOf rest

end

/-- What holds of all values without items, and of a value with items if it does of these, holds
of all values. -/
theorem items_induction {P : Value → Prop} (leaf : ∀ v : Value, v.items? = none → P v)
    (items : ∀ (v : Value) (items : List Value), v.items? = some items → (∀ w ∈ items, P w) → P v)
    (v : Value) : P v :=
  Value.rec (leaf _ rfl) (fun _ => leaf _ rfl) (fun _ => leaf _ rfl) (fun _ => leaf _ rfl)
    (fun _ => items _ _ rfl) (fun _ => items _ _ rfl) (fun _ => leaf _ rfl) nofun
    (fun _ _ hfirst hrest => List.forall_mem_cons.2 ⟨hfirst, hrest⟩) v

theorem mem_partsOf_iff {items : List Value} {part : Value} :
    part ∈ partsOf items ↔ ∃ v ∈ items, part ∈ v.parts := by
  induction items with
  | nil => simp [partsOf]
  | cons v rest ih => simp [partsOf, ih]

theorem parts_of_items?_eq_none {v : Value} (hv : v.items? = none) : v.parts = [v] := by
  cases v <;> first | rfl | cases hv

theorem parts_of_items?_eq_some {v : Value} {items : List Value} (hv : v.items? = some items) :
    v.parts = v :: partsOf items := by
  cases v <;> cases hv <;> rfl

/-- A property of all parts of a value with items. -/
theorem forall_mem_parts_iff {P : Value → Prop} {v : Value} {items : List Value}
    (hv : v.items? = some items) :
    (∀ part ∈ v.parts, P part) ↔ P v ∧ ∀ w ∈ items, ∀ part ∈ w.parts, P part := by
  rw [parts_of_items?_eq_some hv, List.forall_mem_cons]
  simp only [mem_partsOf_iff]
  grind

theorem isLazyFree_of_items? {v : Value} {items : List Value} (hv : v.items? = some items) :
    v.isLazyFree = true ↔ ∀ w ∈ items, w.isLazyFree = true := by
  cases v <;> cases hv <;> simp

theorem isLazyFree_iff {v : Value} :
    v.isLazyFree = true ↔ ∀ part ∈ v.parts, ∀ h, part ≠ lazy h := by
  induction v using items_induction with
  | leaf v hv =>
      rw [parts_of_items?_eq_none hv, List.forall_mem_singleton]
      cases v <;> simp_all [isLazyFree, items?]
  | items v items hv ih =>
      have hself : ∀ h, v ≠ lazy h := by
        rintro h rfl
        cases hv
      rw [isLazyFree_of_items? hv, forall_mem_parts_iff hv, and_iff_right hself]
      exact forall₂_congr ih

end Value

end Conformance
