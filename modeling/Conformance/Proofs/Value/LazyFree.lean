import Mathlib.Data.List.Basic
import Conformance.Sequence.Run

/-!
# Values without sequences

A value is free of lazy sequences when there is none in it at any depth. The elements of such a
value are its own, so it gives the same elements whenever it is asked, and it pulls nothing.
-/

namespace Conformance

namespace Value

mutual

/-- Whether no sequence is in a value, at any depth. -/
def isLazyFree : Value → Bool
  | nothing | bool _ | int _ | str _ => true
  | list items | tuple items => areLazyFree items
  | lazy _ => false

/-- Whether no sequence is in any value of a list. -/
def areLazyFree : List Value → Bool
  | [] => true
  | v :: rest => isLazyFree v && areLazyFree rest

end

theorem areLazyFree_iff {items : List Value} :
    areLazyFree items = true ↔ ∀ v ∈ items, v.isLazyFree = true := by
  induction items with
  | nil => simp [areLazyFree]
  | cons v rest ih => simp [areLazyFree, ih]

@[simp] theorem isLazyFree_list (items : List Value) :
    (list items).isLazyFree = true ↔ ∀ v ∈ items, v.isLazyFree = true := by
  rw [isLazyFree, areLazyFree_iff]

@[simp] theorem isLazyFree_tuple (items : List Value) :
    (tuple items).isLazyFree = true ↔ ∀ v ∈ items, v.isLazyFree = true := by
  rw [isLazyFree, areLazyFree_iff]

/-- A value without sequences has the same elements in every state of the sequences, and they are
free of sequences too. -/
theorem materialize_of_isLazyFree {v : Value} (hv : v.isLazyFree = true) :
    ∃ r : Except Fault (List Value), (∀ st, v.materialize.run st = some (r, st)) ∧
      ∀ elements, r = .ok elements → ∀ w ∈ elements, w.isLazyFree = true := by
  cases v with
  | lazy h => simp [isLazyFree] at hv
  | str t =>
      refine ⟨.ok (ofChars t), fun st => rfl, ?_⟩
      rintro _ ⟨⟩ w hw
      obtain ⟨c, -, rfl⟩ := List.mem_map.1 hw
      rfl
  | list items =>
      refine ⟨.ok items, fun st => rfl, ?_⟩
      rintro _ ⟨⟩
      exact (isLazyFree_list items).1 hv
  | tuple items =>
      refine ⟨.ok items, fun st => rfl, ?_⟩
      rintro _ ⟨⟩
      exact (isLazyFree_tuple items).1 hv
  | nothing | bool | int => exact ⟨_, fun st => rfl, nofun⟩

end Value

end Conformance
