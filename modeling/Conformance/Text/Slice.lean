import Conformance.Text.Basic

/-!
# Slices

A slice selects positions of a text by two bounds and a step. Bounds out of range are clamped and
never fail: only a step of zero does. A negative bound counts from the end, and a negative step
walks towards the beginning.
-/

namespace Conformance

/-- The bounds of a slice, resolved against a length. -/
structure Bounds where
  /-- The first position. -/
  start : Int
  /-- The position before which the walk ends. -/
  stop : Int
  /-- The distance from one position to the next. -/
  step : Int
  deriving DecidableEq, Repr

namespace Bounds

/-- The position that a bound stands for: counted from the end when it is negative, and
moved to the nearer end of `lower` to `upper` when it lies outside. -/
def clamp (length : Nat) (lower upper bound : Int) : Int :=
  if bound < 0 then max (bound + length) lower else min bound upper

/-- Resolves the bounds of a slice of a text of the given length. -/
def resolve (length : Nat) (start stop step : Option Int) : Except Fault Bounds :=
  let step := step.getD 1
  if step = 0 then .error .zeroSliceStep
  else
    let lower : Int := if step < 0 then -1 else 0
    let upper : Int := if step < 0 then length - 1 else length
    let first := if step < 0 then upper else lower
    let last := if step < 0 then lower else upper
    .ok {
      start := (start.map (clamp length lower upper)).getD first
      stop := (stop.map (clamp length lower upper)).getD last
      step }

/-- The number of positions that the bounds select. -/
def count (b : Bounds) : Nat :=
  let span :=
    if 0 < b.step ∧ b.start < b.stop then (b.stop - b.start).toNat
    else if b.step < 0 ∧ b.stop < b.start then (b.start - b.stop).toNat
    else 0
  if span = 0 then 0 else (span - 1) / b.step.natAbs + 1

/-- The position reached after a number of steps. -/
def position (b : Bounds) (n : Nat) : Nat := (b.start + n * b.step).toNat

/-- The first selected positions in the order of the walk, at most the given number of them. -/
def leading (b : Bounds) (limit : Nat) : List Nat :=
  (List.range (min limit b.count)).map b.position

/-- The selected positions in the order of the walk. -/
def indices (b : Bounds) : List Nat := b.leading b.count

theorem indices_eq (b : Bounds) : b.indices = (List.range b.count).map b.position := by
  rw [indices, leading, Nat.min_self]

@[simp] theorem length_indices (b : Bounds) : b.indices.length = b.count := by
  simp [indices_eq]

end Bounds

namespace Text

/-- The codepoints from one position up to another. -/
def between (t : Text) (start stop : Nat) : Text := ⟨(t.chars.take stop).drop start⟩

/-- The codepoints at some positions, in the order of the positions. -/
def select (t : Text) (positions : List Nat) : Text :=
  let cells := t.chars.toArray
  ⟨positions.filterMap fun i => cells[i]?⟩

/-- The part of a text that the bounds select. A step of one copies a stretch of the text, every
other step collects the positions one by one. -/
def slice (t : Text) (start stop step : Option Int) : Except Fault Text :=
  match Bounds.resolve t.length start stop step with
  | .error e => .error e
  | .ok b =>
    if b.step = 1 then .ok (t.between b.start.toNat b.stop.toNat)
    else .ok (t.select b.indices)

end Text

end Conformance
