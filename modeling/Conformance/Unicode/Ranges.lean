/-!
# Ranges of codepoints

A character property is a list of ranges. A character has the property when one of the ranges
covers its codepoint.
-/

namespace Conformance

namespace Unicode

/-- The codepoints from the first number to the second, both included. -/
abbrev CodeRange := Nat × Nat

/-- Whether one of the ranges covers the codepoint of the character. -/
def covered (ranges : List CodeRange) (c : Char) : Bool :=
  ranges.any fun r => r.1 ≤ c.toNat && c.toNat ≤ r.2

theorem covered_iff (ranges : List CodeRange) (c : Char) :
    covered ranges c = true ↔ ∃ r ∈ ranges, r.1 ≤ c.toNat ∧ c.toNat ≤ r.2 := by
  simp [covered]

end Unicode

end Conformance
