import Mathlib.Data.List.Infix
import Conformance.Text.Search

/-!
# Occurrences of a needle

A needle occurs at a position when the codepoints from there on begin with it. The basic search
cuts at the first occurrence, and finds nothing exactly when there is none.
-/

namespace Conformance

variable {needle s before after : List Char}

theorem cut?_of_begins (h : needle <+: s) : cut? needle s = some ([], s.drop needle.length) := by
  cases s with
  | nil => simp_all [cut?]
  | cons c rest => rw [cut?, if_pos (List.isPrefixOf_iff_prefix.2 h)]

theorem cut?_cons_of_not_begins {c : Char} (h : ¬ needle <+: c :: s) :
    cut? needle (c :: s) = (cut? needle s).map fun parts => (c :: parts.1, parts.2) := by
  rw [cut?, if_neg (mt List.isPrefixOf_iff_prefix.1 h)]

/-- The basic search cuts at the first position at which the needle begins. -/
theorem cut?_eq_some_iff :
    cut? needle s = some (before, after) ↔
      s = before ++ needle ++ after ∧ ∀ q < before.length, ¬ needle <+: s.drop q := by
  constructor
  · intro h
    refine ⟨append_of_cut? h, ?_⟩
    induction s generalizing before with
    | nil => cases needle <;> simp_all [cut?]
    | cons c rest ih =>
        intro q hq
        by_cases hp : needle <+: c :: rest
        · rw [cut?_of_begins hp] at h
          obtain ⟨rfl, -⟩ := Prod.mk.inj (Option.some.inj h)
          simp at hq
        · rw [cut?_cons_of_not_begins hp] at h
          obtain ⟨parts, hparts, heq⟩ := Option.map_eq_some_iff.1 h
          obtain ⟨rfl, rfl⟩ := Prod.mk.inj heq
          cases q with
          | zero => exact hp
          | succ q => exact ih hparts q (by simpa using hq)
  · rintro ⟨rfl, hfirst⟩
    induction before with
    | nil =>
        rw [List.nil_append, cut?_of_begins (List.prefix_append needle after)]
        simp
    | cons c rest ih =>
        have hp : ¬ needle <+: c :: (rest ++ needle ++ after) := hfirst 0 (by simp)
        have hrest := ih fun q hq => hfirst (q + 1) (by simpa using hq)
        rw [List.cons_append, List.cons_append, cut?_cons_of_not_begins hp, hrest]
        rfl

/-- The basic search fails exactly when the needle begins nowhere. -/
theorem cut?_eq_none_iff :
    cut? needle s = none ↔ ∀ q ≤ s.length, ¬ needle <+: s.drop q := by
  induction s with
  | nil => cases needle <;> simp [cut?]
  | cons c rest ih =>
      by_cases hp : needle <+: c :: rest
      · rw [cut?_of_begins hp]
        simp only [reduceCtorEq, false_iff]
        intro h
        exact h 0 (Nat.zero_le _) hp
      · rw [cut?_cons_of_not_begins hp, Option.map_eq_none_iff, ih]
        constructor
        · intro h q hq
          cases q with
          | zero => exact hp
          | succ q => exact h q (by simpa using hq)
        · intro h q hq
          exact h (q + 1) (by simpa using hq)

/-- Whether a needle begins at a position shows in the codepoints up to its end. -/
theorem prefix_drop_append_iff {q : Nat} (hq : q + needle.length ≤ s.length) :
    needle <+: (s ++ after).drop q ↔ needle <+: s.drop q := by
  rw [List.drop_append_of_le_length (by omega)]
  constructor
  · intro h
    exact List.prefix_of_prefix_length_le h (List.prefix_append _ _) (by simp; omega)
  · intro h
    exact h.trans (List.prefix_append _ _)

namespace Text

/-- A needle occurs in a text at a position. -/
def OccursAt (t needle : Text) (p : Nat) : Prop :=
  p ≤ t.length ∧ needle.chars <+: t.chars.drop p

/-- A needle occurs in a text at a position, and at none before it. -/
def FirstAt (t needle : Text) (p : Nat) : Prop :=
  t.OccursAt needle p ∧ ∀ q < p, ¬ t.OccursAt needle q

/-- A text contains a needle if it is the needle with codepoints before and after it. -/
theorem contains_iff {t needle : Text} : t.contains needle = true ↔ needle.chars <:+: t.chars := by
  have hcut : t.contains needle = (cut? needle.chars t.chars).isSome := by
    rw [contains, find?, findFrom, if_neg (Nat.not_lt_zero _), Option.isSome_map, List.drop_zero]
  rw [hcut]
  constructor
  · intro h
    obtain ⟨⟨before, after⟩, hparts⟩ := Option.isSome_iff_exists.1 h
    exact ⟨before, after, (append_of_cut? hparts).symm⟩
  · rintro ⟨before, after, heq⟩
    apply Option.isSome_iff_ne_none.2
    intro hnone
    refine cut?_eq_none_iff.1 hnone before.length ?_ ?_
    · simp [← heq]
    · rw [← heq, List.append_assoc, List.drop_left]
      exact List.prefix_append _ _

/-- A text followed by a needle contains the needle at its end, and nowhere before exactly when
none of its positions begins an occurrence. -/
theorem firstAt_append_iff {f needle : Text} :
    (f ++ needle).FirstAt needle f.length ↔
      ∀ q < f.chars.length, ¬ needle.chars <+: (f.chars ++ needle.chars).drop q := by
  have hend : (f ++ needle).OccursAt needle f.length :=
    ⟨by simp, by simp [length]⟩
  constructor
  · intro h q hq hp
    have hle : q ≤ f.length := Nat.le_of_lt hq
    rw [← chars_append] at hp
    exact h.2 q hq ⟨by rw [length_append]; omega, hp⟩
  · intro h
    rw [← chars_append] at h
    exact ⟨hend, fun q hq hocc => h q hq hocc.2⟩

end Text

end Conformance
