import Mathlib.Order.Bounds.Basic
import Conformance.Proofs.Text.Concatenation
import Conformance.Proofs.Text.Replace

/-!
# Finding a needle

A text reads as a needle at a position when the slice of the length of the needle is the needle.
A search finds the least such position from its start on, and nothing exactly when there is none.
What the other questions about a needle answer follows from the position that the search finds.
-/

namespace Conformance

namespace Text

variable {t needle : Text} {start p : ℕ}

/-- From a position on, a text reads as a needle: the needle ends inside the text, and the slice up
to its end is the needle. -/
def ReadsAt (t needle : Text) (p : ℕ) : Prop :=
  p + needle.length ≤ t.length ∧ t.slice (some p) (some (p + needle.length)) none = .ok needle

/-- A slice between two positions of the text is the stretch between them. -/
theorem slice_of_le {stop : ℕ} (hstart : start ≤ stop) (hstop : stop ≤ t.length) :
    t.slice (some start) (some stop) none = .ok (t.between start stop) := by
  rw [slice_eq_between, Slice.origin, Slice.limit, Slice.place_natCast (hstart.trans hstop),
    Slice.place_natCast hstop]
  rfl

/-- A text reads as a needle where the needle begins, and only there. -/
theorem readsAt_iff_occursAt : t.ReadsAt needle p ↔ t.OccursAt needle p := by
  have hstretch : t.between p (p + needle.length) = needle ↔ needle.chars <+: t.chars.drop p := by
    rw [List.prefix_iff_eq_take, Text.ext_iff, eq_comm, between, List.drop_take,
      Nat.add_sub_cancel_left, length]
  constructor
  · rintro ⟨hend, hslice⟩
    have hstop := slice_of_le (Nat.le_add_right p needle.length) hend
    push_cast at hstop
    rw [hstop, Except.ok.injEq] at hslice
    exact ⟨by omega, hstretch.1 hslice⟩
  · rintro ⟨hp, hbegin⟩
    have hend : p + needle.length ≤ t.length := by
      have hlength := hbegin.length_le
      rw [List.length_drop] at hlength
      simp only [length] at hp ⊢
      omega
    have hstop := slice_of_le (Nat.le_add_right p needle.length) hend
    push_cast at hstop
    exact ⟨hend, hstop.trans (congrArg Except.ok (hstretch.2 hbegin))⟩

/-- The empty text is read at each position, the end included. -/
theorem readsAt_empty_iff : t.ReadsAt empty p ↔ p ≤ t.length := by
  rw [readsAt_iff_occursAt]
  exact and_iff_left List.nil_prefix

/-- The position that a search finds is the least one at which the needle occurs. -/
theorem isLeast_of_findFrom (h : t.findFrom needle start = some p) :
    IsLeast {q | start ≤ q ∧ t.OccursAt needle q} p := by
  by_cases hstart : t.length < start
  · rw [findFrom, if_pos hstart] at h
    cases h
  rw [findFrom, if_neg hstart] at h
  obtain ⟨⟨before, after⟩, hcut, rfl⟩ := Option.map_eq_some_iff.1 h
  obtain ⟨hdrop, hfirst⟩ := cut?_eq_some_iff.1 hcut
  refine ⟨⟨Nat.le_add_right _ _, ?_, ?_⟩, ?_⟩
  · have hlength := congrArg List.length hdrop
    simp only [List.length_append, List.length_drop] at hlength
    simp only [length] at hstart ⊢
    omega
  · rw [← List.drop_drop, hdrop, List.append_assoc, List.drop_left]
    exact List.prefix_append _ _
  · -- A needle further to the front would begin inside the part before the cut.
    rintro q ⟨hq, -, hbegin⟩
    by_contra hle
    have hlt : q < start + before.length := not_le.1 hle
    refine hfirst (q - start) (by omega) ?_
    rwa [List.drop_drop, Nat.add_sub_cancel' hq]

/-- A search finds nothing exactly when the needle occurs nowhere from its start on. -/
theorem findFrom_eq_none_iff :
    t.findFrom needle start = none ↔ ∀ q, start ≤ q → ¬ t.OccursAt needle q := by
  by_cases hstart : t.length < start
  · rw [findFrom, if_pos hstart]
    refine iff_of_true rfl fun q hq hoccurs => ?_
    exact absurd hoccurs.1 (by omega)
  rw [findFrom, if_neg hstart, Option.map_eq_none_iff, cut?_eq_none_iff]
  constructor
  · rintro hnone q hq ⟨hend, hbegin⟩
    refine hnone (q - start) ?_ ?_
    · rw [List.length_drop]
      exact Nat.sub_le_sub_right hend start
    · rwa [List.drop_drop, Nat.add_sub_cancel' hq]
  · intro hnone q hq hbegin
    rw [List.drop_drop] at hbegin
    rw [List.length_drop] at hq
    refine hnone (start + q) (Nat.le_add_right _ _) ⟨?_, hbegin⟩
    simp only [length] at hstart ⊢
    omega

theorem findFrom_eq_some_iff :
    t.findFrom needle start = some p ↔ IsLeast {q | start ≤ q ∧ t.OccursAt needle q} p := by
  refine ⟨isLeast_of_findFrom, fun hleast => ?_⟩
  cases hfind : t.findFrom needle start with
  | none => exact absurd hleast.1.2 (findFrom_eq_none_iff.1 hfind p hleast.1.1)
  | some q => rw [(isLeast_of_findFrom hfind).unique hleast]

/-- A text contains a needle if the needle occurs in it. -/
theorem contains_iff_exists_occursAt : t.contains needle = true ↔ ∃ q, t.OccursAt needle q := by
  rw [contains, Option.isSome_iff_ne_none, find?, ne_eq, findFrom_eq_none_iff]
  simp only [Nat.zero_le, true_imp_iff, not_forall, not_not]

theorem contains_iff_exists_append :
    t.contains needle = true ↔ ∃ a b, t = a ++ needle ++ b := by
  rw [contains_iff]
  constructor
  · rintro ⟨before, after, happend⟩
    refine ⟨⟨before⟩, ⟨after⟩, Text.ext ?_⟩
    rw [chars_append, chars_append, happend]
  · rintro ⟨a, b, rfl⟩
    refine ⟨a.chars, b.chars, ?_⟩
    rw [chars_append, chars_append]

theorem contains_iff_find_nonneg : t.contains needle = true ↔ 0 ≤ t.find needle := by
  rw [contains, find]
  cases t.find? needle with
  | none => decide
  | some position => exact iff_of_true rfl (Int.natCast_nonneg position)

theorem contains_iff_count_pos : t.contains needle = true ↔ 0 < t.count needle := by
  rw [Nat.pos_iff_ne_zero, ne_eq, count_eq_zero_iff, not_not, contains_iff_exists_occursAt]

/-- The position is never after one at which the needle occurs. -/
theorem find_le_of_occursAt (h : t.OccursAt needle p) : t.find needle ≤ p := by
  rw [find]
  cases hfind : t.find? needle with
  | none => exact absurd h (findFrom_eq_none_iff.1 hfind p (Nat.zero_le p))
  | some q => exact Int.ofNat_le.2 ((isLeast_of_findFrom hfind).2 ⟨Nat.zero_le p, h⟩)

theorem occursAt_append (a needle b : Text) : (a ++ needle ++ b).OccursAt needle a.length := by
  refine ⟨?_, ?_⟩
  · simp only [length_append, Nat.add_assoc, Nat.le_add_right]
  · rw [chars_append, chars_append, List.append_assoc, length, List.drop_left]
    exact List.prefix_append _ _

theorem occursAt_zero_iff : t.OccursAt needle 0 ↔ t.startsWith needle = true := by
  rw [OccursAt, List.drop_zero, startsWith, List.isPrefixOf_iff_prefix]
  exact and_iff_right (Nat.zero_le _)

theorem startsWith_iff_find_eq_zero : t.startsWith needle = true ↔ t.find needle = 0 := by
  rw [← occursAt_zero_iff]
  constructor
  · intro hbegin
    have hle := find_le_of_occursAt hbegin
    have hnonneg := contains_iff_find_nonneg.1 (contains_iff_exists_occursAt.2 ⟨0, hbegin⟩)
    exact le_antisymm hle hnonneg
  · intro hzero
    rw [find] at hzero
    cases hfind : t.find? needle with
    | none => simp [hfind] at hzero
    | some q =>
        have hq : q = 0 := by simpa [hfind] using hzero
        exact hq ▸ (isLeast_of_findFrom hfind).1.2

/-- A search finds `p` exactly if `p` is the least position from its start on at which the text
reads as the needle, and nothing exactly if there is no such position; the empty needle is read at
each position and at the end. So a text contains a needle, the empty one included, exactly if it is
the needle with a text before it and a text after it, exactly if the needle has a position, and
exactly if it is counted. The position is zero exactly if the text starts with the needle, and the
needle is found no later than behind a text that was put before it. -/
theorem findFrom_least_reading (t needle : Text) :
    (∀ start p : ℕ, t.findFrom needle start = some p ↔
      IsLeast {q | start ≤ q ∧ t.ReadsAt needle q} p) ∧
    (∀ start : ℕ, t.findFrom needle start = none ↔ ¬ ∃ q, start ≤ q ∧ t.ReadsAt needle q) ∧
    (∀ q : ℕ, t.ReadsAt empty q ↔ q ≤ t.length) ∧
    (t.contains needle = true ↔ ∃ a b, t = a ++ needle ++ b) ∧
    (t.contains needle = true ↔ 0 ≤ t.find needle) ∧
    (t.contains needle = true ↔ 0 < t.count needle) ∧
    (t.startsWith needle = true ↔ t.find needle = 0) ∧
    ∀ a b : Text, (a ++ needle ++ b).find needle ≤ a.length := by
  refine ⟨fun start p => ?_, fun start => ?_, fun q => readsAt_empty_iff,
    contains_iff_exists_append, contains_iff_find_nonneg, contains_iff_count_pos,
    startsWith_iff_find_eq_zero, fun a b => find_le_of_occursAt (occursAt_append a needle b)⟩
  · simp only [readsAt_iff_occursAt]
    exact findFrom_eq_some_iff
  · simp only [readsAt_iff_occursAt, not_exists, not_and]
    exact findFrom_eq_none_iff

end Text

end Conformance
