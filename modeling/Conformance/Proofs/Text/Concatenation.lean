import Conformance.Proofs.Text.Slice

/-!
# Cutting and concatenating

Cutting a text at a position and concatenating the two parts gives the text back, and a
concatenation is cut into its two texts where the first one ends. The bound of a cut is resolved
once as a stop and once as a start; both land on one position, wherever the bound lies, so nothing
between the outer bounds is lost or read twice.
-/

namespace Conformance

namespace Slice

variable {n : ℕ}

/-- A position of the text, its end included, is its own place. -/
theorem place_natCast {p : ℕ} (hp : p ≤ n) : place n 1 p = p := by
  simp only [place, counted, zero_lt_one, if_true]
  split_ifs <;> omega

theorem place_nonneg (bound : ℤ) : 0 ≤ place n 1 bound := le_max_left _ _

theorem place_le (bound : ℤ) : place n 1 bound ≤ n :=
  max_le (Int.natCast_nonneg n) (min_le_right _ _)

end Slice

namespace Text

variable {t : Text} {first middle last : ℕ}

/-- A slice of step one is the stretch between its resolved bounds. -/
theorem slice_eq_between (t : Text) (start stop : Option ℤ) :
    t.slice start stop none = .ok
      (t.between (Slice.origin t.length 1 start).toNat (Slice.limit t.length 1 stop).toNat) := by
  simp only [slice, Bounds.resolve_none_eq_ok, if_true]

/-- Two stretches that meet at a position are one. -/
theorem between_append_between (hfirst : first ≤ middle) (hlast : middle ≤ last) :
    t.between first middle ++ t.between middle last = t.between first last := by
  apply Text.ext
  rw [chars_append]
  obtain ⟨i, rfl⟩ := Nat.exists_eq_add_of_le hfirst
  obtain ⟨j, rfl⟩ := Nat.exists_eq_add_of_le hlast
  calc
    (t.chars.take (first + i)).drop first ++ (t.chars.take (first + i + j)).drop (first + i)
        = (t.chars.drop first).take i ++ (t.chars.drop (first + i)).take j := by
      rw [List.drop_take, List.drop_take, Nat.add_sub_cancel_left, Nat.add_sub_cancel_left]
    _ = (t.chars.drop first).take (i + j) := by rw [List.take_add, List.drop_drop]
    _ = (t.chars.take (first + i + j)).drop first := by
      rw [List.drop_take, Nat.add_assoc, Nat.add_sub_cancel_left]

/-- Slices that share a resolved bound concatenate to the slice between the outer bounds. -/
theorem slice_append_slice {start stop : Option ℤ} {cut : ℤ}
    (hstart : Slice.origin t.length 1 start ≤ Slice.place t.length 1 cut)
    (hstop : Slice.place t.length 1 cut ≤ Slice.limit t.length 1 stop) :
    ∃ u v, t.slice start (some cut) none = .ok u ∧ t.slice (some cut) stop none = .ok v ∧
      t.slice start stop none = .ok (u ++ v) := by
  refine ⟨_, _, slice_eq_between t start (some cut), slice_eq_between t (some cut) stop, ?_⟩
  rw [slice_eq_between]
  congr 1
  exact (between_append_between (Int.toNat_le_toNat hstart) (Int.toNat_le_toNat hstop)).symm

/-- Cutting a concatenation where its first text ends gives the two texts back. -/
theorem slice_append (a b : Text) :
    (a ++ b).slice none (some a.length) none = .ok a ∧
      (a ++ b).slice (some a.length) none none = .ok b := by
  have hcut : Slice.place (a ++ b).length 1 a.length = a.length :=
    Slice.place_natCast (by rw [length_append]; exact Nat.le_add_right _ _)
  have hbefore : (a ++ b).between 0 a.length = a := by simp [between, length]
  have hafter : (a ++ b).between a.length (a ++ b).length = b := by
    simp only [between, length, chars_append, List.take_length, List.drop_left]
  constructor
  · rw [slice_eq_between, Slice.limit, hcut]
    exact congrArg Except.ok hbefore
  · rw [slice_eq_between, Slice.origin, hcut]
    exact congrArg Except.ok hafter

/-- A concatenation cut where its first text ends is its two texts. Conversely, let a cut be
resolved as the stop of one slice and as the start of another: both times it is one position, and
if neither slice runs backwards, their concatenation is the slice between the outer bounds. A cut
anywhere, in range or not, leaves two parts of the whole text. -/
theorem slice_concat_inverse :
    (∀ a b : Text,
      (a ++ b).slice none (some a.length) none = .ok a ∧
      (a ++ b).slice (some a.length) none none = .ok b) ∧
    (∀ (t : Text) (start stop : Option ℤ) (cut : ℤ) (before after : Bounds),
      Bounds.resolve t.length start (some cut) none = .ok before →
      Bounds.resolve t.length (some cut) stop none = .ok after →
      before.start ≤ before.stop → after.start ≤ after.stop →
      before.stop = after.start ∧
      ∃ u v, t.slice start (some cut) none = .ok u ∧ t.slice (some cut) stop none = .ok v ∧
        t.slice start stop none = .ok (u ++ v)) ∧
    ∀ (t : Text) (cut : ℤ), ∃ u v,
      t.slice none (some cut) none = .ok u ∧ t.slice (some cut) none none = .ok v ∧
        u ++ v = t := by
  refine ⟨slice_append, ?_, fun t cut => ?_⟩
  · intro t start stop cut before after hbefore hafter hstart hstop
    rw [Bounds.resolve_none_eq_ok] at hbefore hafter
    cases hbefore
    cases hafter
    exact ⟨rfl, slice_append_slice hstart hstop⟩
  · have hbegin : Slice.origin t.length 1 none ≤ Slice.place t.length 1 cut :=
      Slice.place_nonneg cut
    have hend : Slice.place t.length 1 cut ≤ Slice.limit t.length 1 none := Slice.place_le cut
    obtain ⟨u, v, hu, hv, hall⟩ := slice_append_slice hbegin hend
    have hwhole : t.slice none none none = .ok t := slice_all t rfl
    rw [hwhole] at hall
    exact ⟨u, v, hu, hv, (Except.ok.inj hall).symm⟩

/-- The start is counted from the end and the stop lies beyond it. -/
theorem slice_concat_inverse_beyond :
    let t := ofString "football"
    Bounds.resolve t.length (some (-7)) (some (-3)) none = .ok ⟨1, 5, 1⟩ ∧
    Bounds.resolve t.length (some (-3)) (some 100) none = .ok ⟨5, 8, 1⟩ ∧
    (1 : ℤ) ≤ 5 ∧ (5 : ℤ) ≤ 8 ∧
    ∃ u v, t.slice (some (-7)) (some (-3)) none = .ok u ∧
      t.slice (some (-3)) (some 100) none = .ok v ∧
      t.slice (some (-7)) (some 100) none = .ok (u ++ v) := by
  intro t
  have hbefore : Bounds.resolve t.length (some (-7)) (some (-3)) none = .ok ⟨1, 5, 1⟩ := by decide
  have hafter : Bounds.resolve t.length (some (-3)) (some 100) none = .ok ⟨5, 8, 1⟩ := by decide
  have hstart : (1 : ℤ) ≤ 5 := by decide
  have hstop : (5 : ℤ) ≤ 8 := by decide
  exact ⟨hbefore, hafter, hstart, hstop,
    (slice_concat_inverse.2.1 t _ _ _ _ _ hbefore hafter hstart hstop).2⟩

end Text

end Conformance
