import Mathlib.Algebra.Order.Ring.Int
import Mathlib.Data.List.Basic
import Conformance.Text.Basic

/-!
# Repeated texts

The length of a repetition is computed in machine words, but nothing that matters is lost: what a
word cannot hold is far beyond the limit, so a repetition is refused exactly when the length that
it would have is beyond the limit. A repetition that is not refused has the text as its period, and
is the concatenation of the repetitions for any two counts that add up to its own.
-/

namespace Conformance

section Periods

variable {α : Type}

theorem length_flatten_replicate (l : List α) (count : ℕ) :
    (List.replicate count l).flatten.length = l.length * count := by
  rw [List.length_flatten, List.map_replicate, List.sum_replicate_nat, Nat.mul_comm]

/-- A list repeated has the list as its period. -/
theorem getElem?_flatten_replicate (l : List α) {count i : ℕ} (hi : i < l.length * count) :
    (List.replicate count l).flatten[i]? = l[i % l.length]? := by
  induction count generalizing i with
  | zero => exact absurd hi (Nat.not_lt_zero i)
  | succ count ih =>
      rw [List.replicate_succ, List.flatten_cons]
      by_cases hfirst : i < l.length
      · rw [List.getElem?_append_left hfirst, Nat.mod_eq_of_lt hfirst]
      · have hle : l.length ≤ i := Nat.not_lt.1 hfirst
        rw [Nat.mul_succ] at hi
        rw [List.getElem?_append_right hle, ih (by omega), ← Nat.mod_eq_sub_mod hle]

end Periods

namespace Text

theorem machineWord?_of_lt {k : ℕ} (hk : k < UInt64.size) : machineWord? k = some k := if_pos hk

theorem machineWord?_of_le {k : ℕ} (hk : UInt64.size ≤ k) : machineWord? k = none :=
  if_neg (Nat.not_lt.2 hk)

theorem replicate_of_nonpos (t : Text) {n : ℤ} (hn : n ≤ 0) : t.replicate n = .ok empty :=
  if_pos (.inl hn)

/-- The check in machine words is a check of the product. -/
theorem replicate_natCast (t : Text) (k : ℕ) : t.replicate k =
    if t.length * k ≤ maxLength then .ok ⟨(List.replicate k t.chars).flatten⟩
    else .error (.repeatTooLarge t.length k) := by
  have hlimit : maxLength < UInt64.size := by decide
  by_cases hempty : (k : ℤ) ≤ 0 ∨ t.chars = []
  · have hzero : t.length * k = 0 := by
      rcases hempty with hk | ht
      · rw [Int.ofNat_eq_zero.1 (le_antisymm hk (Int.natCast_nonneg k)), Nat.mul_zero]
      · rw [length, ht, List.length_nil, Nat.zero_mul]
    have hnil : (List.replicate k t.chars).flatten = [] := by
      rw [← List.length_eq_zero_iff, length_flatten_replicate]
      exact hzero
    rw [replicate, if_pos hempty, hzero, if_pos (Nat.zero_le _), hnil]
    rfl
  · rw [replicate, if_neg hempty, Int.toNat_natCast]
    have hlength : 0 < t.length := List.length_pos_iff.2 fun ht => hempty (.inr ht)
    have hcount : k ≤ t.length * k := Nat.le_mul_of_pos_left k hlength
    by_cases hproduct : t.length * k < UInt64.size
    · simp only [machineWord?_of_lt (hcount.trans_lt hproduct), machineWord?_of_lt hproduct]
    · -- What a word cannot hold is beyond the limit, be it the count or only the product.
      rw [if_neg (by omega)]
      by_cases hword : k < UInt64.size
      · simp only [machineWord?_of_lt hword, machineWord?_of_le (Nat.not_lt.1 hproduct)]
      · simp only [machineWord?_of_le (Nat.not_lt.1 hword)]

theorem replicate_natCast_eq_ok_iff {t u : Text} {k : ℕ} : t.replicate k = .ok u ↔
    t.length * k ≤ maxLength ∧ u = ⟨(List.replicate k t.chars).flatten⟩ := by
  rw [replicate_natCast]
  split
  · next hle => simp [hle, eq_comm]
  · next hle => simp [hle]

/-- A product beyond the limit is the only reason to refuse a repetition. -/
theorem replicate_eq_error_iff {t : Text} {n : ℤ} {e : Fault} : t.replicate n = .error e ↔
    (maxLength : ℤ) < t.length * n ∧ e = .repeatTooLarge t.length n := by
  rcases le_total n 0 with hn | hn
  · have hproduct : (t.length : ℤ) * n ≤ 0 :=
      mul_nonpos_of_nonneg_of_nonpos (Int.natCast_nonneg _) hn
    rw [replicate_of_nonpos t hn]
    exact iff_of_false nofun fun h => by omega
  · obtain ⟨k, rfl⟩ := Int.eq_ofNat_of_zero_le hn
    rw [replicate_natCast, ← Nat.cast_mul, Nat.cast_lt]
    split
    · next hle => simp [Nat.not_lt.2 hle]
    · next hlt => simp [Nat.not_le.1 hlt, eq_comm]

/-- A product beyond the limit has factors that are not zero. -/
theorem pos_of_maxLength_lt {t : Text} {n : ℤ} (h : (maxLength : ℤ) < t.length * n) :
    0 < n ∧ t ≠ empty := by
  have hpos : 0 < (t.length : ℤ) * n := (Int.natCast_nonneg maxLength).trans_lt h
  refine ⟨pos_of_mul_pos_right hpos (Int.natCast_nonneg _), ?_⟩
  rintro rfl
  rw [length, empty, List.length_nil, Nat.cast_zero, zero_mul] at hpos
  exact lt_irrefl 0 hpos

/-- A repetition has the length of its factors, and the text as its period. -/
theorem periodic_of_replicate {t u : Text} {n : ℤ} (hu : t.replicate n = .ok u) :
    (u.length : ℤ) = t.length * max n 0 ∧
      ∀ i < u.length, u.chars[i]? = t.chars[i % t.length]? := by
  rcases le_total n 0 with hn | hn
  · rw [replicate_of_nonpos t hn] at hu
    cases hu
    rw [max_eq_right hn, mul_zero]
    exact ⟨rfl, nofun⟩
  · obtain ⟨k, rfl⟩ := Int.eq_ofNat_of_zero_le hn
    obtain ⟨-, rfl⟩ := replicate_natCast_eq_ok_iff.1 hu
    have hlength := length_flatten_replicate t.chars k
    constructor
    · rw [max_eq_left hn, length, hlength, length, Nat.cast_mul]
    · intro i hi
      rw [length, hlength] at hi
      exact getElem?_flatten_replicate t.chars hi

/-- Counts add up to the concatenation, and a part of a repetition within the limit is within it. -/
theorem replicate_add {t u : Text} {j k : ℕ} (hu : t.replicate ↑(j + k) = .ok u) :
    ∃ a b, t.replicate j = .ok a ∧ t.replicate k = .ok b ∧ u = a ++ b := by
  obtain ⟨hle, rfl⟩ := replicate_natCast_eq_ok_iff.1 hu
  rw [Nat.mul_add] at hle
  refine ⟨⟨(List.replicate j t.chars).flatten⟩, ⟨(List.replicate k t.chars).flatten⟩, ?_, ?_, ?_⟩
  · exact replicate_natCast_eq_ok_iff.2 ⟨(Nat.le_add_right ..).trans hle, rfl⟩
  · exact replicate_natCast_eq_ok_iff.2 ⟨(Nat.le_add_left ..).trans hle, rfl⟩
  · apply Text.ext
    rw [chars_append, ← List.flatten_append, List.replicate_append_replicate]

/-- A text repeated is refused exactly if the count is positive, the text is not empty and their
product, which no word bounds, exceeds 2^28. Else it has the length of the product, nothing for a
count that is not positive, and the text as its period. If a sum of counts is not refused, then
neither are the counts, and the repetition is the concatenation of theirs. -/
theorem replicate_periodic (t : Text) :
    (∀ n : ℤ,
      (t.replicate n = .error (.repeatTooLarge t.length n) ↔
        0 < n ∧ t ≠ empty ∧ (2 : ℤ) ^ 28 < t.length * n) ∧
      (¬ (0 < n ∧ t ≠ empty ∧ (2 : ℤ) ^ 28 < t.length * n) →
        ∃ u, t.replicate n = .ok u ∧ (u.length : ℤ) = t.length * max n 0 ∧
          ∀ i < u.length, u.chars[i]? = t.chars[i % t.length]?)) ∧
    ∀ m n : ℤ, 0 ≤ m → 0 ≤ n → ∀ u, t.replicate (m + n) = .ok u →
      ∃ a b, t.replicate m = .ok a ∧ t.replicate n = .ok b ∧ u = a ++ b := by
  constructor
  · intro n
    have hlimit : (2 : ℤ) ^ 28 = maxLength := rfl
    rw [hlimit]
    constructor
    · rw [replicate_eq_error_iff]
      constructor
      · rintro ⟨hlarge, -⟩
        exact ⟨(pos_of_maxLength_lt hlarge).1, (pos_of_maxLength_lt hlarge).2, hlarge⟩
      · rintro ⟨-, -, hlarge⟩
        exact ⟨hlarge, rfl⟩
    · intro hwithin
      cases hu : t.replicate n with
      | ok u => exact ⟨u, rfl, periodic_of_replicate hu⟩
      | error e =>
          obtain ⟨hlarge, -⟩ := replicate_eq_error_iff.1 hu
          obtain ⟨hn, ht⟩ := pos_of_maxLength_lt hlarge
          exact absurd ⟨hn, ht, hlarge⟩ hwithin
  · intro m n hm hn u hu
    obtain ⟨j, rfl⟩ := Int.eq_ofNat_of_zero_le hm
    obtain ⟨k, rfl⟩ := Int.eq_ofNat_of_zero_le hn
    exact replicate_add hu

/-- A text of three codepoints, with two counts and with the last count within the limit. -/
theorem replicate_periodic_limit :
    let t := ofString "abc"
    let u := ofString "abcabcabc"
    ((0 : ℤ) ≤ 2 ∧ (0 : ℤ) ≤ 1 ∧ t.replicate (2 + 1) = .ok u ∧
      ∃ a b, t.replicate 2 = .ok a ∧ t.replicate 1 = .ok b ∧ u = a ++ b) ∧
    ¬ (0 < (89478485 : ℤ) ∧ t ≠ empty ∧ (2 : ℤ) ^ 28 < t.length * 89478485) ∧
    ∃ v, t.replicate 89478485 = .ok v ∧ (v.length : ℤ) = t.length * max 89478485 0 := by
  intro t u
  have hu : t.replicate (2 + 1) = .ok u := by decide
  have hwithin : ¬ (0 < (89478485 : ℤ) ∧ t ≠ empty ∧ (2 : ℤ) ^ 28 < t.length * 89478485) := by
    decide
  obtain ⟨v, hv, hlength, -⟩ := ((replicate_periodic t).1 89478485).2 hwithin
  exact ⟨⟨by decide, by decide, hu, (replicate_periodic t).2 2 1 (by decide) (by decide) u hu⟩,
    hwithin, v, hv, hlength⟩

end Text

end Conformance
