import Mathlib.Algebra.BigOperators.Group.Finset.Basic
import Mathlib.Tactic.Ring
import Conformance.Proofs.Text.Slice

/-!
# Strides

A walk with a longer stride takes every so many steps of the walk with the shorter one, in either
direction: whether a step still lies before the stop is a question about its position alone, so the
number of codepoints in between never enters. The slices by one stride from its first few positions
share the text out: each position belongs to the slice of its remainder, at its quotient.
-/

namespace Conformance

namespace Slice

variable {n m : ℕ} {k : ℤ}

theorem pos_mul_iff (hm : 0 < m) : 0 < k * m ↔ 0 < k :=
  mul_pos_iff_of_pos_right (Int.natCast_pos.2 hm)

/-- Only the direction of a walk matters to where it begins and ends. -/
theorem place_mul (hm : 0 < m) (bound : ℤ) : place n (k * m) bound = place n k bound := by
  simp only [place, pos_mul_iff hm]

theorem origin_mul (hm : 0 < m) (start : Option ℤ) : origin n (k * m) start = origin n k start := by
  cases start with
  | some bound => exact place_mul hm bound
  | none => simp only [origin, pos_mul_iff hm]

theorem limit_mul (hm : 0 < m) (stop : Option ℤ) : limit n (k * m) stop = limit n k stop := by
  cases stop with
  | some bound => exact place_mul hm bound
  | none => simp only [limit, pos_mul_iff hm]

end Slice

namespace Bounds

variable {n m : ℕ} {b : Bounds}

/-- The walk that takes each `m`-th step of a walk. -/
def coarsen (m : ℕ) (b : Bounds) : Bounds := { b with step := b.step * m }

theorem resolve_coarsen {k : ℤ} (hk : k ≠ 0) (hm : 0 < m) {start stop : Option ℤ}
    (hb : resolve n start stop (some k) = .ok b) :
    resolve n start stop (some (k * m)) = .ok (b.coarsen m) := by
  have hkm : k * m ≠ 0 := mul_ne_zero hk (Int.natCast_ne_zero.2 hm.ne')
  rw [resolve_some_eq_ok hk] at hb
  cases hb
  rw [resolve_some_eq_ok hkm, Slice.origin_mul hm, Slice.limit_mul hm]
  rfl

theorem span_coarsen (hm : 0 < m) : (b.coarsen m).span = b.span := by
  simp only [span, coarsen, Slice.pos_mul_iff hm]

/-- The coarser walk takes a step as long as the finer one takes the step it stands for. -/
theorem lt_count_coarsen (hm : 0 < m) (hstep : b.step ≠ 0) (i : ℕ) :
    i < (b.coarsen m).count ↔ i * m < b.count := by
  have hcoarse : (b.coarsen m).step ≠ 0 := mul_ne_zero hstep (Int.natCast_ne_zero.2 hm.ne')
  have habs : i * (b.coarsen m).step.natAbs = i * m * b.step.natAbs := by
    rw [coarsen, Int.natAbs_mul, Int.natAbs_natCast]
    ring
  rw [lt_count_iff hcoarse, lt_count_iff hstep, span_coarsen hm, habs]

theorem position_coarsen (i : ℕ) : (b.coarsen m).position i = b.position (i * m) := by
  have hmoved : (i : ℤ) * (b.step * m) = ((i * m : ℕ) : ℤ) * b.step := by
    push_cast
    ring
  simp only [position, coarsen, hmoved]

variable {k : ℕ} (r : ℕ)

/-- Bounds of a walk ahead that starts at a position and is not stopped before the end. -/
theorem resolve_ahead (hk : 0 < k) :
    resolve n (some r) none (some k) = .ok ⟨(min r n : ℕ), n, k⟩ := by
  have hpos : (0 : ℤ) < k := Int.natCast_pos.2 hk
  have horigin : Slice.origin n k (some r) = (min r n : ℕ) := by
    simp only [Slice.origin, Slice.place, Slice.counted, if_pos hpos]
    split_ifs <;> omega
  have hlimit : Slice.limit n k none = n := if_pos hpos
  rw [resolve_some_eq_ok hpos.ne', horigin, hlimit]

theorem lt_count_ahead (hk : 0 < k) (i : ℕ) :
    i < (⟨r, n, k⟩ : Bounds).count ↔ r + i * k < n := by
  rw [lt_count_iff_of_pos (Int.natCast_pos.2 hk)]
  change (r : ℤ) + i * k < n ↔ _
  norm_cast

theorem position_ahead (i : ℕ) : (⟨r, n, k⟩ : Bounds).position i = r + i * k := by
  simp only [position]
  norm_cast

end Bounds

namespace Text

variable {t part : Text} {k m r : ℕ}

/-- A walk ahead without a stop reads the text at its own pace, from its start on. -/
theorem slice_ahead (t : Text) (hk : 0 < k) (r : ℕ) :
    ∃ part, t.slice (some r) none (some k) = .ok part ∧
      ∀ i : ℕ, part.chars[i]? = t.chars[r + i * k]? := by
  have hb := Bounds.resolve_ahead (n := t.length) r hk
  refine ⟨_, slice_eq_select hb, fun i => ?_⟩
  have hcount := Bounds.lt_count_ahead (n := t.length) (min r t.length) hk i
  rw [getElem?_select_indices (Bounds.within_of_resolve hb), Bounds.position_ahead]
  by_cases hi : r + i * k < t.length
  · have hstart : min r t.length = r := by omega
    rw [hstart] at hcount ⊢
    rw [if_pos (hcount.2 hi)]
  · rw [if_neg (by omega)]
    exact (List.getElem?_eq_none (not_lt.1 hi)).symm

/-- A walk ahead begins at the first position when no start is given. -/
theorem slice_from_start (t : Text) (hk : 0 < k) :
    t.slice none none (some k) = t.slice (some (0 : ℕ)) none (some k) := by
  have hpos : (0 : ℤ) < k := Int.natCast_pos.2 hk
  have hfirst : Bounds.resolve t.length none none (some k) = .ok ⟨(0 : ℕ), t.length, k⟩ := by
    rw [Bounds.resolve_some_eq_ok hpos.ne', Slice.origin, Slice.limit, if_pos hpos, if_pos hpos]
    rfl
  simp only [slice, hfirst, Bounds.resolve_ahead 0 hk, Nat.zero_min]

/-- A slice of a slice, the outer one over the whole of the inner one, is the slice of the text
with the product of the steps. -/
theorem slice_slice {k : ℤ} (hk : k ≠ 0) (hm : 0 < m) (start stop : Option ℤ) :
    ∃ u v, t.slice start stop (some k) = .ok u ∧ u.slice none none (some m) = .ok v ∧
      t.slice start stop (some (k * m)) = .ok v := by
  obtain ⟨b, hb⟩ : ∃ b, Bounds.resolve t.length start stop (some k) = .ok b :=
    ⟨_, Bounds.resolve_some_eq_ok hk start stop⟩
  have hcoarse := Bounds.resolve_coarsen hk hm hb
  have hwithin := Bounds.within_of_resolve hb
  obtain ⟨v, hv, hread⟩ := slice_ahead (t.select b.indices) hm 0
  refine ⟨_, v, slice_eq_select hb, (slice_from_start _ hm).trans hv, ?_⟩
  rw [slice_eq_select hcoarse]
  congr 1
  apply Text.ext
  apply List.ext_getElem?
  intro i
  rw [hread, zero_add, getElem?_select_indices (Bounds.within_of_resolve hcoarse),
    getElem?_select_indices hwithin, Bounds.position_coarsen]
  exact if_congr (Bounds.lt_count_coarsen hm hwithin.step_ne_zero i) rfl rfl

theorem lt_length_of_ahead (hread : ∀ i : ℕ, part.chars[i]? = t.chars[r + i * k]?) (i : ℕ) :
    i < part.length ↔ r + i * k < t.length := by
  rw [← not_le, ← not_le, length, length, ← List.getElem?_eq_none_iff,
    ← List.getElem?_eq_none_iff, hread]

/-- The slice of remainder `r` has one codepoint for each position of that remainder. -/
theorem length_of_ahead (hr : r < k) (hread : ∀ i : ℕ, part.chars[i]? = t.chars[r + i * k]?) :
    part.length = ((Finset.range t.length).filter (· % k = r)).card := by
  have hpositions : (Finset.range t.length).filter (· % k = r) =
      (Finset.range part.length).image fun i => r + i * k := by
    ext p
    simp only [Finset.mem_filter, Finset.mem_image, Finset.mem_range,
      lt_length_of_ahead hread]
    constructor
    · rintro ⟨hlt, rfl⟩
      have hp := Nat.mod_add_div' p k
      exact ⟨p / k, by rwa [hp], hp⟩
    · rintro ⟨i, hi, rfl⟩
      exact ⟨hi, by rw [Nat.add_mul_mod_self_right, Nat.mod_eq_of_lt hr]⟩
  have hinjective : Function.Injective fun i => r + i * k := fun i j hij =>
    Nat.eq_of_mul_eq_mul_right (Nat.zero_lt_of_lt hr) (Nat.add_left_cancel hij)
  rw [hpositions, Finset.card_image_of_injective _ hinjective, Finset.card_range]

/-- A step and a multiple of it compose: a slice with the step, sliced again with the factor, is
the slice with the multiple, in either direction and between any bounds. The slices of one step
from each of its first positions share the text out: together they are as long as the text, and the
codepoint at each position is in the slice of its remainder, at its quotient. -/
theorem slice_strides (t : Text) :
    (∀ (start stop : Option ℤ) (k m : ℤ), k ≠ 0 → 1 ≤ m →
      ∃ u v, t.slice start stop (some k) = .ok u ∧ u.slice none none (some m) = .ok v ∧
        t.slice start stop (some (k * m)) = .ok v) ∧
    ∀ k : ℕ, 1 ≤ k → ∃ part : ℕ → Text,
      (∀ r < k, t.slice (some r) none (some k) = .ok (part r)) ∧
      ∑ r ∈ Finset.range k, (part r).length = t.length ∧
      ∀ p : ℕ, (part (p % k)).chars[p / k]? = t.chars[p]? := by
  refine ⟨fun start stop k m hk hm => ?_, fun k hk => ?_⟩
  · lift m to ℕ using by omega
    exact slice_slice hk (by omega) start stop
  · choose part hslice hread using slice_ahead t hk
    refine ⟨part, fun r _ => hslice r, ?_, fun p => ?_⟩
    · calc
        ∑ r ∈ Finset.range k, (part r).length
            = ∑ r ∈ Finset.range k, ((Finset.range t.length).filter (· % k = r)).card :=
          Finset.sum_congr rfl fun r hr => length_of_ahead (Finset.mem_range.1 hr) (hread r)
        _ = (Finset.range t.length).card := by
          refine (Finset.card_eq_sum_card_fiberwise fun p _ => ?_).symm
          exact Finset.mem_coe.2 (Finset.mem_range.2 (Nat.mod_lt p hk))
        _ = t.length := Finset.card_range t.length
    · rw [hread, Nat.mod_add_div' p k]

/-- Eight codepoints, backwards by two and then by three, and in shares of three. -/
theorem slice_strides_eight :
    let t := ofString "football"
    ((-2 : ℤ) ≠ 0 ∧ (1 : ℤ) ≤ 3 ∧ ∃ u v, t.slice none none (some (-2)) = .ok u ∧
      u.slice none none (some 3) = .ok v ∧ t.slice none none (some (-6)) = .ok v) ∧
    (1 ≤ 3 ∧ 2 < 3 ∧ ∃ part : ℕ → Text, t.slice (some 2) none (some 3) = .ok (part 2) ∧
      ∑ r ∈ Finset.range 3, (part r).length = 8 ∧
      (part 2).chars[1]? = t.chars[5]?) := by
  intro t
  have hback : (-2 : ℤ) ≠ 0 := by decide
  have hfactor : (1 : ℤ) ≤ 3 := by decide
  have hstep : 1 ≤ 3 := by decide
  have hlast : 2 < 3 := by decide
  obtain ⟨part, hslice, hlength, hread⟩ := (slice_strides t).2 3 hstep
  exact ⟨⟨hback, hfactor, (slice_strides t).1 none none (-2) 3 hback hfactor⟩,
    hstep, hlast, part, hslice 2 hlast, hlength, hread 5⟩

end Text

end Conformance
