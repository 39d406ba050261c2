import Mathlib.Data.List.Basic
import Conformance.Proofs.Text.Slice

/-!
# Slices of a text read backwards

Reading a text backwards turns a bound into its mirror, which counts from the other end, and a step
into its opposite. The two kinds of walk have bounds, clamps and ends of their own; under the
mirror those of the one are those of the other, so a walk over the reversed text meets the
codepoints that the mirrored walk meets in the text itself.
-/

namespace Conformance

namespace Slice

/-- The bound that means the same codepoint to a reader from the other end. -/
def mirror (bound : ℤ) : ℤ := -1 - bound

variable {n : ℕ} {k : ℤ}

theorem counted_mirror (bound : ℤ) : counted n (mirror bound) = n - 1 - counted n bound := by
  unfold counted mirror
  split_ifs <;> omega

theorem counted_inside_iff (bound : ℤ) :
    0 ≤ counted n bound ∧ counted n bound < n ↔ -(n : ℤ) ≤ bound ∧ bound < n := by
  unfold counted
  split_ifs <;> omega

/-- The clamp for one direction is the mirror of the clamp for the other. -/
theorem place_mirror (hk : k ≠ 0) (bound : ℤ) :
    place n (-k) (mirror bound) = n - 1 - place n k bound := by
  unfold place
  rw [counted_mirror]
  split_ifs <;> omega

theorem origin_mirror (hk : k ≠ 0) (start : Option ℤ) :
    origin n (-k) (start.map mirror) = n - 1 - origin n k start := by
  cases start with
  | some bound => exact place_mirror hk bound
  | none =>
      simp only [origin, Option.map_none]
      split_ifs <;> omega

theorem limit_mirror (hk : k ≠ 0) (stop : Option ℤ) :
    limit n (-k) (stop.map mirror) = n - 1 - limit n k stop := by
  cases stop with
  | some bound => exact place_mirror hk bound
  | none =>
      simp only [limit, Option.map_none]
      split_ifs <;> omega

end Slice

namespace Bounds

variable {n : ℕ} {b : Bounds}

/-- The bounds of the walk that meets, from the other end, what the given walk meets. -/
def mirror (n : ℕ) (b : Bounds) : Bounds := ⟨n - 1 - b.start, n - 1 - b.stop, -b.step⟩

theorem resolve_mirror {k : ℤ} (hk : k ≠ 0) {start stop : Option ℤ}
    (hb : resolve n start stop (some k) = .ok b) :
    resolve n (start.map Slice.mirror) (stop.map Slice.mirror) (some (-k)) = .ok (b.mirror n) := by
  rw [resolve_some_eq_ok hk] at hb
  cases hb
  rw [resolve_some_eq_ok (neg_ne_zero.2 hk), Slice.origin_mirror hk, Slice.limit_mirror hk]
  rfl

theorem span_mirror (hstep : b.step ≠ 0) : (b.mirror n).span = b.span := by
  rcases lt_or_gt_of_ne hstep with hneg | hpos
  · rw [span_of_neg hneg, span_of_pos (b := b.mirror n) (neg_pos.2 hneg)]
    simp only [mirror]
    omega
  · rw [span_of_pos hpos, span_of_neg (b := b.mirror n) (neg_neg_of_pos hpos)]
    simp only [mirror]
    omega

theorem count_mirror (hstep : b.step ≠ 0) : (b.mirror n).count = b.count := by
  apply eq_of_forall_lt_iff
  intro i
  have hmirrored : (b.mirror n).step ≠ 0 := neg_ne_zero.2 hstep
  rw [lt_count_iff hmirrored, lt_count_iff hstep, span_mirror hstep, mirror, Int.natAbs_neg]

theorem Within.position_mirror (hb : b.Within n) {i : ℕ} (hi : i < b.count) :
    (b.mirror n).position i = n - 1 - b.position i := by
  obtain ⟨hposition, hinside⟩ := hb.position_eq hi
  simp only [position, mirror, mul_neg] at hposition hinside ⊢
  omega

theorem Within.indices_mirror (hb : b.Within n) :
    (b.mirror n).indices = b.indices.map (n - 1 - ·) := by
  rw [indices_eq, indices_eq, count_mirror hb.step_ne_zero, List.map_map]
  apply List.map_congr_left
  intro i hi
  exact hb.position_mirror (List.mem_range.1 hi)

end Bounds

namespace Text

variable {t : Text}

/-- A text read from its end to its beginning. -/
def reverse (t : Text) : Text := ⟨t.chars.reverse⟩

@[simp] theorem length_reverse (t : Text) : t.reverse.length = t.length := by
  simp [reverse, length]

@[simp] theorem reverse_reverse (t : Text) : t.reverse.reverse = t := by
  simp [reverse]

theorem select_reverse {positions : List ℕ} (h : ∀ p ∈ positions, p < t.length) :
    t.reverse.select positions = t.select (positions.map (t.length - 1 - ·)) := by
  simp only [select, reverse, List.getElem?_toArray, List.filterMap_map]
  congr 1
  apply List.filterMap_congr
  intro p hp
  exact List.getElem?_reverse (h p hp)

/-- A slice of the reversed text is the mirrored slice of the text. -/
theorem slice_reverse {k : ℤ} (hk : k ≠ 0) (start stop : Option ℤ) :
    ∃ u, t.reverse.slice start stop (some k) = .ok u ∧
      t.slice (start.map Slice.mirror) (stop.map Slice.mirror) (some (-k)) = .ok u := by
  have hb := Bounds.resolve_some_eq_ok (n := t.length) hk start stop
  have hwithin := Bounds.within_of_resolve hb
  have hreverse := select_reverse fun p => hwithin.lt_of_mem_indices (p := p)
  refine ⟨_, slice_eq_select (by rwa [length_reverse]), ?_⟩
  rw [slice_eq_select (Bounds.resolve_mirror hk hb), hwithin.indices_mirror, hreverse]

/-- A slice without bounds and with step minus one is the reversed text. -/
theorem slice_back (t : Text) : t.slice none none (some (-1)) = .ok t.reverse := by
  obtain ⟨u, hreverse, hback⟩ := slice_reverse (t := t) one_ne_zero none none
  have hwhole : t.reverse.slice none none (some 1) = .ok t.reverse := slice_all t.reverse rfl
  rw [hwhole] at hreverse
  cases hreverse
  exact hback

/-- An index inside the text reads the codepoint at its counted position. -/
theorem index_of_inside {i : ℤ} {p : ℕ} {c : Char} (hp : Slice.counted t.length i = p)
    (hc : t.chars[p]? = some c) : t.index i = .ok (singleton c) := by
  have hposition : (if i < 0 then i + t.length else i) = p := hp
  simp [index, hposition, hc]

/-- An index outside the text fails, with the index as it was given. -/
theorem index_of_outside {i : ℤ}
    (h : Slice.counted t.length i < 0 ∨ t.length ≤ Slice.counted t.length i) :
    t.index i = .error (.indexOutOfRange i t.length) := by
  generalize hp : Slice.counted t.length i = p at h
  have hposition : (if i < 0 then i + t.length else i) = p := hp
  simp only [index, hposition]
  rcases h with hneg | hpast
  · rw [if_pos hneg]
  · rw [if_neg (by omega), List.getElem?_eq_none (by simp only [length] at hpast; omega)]

/-- An index into the reversed text reads what the mirrored index reads in the text. -/
theorem index_reverse (t : Text) (i : ℤ) :
    (-(t.length : ℤ) ≤ i ∧ i < t.length ∧
      ∃ c, t.reverse.index i = .ok (singleton c) ∧
        t.index (Slice.mirror i) = .ok (singleton c)) ∨
    ((i < -(t.length : ℤ) ∨ t.length ≤ i) ∧
      t.reverse.index i = .error (.indexOutOfRange i t.length) ∧
      t.index (Slice.mirror i) = .error (.indexOutOfRange (Slice.mirror i) t.length)) := by
  have hmirror := Slice.counted_mirror (n := t.length) i
  have hcounted := Slice.counted_inside_iff (n := t.length) i
  by_cases hinside : -(t.length : ℤ) ≤ i ∧ i < t.length
  · obtain ⟨hnonneg, hlt⟩ := hcounted.2 hinside
    obtain ⟨p, hp⟩ := Int.eq_ofNat_of_zero_le hnonneg
    rw [hp] at hlt hmirror
    have hlast : p < t.chars.length := Int.ofNat_lt.1 hlt
    obtain ⟨c, hc⟩ : ∃ c, t.chars[t.chars.length - 1 - p]? = some c :=
      ⟨_, List.getElem?_eq_getElem (by omega)⟩
    refine .inl ⟨hinside.1, hinside.2, c, ?_, ?_⟩
    · apply index_of_inside (p := p)
      · rw [length_reverse, hp]
      · rw [reverse, List.getElem?_reverse hlast, hc]
    · refine index_of_inside ?_ hc
      rw [hmirror, length]
      omega
  · have houtside : Slice.counted t.length i < 0 ∨ t.length ≤ Slice.counted t.length i := by
      omega
    refine .inr ⟨by omega, ?_, index_of_outside (by omega)⟩
    have hfail := index_of_outside (t := t.reverse) (i := i) (by rwa [length_reverse])
    rwa [length_reverse] at hfail

/-- Let `r` be the text read with step minus one. Every slice of `r` with a step `k` is the slice of
the text with mirrored bounds and step `-k`, wherever the bounds lie. An index into `r` reads the
codepoint that the mirrored index reads in the text when it is in range, and both are refused when
it is not. Reading `r` backwards gives the text. -/
theorem slice_mirrored (t : Text) :
    ∃ r, t.slice none none (some (-1)) = .ok r ∧
      (∀ (start stop : Option ℤ) (k : ℤ), k ≠ 0 →
        ∃ u, r.slice start stop (some k) = .ok u ∧
          t.slice (start.map (-1 - ·)) (stop.map (-1 - ·)) (some (-k)) = .ok u) ∧
      (∀ i : ℤ,
        (-(t.length : ℤ) ≤ i ∧ i < t.length ∧
          ∃ c, r.index i = .ok (singleton c) ∧ t.index (-1 - i) = .ok (singleton c)) ∨
        ((i < -(t.length : ℤ) ∨ t.length ≤ i) ∧
          r.index i = .error (.indexOutOfRange i t.length) ∧
          t.index (-1 - i) = .error (.indexOutOfRange (-1 - i) t.length))) ∧
      r.slice none none (some (-1)) = .ok t := by
  refine ⟨t.reverse, slice_back t, fun start stop k hk => slice_reverse hk start stop,
    index_reverse t, ?_⟩
  rw [slice_back, reverse_reverse]

/-- A start far beyond the end becomes one far before the beginning. -/
theorem slice_mirrored_far :
    let t := ofString "football"
    (3 : ℤ) ≠ 0 ∧ ∃ r, t.slice none none (some (-1)) = .ok r ∧
      ∃ u, r.slice (some (-100)) (some 7) (some 3) = .ok u ∧
        t.slice (some 99) (some (-8)) (some (-3)) = .ok u := by
  intro t
  have hstep : (3 : ℤ) ≠ 0 := by decide
  obtain ⟨r, hback, hslices, -, -⟩ := slice_mirrored t
  exact ⟨hstep, r, hback, hslices (some (-100)) (some 7) 3 hstep⟩

end Text

end Conformance
