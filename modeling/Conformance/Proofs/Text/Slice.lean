import Conformance.Proofs.Text.Bounds

/-!
# Slices follow the rule

A slice fails exactly for a step of zero. Otherwise it holds the codepoints at the positions that
the rule of slices selects, in the order of the walk. Copying a stretch for a step of one gives
what the walk gives.
-/

namespace Conformance

namespace Text

variable {t : Text} {b : Bounds}

/-- Selection reads one codepoint for each position, if all positions lie in the text. -/
theorem map_some_select {positions : List ℕ} (h : ∀ p ∈ positions, p < t.length) :
    (t.select positions).chars.map some = positions.map (t.chars[·]?) := by
  simp only [select, List.getElem?_toArray]
  induction positions with
  | nil => rfl
  | cons p rest ih =>
      obtain ⟨hp, hrest⟩ := List.forall_mem_cons.1 h
      obtain ⟨c, hread⟩ : ∃ c, t.chars[p]? = some c := ⟨_, List.getElem?_eq_getElem hp⟩
      rw [List.filterMap_cons_some hread, List.map_cons, List.map_cons, ih hrest, hread]

theorem getElem?_select {positions : List ℕ} (h : ∀ p ∈ positions, p < t.length) (i : ℕ) :
    (t.select positions).chars[i]? = positions[i]?.bind (t.chars[·]?) := by
  have hread := congrArg (·[i]?) (map_some_select h)
  simp only [List.getElem?_map] at hread
  cases hp : positions[i]? with
  | none => simpa [hp] using hread
  | some p =>
      rw [hp, Option.map_some] at hread
      obtain ⟨c, hc, heq⟩ := Option.map_eq_some_iff.1 hread
      rw [hc, heq, Option.bind_some]

/-- Selection along a walk reads one codepoint for each step of it. -/
theorem getElem?_select_indices (hb : b.Within t.length) (i : ℕ) :
    (t.select b.indices).chars[i]? = if i < b.count then t.chars[b.position i]? else none := by
  rw [getElem?_select fun p => hb.lt_of_mem_indices, Bounds.indices_eq, List.getElem?_map]
  split
  · next hi => rw [List.getElem?_range hi, Option.map_some, Option.bind_some]
  · next hi => rw [List.getElem?_eq_none (by simpa using hi), Option.map_none, Option.bind_none]

/-- A walk with step one reads the stretch between the bounds. -/
theorem between_eq_select (hb : b.Within t.length) (hstep : b.step = 1) :
    t.between b.start.toNat b.stop.toNat = t.select b.indices := by
  have hpos : 0 < b.step := hstep ▸ Int.one_pos
  have hstart := (hb.ahead hpos).1
  apply Text.ext
  apply List.ext_getElem?
  intro i
  have hcount := Bounds.lt_count_iff_of_pos hpos i
  rw [hstep, mul_one] at hcount
  rw [getElem?_select fun p => hb.lt_of_mem_indices]
  simp only [between, Bounds.indices_eq, List.getElem?_map, List.getElem?_drop, List.getElem?_take]
  by_cases hi : i < b.count
  · have hposition : b.start.toNat + i = b.position i := by
      simp only [Bounds.position, hstep]
      omega
    rw [List.getElem?_range hi, if_pos (by omega), hposition]
    rfl
  · rw [if_neg (by omega), List.getElem?_eq_none (l := List.range b.count) (by simpa using hi)]
    rfl

/-- Both ways of slicing read the positions of the walk. -/
theorem slice_eq_select {start stop step : Option ℤ}
    (hb : Bounds.resolve t.length start stop step = .ok b) :
    t.slice start stop step = .ok (t.select b.indices) := by
  simp only [slice, hb]
  split
  · next hstep => rw [between_eq_select (Bounds.within_of_resolve hb) hstep]
  · rfl

/-- A slice without bounds and with step one is the whole text. -/
theorem slice_all (t : Text) {k : Option ℤ} (hk : k.getD 1 = 1) : t.slice none none k = .ok t := by
  simp [slice, Bounds.resolve, hk, between, length]

/-- A slice fails exactly for a step of zero. For every other step it holds the codepoints at the
positions that the rule selects, upwards or downwards as the step says. Whatever the step, the
walk over the resolved bounds stays inside the text, and for a step of one the stretch between
them lies inside the text and is what the walk reads. -/
theorem slice_reads_selected (t : Text) (start stop step : Option ℤ) :
    let n := t.length
    let k := step.getD 1
    (t.slice start stop step = .error .zeroSliceStep ↔ k = 0) ∧
    (k ≠ 0 → ∃ (s : Text) (positions : List ℕ), t.slice start stop step = .ok s ∧
      (∀ p : ℤ, (∃ i ∈ positions, (i : ℤ) = p) ↔ Slice.Selects n start stop k p) ∧
      positions.Pairwise (fun p q => if 0 < k then p < q else q < p) ∧
      (∀ p ∈ positions, p < n) ∧
      s.chars.map some = positions.map (t.chars[·]?)) ∧
    ∀ b, Bounds.resolve n start stop step = .ok b →
      (∀ p ∈ b.indices, p < n) ∧
      (b.step = 1 →
        0 ≤ b.start ∧ b.stop ≤ n ∧
        t.between b.start.toNat b.stop.toNat = t.select b.indices) := by
  intro n k
  refine ⟨⟨fun hfail => ?_, fun hk => ?_⟩, fun hk => ?_, fun b hb => ?_⟩
  · by_contra hk
    rw [slice_eq_select (Bounds.resolve_eq_ok hk start stop)] at hfail
    cases hfail
  · simp [slice, Bounds.resolve, show step.getD 1 = 0 from hk]
  · have hb := Bounds.resolve_eq_ok (n := n) hk start stop
    have hwithin := Bounds.within_of_resolve hb
    have hinside := fun p => hwithin.lt_of_mem_indices (p := p)
    refine ⟨_, _, slice_eq_select hb, fun p => ?_, hwithin.pairwise_indices, hinside,
      map_some_select hinside⟩
    unfold Slice.Selects
    split
    · next hpos => exact hwithin.exists_mem_indices_iff_of_pos hpos p
    · next hneg =>
        exact hwithin.exists_mem_indices_iff_of_neg (lt_of_le_of_ne (not_lt.1 hneg) hk) p
  · have hwithin := Bounds.within_of_resolve hb
    refine ⟨fun p => hwithin.lt_of_mem_indices, fun hstep => ?_⟩
    obtain ⟨hstart, hstop⟩ := hwithin.ahead (hstep ▸ Int.one_pos)
    exact ⟨hstart, hstop, between_eq_select hwithin hstep⟩

/-- A walk back from a start far beyond the end. -/
theorem slice_reads_selected_back :
    let t := ofString "football"
    (some (-3 : ℤ)).getD 1 ≠ 0 ∧ ∃ (s : Text) (positions : List ℕ),
      t.slice (some 100) none (some (-3)) = .ok s ∧
      (∀ p : ℤ, (∃ i ∈ positions, (i : ℤ) = p) ↔ Slice.Selects 8 (some 100) none (-3) p) ∧
      s.chars.map some = positions.map (t.chars[·]?) := by
  intro t
  have hstep : (some (-3 : ℤ)).getD 1 ≠ 0 := by decide
  obtain ⟨s, positions, hslice, hselects, -, -, hread⟩ :=
    (slice_reads_selected t (some 100) none (some (-3))).2.1 hstep
  exact ⟨hstep, s, positions, hslice, hselects, hread⟩

end Text

end Conformance
