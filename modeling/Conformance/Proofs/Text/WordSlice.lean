import Conformance.Proofs.Text.Bounds
import Conformance.Proofs.Traversal
import Conformance.Proofs.Word

/-!
# Slices in machine words

The bounds of a slice are resolved, counted and walked along in words of 64 bits, each operation of
which is checked. For a length that is a word with a sign, no operation overflows, wherever the
bounds lie and whatever the step is, the lowest word included: the words that come out stand for
the exact bounds, the exact count and the exact positions.
-/

namespace Conformance

/-- The bounds of a slice in machine words. -/
structure WordBounds where
  /-- The first position. -/
  start : Int64
  /-- The position before which the walk ends. -/
  stop : Int64
  /-- The distance from one position to the next. -/
  step : Int64
  deriving DecidableEq, Repr

namespace WordBounds

/-- The bounds that the words stand for. -/
def toBounds (w : WordBounds) : Bounds := ⟨w.start.toInt, w.stop.toInt, w.step.toInt⟩

@[simp] theorem toBounds_start (w : WordBounds) : w.toBounds.start = w.start.toInt := rfl

@[simp] theorem toBounds_stop (w : WordBounds) : w.toBounds.stop = w.stop.toInt := rfl

@[simp] theorem toBounds_step (w : WordBounds) : w.toBounds.step = w.step.toInt := rfl

/-- The position that a bound stands for. -/
def clamp (length lower upper bound : Int64) : Except Word.Overflow Int64 :=
  if bound < 0 then do return max (← Word.addSigned bound length) lower
  else return min bound upper

/-- The position that a bound stands for, with a position for no bound. -/
def place (length lower upper missing : Int64) : Option Int64 → Except Word.Overflow Int64
  | some bound => clamp length lower upper bound
  | none => return missing

/-- Resolves the bounds of a slice of a text of the given length. -/
def resolve (length : UInt64) (start stop step : Option Int64) :
    Except Word.Overflow (Except Fault WordBounds) := do
  let step := step.getD 1
  if step = 0 then return .error .zeroSliceStep
  let length := length.toInt64
  if step < 0 then
    let upper ← Word.subSigned length 1
    let start ← place length (-1) upper upper start
    let stop ← place length (-1) upper (-1) stop
    return .ok ⟨start, stop, step⟩
  else
    let start ← place length 0 length 0 start
    let stop ← place length 0 length length stop
    return .ok ⟨start, stop, step⟩

/-- How far the walk may go, unless it has no position. -/
def span? (w : WordBounds) : Option UInt64 :=
  if 0 < w.step ∧ w.start < w.stop then some (Word.distance w.stop w.start)
  else if w.step < 0 ∧ w.stop < w.start then some (Word.distance w.start w.stop)
  else none

/-- The number of positions that the bounds select. -/
def count (w : WordBounds) : Except Word.Overflow UInt64 :=
  match w.span? with
  | none => return 0
  | some span => do Word.add ((← Word.sub span 1) / Word.magnitude w.step) 1

/-- The position reached after a number of steps. -/
def position (w : WordBounds) (n : UInt64) : Except Word.Overflow UInt64 := do
  let way ← Word.mul n (Word.magnitude w.step)
  if 0 < w.step then Word.add w.start.toUInt64 way else Word.sub w.start.toUInt64 way

/-- The selected positions in the order of the walk. -/
def indices (w : WordBounds) : Except Word.Overflow (List UInt64) := do
  let count ← w.count
  (List.range count.toNat).mapM fun n => w.position (.ofNat n)

section Exact

variable {n : ℕ} {length : Int64} {w : WordBounds}

/-- A bound counted from the end lies between the lowest word and the length. -/
theorem exists_addSigned {bound : Int64} (hlength : length.toInt = n) (hbound : bound < 0) :
    ∃ sum, Word.addSigned bound length = .ok sum ∧ sum.toInt = bound.toInt + n := by
  have hneg := Word.neg_iff_toInt_neg.1 hbound
  have hlow := bound.le_toInt
  have hhigh := length.toInt_lt
  obtain ⟨sum, hsum⟩ :=
    Word.exists_toInt_eq (i := bound.toInt + length.toInt) (by omega) (by omega)
  exact ⟨sum, Word.addSigned_eq_ok_iff.2 hsum, hlength ▸ hsum⟩

theorem clamp_exact (hlength : length.toInt = n) (lower upper bound : Int64) :
    ∃ p, clamp length lower upper bound = .ok p ∧
      p.toInt = Bounds.clamp n lower.toInt upper.toInt bound.toInt := by
  by_cases hbound : bound < 0
  · obtain ⟨sum, hadd, hsum⟩ := exists_addSigned hlength hbound
    refine ⟨max sum lower, ?_, ?_⟩
    · rw [clamp, if_pos hbound, hadd]
      rfl
    · rw [Word.toInt_max, hsum, Bounds.clamp, if_pos (Word.neg_iff_toInt_neg.1 hbound)]
  · refine ⟨min bound upper, if_neg hbound, ?_⟩
    rw [Word.toInt_min, Bounds.clamp, if_neg (mt Word.neg_iff_toInt_neg.2 hbound)]

theorem place_exact (hlength : length.toInt = n) (lower upper missing : Int64)
    (bound : Option Int64) :
    ∃ p, place length lower upper missing bound = .ok p ∧
      p.toInt = ((bound.map Int64.toInt).map (Bounds.clamp n lower.toInt upper.toInt)).getD
        missing.toInt := by
  cases bound with
  | some bound => exact clamp_exact hlength lower upper bound
  | none => exact ⟨missing, rfl, rfl⟩

/-- The bounds are resolved without an overflow, to the words of the exact bounds. -/
theorem resolve_exact {length : UInt64} (hlength : length.toNat < 2 ^ 63)
    (start stop : Option Int64) {step : Option Int64} (hstep : step.getD 1 ≠ 0) :
    ∃ w, resolve length start stop step = .ok (.ok w) ∧ w.step = step.getD 1 ∧
      Bounds.resolve length.toNat (start.map Int64.toInt) (stop.map Int64.toInt)
        (step.map Int64.toInt) = .ok w.toBounds := by
  have hsigned := Word.toInt_toInt64 hlength
  have hexact : (step.map Int64.toInt).getD 1 = (step.getD 1).toInt := by
    cases step <;> rfl
  have hzero : (step.getD 1).toInt ≠ 0 := fun h => hstep (Int64.toInt_inj.1 h)
  unfold resolve Bounds.resolve
  simp only [hexact, if_neg hstep, if_neg hzero]
  by_cases hneg : step.getD 1 < 0
  · have hneg' := Word.neg_iff_toInt_neg.1 hneg
    obtain ⟨upper, hupper⟩ :=
      Word.exists_toInt_eq (i := length.toInt64.toInt - 1) (by omega) (by omega)
    have hsub : Word.subSigned length.toInt64 1 = .ok upper := Word.subSigned_eq_ok_iff.2 hupper
    obtain ⟨first, hfirst, hstart⟩ := place_exact hsigned (-1) upper upper start
    obtain ⟨last, hlast, hstop⟩ := place_exact hsigned (-1) upper (-1) stop
    refine ⟨⟨first, last, step.getD 1⟩, ?_, rfl, ?_⟩
    · simp only [if_pos hneg, hsub, hfirst, hlast, bind, Except.bind, pure, Except.pure]
    · rw [hupper, hsigned] at hstart hstop
      simp only [if_pos hneg', toBounds, hstart, hstop]
      rfl
  · have hneg' := mt Word.neg_iff_toInt_neg.2 hneg
    obtain ⟨first, hfirst, hstart⟩ := place_exact hsigned 0 length.toInt64 0 start
    obtain ⟨last, hlast, hstop⟩ := place_exact hsigned 0 length.toInt64 length.toInt64 stop
    refine ⟨⟨first, last, step.getD 1⟩, ?_, rfl, ?_⟩
    · simp only [if_neg hneg, hfirst, hlast, bind, Except.bind, pure, Except.pure]
    · rw [hsigned] at hstart hstop
      simp only [if_neg hneg', toBounds, hstart, hstop]
      rfl

/-- The span is the exact one, and there is none when the walk has no position. -/
theorem span?_exact (hstep : w.step.toInt ≠ 0) :
    (w.toBounds.span = 0 ∧ w.span? = none) ∨
      ∃ span, w.span? = some span ∧ 1 ≤ span.toNat ∧ span.toNat = w.toBounds.span := by
  have hspan : w.toBounds.span = if 0 < w.step.toInt then (w.stop.toInt - w.start.toInt).toNat
    else (w.start.toInt - w.stop.toInt).toNat := rfl
  unfold span?
  split
  · next hahead =>
      have hpos := Word.pos_iff_toInt_pos.1 hahead.1
      have hlt := Int64.lt_iff_toInt_lt.1 hahead.2
      rw [if_pos hpos] at hspan
      refine .inr ⟨_, rfl, ?_, ?_⟩ <;> rw [Word.toNat_distance] <;> omega
  · next hahead =>
      rw [Word.pos_iff_toInt_pos, Int64.lt_iff_toInt_lt] at hahead
      split
      · next hback =>
          have hneg := Word.neg_iff_toInt_neg.1 hback.1
          have hlt := Int64.lt_iff_toInt_lt.1 hback.2
          rw [if_neg (not_lt_of_gt hneg)] at hspan
          refine .inr ⟨_, rfl, ?_, ?_⟩ <;> rw [Word.toNat_distance] <;> omega
      · next hback =>
          rw [Word.neg_iff_toInt_neg, Int64.lt_iff_toInt_lt] at hback
          refine .inl ⟨?_, rfl⟩
          split_ifs at hspan <;> omega

/-- The positions are counted without an overflow, wherever the bounds lie. -/
theorem count_exact (hstep : w.step.toInt ≠ 0) :
    ∃ count, w.count = .ok count ∧ count.toNat = w.toBounds.count := by
  rw [Bounds.count_eq (b := w.toBounds) hstep]
  unfold count
  rcases span?_exact hstep with ⟨hzero, hnone⟩ | ⟨span, hsome, hpos, hspan⟩
  · rw [hnone, if_pos hzero]
    exact ⟨0, rfl, rfl⟩
  · have hword := span.toNat_lt
    obtain ⟨less, hless⟩ := Word.exists_toNat_eq (n := span.toNat - 1) (by omega)
    have hsub : Word.sub span 1 = .ok less :=
      Word.sub_eq_ok_iff.2 (by rw [hless]; exact Nat.sub_add_cancel hpos)
    have hquotient : (less / Word.magnitude w.step).toNat =
        (w.toBounds.span - 1) / w.step.toInt.natAbs := by
      rw [UInt64.toNat_div, hless, Word.toNat_magnitude, hspan]
    have hle := Nat.div_le_self (w.toBounds.span - 1) w.step.toInt.natAbs
    obtain ⟨count, hcount⟩ := Word.exists_toNat_eq
      (n := (less / Word.magnitude w.step).toNat + 1) (by omega)
    refine ⟨count, ?_, ?_⟩
    · simp only [hsome, hsub, bind, Except.bind]
      exact Word.add_eq_ok_iff.2 hcount
    · rw [hcount, hquotient, if_neg (by omega)]
      rfl

/-- A walk with positions has a span, and its count is computed from it. -/
theorem exists_span (hstep : w.step.toInt ≠ 0) (hcount : w.toBounds.count ≠ 0) :
    ∃ span, w.span? = some span ∧ 1 ≤ span.toNat ∧
      (span.toNat : ℤ) = |w.stop.toInt - w.start.toInt| ∧
      w.toBounds.count = (span.toNat - 1) / w.step.toInt.natAbs + 1 := by
  rw [Bounds.count_eq (b := w.toBounds) hstep] at hcount ⊢
  rcases span?_exact hstep with ⟨hzero, -⟩ | ⟨span, hsome, hpos, hspan⟩
  · exact absurd (if_pos hzero) hcount
  · refine ⟨span, hsome, hpos, ?_, ?_⟩
    · rcases lt_or_gt_of_ne hstep with hneg | hahead
      · rw [Bounds.span_of_neg (b := w.toBounds) hneg, toBounds_start, toBounds_stop] at hspan
        rw [abs_of_nonpos] <;> omega
      · rw [Bounds.span_of_pos (b := w.toBounds) hahead, toBounds_start, toBounds_stop] at hspan
        rw [abs_of_nonneg] <;> omega
    · rw [← hspan, if_neg (by omega)]
      rfl

/-- The way from the start to a position of the walk is shorter than the text. -/
theorem way_exact (hb : w.toBounds.Within n) (hn : n < 2 ^ 63) {i : ℕ}
    (hi : i < w.toBounds.count) :
    ∃ way, Word.mul (.ofNat i) (Word.magnitude w.step) = .ok way ∧
      way.toNat = i * w.step.toInt.natAbs ∧ way.toNat < n := by
  have hpos : 0 < w.step.toInt.natAbs := Int.natAbs_pos.2 hb.step_ne_zero
  have hspan : i * w.step.toInt.natAbs < w.toBounds.span :=
    (Bounds.lt_count_iff hb.step_ne_zero i).1 hi
  have hinside := lt_of_lt_of_le hspan hb.span_le
  have hle : i ≤ i * w.step.toInt.natAbs := Nat.le_mul_of_pos_right i hpos
  obtain ⟨way, hway⟩ := Word.exists_toNat_eq (n := i * w.step.toInt.natAbs) (by omega)
  refine ⟨way, Word.mul_eq_ok_iff.2 ?_, hway, hway ▸ hinside⟩
  rw [Word.toNat_ofNat (by omega), Word.toNat_magnitude, hway]

/-- Each position of the walk is reached without an overflow, and it lies inside the text. -/
theorem position_exact (hb : w.toBounds.Within n) (hn : n < 2 ^ 63) {i : ℕ}
    (hi : i < w.toBounds.count) :
    w.position (.ofNat i) = .ok (.ofNat (w.toBounds.position i)) := by
  obtain ⟨way, hmul, hway, -⟩ := way_exact hb hn hi
  obtain ⟨hposition, hinside⟩ := hb.position_eq hi
  have hstart := (hb.start_inside (Nat.zero_lt_of_lt hi)).1
  have horigin := Word.toNat_toUInt64_of_nonneg hstart
  have hword := Word.toNat_ofNat (n := w.toBounds.position i) (by omega)
  rw [toBounds_start, toBounds_step] at hposition
  simp only [position, hmul, bind, Except.bind]
  split
  · next hahead =>
      have hcast := Bounds.natCast_way_of_pos (b := w.toBounds) (Word.pos_iff_toInt_pos.1 hahead) i
      rw [toBounds_step, ← hway] at hcast
      rw [Word.add_eq_ok_iff, hword]
      omega
  · next hback =>
      have hneg : w.toBounds.step < 0 :=
        lt_of_le_of_ne (not_lt.1 (mt Word.pos_iff_toInt_pos.2 hback)) hb.step_ne_zero
      have hcast := Bounds.natCast_way_of_neg hneg i
      rw [toBounds_step, ← hway] at hcast
      rw [Word.sub_eq_ok_iff, hword]
      omega

theorem indices_exact (hb : w.toBounds.Within n) (hn : n < 2 ^ 63) :
    w.indices = .ok (w.toBounds.indices.map .ofNat) := by
  obtain ⟨count, hcount, hexact⟩ := count_exact (w := w) hb.step_ne_zero
  simp only [indices, hcount, hexact, bind, Except.bind]
  rw [mapM_eq_ok_iff, Bounds.indices_eq, List.map_map, List.forall₂_map_right_iff,
    List.forall₂_same]
  intro i hi
  exact position_exact hb hn (List.mem_range.1 hi)

/-- The words of the positions are in the order of the walk. -/
theorem pairwise_map_indices (hb : w.toBounds.Within n) (hn : n < 2 ^ 63) :
    (w.toBounds.indices.map UInt64.ofNat).Pairwise
      fun p q => if 0 < w.step then p < q else q < p := by
  rw [List.pairwise_map]
  refine hb.pairwise_indices.imp_of_mem fun {p q} hp hq hmoves => ?_
  have hpword := Word.toNat_ofNat ((hb.lt_of_mem_indices hp).trans (by omega))
  have hqword := Word.toNat_ofNat ((hb.lt_of_mem_indices hq).trans (by omega))
  rw [UInt64.lt_iff_toNat_lt, UInt64.lt_iff_toNat_lt, hpword, hqword]
  exact (if_congr Word.pos_iff_toInt_pos rfl rfl).mpr hmoves

theorem map_toNat_indices (hb : w.toBounds.Within n) (hn : n < 2 ^ 63) :
    (w.toBounds.indices.map UInt64.ofNat).map UInt64.toNat = w.toBounds.indices := by
  rw [List.map_map]
  refine (List.map_congr_left fun p hp => ?_).trans (List.map_id _)
  have hlt := hb.lt_of_mem_indices hp
  exact Word.toNat_ofNat (by omega)

end Exact

/-- A text whose length is a word with a sign, bounds and a step that are such words, the step not
zero. Resolving the bounds, counting the positions and walking along them never overflows, and what
comes out stands for the exact bounds, their exact count and their exact positions. In particular
the length is added to a negative bound; the span of a walk with positions is at least one, and its
quotient by the step and one more is the count; each way from the start is shorter than the text
and leads to a position inside of it, so that only a walk without positions starts before the text.
The positions are in the order of the walk, and as many as were counted. -/
theorem word_walk_exact (length : UInt64) (hlength : (length.toNat : ℤ) ≤ Int64.maxValue.toInt)
    (start stop step : Option Int64) (hstep : step ≠ some 0) :
    ∃ (w : WordBounds) (count : UInt64) (indices : List UInt64),
      (resolve length start stop step = .ok (.ok w) ∧ w.count = .ok count ∧
        w.indices = .ok indices) ∧
      (Bounds.resolve length.toNat (start.map Int64.toInt) (stop.map Int64.toInt)
          (step.map Int64.toInt) = .ok w.toBounds ∧
        w.toBounds.count = count.toNat ∧ w.toBounds.indices = indices.map UInt64.toNat) ∧
      (∀ bound < 0, ∃ sum, Word.addSigned bound length.toInt64 = .ok sum ∧
        sum.toInt = bound.toInt + length.toNat) ∧
      (count ≠ 0 → ∃ span, w.span? = some span ∧ 1 ≤ span.toNat ∧
        (span.toNat : ℤ) = |w.stop.toInt - w.start.toInt| ∧
        count.toNat = (span.toNat - 1) / w.step.toInt.natAbs + 1) ∧
      (∀ i < count.toNat, ∃ way p,
        Word.mul (.ofNat i) (Word.magnitude w.step) = .ok way ∧
        way.toNat = i * w.step.toInt.natAbs ∧ way < length ∧
        w.position (.ofNat i) = .ok p ∧ (p.toNat : ℤ) = w.start.toInt + i * w.step.toInt ∧
        p < length) ∧
      (w.start.toInt = -1 → count = 0) ∧
      (indices.length = count.toNat ∧ (∀ p ∈ indices, p < length) ∧
        indices.Pairwise fun p q => if 0 < w.step then p < q else q < p) := by
  have hn : length.toNat < 2 ^ 63 := by
    rw [Int64.toInt_maxValue] at hlength
    omega
  have hne : step.getD 1 ≠ 0 := by
    cases step with
    | none => decide
    | some k => exact fun hk => hstep (congrArg some hk)
  obtain ⟨w, hresolve, -, hexact⟩ := resolve_exact hn start stop hne
  have hb := Bounds.within_of_resolve hexact
  have hnonzero : w.step.toInt ≠ 0 := hb.step_ne_zero
  obtain ⟨count, hcount, hpositions⟩ := count_exact hnonzero
  have hpos : count ≠ 0 → 0 < w.toBounds.count := by
    intro hsome
    rw [← hpositions]
    exact Nat.pos_of_ne_zero fun hzero => hsome (UInt64.toNat_inj.1 hzero)
  refine ⟨w, count, _, ⟨hresolve, hcount, indices_exact hb hn⟩,
    ⟨hexact, hpositions.symm, (map_toNat_indices hb hn).symm⟩, fun bound hbound => ?_,
    fun hsome => ?_, fun i hi => ?_, fun hstart => ?_, ?_, fun p hp => ?_,
    pairwise_map_indices hb hn⟩
  · exact exists_addSigned (Word.toInt_toInt64 hn) hbound
  · rw [hpositions]
    exact exists_span hnonzero (hpos hsome).ne'
  · rw [hpositions] at hi
    obtain ⟨way, hmul, hway, hinside⟩ := way_exact hb hn hi
    obtain ⟨hposition, hlt⟩ := hb.position_eq hi
    have hword := Word.toNat_ofNat (n := w.toBounds.position i) (by omega)
    refine ⟨way, _, hmul, hway, UInt64.lt_iff_toNat_lt.2 hinside, position_exact hb hn hi, ?_, ?_⟩
    · rw [hword]
      exact hposition
    · rwa [UInt64.lt_iff_toNat_lt, hword]
  · by_contra hsome
    have hinside := hb.start_inside (hpos hsome)
    rw [toBounds_start] at hinside
    omega
  · rw [List.length_map, Bounds.length_indices, hpositions]
  · obtain ⟨q, hq, rfl⟩ := List.mem_map.1 hp
    have hlt := hb.lt_of_mem_indices hq
    rwa [UInt64.lt_iff_toNat_lt, Word.toNat_ofNat (by omega)]

/-- The lowest step, from the highest start: one position, the last. -/
theorem word_walk_exact_lowest :
    ((3 : UInt64).toNat : ℤ) ≤ Int64.maxValue.toInt ∧ some Int64.minValue ≠ some 0 ∧
    ∃ w count, resolve 3 (some Int64.maxValue) none (some Int64.minValue) = .ok (.ok w) ∧
      w.count = .ok count ∧ w.indices = .ok [2] ∧ w.toBounds.indices = [2] ∧
      count.toNat = [2].length := by
  have hlength : ((3 : UInt64).toNat : ℤ) ≤ Int64.maxValue.toInt := by decide
  have hstep : some Int64.minValue ≠ some 0 := by decide
  obtain ⟨w, count, indices, ⟨hresolve, hcount, hindices⟩, ⟨-, -, hexact⟩, -, -, -, -, hsize, -⟩ :=
    word_walk_exact 3 hlength (some Int64.maxValue) none (some Int64.minValue) hstep
  have hw : resolve 3 (some Int64.maxValue) none (some Int64.minValue) =
      .ok (.ok ⟨2, -1, Int64.minValue⟩) := by decide
  cases hresolve.symm.trans hw
  have htwo : (⟨2, -1, Int64.minValue⟩ : WordBounds).indices = .ok [2] := by decide
  cases hindices.symm.trans htwo
  exact ⟨hlength, hstep, _, count, hresolve, hcount, hindices, hexact, hsize.symm⟩

end WordBounds

end Conformance
