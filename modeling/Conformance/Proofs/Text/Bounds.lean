import Mathlib.Algebra.Order.Ring.Abs
import Mathlib.Algebra.Ring.Divisibility.Basic
import Conformance.Text.Slice

/-!
# Where a slice walks

The rule of slices is said of positions alone: each bound is counted from the end once if it is
negative, moved to the nearer end of the text, and the walk meets the positions between the bounds
that are whole steps away from its beginning. The resolved bounds are those of the rule, and the
walk over them meets these positions, each once, without leaving the text.
-/

namespace Conformance

namespace Slice

/-- A bound counted from the beginning: the length is added once to a negative one. -/
def counted (n : ℕ) (bound : ℤ) : ℤ := if bound < 0 then bound + n else bound

/-- The place of a given bound in a text of length `n`, for a walk with step `k`. -/
def place (n : ℕ) (k bound : ℤ) : ℤ :=
  if 0 < k then max 0 (min (counted n bound) n) else max (-1) (min (counted n bound) (n - 1))

/-- Where the walk begins. -/
def origin (n : ℕ) (k : ℤ) : Option ℤ → ℤ
  | some bound => place n k bound
  | none => if 0 < k then 0 else n - 1

/-- Where the walk has ended. -/
def limit (n : ℕ) (k : ℤ) : Option ℤ → ℤ
  | some bound => place n k bound
  | none => if 0 < k then n else -1

/-- The rule of slices: the positions that the bounds and the step select. -/
def Selects (n : ℕ) (start stop : Option ℤ) (k p : ℤ) : Prop :=
  if 0 < k then origin n k start ≤ p ∧ p < limit n k stop ∧ k ∣ p - origin n k start
  else limit n k stop < p ∧ p ≤ origin n k start ∧ |k| ∣ origin n k start - p

end Slice

namespace Bounds

variable {b : Bounds} {n : ℕ}

theorem clamp_of_pos {k : ℤ} (hk : 0 < k) (bound : ℤ) :
    clamp n 0 n bound = Slice.place n k bound := by
  simp only [clamp, Slice.place, Slice.counted, if_pos hk]
  split_ifs <;> omega

theorem clamp_of_neg {k : ℤ} (hk : k < 0) (bound : ℤ) :
    clamp n (-1) (n - 1) bound = Slice.place n k bound := by
  simp only [clamp, Slice.place, Slice.counted, if_neg (not_lt_of_gt hk)]
  split_ifs <;> omega

/-- The resolved bounds are those of the rule. -/
theorem resolve_eq_ok {step : Option ℤ} (hstep : step.getD 1 ≠ 0) (start stop : Option ℤ) :
    resolve n start stop step =
      .ok ⟨Slice.origin n (step.getD 1) start, Slice.limit n (step.getD 1) stop,
        step.getD 1⟩ := by
  generalize hk : step.getD 1 = k at hstep ⊢
  rcases lt_or_gt_of_ne hstep with hneg | hpos
  · have hplace := funext (clamp_of_neg (n := n) hneg)
    simp only [resolve, hk, if_neg hstep, if_pos hneg, hplace]
    cases start <;> cases stop <;>
      simp [Slice.origin, Slice.limit, not_lt_of_gt hneg]
  · have hplace := funext (clamp_of_pos (n := n) hpos)
    simp only [resolve, hk, if_neg hstep, if_neg (not_lt_of_gt hpos), hplace]
    cases start <;> cases stop <;> simp [Slice.origin, Slice.limit, hpos]

theorem resolve_some_eq_ok {k : ℤ} (hk : k ≠ 0) (start stop : Option ℤ) :
    resolve n start stop (some k) = .ok ⟨Slice.origin n k start, Slice.limit n k stop, k⟩ :=
  resolve_eq_ok (show (some k).getD 1 ≠ 0 from hk) start stop

theorem resolve_none_eq_ok (start stop : Option ℤ) :
    resolve n start stop none = .ok ⟨Slice.origin n 1 start, Slice.limit n 1 stop, 1⟩ :=
  resolve_eq_ok (show none.getD (1 : ℤ) ≠ 0 from one_ne_zero) start stop

/-- The bounds between which a walk stays inside a text of length `n`. -/
structure Within (b : Bounds) (n : ℕ) : Prop where
  step_ne_zero : b.step ≠ 0
  ahead : 0 < b.step → 0 ≤ b.start ∧ b.stop ≤ n
  back : b.step < 0 → b.start < n ∧ -1 ≤ b.stop

theorem within_of_resolve {start stop step : Option ℤ}
    (hb : resolve n start stop step = .ok b) : b.Within n := by
  by_cases hstep : step.getD 1 = 0
  · simp [resolve, hstep] at hb
  · rw [resolve_eq_ok hstep] at hb
    cases hb
    refine ⟨hstep, fun hk => ⟨?_, ?_⟩, fun hk => ⟨?_, ?_⟩⟩
    · cases start <;> simp [Slice.origin, Slice.place, hk]
    · cases stop <;> simp [Slice.limit, Slice.place, hk]
    · cases start <;> simp [Slice.origin, Slice.place, not_lt_of_gt hk]
      omega
    · cases stop <;> simp [Slice.limit, Slice.place, not_lt_of_gt hk]

/-- How far the walk may go. -/
def span (b : Bounds) : ℕ :=
  if 0 < b.step then (b.stop - b.start).toNat else (b.start - b.stop).toNat

theorem span_of_pos (hk : 0 < b.step) : b.span = (b.stop - b.start).toNat := if_pos hk

theorem span_of_neg (hk : b.step < 0) : b.span = (b.start - b.stop).toNat :=
  if_neg (not_lt_of_gt hk)

/-- The walk goes no further than the text is long. -/
theorem Within.span_le (hb : b.Within n) : b.span ≤ n := by
  rcases lt_or_gt_of_ne hb.step_ne_zero with hneg | hpos
  · have hback := hb.back hneg
    rw [span_of_neg hneg]
    omega
  · have hahead := hb.ahead hpos
    rw [span_of_pos hpos]
    omega

theorem count_eq (hstep : b.step ≠ 0) :
    b.count = if b.span = 0 then 0 else (b.span - 1) / b.step.natAbs + 1 := by
  have hspan : (if 0 < b.step ∧ b.start < b.stop then (b.stop - b.start).toNat
      else if b.step < 0 ∧ b.stop < b.start then (b.start - b.stop).toNat else 0) = b.span := by
    unfold span
    split_ifs <;> omega
  simp only [count, hspan]

/-- The walk takes a step as long as it stays short of the stop. -/
theorem lt_count_iff (hstep : b.step ≠ 0) (i : ℕ) :
    i < b.count ↔ i * b.step.natAbs < b.span := by
  have hpos : 0 < b.step.natAbs := Int.natAbs_pos.2 hstep
  rw [count_eq hstep]
  by_cases hzero : b.span = 0
  · simp [hzero]
  · rw [if_neg hzero, Nat.lt_succ_iff, Nat.le_div_iff_mul_le hpos]
    omega

theorem natCast_way_of_pos (hk : 0 < b.step) (i : ℕ) :
    ((i * b.step.natAbs : ℕ) : ℤ) = i * b.step := by
  rw [Nat.cast_mul, Int.natCast_natAbs, abs_of_pos hk]

theorem natCast_way_of_neg (hk : b.step < 0) (i : ℕ) :
    ((i * b.step.natAbs : ℕ) : ℤ) = -(i * b.step) := by
  rw [Nat.cast_mul, Int.natCast_natAbs, abs_of_neg hk, mul_neg]

theorem lt_count_iff_of_pos (hk : 0 < b.step) (i : ℕ) :
    i < b.count ↔ b.start + i * b.step < b.stop := by
  have hway := natCast_way_of_pos hk i
  rw [lt_count_iff hk.ne', span, if_pos hk]
  omega

theorem lt_count_iff_of_neg (hk : b.step < 0) (i : ℕ) :
    i < b.count ↔ b.stop < b.start + i * b.step := by
  have hway := natCast_way_of_neg hk i
  rw [lt_count_iff hk.ne, span, if_neg (not_lt_of_gt hk)]
  omega

/-- The walk never leaves the text, so no position is cut off. -/
theorem Within.position_eq (hb : b.Within n) {i : ℕ} (hi : i < b.count) :
    (b.position i : ℤ) = b.start + i * b.step ∧ b.position i < n := by
  have hinside : 0 ≤ b.start + i * b.step ∧ b.start + i * b.step < n := by
    rcases lt_or_gt_of_ne hb.step_ne_zero with hneg | hpos
    · obtain ⟨hstart, hstop⟩ := hb.back hneg
      have hend := (lt_count_iff_of_neg hneg i).1 hi
      have hmoved : i * b.step ≤ 0 := mul_nonpos_of_nonneg_of_nonpos (by simp) hneg.le
      omega
    · obtain ⟨hstart, hstop⟩ := hb.ahead hpos
      have hend := (lt_count_iff_of_pos hpos i).1 hi
      have hmoved : 0 ≤ i * b.step := mul_nonneg (by simp) hpos.le
      omega
  unfold position
  omega

/-- A walk with a position starts inside the text. -/
theorem Within.start_inside (hb : b.Within n) (hcount : 0 < b.count) :
    0 ≤ b.start ∧ b.start < n := by
  obtain ⟨hposition, hlt⟩ := hb.position_eq hcount
  rw [Nat.cast_zero, zero_mul, add_zero] at hposition
  omega

theorem mem_indices_iff {p : ℕ} : p ∈ b.indices ↔ ∃ i < b.count, b.position i = p := by
  simp [indices_eq]

theorem Within.lt_of_mem_indices (hb : b.Within n) {p : ℕ} (hp : p ∈ b.indices) : p < n := by
  obtain ⟨i, hi, rfl⟩ := mem_indices_iff.1 hp
  exact (hb.position_eq hi).2

/-- A walk ahead meets the positions before the stop that are whole steps after the start. -/
theorem Within.exists_mem_indices_iff_of_pos (hb : b.Within n) (hk : 0 < b.step) (p : ℤ) :
    (∃ i ∈ b.indices, (i : ℤ) = p) ↔ b.start ≤ p ∧ p < b.stop ∧ b.step ∣ p - b.start := by
  constructor
  · rintro ⟨_, hmem, rfl⟩
    obtain ⟨i, hi, rfl⟩ := mem_indices_iff.1 hmem
    have hend := (lt_count_iff_of_pos hk i).1 hi
    have hmoved : 0 ≤ i * b.step := mul_nonneg (by simp) hk.le
    rw [(hb.position_eq hi).1, add_sub_cancel_left]
    exact ⟨by omega, hend, Dvd.intro_left _ rfl⟩
  · rintro ⟨hstart, hstop, c, hc⟩
    have hnonneg : 0 ≤ c := nonneg_of_mul_nonneg_right (hc ▸ sub_nonneg.2 hstart) hk
    lift c to ℕ using hnonneg
    have hp : b.start + c * b.step = p := by
      rw [mul_comm, ← hc]
      omega
    have hi : c < b.count := by
      rwa [lt_count_iff_of_pos hk, hp]
    exact ⟨b.position c, mem_indices_iff.2 ⟨c, hi, rfl⟩, (hb.position_eq hi).1.trans hp⟩

/-- A walk back meets the positions after the stop that are whole steps before the start. -/
theorem Within.exists_mem_indices_iff_of_neg (hb : b.Within n) (hk : b.step < 0) (p : ℤ) :
    (∃ i ∈ b.indices, (i : ℤ) = p) ↔ b.stop < p ∧ p ≤ b.start ∧ |b.step| ∣ b.start - p := by
  constructor
  · rintro ⟨_, hmem, rfl⟩
    obtain ⟨i, hi, rfl⟩ := mem_indices_iff.1 hmem
    have hend := (lt_count_iff_of_neg hk i).1 hi
    have hmoved : i * b.step ≤ 0 := mul_nonpos_of_nonneg_of_nonpos (by simp) hk.le
    rw [(hb.position_eq hi).1, sub_add_cancel_left, abs_dvd, dvd_neg]
    exact ⟨hend, by omega, Dvd.intro_left _ rfl⟩
  · rintro ⟨hstop, hstart, c, hc⟩
    have hnonneg : 0 ≤ c :=
      nonneg_of_mul_nonneg_right (hc ▸ sub_nonneg.2 hstart) (abs_pos.2 hk.ne)
    lift c to ℕ using hnonneg
    have hp : b.start + c * b.step = p := by
      rw [abs_of_neg hk, neg_mul, mul_comm] at hc
      omega
    have hi : c < b.count := by
      rwa [lt_count_iff_of_neg hk, hp]
    exact ⟨b.position c, mem_indices_iff.2 ⟨c, hi, rfl⟩, (hb.position_eq hi).1.trans hp⟩

/-- Each step of the walk moves on. -/
theorem Within.position_moves (hb : b.Within n) {i j : ℕ} (hi : i < b.count) (hj : j < b.count)
    (hij : i < j) : if 0 < b.step then b.position i < b.position j
      else b.position j < b.position i := by
  have hpi := (hb.position_eq hi).1
  have hpj := (hb.position_eq hj).1
  have hlt : (i : ℤ) < j := Nat.cast_lt.2 hij
  split
  · next hk =>
      have := mul_lt_mul_of_pos_right hlt hk
      omega
  · next hk =>
      have hneg : b.step < 0 := lt_of_le_of_ne (not_lt.1 hk) hb.step_ne_zero
      have := mul_lt_mul_of_neg_right hlt hneg
      omega

/-- The positions come in the order of the walk, each once. -/
theorem Within.pairwise_indices (hb : b.Within n) :
    b.indices.Pairwise fun p q => if 0 < b.step then p < q else q < p := by
  rw [indices_eq, List.pairwise_map]
  refine List.pairwise_lt_range.imp_of_mem fun hi hj hij => ?_
  exact hb.position_moves (List.mem_range.1 hi) (List.mem_range.1 hj) hij

end Bounds

end Conformance
