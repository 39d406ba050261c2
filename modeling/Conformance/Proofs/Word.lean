import Mathlib.Algebra.Order.Ring.Abs

/-!
# Checked arithmetic of machine words

Operations on words of 64 bits, with and without a sign, that fail when the exact result is none of
their words. An operation gives a word exactly if the word stands for the exact result. Distances
and absolute values of words with a sign are words without one, and never fail.
-/

namespace Conformance

namespace Word

/-- The failure of an operation whose exact result its words cannot hold. -/
inductive Overflow where
  | overflow
  deriving DecidableEq, Repr

/-- The sum of two words with a sign. -/
def addSigned (a b : Int64) : Except Overflow Int64 :=
  if a.toBitVec.saddOverflow b.toBitVec then .error .overflow else .ok (a + b)

/-- The difference of two words with a sign. -/
def subSigned (a b : Int64) : Except Overflow Int64 :=
  if a.toBitVec.ssubOverflow b.toBitVec then .error .overflow else .ok (a - b)

/-- The sum of two words. -/
def add (a b : UInt64) : Except Overflow UInt64 :=
  if a.toBitVec.uaddOverflow b.toBitVec then .error .overflow else .ok (a + b)

/-- The difference of two words. -/
def sub (a b : UInt64) : Except Overflow UInt64 :=
  if a.toBitVec.usubOverflow b.toBitVec then .error .overflow else .ok (a - b)

/-- The product of two words. -/
def mul (a b : UInt64) : Except Overflow UInt64 :=
  if a.toBitVec.umulOverflow b.toBitVec then .error .overflow else .ok (a * b)

/-- The distance of two words with a sign. The difference of their bits is taken the way round
in which it is not negative. -/
def distance (a b : Int64) : UInt64 :=
  if a < b then b.toUInt64 - a.toUInt64 else a.toUInt64 - b.toUInt64

/-- The absolute value of a word with a sign. The lowest one, whose opposite is no such word, is its
own opposite, and its bits are those of the absolute value. -/
def magnitude (a : Int64) : UInt64 := a.abs.toUInt64

section Unsigned

variable {a b c : UInt64}

theorem toNat_ofNat {n : ℕ} (h : n < 2 ^ 64) : (UInt64.ofNat n).toNat = n :=
  UInt64.toNat_ofNat_of_lt' h

theorem exists_toNat_eq {n : ℕ} (h : n < 2 ^ 64) : ∃ c : UInt64, c.toNat = n :=
  ⟨UInt64.ofNat n, toNat_ofNat h⟩

theorem add_eq_ok_iff : add a b = .ok c ↔ c.toNat = a.toNat + b.toNat := by
  have hc := c.toNat_lt
  by_cases h : a.toNat + b.toNat < 2 ^ 64
  · have hfits : ¬ a.toBitVec.uaddOverflow b.toBitVec := by simpa [BitVec.uaddOverflow] using h
    rw [add, if_neg hfits, Except.ok.injEq, ← UInt64.toNat_inj, UInt64.toNat_add,
      Nat.mod_eq_of_lt h, eq_comm]
  · have hover : a.toBitVec.uaddOverflow b.toBitVec := by simpa [BitVec.uaddOverflow] using h
    rw [add, if_pos hover]
    exact iff_of_false nofun (by omega)

theorem sub_eq_ok_iff : sub a b = .ok c ↔ c.toNat + b.toNat = a.toNat := by
  by_cases h : b.toNat ≤ a.toNat
  · have hfits : ¬ a.toBitVec.usubOverflow b.toBitVec := by simpa [BitVec.usubOverflow] using h
    rw [sub, if_neg hfits, Except.ok.injEq, ← UInt64.toNat_inj,
      UInt64.toNat_sub_of_le _ _ (UInt64.le_iff_toNat_le.2 h)]
    omega
  · have hover : a.toBitVec.usubOverflow b.toBitVec := by simpa [BitVec.usubOverflow] using h
    rw [sub, if_pos hover]
    exact iff_of_false nofun (by omega)

theorem mul_eq_ok_iff : mul a b = .ok c ↔ c.toNat = a.toNat * b.toNat := by
  have hc := c.toNat_lt
  by_cases h : a.toNat * b.toNat < 2 ^ 64
  · have hfits : ¬ a.toBitVec.umulOverflow b.toBitVec := by simpa [BitVec.umulOverflow] using h
    rw [mul, if_neg hfits, Except.ok.injEq, ← UInt64.toNat_inj, UInt64.toNat_mul,
      Nat.mod_eq_of_lt h, eq_comm]
  · have hover : a.toBitVec.umulOverflow b.toBitVec := by simpa [BitVec.umulOverflow] using h
    rw [mul, if_pos hover]
    exact iff_of_false nofun (by omega)

end Unsigned

section Signed

variable {a b c : Int64}

theorem exists_toInt_eq {i : ℤ} (hlow : -2 ^ 63 ≤ i) (hhigh : i < 2 ^ 63) :
    ∃ c : Int64, c.toInt = i := ⟨Int64.ofInt i, Int64.toInt_ofInt_of_le hlow hhigh⟩

theorem addSigned_eq_ok_iff : addSigned a b = .ok c ↔ c.toInt = a.toInt + b.toInt := by
  have hlow := c.le_toInt
  have hhigh := c.toInt_lt
  by_cases h : a.toBitVec.saddOverflow b.toBitVec
  · rw [addSigned, if_pos h]
    simp only [BitVec.saddOverflow, Int64.toInt_toBitVec, Bool.or_eq_true, decide_eq_true_eq] at h
    exact iff_of_false nofun (by omega)
  · rw [addSigned, if_neg h, Except.ok.injEq, ← Int64.toInt_inj, ← Int64.toInt_toBitVec (a + b),
      Int64.toBitVec_add, BitVec.toInt_add_of_not_saddOverflow h, Int64.toInt_toBitVec,
      Int64.toInt_toBitVec, eq_comm]

theorem subSigned_eq_ok_iff : subSigned a b = .ok c ↔ c.toInt = a.toInt - b.toInt := by
  have hlow := c.le_toInt
  have hhigh := c.toInt_lt
  by_cases h : a.toBitVec.ssubOverflow b.toBitVec
  · rw [subSigned, if_pos h]
    simp only [BitVec.ssubOverflow, Int64.toInt_toBitVec, Bool.or_eq_true, decide_eq_true_eq] at h
    exact iff_of_false nofun (by omega)
  · rw [subSigned, if_neg h, Except.ok.injEq, ← Int64.toInt_inj, ← Int64.toInt_toBitVec (a - b),
      Int64.toBitVec_sub, BitVec.toInt_sub_of_not_ssubOverflow h, Int64.toInt_toBitVec,
      Int64.toInt_toBitVec, eq_comm]

theorem neg_iff_toInt_neg : a < 0 ↔ a.toInt < 0 := Int64.lt_iff_toInt_lt

theorem pos_iff_toInt_pos : 0 < a ↔ 0 < a.toInt := Int64.lt_iff_toInt_lt

theorem toInt_max : (max a b).toInt = max a.toInt b.toInt := by
  change (if a ≤ b then b else a).toInt = _
  split
  · next h => exact (max_eq_right (Int64.le_iff_toInt_le.1 h)).symm
  · next h => exact (max_eq_left (le_of_not_ge (mt Int64.le_iff_toInt_le.2 h))).symm

theorem toInt_min : (min a b).toInt = min a.toInt b.toInt := by
  change (if a ≤ b then a else b).toInt = _
  split
  · next h => exact (min_eq_left (Int64.le_iff_toInt_le.1 h)).symm
  · next h => exact (min_eq_right (le_of_not_ge (mt Int64.le_iff_toInt_le.2 h))).symm

/-- The bits of a negative word stand for a number that is larger by one round of all words. -/
theorem natCast_toUInt64 (a : Int64) :
    (a.toUInt64.toNat : ℤ) = if a.toInt < 0 then a.toInt + 2 ^ 64 else a.toInt := by
  have hlow := a.le_toInt
  have hhigh := a.toInt_lt
  have hbound := a.toUInt64.toNat_lt
  have hbits := BitVec.toInt_eq_toNat_cond a.toBitVec
  rw [Int64.toInt_toBitVec, Int64.toNat_toBitVec] at hbits
  split_ifs at hbits ⊢ <;> omega

theorem toNat_toUInt64_of_nonneg (h : 0 ≤ a.toInt) : (a.toUInt64.toNat : ℤ) = a.toInt := by
  rw [natCast_toUInt64, if_neg (not_lt_of_ge h)]

theorem toInt_toInt64 {n : UInt64} (h : n.toNat < 2 ^ 63) : n.toInt64.toInt = n.toNat := by
  have hbits := natCast_toUInt64 n.toInt64
  have hlow := n.toInt64.le_toInt
  rw [UInt64.toUInt64_toInt64] at hbits
  split at hbits <;> omega

theorem toNat_distance : (distance a b).toNat = (a.toInt - b.toInt).natAbs := by
  have ha := natCast_toUInt64 a
  have hb := natCast_toUInt64 b
  have hahigh := a.toInt_lt
  have hbhigh := b.toInt_lt
  have halow := a.le_toInt
  have hblow := b.le_toInt
  unfold distance
  split
  all_goals
    next h =>
      rw [Int64.lt_iff_toInt_lt] at h
      rw [UInt64.toNat_sub]
      split_ifs at ha hb <;> omega

theorem toNat_magnitude : (magnitude a).toNat = a.toInt.natAbs := by
  have ha := natCast_toUInt64 a
  have hlow := a.le_toInt
  have habs : (magnitude a).toNat = a.toBitVec.abs.toNat := rfl
  rw [habs, BitVec.toNat_abs, BitVec.msb_eq_toInt, Int64.toInt_toBitVec, Int64.toNat_toBitVec]
  simp only [decide_eq_true_eq]
  split_ifs at ha ⊢ <;> omega

end Signed

end Word

end Conformance
