-- SUMMARY: Natural numbers as binary64 numbers: exactness up to 53 bits and numeric equality of counts.
import Mathlib.Algebra.Order.Ring.Nat
import Narrowing.Binary64.Rounding

/-!
# Counts as numbers

A natural number of no more than 53 bits is a number as it is, and every greater natural number
still rounds to a greater one. So such a count is told from all others by numeric equality
(`Binary64.sameNumber_ofInt_iff`), even from those that are rounded.
-/

namespace Narrowing

namespace Binary64

variable {n m : Nat}

/-! ## Magnitudes of natural numbers -/

/-- The magnitude of a natural number other than zero, as long as it is finite. -/
def naturalMagnitude (n : Nat) : Nat :=
  (n.log2 + 1022) * fractionCount + roundAt n 1 (n.log2 - 52)

theorem le_roundHalfEven (num den : Nat) : num / den ≤ roundHalfEven num den := by
  simp only [roundHalfEven]
  split <;> omega

theorem roundHalfEven_one (num : Nat) : roundHalfEven num 1 = num := by
  simp [roundHalfEven, Nat.mod_one]

/-- The leading bit of a number that is scaled so. -/
theorem pow_le_scaled (h : n ≠ 0) {up down bits : Nat} (hbits : n.log2 + up = bits + down) :
    Nat.pow 2 bits ≤ n * Nat.pow 2 up / (1 * Nat.pow 2 down) := by
  simp only [Nat.pow_eq]
  rw [one_mul, Nat.le_div_iff_mul_le (Nat.pow_pos (by decide))]
  calc 2 ^ bits * 2 ^ down
      = 2 ^ n.log2 * 2 ^ up := by rw [← Nat.pow_add, ← Nat.pow_add, hbits]
    _ ≤ n * 2 ^ up := Nat.mul_le_mul_right _ (Nat.log2_self_le h)

theorem roundingScale_one (h : n ≠ 0) : roundingScale n 1 = n.log2 - 52 := by
  have hone : Nat.log2 1 = 0 := by decide
  have hlong : ¬ n * Nat.pow 2 (-((n.log2 : Int) - (0 : Nat) - 53)).toNat /
      (1 * Nat.pow 2 ((n.log2 : Int) - (0 : Nat) - 53).toNat) < Nat.pow 2 53 :=
    Nat.not_lt.2 (pow_le_scaled h (by omega))
  simp only [roundingScale, hone, if_neg hlong]
  omega

theorem le_naturalMagnitude (h : n ≠ 0) : (n.log2 + 1023) * fractionCount ≤ naturalMagnitude n := by
  have hbits : fractionCount = Nat.pow 2 52 := by decide
  have hround : fractionCount ≤ roundAt n 1 (n.log2 - 52) := by
    rw [hbits]
    exact Nat.le_trans (pow_le_scaled h (by omega)) (le_roundHalfEven _ _)
  calc (n.log2 + 1023) * fractionCount
      = (n.log2 + 1022) * fractionCount + fractionCount := Nat.succ_mul ..
    _ ≤ naturalMagnitude n := Nat.add_le_add_left hround _

/-- Without bits beyond the 53rd nothing is rounded. -/
theorem naturalMagnitude_eq (h : n.log2 ≤ 52) :
    naturalMagnitude n = (n.log2 + 1022) * fractionCount + n * 2 ^ (52 - n.log2) := by
  have hup : (-((n.log2 : Int) - 52)).toNat = 52 - n.log2 := by omega
  have hdown : ((n.log2 : Int) - 52).toNat = 0 := by omega
  simp only [naturalMagnitude, roundAt, hup, hdown, Nat.pow_eq, Nat.pow_zero, one_mul,
    roundHalfEven_one]

theorem naturalMagnitude_lt (h : n.log2 ≤ 52) :
    naturalMagnitude n < (n.log2 + 1024) * fractionCount := by
  have hbits : n * 2 ^ (52 - n.log2) < 2 ^ 53 := by
    calc n * 2 ^ (52 - n.log2)
        < 2 ^ (n.log2 + 1) * 2 ^ (52 - n.log2) :=
          Nat.mul_lt_mul_of_pos_right Nat.lt_log2_self (Nat.pow_pos (by decide))
      _ = 2 ^ (n.log2 + 1 + (52 - n.log2)) := (Nat.pow_add ..).symm
      _ = 2 ^ 53 := by rw [show n.log2 + 1 + (52 - n.log2) = 53 by omega]
  rw [naturalMagnitude_eq h]
  simp only [fractionCount]
  omega

/-- A greater natural number has a greater magnitude if the lesser one is not rounded. -/
theorem naturalMagnitude_lt_of_lt (hn : n ≠ 0) (hlog : n.log2 ≤ 52) (h : n < m) :
    naturalMagnitude n < naturalMagnitude m := by
  have hm : m ≠ 0 := Nat.ne_zero_of_lt h
  have hle : n.log2 ≤ m.log2 := (Nat.le_log2 hm).2 ((Nat.log2_self_le hn).trans h.le)
  rcases hle.lt_or_eq with hlt | heq
  · -- The greater one has more bits, and so a greater exponent.
    calc naturalMagnitude n
        < (n.log2 + 1024) * fractionCount := naturalMagnitude_lt hlog
      _ ≤ (m.log2 + 1023) * fractionCount := Nat.mul_le_mul_right _ (by omega)
      _ ≤ naturalMagnitude m := le_naturalMagnitude hm
  · rw [naturalMagnitude_eq hlog, naturalMagnitude_eq (heq ▸ hlog), ← heq]
    exact Nat.add_lt_add_left (Nat.mul_lt_mul_of_pos_right h (Nat.pow_pos (by decide))) _

/-! ## Places of natural numbers -/

theorem rank_ofMagnitude {magnitude : Nat} (h : magnitude ≤ finiteCount) :
    (ofMagnitude false magnitude).rank = some (magnitude : Int) := by
  unfold ofMagnitude
  split
  · have hfields := Nat.div_add_mod' magnitude fractionCount
    simp only [rank, Bool.false_eq_true, if_false, Option.some.injEq]
    omega
  · next hexponent =>
    have hle : finiteCount ≤ magnitude := by
      rwa [Nat.not_lt, Nat.le_div_iff_mul_le (by decide)] at hexponent
    obtain rfl : magnitude = finiteCount := Nat.le_antisymm h hle
    simp [rank]

theorem rank_ofInt_of_ne_zero (h : n ≠ 0) :
    (ofInt n).rank = some ((min (naturalMagnitude n) finiteCount : Nat) : Int) := by
  have hsign : decide ((n : Int) < 0) = false := decide_eq_false (by omega)
  have hscale : (((n.log2 : Int) - 52) + 1074).toNat = n.log2 + 1022 := by omega
  simp only [ofInt, ofRatio, Int.natAbs_natCast, hsign, if_neg h, roundingScale_one h, hscale]
  exact rank_ofMagnitude (Nat.min_le_right ..)

/-- A natural number of no more than 53 bits comes before all greater ones. -/
theorem exists_rank_lt (hn : n < 2 ^ 53) (h : n < m) :
    ∃ i j, (ofInt n).rank = some i ∧ (ofInt m).rank = some j ∧ i < j := by
  have hm : m ≠ 0 := Nat.ne_zero_of_lt h
  have hplace := le_naturalMagnitude hm
  by_cases hzero : n = 0
  · subst hzero
    refine ⟨0, _, by decide, rank_ofInt_of_ne_zero hm, ?_⟩
    simp only [fractionCount, finiteCount] at *
    omega
  · have hlog : n.log2 ≤ 52 := Nat.le_of_lt_succ ((Nat.log2_lt hzero).2 hn)
    have hfinite := naturalMagnitude_lt hlog
    have hlt := naturalMagnitude_lt_of_lt hzero hlog h
    refine ⟨_, _, rank_ofInt_of_ne_zero hzero, rank_ofInt_of_ne_zero hm, ?_⟩
    simp only [fractionCount, finiteCount] at *
    omega

/-- No other natural number is read as the same number as one of no more than 53 bits. -/
theorem sameNumber_ofInt_iff (hn : n < 2 ^ 53) :
    (ofInt m).sameNumber (ofInt n) = true ↔ m = n := by
  rcases Nat.lt_trichotomy m n with hlt | rfl | hgt
  · obtain ⟨i, j, hi, hj, hij⟩ := exists_rank_lt (hlt.trans hn) hlt
    simp [sameNumber, hi, hj, hij.ne, hlt.ne]
  · obtain ⟨i, j, hi, -⟩ := exists_rank_lt hn (Nat.lt_succ_self m)
    simp [sameNumber, hi]
  · obtain ⟨i, j, hi, hj, hij⟩ := exists_rank_lt hn hgt
    simp [sameNumber, hi, hj, hij.ne', hgt.ne']

end Binary64

end Narrowing
