-- SUMMARY: Rounding intervals of numbers, and the correctness of the search for shortest decimals.
import Mathlib.Algebra.Order.Field.Power
import Mathlib.Data.Rat.Cast.Order
import Mathlib.Tactic.FieldSimp
import Mathlib.Tactic.Linarith
import Mathlib.Tactic.Positivity
import Mathlib.Tactic.Ring
import Narrowing.Binary64.Shortest

/-!
# Shortest decimals read back

The decimal that stands for a number lies between the midpoints to the neighbours of the number
(`Binary64.roundsTo_shortestDecimal`). No two numbers have a magnitude between midpoints in common
(`Binary64.eq_of_roundsTo`), since two that are next to each other are not both even. So a decimal
tells its number. For a whole number below `2 ^ 53` it is that number
(`Binary64.shortestDecimal_of_magnitude`).

Magnitudes are rational numbers here. The grids of the search are put into one unit with the number,
which drops out of every comparison (`Decimal.Grid.holds_iff`).
-/

namespace Narrowing

/-! ## Powers -/

section

variable {b : ℚ} {e : ℤ}

theorem pow_toNat_of_nonneg (he : 0 ≤ e) : b ^ e.toNat = b ^ e := by
  rw [← zpow_natCast, Int.toNat_of_nonneg he]

theorem pow_neg_toNat (he : e ≤ 0) : b ^ (-e).toNat = (b ^ e)⁻¹ := by
  rw [pow_toNat_of_nonneg (Int.neg_nonneg_of_nonpos he), zpow_neg]

/-- A power with an integer exponent as a quotient of natural powers. -/
theorem pow_toNat_eq (hb : b ≠ 0) (e : ℤ) : b ^ e.toNat = b ^ e * b ^ (-e).toNat := by
  rw [← zpow_natCast, ← zpow_natCast, ← zpow_add₀ hb]
  congr 1
  omega

end

/-! ## Midpoints -/

namespace Decimal

/-- The magnitude of a decimal. -/
def value (d : Decimal) : ℚ :=
  d.digits * 10 ^ d.exponent

/-- The midpoint below `m * 2 ^ q`, in quarters of `2 ^ q`. -/
def lowQuarters (m : ℕ) (lowIsNear : Bool) : ℕ :=
  if lowIsNear then 4 * m - 1 else 4 * m - 2

/-- A magnitude lies between the midpoints around `m * 2 ^ q`, or on one of them if `m` is even. -/
def RoundsTo (m : ℕ) (q : ℤ) (lowIsNear : Bool) (t : ℚ) : Prop :=
  let low : ℚ := lowQuarters m lowIsNear * 2 ^ (q - 2)
  let high : ℚ := (4 * m + 2) * 2 ^ (q - 2)
  if m % 2 = 0 then low ≤ t ∧ t ≤ high else low < t ∧ t < high

variable {m c n : ℕ} {q exponent : ℤ} {lowIsNear halfUp : Bool} {t : ℚ}

theorem RoundsTo.bounds (h : RoundsTo m q lowIsNear t) :
    lowQuarters m lowIsNear * 2 ^ (q - 2) ≤ t ∧ t ≤ (4 * m + 2) * 2 ^ (q - 2) := by
  unfold RoundsTo at h
  split at h
  · exact h
  · exact ⟨h.1.le, h.2.le⟩

theorem RoundsTo.strict (h : RoundsTo m q lowIsNear t) (hm : m % 2 ≠ 0) :
    lowQuarters m lowIsNear * 2 ^ (q - 2) < t ∧ t < (4 * m + 2) * 2 ^ (q - 2) := by
  unfold RoundsTo at h
  rwa [if_neg hm] at h

/-- Zero is on the lower midpoint around itself. -/
theorem roundsTo_zero (q : ℤ) (lowIsNear : Bool) : RoundsTo 0 q lowIsNear 0 := by
  have hlow : lowQuarters 0 lowIsNear = 0 := by cases lowIsNear <;> rfl
  simp only [RoundsTo, hlow, Nat.zero_mod, if_true]
  exact ⟨by simp, by positivity⟩

/-- A number other than zero lies between its own midpoints. -/
theorem roundsTo_self (hm : m ≠ 0) : RoundsTo m q lowIsNear (m * 2 ^ q) := by
  have hpos : (0 : ℚ) < 2 ^ (q - 2) := by positivity
  have hquarters : (m * 2 ^ q : ℚ) = 4 * m * 2 ^ (q - 2) := by
    rw [zpow_sub₀ (by norm_num)]
    ring
  have hlow : (lowQuarters m lowIsNear : ℚ) < 4 * m := by
    have : lowQuarters m lowIsNear < 4 * m := by
      unfold lowQuarters
      split <;> omega
    exact_mod_cast this
  have hhigh : (4 * m : ℚ) < 4 * m + 2 := by linarith
  unfold RoundsTo
  rw [hquarters]
  split
  · exact ⟨(mul_lt_mul_of_pos_right hlow hpos).le, (mul_lt_mul_of_pos_right hhigh hpos).le⟩
  · exact ⟨mul_lt_mul_of_pos_right hlow hpos, mul_lt_mul_of_pos_right hhigh hpos⟩

/-! ## Grids -/

namespace Grid

/-- The unit that a grid and the number have in common. -/
def scaling (q exponent : ℤ) : ℚ :=
  10 ^ (-exponent).toNat * 2 ^ (-(q - 2)).toNat

theorem scaling_pos (q exponent : ℤ) : 0 < scaling q exponent := by
  unfold scaling
  positivity

theorem point_eq (m c : ℕ) (q exponent : ℤ) (lowIsNear : Bool) :
    ((c * (grid m q lowIsNear exponent).step : ℕ) : ℚ) = c * 10 ^ exponent * scaling q exponent := by
  simp only [grid, scaling, Nat.pow_eq, Nat.cast_mul, Nat.cast_pow, Nat.cast_ofNat,
    pow_toNat_eq (show (10 : ℚ) ≠ 0 by norm_num) exponent]
  ring

/-- Quarters of the number's power of two in the unit of a grid. -/
theorem quarters_eq (k : ℕ) (q exponent : ℤ) :
    ((k * (Nat.pow 2 (q - 2).toNat * Nat.pow 10 (-exponent).toNat) : ℕ) : ℚ) =
      k * 2 ^ (q - 2) * scaling q exponent := by
  simp only [scaling, Nat.pow_eq, Nat.cast_mul, Nat.cast_pow, Nat.cast_ofNat,
    pow_toNat_eq (show (2 : ℚ) ≠ 0 by norm_num) (q - 2)]
  ring

theorem holds_iff : (grid m q lowIsNear exponent).holds c = true ↔
    RoundsTo m q lowIsNear (c * 10 ^ exponent) := by
  have hscaling := scaling_pos q exponent
  have hpoint := point_eq m c q exponent lowIsNear
  have hlow : ((grid m q lowIsNear exponent).low : ℚ) = _ :=
    quarters_eq (lowQuarters m lowIsNear) q exponent
  have hhigh : ((grid m q lowIsNear exponent).high : ℚ) = _ := quarters_eq (4 * m + 2) q exponent
  have hclosed : (grid m q lowIsNear exponent).closed = true ↔ m % 2 = 0 := beq_iff_eq
  push_cast at hhigh
  simp only [holds, hclosed, RoundsTo]
  split
  · rw [decide_eq_true_eq, ← Nat.cast_le (α := ℚ), ← Nat.cast_le (α := ℚ), hpoint, hlow, hhigh,
      mul_le_mul_iff_left₀ hscaling, mul_le_mul_iff_left₀ hscaling]
  · rw [decide_eq_true_eq, ← Nat.cast_lt (α := ℚ), ← Nat.cast_lt (α := ℚ), hpoint, hlow, hhigh,
      mul_lt_mul_iff_left₀ hscaling, mul_lt_mul_iff_left₀ hscaling]

theorem holds_of_nearest? {g : Grid} (h : g.nearest? halfUp = some c) : g.holds c = true := by
  simp only [nearest?] at h
  split at h
  · next hbelow habove =>
    cases h
    split
    · exact habove
    · exact hbelow
  · next hbelow _ =>
    cases h
    exact hbelow
  · next _ habove =>
    cases h
    exact habove
  · cases h

theorem isSome_nearest? {g : Grid} (h : g.holds (g.value / g.step) = true) :
    (g.nearest? halfUp).isSome = true := by
  simp only [nearest?, h]
  cases g.holds (g.value / g.step + 1) <;> rfl

/-- A number on a grid is the point that the search looks at first. -/
theorem div_eq_of_onGrid (h : (n * 10 ^ exponent : ℚ) = m * 2 ^ q) :
    (grid m q lowIsNear exponent).value / (grid m q lowIsNear exponent).step = n := by
  have hstep : 0 < (grid m q lowIsNear exponent).step :=
    Nat.mul_pos (Nat.pow_pos (by decide)) (Nat.pow_pos (by decide))
  have hvalue : ((grid m q lowIsNear exponent).value : ℚ) = _ := quarters_eq (4 * m) q exponent
  have hquarters : ((4 * m : ℕ) * 2 ^ (q - 2) : ℚ) = m * 2 ^ q := by
    rw [zpow_sub₀ (by norm_num)]
    push_cast
    ring
  refine Nat.div_eq_of_eq_mul_left hstep ?_
  rw [← Nat.cast_inj (R := ℚ), point_eq, hvalue, hquarters, h]

/-- The finest grids have every number of a power of two on them. -/
theorem exists_onGrid (m : ℕ) (h : exponent ≤ min q 0) :
    ∃ n : ℕ, (n * 10 ^ exponent : ℚ) = m * 2 ^ q := by
  refine ⟨m * 2 ^ (q - exponent).toNat * 5 ^ (-exponent).toNat, ?_⟩
  have htwo : ((2 : ℚ) ^ (q - exponent).toNat) = 2 ^ q * (2 ^ exponent)⁻¹ := by
    rw [pow_toNat_of_nonneg (by omega), zpow_sub₀ (by norm_num), div_eq_mul_inv]
  have hfive : ((5 : ℚ) ^ (-exponent).toNat) = (5 ^ exponent)⁻¹ := pow_neg_toNat (by omega)
  have hten : (10 : ℚ) ^ exponent = 2 ^ exponent * 5 ^ exponent := by
    rw [← mul_zpow]
    norm_num
  push_cast
  rw [htwo, hfive, hten]
  field_simp

end Grid

/-! ## The search -/

theorem roundsTo_search (hm : m ≠ 0) {steps : ℕ} (hend : exponent - steps ≤ min q 0) :
    RoundsTo m q lowIsNear (search m q lowIsNear halfUp exponent steps).value := by
  induction steps generalizing exponent with
  | zero =>
    -- On the last grid the number itself is taken.
    obtain ⟨n, hn⟩ := Grid.exists_onGrid m (by simpa using hend : exponent ≤ min q 0)
    simp only [search, value, Grid.div_eq_of_onGrid hn, hn]
    exact roundsTo_self hm
  | succ steps ih =>
    rw [search]
    split
    · next digits hnearest => exact Grid.holds_iff.1 (Grid.holds_of_nearest? hnearest)
    · exact ih (by omega)

/-- The search does not go on to finer grids than one that the number is on. -/
theorem le_exponent_search {coarse : ℤ} {steps : ℕ} (hm : m ≠ 0)
    (hcoarse : (n * 10 ^ coarse : ℚ) = m * 2 ^ q) (hstart : coarse ≤ exponent)
    (hend : exponent ≤ coarse + steps) :
    coarse ≤ (search m q lowIsNear halfUp exponent steps).exponent := by
  induction steps generalizing exponent with
  | zero => exact hstart
  | succ steps ih =>
    rw [search]
    split
    · exact hstart
    · next hnone =>
      have hne : exponent ≠ coarse := by
        rintro rfl
        have hholds : (grid m q lowIsNear exponent).holds _ = true :=
          Grid.holds_iff.2 (hcoarse ▸ roundsTo_self hm)
        have hsome : ((grid m q lowIsNear exponent).nearest? halfUp).isSome = true :=
          Grid.isSome_nearest? (by rwa [Grid.div_eq_of_onGrid hcoarse])
        rw [hnone] at hsome
        cases hsome
      exact ih (by omega) (by omega)

/-- The search for a number from one on starts at a whole grid. -/
theorem coarsest_nonneg {m : ℕ} {q : ℤ} (h : (1 : ℚ) ≤ m * 2 ^ q) : 0 ≤ coarsest m q := by
  have hbits : 0 ≤ (m.log2 + 1 + q : ℤ) := by
    by_contra hneg
    have hlog : (m : ℚ) < 2 ^ (m.log2 + 1 : ℤ) := by
      have hlt : m < 2 ^ (m.log2 + 1) := Nat.lt_log2_self
      rw [← Nat.cast_lt (α := ℚ)] at hlt
      exact_mod_cast hlt
    have hlt : (m * 2 ^ q : ℚ) < 2 ^ (m.log2 + 1 + q : ℤ) := by
      rw [zpow_add₀ (by norm_num)]
      exact mul_lt_mul_of_pos_right hlog (by positivity)
    have hle : (2 : ℚ) ^ (m.log2 + 1 + q : ℤ) ≤ 1 :=
      zpow_le_one_of_nonpos₀ (by norm_num) (by omega)
    linarith
  simp only [coarsest, if_pos hbits]
  omega

theorem roundsTo_shortest (hm : m ≠ 0) (q : ℤ) (lowIsNear halfUp : Bool) :
    RoundsTo m q lowIsNear (shortest m q lowIsNear halfUp).value := by
  unfold shortest
  exact roundsTo_search hm (by omega)

end Decimal

/-! ## Midpoints between neighbours -/

namespace Binary64

variable {e f : Fin 2047} {a b : Fin 4503599627370496} {t : ℚ}

/-- The midpoint below a finite magnitude, in quarters of its power of two. -/
def lowQuarters (exponent : Fin 2047) (fraction : Fin 4503599627370496) : ℕ :=
  Decimal.lowQuarters (significand exponent fraction)
    (decide (fraction.val = 0 ∧ 1 < exponent.val))

/-- A magnitude lies between the midpoints around a finite one. -/
def RoundsTo (exponent : Fin 2047) (fraction : Fin 4503599627370496) (t : ℚ) : Prop :=
  Decimal.RoundsTo (significand exponent fraction) (scale exponent)
    (decide (fraction.val = 0 ∧ 1 < exponent.val)) t

theorem RoundsTo.bounds (h : RoundsTo e a t) :
    lowQuarters e a * 2 ^ (scale e - 2) ≤ t ∧ t ≤ (4 * significand e a + 2) * 2 ^ (scale e - 2) :=
  Decimal.RoundsTo.bounds h

theorem roundsTo_shortestDecimal (h : significand e a ≠ 0) (halfUp : Bool) :
    RoundsTo e a (shortestDecimal halfUp e a).value :=
  Decimal.roundsTo_shortest h _ _ halfUp

theorem roundsTo_zero (h : significand e a = 0) : RoundsTo e a 0 := by
  unfold RoundsTo
  rw [h]
  exact Decimal.roundsTo_zero _ _

/-- The quarters of the midpoint above a magnitude are no more than those of the midpoint below a
greater one, counted in the power of two of the lesser one. -/
theorem quarters_le_of_lt (h : e.val * fractionCount + a.val < f.val * fractionCount + b.val) :
    let high := 4 * significand e a + 2
    let low := lowQuarters f b * 2 ^ (scale f - scale e).toNat
    high ≤ low ∧ (significand e a % 2 = 0 → significand f b % 2 = 0 → high < low) := by
  have ha := a.isLt
  have hb := b.isLt
  intro high low
  by_cases hscale : scale f = scale e
  · -- One power of two, with neither significand at its lower end but for the least exponent.
    have hpow : (2 : ℕ) ^ (scale f - scale e).toNat = 1 := by simp [hscale]
    simp only [high, low, hpow, lowQuarters, Decimal.lowQuarters, decide_eq_true_eq]
    simp only [significand, scale, fractionCount] at *
    split <;> split <;> split <;> omega
  · -- The greater power of two is at least twice the lesser one.
    obtain ⟨k, hk⟩ : ∃ k, (scale f - scale e).toNat = k + 1 := by
      refine Nat.exists_eq_add_one.2 ?_
      simp only [scale, fractionCount] at *
      omega
    have hdouble : lowQuarters f b * 2 ≤ low := by
      simp only [low, hk, Nat.pow_succ]
      exact Nat.mul_le_mul_left _ (Nat.le_mul_of_pos_left 2 (Nat.two_pow_pos k))
    suffices hapart : high ≤ lowQuarters f b * 2 ∧
        (significand e a % 2 = 0 → high < lowQuarters f b * 2) by
      omega
    simp only [high, lowQuarters, Decimal.lowQuarters, decide_eq_true_eq]
    simp only [significand, scale, fractionCount] at *
    split <;> split <;> split <;> omega

/-- The midpoint above a magnitude is no higher than the midpoint below a greater one. The two are
apart if both significands are even. -/
theorem high_le_low_of_lt (h : e.val * fractionCount + a.val < f.val * fractionCount + b.val) :
    let high : ℚ := (4 * significand e a + 2) * 2 ^ (scale e - 2)
    let low : ℚ := lowQuarters f b * 2 ^ (scale f - 2)
    high ≤ low ∧ (significand e a % 2 = 0 → significand f b % 2 = 0 → high < low) := by
  have hscale : scale e ≤ scale f := by
    simp only [scale, fractionCount] at *
    omega
  obtain ⟨hle, heven⟩ := quarters_le_of_lt h
  have hunit : (0 : ℚ) < 2 ^ (scale e - 2) := by positivity
  -- Both bounds are counted in quarters of the lesser unit.
  have hhigh : (4 * significand e a + 2) * 2 ^ (scale e - 2) =
      ((4 * significand e a + 2 : ℕ) : ℚ) * 2 ^ (scale e - 2) := by
    push_cast
    rfl
  have hlow : lowQuarters f b * 2 ^ (scale f - 2) =
      ((lowQuarters f b * 2 ^ (scale f - scale e).toNat : ℕ) : ℚ) * 2 ^ (scale e - 2) := by
    push_cast
    rw [pow_toNat_of_nonneg (by omega), mul_assoc, ← zpow_add₀ (by norm_num)]
    congr 2
    omega
  intro high low
  simp only [high, low, hhigh, hlow]
  exact ⟨mul_le_mul_of_nonneg_right (Nat.cast_le.2 hle) hunit.le,
    fun he hf => mul_lt_mul_of_pos_right (Nat.cast_lt.2 (heven he hf)) hunit⟩

/-- No magnitude lies between the midpoints around each of two numbers. -/
theorem not_roundsTo_of_lt
    (hlt : e.val * fractionCount + a.val < f.val * fractionCount + b.val) (h : RoundsTo e a t) :
    ¬RoundsTo f b t := by
  intro h'
  obtain ⟨hmiddle, heven⟩ := high_le_low_of_lt hlt
  have hupper := h.bounds.2
  have hlower := h'.bounds.1
  -- So the magnitude is both midpoints, which count for even significands only.
  have he : significand e a % 2 = 0 := by
    by_contra hodd
    have hbelow := (Decimal.RoundsTo.strict h hodd).2
    exact absurd (hbelow.trans_le (hmiddle.trans hlower)) (lt_irrefl t)
  have hf : significand f b % 2 = 0 := by
    by_contra hodd
    have habove := (Decimal.RoundsTo.strict h' hodd).1
    exact absurd (habove.trans_le (hupper.trans hmiddle)) (lt_irrefl _)
  exact absurd (hupper.trans_lt ((heven he hf).trans_le hlower)) (lt_irrefl t)

/-- A magnitude lies between the midpoints around one number only. -/
theorem eq_of_roundsTo (h : RoundsTo e a t) (h' : RoundsTo f b t) : e = f ∧ a = b := by
  have hle := not_lt.1 fun hlt => not_roundsTo_of_lt hlt h h'
  have hge := not_lt.1 fun hlt => not_roundsTo_of_lt hlt h' h
  have ha := a.isLt
  have hb := b.isLt
  simp only [fractionCount] at hle hge
  exact ⟨Fin.ext (by omega), Fin.ext (by omega)⟩

/-! ## Whole numbers -/

/-- A whole number in quarters of a power of two that is no greater than one. -/
theorem natCast_eq_quarters (n : ℕ) (he : scale e ≤ 0) :
    (n : ℚ) = (4 * (n * 2 ^ (-scale e).toNat) : ℕ) * 2 ^ (scale e - 2) := by
  push_cast
  rw [pow_neg_toNat he, zpow_sub₀ (by norm_num)]
  field_simp
  norm_num

/-- Between the midpoints around a number below `2 ^ 53` there is no whole number but itself. -/
theorem significand_eq_of_roundsTo {n : ℕ} (he : scale e ≤ 0) (h : RoundsTo e a n) :
    significand e a = n * 2 ^ (-scale e).toNat := by
  obtain ⟨hlow, hhigh⟩ := h.bounds
  have hunit : (0 : ℚ) < 2 ^ (scale e - 2) := by positivity
  rw [natCast_eq_quarters n he, mul_le_mul_iff_left₀ hunit] at hlow hhigh
  have hlow : lowQuarters e a ≤ 4 * (n * 2 ^ (-scale e).toNat) := by exact_mod_cast hlow
  have hhigh : 4 * (n * 2 ^ (-scale e).toNat) ≤ 4 * significand e a + 2 := by exact_mod_cast hhigh
  simp only [lowQuarters, Decimal.lowQuarters] at hlow
  split at hlow <;> omega

/-- Around a number from `2 ^ 53` on there are no lesser whole numbers between the midpoints. -/
theorem le_of_roundsTo {n : ℕ} (he : 0 < scale e) (h : RoundsTo e a n) : 2 ^ 53 ≤ n := by
  have hlow : 2 ^ 54 - 1 ≤ lowQuarters e a := by
    simp only [lowQuarters, Decimal.lowQuarters, decide_eq_true_eq]
    simp only [significand, scale, fractionCount] at *
    split <;> split <;> omega
  have hunit : (2 ^ (-1 : ℤ) : ℚ) ≤ 2 ^ (scale e - 2) :=
    zpow_le_zpow_right₀ (by norm_num) (by omega)
  have hhalf : (lowQuarters e a * 2 ^ (-1 : ℤ) : ℚ) ≤ n :=
    (mul_le_mul_of_nonneg_left hunit (Nat.cast_nonneg _)).trans h.bounds.1
  have hdouble : lowQuarters e a ≤ n * 2 := by
    rw [zpow_neg_one, ← div_eq_mul_inv, div_le_iff₀ (by norm_num)] at hhalf
    exact_mod_cast hhalf
  omega

variable {i : ℕ}

/-- The magnitude of a finite number. -/
def magnitude (exponent : Fin 2047) (fraction : Fin 4503599627370496) : ℚ :=
  significand exponent fraction * 2 ^ scale exponent

theorem magnitude_eq_zero_iff : magnitude e a = 0 ↔ significand e a = 0 := by
  have hpow : (2 : ℚ) ^ scale e ≠ 0 := by positivity
  rw [magnitude, mul_eq_zero, or_iff_left hpow, Nat.cast_eq_zero]

theorem scale_nonpos_of_roundsTo (hi : i < 2 ^ 53) (h : RoundsTo e a i) : scale e ≤ 0 := by
  by_contra hpos
  have hle := le_of_roundsTo (not_le.1 hpos) h
  omega

/-- Below `2 ^ 53` the numbers that a whole number rounds to are those that it is. -/
theorem roundsTo_natCast_iff (hi : i < 2 ^ 53) : RoundsTo e a i ↔ magnitude e a = i := by
  constructor
  · intro h
    have hscale := scale_nonpos_of_roundsTo hi h
    have hsignificand := significand_eq_of_roundsTo hscale h
    have hpow : ((2 ^ (-scale e).toNat : ℕ) : ℚ) = (2 ^ scale e)⁻¹ := by
      push_cast
      exact pow_neg_toNat hscale
    rw [magnitude, hsignificand, Nat.cast_mul, hpow, inv_mul_cancel_right₀ (by positivity)]
  · intro h
    rw [← h]
    by_cases hzero : significand e a = 0
    · rw [magnitude_eq_zero_iff.2 hzero]
      exact roundsTo_zero hzero
    · exact Decimal.roundsTo_self hzero

/-- Whole numbers below `2 ^ 53` have a whole shortest decimal. -/
theorem shortestDecimal_of_magnitude (ha : significand e a ≠ 0) (hi : i < 2 ^ 53)
    (h : magnitude e a = i) (halfUp : Bool) :
    0 ≤ (shortestDecimal halfUp e a).exponent ∧
      (shortestDecimal halfUp e a).digits * 10 ^ (shortestDecimal halfUp e a).exponent.toNat = i := by
  have hone : (1 : ℚ) ≤ significand e a * 2 ^ scale e := by
    have hpos : 0 < magnitude e a := mul_pos (by exact_mod_cast Nat.pos_of_ne_zero ha) (by positivity)
    rw [h, Nat.cast_pos] at hpos
    rw [← magnitude, h]
    exact_mod_cast hpos
  have hstart := Decimal.coarsest_nonneg hone
  have hexponent : 0 ≤ (shortestDecimal halfUp e a).exponent := by
    have hgrid : (i * 10 ^ (0 : ℤ) : ℚ) = significand e a * 2 ^ scale e := by
      rw [zpow_zero, mul_one, ← h, magnitude]
    unfold shortestDecimal Decimal.shortest
    exact Decimal.le_exponent_search ha hgrid hstart (by omega)
  refine ⟨hexponent, ?_⟩
  -- Both whole numbers lie between the midpoints, so they are one.
  have hrounds := roundsTo_shortestDecimal ha halfUp
  generalize shortestDecimal halfUp e a = d at *
  have hvalue : d.value = (d.digits * 10 ^ d.exponent.toNat : ℕ) := by
    rw [Decimal.value]
    push_cast
    rw [pow_toNat_of_nonneg hexponent]
  have hi' := (roundsTo_natCast_iff hi).2 h
  have hscale := scale_nonpos_of_roundsTo hi hi'
  rw [hvalue] at hrounds
  have heq := significand_eq_of_roundsTo hscale hrounds
  rw [significand_eq_of_roundsTo hscale hi'] at heq
  exact (Nat.eq_of_mul_eq_mul_right (Nat.two_pow_pos _) heq).symm

end Binary64

end Narrowing
