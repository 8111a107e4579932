-- SUMMARY: Rounding of nonnegative rationals, integers, products, and quotients to the nearest binary64 number.
import Narrowing.Binary64

/-!
# Rounding to binary64

A nonnegative rational `num / den` goes to the nearest number, a tie to the one with the even
significand (`ofRatio`). Integers and 32-bit words are read through it, and products and quotients
of magnitudes are rounded by it.
-/

namespace Narrowing

namespace Binary64

/-- `num / den` rounded to the nearest integer, a half to the even neighbour. -/
def roundHalfEven (num den : Nat) : Nat :=
  let whole := num / den
  let rest := num % den
  if den < 2 * rest ∨ (den = 2 * rest ∧ whole % 2 = 1) then whole + 1 else whole

/-- The rounded quotient of `num / den` by `2 ^ q`. -/
def roundAt (num den : Nat) (q : Int) : Nat :=
  roundHalfEven (num * Nat.pow 2 (-q).toNat) (den * Nat.pow 2 q.toNat)

/-- The power `q` for which `num / den / 2 ^ q` has 53 bits, or the least one there is. -/
def roundingScale (num den : Nat) : Int :=
  let q : Int := num.log2 - den.log2 - 53
  let isShort := num * Nat.pow 2 (-q).toNat / (den * Nat.pow 2 q.toNat) < Nat.pow 2 53
  let q := if isShort then q else q + 1
  max q (-1074)

/-- The number nearest to `num / den`. A significand that rounds up to `2 ^ 53` carries into the
exponent field by the addition, and a magnitude past the finite ones is infinite. -/
def ofRatio (negative : Bool) (num den : Nat) : Binary64 :=
  if num = 0 then signedZero negative
  else
    let q := roundingScale num den
    let magnitude := (q + 1074).toNat * fractionCount + roundAt num den q
    ofMagnitude negative (min magnitude finiteCount)

/-- The number nearest to an integer. -/
def ofInt (i : Int) : Binary64 :=
  ofRatio (decide (i < 0)) i.natAbs 1

/-- The magnitude of a finite number as a quotient of integers. -/
def quotient : Binary64 → Nat × Nat
  | .nan _ _ | .infinite _ => (0, 1)
  | .finite _ exponent fraction =>
      let m := significand exponent fraction
      let q := scale exponent
      (m * Nat.pow 2 q.toNat, Nat.pow 2 (-q).toNat)

/-- The product of two finite magnitudes, rounded. -/
def times (x y : Binary64) : Binary64 :=
  ofRatio false (x.quotient.1 * y.quotient.1) (x.quotient.2 * y.quotient.2)

/-- The quotient of two finite magnitudes, rounded. -/
def dividedBy (x y : Binary64) : Binary64 :=
  ofRatio false (x.quotient.1 * y.quotient.2) (x.quotient.2 * y.quotient.1)

/-- The number nearest to a power of ten. -/
def powerOfTen (k : Nat) : Binary64 :=
  ofRatio false (Nat.pow 10 k) 1

/-- A magnitude with a sign. -/
def withSign (negative : Bool) : Binary64 → Binary64
  | .nan _ payload => .nan negative payload
  | .infinite _ => .infinite negative
  | .finite _ exponent fraction => .finite negative exponent fraction

/-- The NaN with the sign and the fraction of a 32-bit NaN, made quiet. -/
def widenNaN (negative : Bool) (fraction : Nat) : Binary64 :=
  .nan negative ⟨fraction % Nat.pow 2 22 * Nat.pow 2 29 + (Nat.pow 2 51 - 1), by
    simp only [Nat.pow_eq]
    omega⟩

/-- The number encoded by a 32-bit word; every one of those is a 64-bit number as well. -/
def ofBinary32 (bits : UInt32) : Binary64 :=
  let negative := decide (Nat.pow 2 31 ≤ bits.toNat)
  let exponent := bits.toNat / Nat.pow 2 23 % Nat.pow 2 8
  let fraction := bits.toNat % Nat.pow 2 23
  if exponent = 255 then if fraction = 0 then .infinite negative else widenNaN negative fraction
  else
    let m := if exponent = 0 then fraction else Nat.pow 2 23 + fraction
    let q : Int := (max exponent 1 : Nat) - 150
    ofRatio negative (m * Nat.pow 2 q.toNat) (Nat.pow 2 (-q).toNat)

end Binary64

end Narrowing
