-- SUMMARY: The search for the shortest decimal that reads back as a number.
import Narrowing.Binary64

/-!
# Shortest decimals

The decimal that stands for a positive finite number in a text: of all decimals that read back as
the number it has the fewest digits, and of those it is the nearest.

A decimal reads back as the number if it lies between the midpoints to the two neighbours
(`ReadBack`); a midpoint itself counts when the significand is even. The search walks the decimal
grids from coarse to fine and takes the first one with a point between the midpoints. It ends on a
grid on which the number itself lies, so it always finds one.
-/

namespace Narrowing

/-- The decimal `digits * 10 ^ exponent`. -/
structure Decimal where
  digits : Nat
  exponent : Int
  deriving DecidableEq

namespace Decimal

/-- The number `m * 2 ^ q` and a decimal grid, in one unit: the grid has step `step`, the number
is `value`, and the numbers between `low` and `high` round to it. -/
structure Grid where
  exponent : Int
  step : Nat
  low : Nat
  value : Nat
  high : Nat
  closed : Bool

/-- The grid of the multiples of `10 ^ exponent` around `m * 2 ^ q`. The unit is a quarter of
`2 ^ q`, since below a power of two the midpoint is a quarter away. -/
def grid (m : Nat) (q : Int) (lowIsNear : Bool) (exponent : Int) : Grid :=
  let r := q - 2
  let unit := Nat.pow 2 r.toNat * Nat.pow 10 (-exponent).toNat
  { exponent
    step := Nat.pow 10 exponent.toNat * Nat.pow 2 (-r).toNat
    low := (if lowIsNear then 4 * m - 1 else 4 * m - 2) * unit
    value := 4 * m * unit
    high := (4 * m + 2) * unit
    closed := m % 2 == 0 }

namespace Grid

/-- Whether the grid's point number `c` rounds to the number. -/
def holds (g : Grid) (c : Nat) : Bool :=
  if g.closed then decide (g.low ≤ c * g.step ∧ c * g.step ≤ g.high)
  else decide (g.low < c * g.step ∧ c * g.step < g.high)

/-- The point nearest to the number among its two neighbours on the grid that round to it. Of two
equally near ones the upper is taken if `halfUp`, else the one with the even last digit. -/
def nearest? (g : Grid) (halfUp : Bool) : Option Nat :=
  let c := g.value / g.step
  let below := g.value - c * g.step
  let above := (c + 1) * g.step - g.value
  match g.holds c, g.holds (c + 1) with
  | true, true =>
      let up := above < below ∨ (above = below ∧ (halfUp ∨ c % 2 = 1))
      some (if up then c + 1 else c)
  | true, false => some c
  | false, true => some (c + 1)
  | false, false => none

end Grid

/-- The nearest point of the first grid that has one, from the given exponent downwards. -/
def search (m : Nat) (q : Int) (lowIsNear halfUp : Bool) : Int → Nat → Decimal
  | exponent, 0 =>
    ⟨(grid m q lowIsNear exponent).value / (grid m q lowIsNear exponent).step, exponent⟩
  | exponent, steps + 1 =>
      match (grid m q lowIsNear exponent).nearest? halfUp with
      | some digits => ⟨digits, exponent⟩
      | none => search m q lowIsNear halfUp (exponent - 1) steps

/-- A power of ten above `m * 2 ^ q`. One bit is less than a third of a digit and more than a
quarter of one. -/
def coarsest (m : Nat) (q : Int) : Int :=
  let bits : Int := m.log2 + 1 + q
  if 0 ≤ bits then bits / 3 + 1 else -(-bits / 4)

/-- The shortest decimal of the magnitude `m * 2 ^ q`. The finest grid tried is that of `2 ^ q`,
or of the integers. -/
def shortest (m : Nat) (q : Int) (lowIsNear halfUp : Bool) : Decimal :=
  let start := coarsest m q
  search m q lowIsNear halfUp start (start - min q 0).toNat

end Decimal

namespace Binary64

/-- The shortest decimal of a finite magnitude. Below a power of two the neighbour is nearer,
except at the least exponent. -/
def shortestDecimal (halfUp : Bool) (exponent : Fin 2047) (fraction : Fin 4503599627370496) :
    Decimal :=
  Decimal.shortest (significand exponent fraction) (scale exponent)
    (decide (fraction.val = 0 ∧ 1 < exponent.val)) halfUp

end Binary64

end Narrowing
