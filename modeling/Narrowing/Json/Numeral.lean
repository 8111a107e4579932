-- SUMMARY: Reading numerals into documents, with the roundings of a word of digits and a power of ten.
import Narrowing.Binary64.Rounding
import Narrowing.Json

/-!
# Numerals

The document that a numeral stands for: an integer if it is written as one and fits a machine word,
and a binary64 number otherwise.

Only the leading digits that fit a word are taken; those behind them count as places. The number is
found in binary64, with a rounding at each step: that of the digits, and that of the product or the
quotient with a power of ten. So it may be a neighbour of the number nearest to the numeral.
-/

namespace Narrowing

namespace Json

/-- The greatest integer of a machine word. -/
def greatestWord : Nat := 18446744073709551615

/-- The greatest power of ten that is a finite number. -/
def greatestPower : Nat := 308

/-- A number continued by digits as long as it fits a word, and the digits that are left. -/
def takeFitting (n : Nat) : List Char → Nat × List Char
  | [] => (n, [])
  | digit :: rest =>
      let next := n * 10 + (digit.toNat - '0'.toNat)
      if next ≤ greatestWord then takeFitting next rest else (n, digit :: rest)

/-- The magnitude `digits * 10 ^ exponent`, if it is finite. More places than the greatest power has
take two divisions, and more than twice as many leave nothing. -/
def evaluate? (digits : Nat) (exponent : Int) : Option Binary64 :=
  let whole := Binary64.ofInt digits
  if digits = 0 then some 0
  else if 0 ≤ exponent then
    if exponent.toNat ≤ greatestPower then
      match whole.times (Binary64.powerOfTen exponent.toNat) with
      | .finite negative e f => some (.finite negative e f)
      | .infinite _ | .nan _ _ => none
    else none
  else
    let places := (-exponent).toNat
    if places ≤ greatestPower then some (whole.dividedBy (Binary64.powerOfTen places))
    else if places ≤ 2 * greatestPower then
      some ((whole.dividedBy (Binary64.powerOfTen greatestPower)).dividedBy
        (Binary64.powerOfTen (places - greatestPower)))
    else some 0

/-- The document of a numeral with the given parts, if its number is finite. -/
def ofNumeral? (negative : Bool) (whole fraction : List Char) (exponent : Option Int) :
    Option Json :=
  let (digits, wholeLeft) := takeFitting 0 whole
  let signed : Int := if negative then -digits else digits
  if fraction = [] ∧ exponent = none ∧ wholeLeft = [] ∧ fitsWord signed ∧
      ¬(negative ∧ digits = 0) then
    some (.integer signed)
  else
    let (digits, fractionLeft) := takeFitting digits fraction
    let places : Int := fraction.length - fractionLeft.length
    (evaluate? digits (wholeLeft.length - places + exponent.getD 0)).map fun x =>
      .float (x.withSign negative)

end Json

end Narrowing
