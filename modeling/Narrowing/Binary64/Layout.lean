-- SUMMARY: Number layouts: how the shortest decimal of a number is written out, in positional or exponent notation.
import Narrowing.Binary64.Shortest

/-!
# Texts of numbers

A number's text is its shortest decimal in one of two notations, positional or with an exponent.
What differs between the texts of this library is a `NumberLayout`: where the positional notation
ends, how whole numbers and exponents are marked, and how the special numbers are spelled.
-/

namespace Narrowing

/-- The decisions that fix how a number is written. -/
structure NumberLayout where
  /-- The exponents of the leading digit that are written positionally, from the first bound up
  to but not including the second; `none` for all. -/
  positional : Option (Int × Int)
  /-- What follows a whole number in positional notation. -/
  wholeMark : List Char
  /-- What stands before a nonnegative exponent. -/
  plusMark : List Char
  /-- Whether the greater of two equally near shortest decimals is taken. -/
  halfUp : Bool
  /-- Whether a negative zero shows its sign. -/
  signedZero : Bool
  /-- The text of a NaN. -/
  nan : List Char
  /-- The text of positive infinity. -/
  infinity : List Char

namespace NumberLayout

/-- Digits in positional notation, `point` of them before the decimal point. -/
def positionalText (layout : NumberLayout) (digits : List Char) (point : Int) : List Char :=
  if point ≤ 0 then
    '0' :: '.' :: (List.replicate (-point).toNat '0' ++ digits)
  else if digits.length ≤ point.toNat then
    digits ++ List.replicate (point.toNat - digits.length) '0' ++ layout.wholeMark
  else
    digits.take point.toNat ++ '.' :: digits.drop point.toNat

/-- Digits with a point after the first one and the exponent of that one. -/
def exponentText (layout : NumberLayout) (digits : List Char) (exponent : Int) : List Char :=
  let fraction := digits.drop 1
  digits.take 1 ++ (if fraction.isEmpty then [] else '.' :: fraction) ++
    'e' :: ((if exponent < 0 then ['-'] else layout.plusMark) ++ Nat.toDigits 10 exponent.natAbs)

/-- A positive decimal in the notation that its leading digit's exponent asks for. -/
def decimalText (layout : NumberLayout) (decimal : Decimal) : List Char :=
  let digits := Nat.toDigits 10 decimal.digits
  let exponent := decimal.exponent + digits.length - 1
  match layout.positional with
  | none => layout.positionalText digits (exponent + 1)
  | some (first, bound) =>
      if first ≤ exponent ∧ exponent < bound then layout.positionalText digits (exponent + 1)
      else layout.exponentText digits exponent

/-- The minus sign of a negative number. -/
def signText (negative : Bool) : List Char :=
  if negative then ['-'] else []

/-- The characters of a number's text. -/
def chars (layout : NumberLayout) : Binary64 → List Char
  | .nan _ _ => layout.nan
  | .infinite negative => signText negative ++ layout.infinity
  | .finite negative exponent fraction =>
      if Binary64.significand exponent fraction = 0 then
        signText (negative && layout.signedZero) ++ '0' :: layout.wholeMark
      else
        signText negative ++
          layout.decimalText (Binary64.shortestDecimal layout.halfUp exponent fraction)

/-- A number's text. -/
def render (layout : NumberLayout) (x : Binary64) : String :=
  String.ofList (layout.chars x)

/-! ## The layouts of this library -/

/-- The layout of displayed numbers and of numbers used as keys: positional from a millionth up to
`10 ^ 21`, and one text for both zeros. -/
def display : NumberLayout where
  positional := some (-6, 21)
  wholeMark := []
  plusMark := ['+']
  halfUp := true
  signedZero := false
  nan := "NaN".toList
  infinity := "Infinity".toList

/-- The layout of numbers in JSON texts, which mark every number as one with a fraction. -/
def json : NumberLayout where
  positional := some (-5, 16)
  wholeMark := ['.', '0']
  plusMark := ['+']
  halfUp := false
  signedZero := true
  nan := "null".toList
  infinity := "null".toList

/-- The layout of numbers in structural texts. -/
def inspect : NumberLayout where
  positional := some (-4, 16)
  wholeMark := ['.', '0']
  plusMark := []
  halfUp := true
  signedZero := true
  nan := "NaN".toList
  infinity := "inf".toList

/-- The layout of bounds in messages: never an exponent, and no mark on whole numbers. -/
def bound : NumberLayout where
  positional := none
  wholeMark := []
  plusMark := []
  halfUp := true
  signedZero := true
  nan := "NaN".toList
  infinity := "inf".toList

end NumberLayout

namespace Binary64

/-- The displayed text of a number, which is also its text as a property key. -/
def displayText (x : Binary64) : String :=
  NumberLayout.display.render x

end Binary64

end Narrowing
