-- SUMMARY: Binary64 numbers in exact arithmetic: fields, words, order, and integral values.
/-!
# Binary64

The numbers of the value model: 64-bit binary floating point, in exact arithmetic.

A number is a NaN, an infinity, or a sign with the two fields of its magnitude. Everything else
here is read off the fields by integer arithmetic: the order of the numbers (`rank`), their
integer value when they have one (`integral?`), and the 64-bit word (`toBits`, `ofBits`).

A NaN keeps the word that it came with, though no operation of the library tells two of them apart.
-/

namespace Narrowing

/-! ## The type -/

/-- A 64-bit binary floating-point number, by the fields of its encoding. -/
inductive Binary64 where
  /-- Not a number; the fraction field is one more than the payload. -/
  | nan (negative : Bool) (payload : Fin 4503599627370495)
  /-- Positive or negative infinity. -/
  | infinite (negative : Bool)
  /-- A finite number; exponent zero holds the zeros and the subnormal numbers. -/
  | finite (negative : Bool) (exponent : Fin 2047) (fraction : Fin 4503599627370496)
  deriving DecidableEq

namespace Binary64

/-- The number of fractions for one exponent, `2 ^ 52`. -/
def fractionCount : Nat := 4503599627370496

/-- The magnitudes below this bound are those of the finite numbers; the bound itself stands for
infinity. -/
def finiteCount : Nat := 2047 * fractionCount

/-- Positive or negative zero. -/
def signedZero (negative : Bool) : Binary64 := .finite negative 0 0

instance : Inhabited Binary64 := ⟨signedZero false⟩

instance : Zero Binary64 := ⟨signedZero false⟩

/-- The NaN that arithmetic gives. -/
def quietNaN : Binary64 := .nan false 2251799813685247

/-- Whether a number is a NaN. -/
def isNaN : Binary64 → Bool
  | .nan _ _ => true
  | .infinite _ | .finite _ _ _ => false

/-- The integer `m` of a finite magnitude `m * 2 ^ q`. -/
def significand (exponent : Fin 2047) (fraction : Fin 4503599627370496) : Nat :=
  if exponent.val = 0 then fraction.val else fractionCount + fraction.val

/-- The power `q` of a finite magnitude `m * 2 ^ q`. -/
def scale (exponent : Fin 2047) : Int :=
  (max exponent.val 1 : Nat) - 1075

/-! ## Magnitudes and words -/

/-- The number whose magnitude, exponent field above fraction field, is the given one. -/
def ofMagnitude (negative : Bool) (magnitude : Nat) : Binary64 :=
  if h : magnitude / fractionCount < 2047 then
    .finite negative ⟨magnitude / fractionCount, h⟩
      ⟨magnitude % fractionCount, Nat.mod_lt _ (by decide)⟩
  else if magnitude = finiteCount then .infinite negative
  else .nan negative ⟨(magnitude - finiteCount - 1) % 4503599627370495, Nat.mod_lt _ (by decide)⟩

/-- The number encoded by a 64-bit word. -/
def ofBits (bits : UInt64) : Binary64 :=
  ofMagnitude (decide (Nat.pow 2 63 ≤ bits.toNat)) (bits.toNat % Nat.pow 2 63)

/-- The 64-bit word of a number. -/
def toBits : Binary64 → UInt64
  | .nan negative payload => .ofNat (negative.toNat * Nat.pow 2 63 + finiteCount + 1 + payload.val)
  | .infinite negative => .ofNat (negative.toNat * Nat.pow 2 63 + finiteCount)
  | .finite negative exponent fraction =>
      .ofNat (negative.toNat * Nat.pow 2 63 + exponent.val * fractionCount + fraction.val)

/-! ## Order -/

/-- The place of a number on the line from negative to positive infinity. The two zeros share a
place, and a NaN has none. -/
def rank : Binary64 → Option Int
  | .nan _ _ => none
  | .infinite negative => some (if negative then -(finiteCount : Int) else finiteCount)
  | .finite negative exponent fraction =>
      let magnitude : Int := exponent.val * fractionCount + fraction.val
      some (if negative then -magnitude else magnitude)

/-- Numeric equality: a NaN is equal to nothing, the zeros are equal to each other. -/
def sameNumber (x y : Binary64) : Bool :=
  match x.rank, y.rank with
  | some i, some j => i == j
  | _, _ => false

/-- Numeric order; no NaN takes part in it. -/
def atMost (x y : Binary64) : Bool :=
  match x.rank, y.rank with
  | some i, some j => decide (i ≤ j)
  | _, _ => false

/-- Strict numeric order; no NaN takes part in it. -/
def lessThan (x y : Binary64) : Bool :=
  match x.rank, y.rank with
  | some i, some j => decide (i < j)
  | _, _ => false

/-- The lesser of two numbers, the second one if they are equal; a NaN gives way to the other
one. -/
def lesser (x y : Binary64) : Binary64 :=
  if y.rank.isNone ∨ x.lessThan y then x else y

/-- The greater of two numbers, the second one if they are equal; a NaN gives way to the other
one. -/
def greater (x y : Binary64) : Binary64 :=
  if y.rank.isNone ∨ y.lessThan x then x else y

@[simp] theorem rank_nan (negative payload) : (nan negative payload).rank = none := rfl

theorem rank_eq_none_iff {x : Binary64} : x.rank = none ↔ x.isNaN := by
  cases x <;> simp [rank, isNaN]

/-! ## Integers -/

/-- The integer that a number is, if it is one. -/
def integral? : Binary64 → Option Int
  | .nan _ _ | .infinite _ => none
  | .finite negative exponent fraction =>
      let m := significand exponent fraction
      let q := scale exponent
      let magnitude? :=
        if 0 ≤ q then some (m * Nat.pow 2 q.toNat)
        else if m % Nat.pow 2 (-q).toNat = 0 then some (m / Nat.pow 2 (-q).toNat)
        else none
      magnitude?.map fun n => if negative then -(n : Int) else n

/-- Whether a number is an even integer. -/
def isEven (x : Binary64) : Bool :=
  match x.integral? with
  | some i => i % 2 == 0
  | none => false

end Binary64

end Narrowing
