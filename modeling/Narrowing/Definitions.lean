-- SUMMARY: Named validators that may be recursive: runs under a bound, validation, and structural texts.
import Narrowing.Validator.Inspect
import Narrowing.Validator.Run

/-!
# Definitions

Named validators may refer to each other and to themselves. `Definitions.run` unfolds them a
bounded number of times, one inside the other. `Definitions.validate` takes a bound from the depth
of the value that no recursion down the value exceeds.

A value may share its parts, and then it takes long to find its depth. So `Definitions.validate`
tries a fixed bound first, and measures the value only if that one does not settle the matter.

In the structural text of a validator, references show what they stand for, as far as the values on
which the validator was run have come to them (`Definitions.inspect`).
-/

namespace Narrowing

/-- Named validators, which may refer to each other. -/
abbrev Definitions := List (String × Validator)

namespace Definitions

/-- What a validator makes of a value if definitions are unfolded at most a number of times one
inside the other. A name without a definition is never settled. -/
def run (definitions : Definitions) : Nat → Validator → Value → Verdict
  | 0 => fun v x => v.runWith (fun _ _ => .unsettled) x
  | bound + 1 => fun v x =>
      v.runWith (fun name y =>
        match definitions.lookup name with
        | some w => definitions.run bound w y
        | none => .unsettled) x

/-! ## Bounds -/

/-- More than the number of values that can still follow one another on the way down from a scalar.
It turns into texts, characters, indices with ever fewer digits and lengths, each of them as it is
and as the object that stands in for it. -/
def coercedSteps : Nat := 32

/-- How often definitions may be unfolded one inside the other on the way down a value. No
definition is ever passed through twice with one value, or it would be passed through without end;
so the number of definitions times the number of values on the way is enough. -/
def unfoldings (definitions : Definitions) (x : Value) : Nat :=
  (definitions.length + 1) * (x.depth + coercedSteps)

/-- The bound that is tried before the value is measured. -/
def firstBound : Nat := 10000

/-- The bound under which a validator is run on a value. -/
def bound (definitions : Definitions) (v : Validator) (x : Value) : Nat :=
  match definitions.run firstBound v x with
  | .unsettled => definitions.unfoldings x
  | .accepted _ | .rejected _ => firstBound

/-- What a validator makes of a value, given the definitions it refers to. -/
def validate (definitions : Definitions) (v : Validator) (x : Value) : Verdict :=
  match definitions.run firstBound v x with
  | .unsettled => definitions.run (definitions.unfoldings x) v x
  | verdict => verdict

theorem validate_eq_run (definitions : Definitions) (v : Validator) (x : Value) :
    definitions.validate v x = definitions.run (definitions.bound v x) v x := by
  unfold validate bound
  cases h : definitions.run firstBound v x <;> simp [h]

/-! ## Structural texts -/

/-- The structural text of a validator after it was run on values, with definitions unfolded at
most a number of times one inside the other. -/
def inspectWithin (definitions : Definitions) : Nat → Validator → List Value → String
  | 0 => fun v xs => v.inspectAfter definitions.validate (fun _ _ => inspectDeferred none) xs
  | bound + 1 => fun v xs =>
      v.inspectAfter definitions.validate (fun name ys =>
        inspectDeferred <|
          if ys.isEmpty then none
          else (definitions.lookup name).map fun w => definitions.inspectWithin bound w ys) xs

/-- The structural text of a validator after it was run on values. No reference is nested deeper
in it than definitions are unfolded in the runs. -/
def inspect (definitions : Definitions) (v : Validator) (xs : List Value) : String :=
  definitions.inspectWithin ((xs.map fun x => definitions.bound v x).foldl max 0) v xs

end Definitions

/-- What a validator without references makes of a value. -/
def Validator.validate (v : Validator) (x : Value) : Verdict :=
  Definitions.validate [] v x

end Narrowing
