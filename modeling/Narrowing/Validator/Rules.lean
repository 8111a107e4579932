-- SUMMARY: Checks from outside the library, and the stock of rules made of them.
import Narrowing.Complaint
import Narrowing.Text.Quoted
import Narrowing.Validator.Run

/-!
# Rules

Checks made with the means that the library gives to its users: a label, the types on both sides,
and a function. `Rule.narrowing` is the usual way, a partial function and the reason for its gaps.
-/

namespace Narrowing

namespace Rule

/-- The rule that gives what a function gives, and rejects where it gives nothing. -/
def narrowing (label : String) (input output : ValueType) (narrow? : Value → Option Value)
    (reason : Value → Reason) : Rule where
  label
  input
  output
  judge x := .ofOption (reason x) (narrow? x)

/-- The label of a rule that shows nothing of itself. -/
def closed : String :=
  Inspect.closedRecord "FnValidator"

/-- A condition on numbers as a partial function. -/
def number? (condition : Binary64 → Bool) (x : Value) : Option Value :=
  (x.number?.filter condition).map .number

/-- Strings that are not empty. -/
def nonEmptyString : Rule :=
  narrowing "NonEmptyString" .value .string
    (fun x => (x.string?.filter fun s => s != "").map .string)
    (fun _ => .message "The value is not a non-empty string.")

/-- The truth value true. -/
def isTrue : Rule :=
  narrowing "IsTrue" .value .boolean
    (fun x => if x.boolean? = some true then some (.boolean true) else none)
    (fun _ => .message "The value is not true.")

/-- Even numbers. A value that is no number is rejected as such. -/
def even : Rule where
  label := closed
  input := .value
  output := .number
  judge x :=
    match x.number? with
    | some n => .ensure n.isEven (.message "The number is odd.") (.number n)
    | none => .rejected (Complaint.notOfType .number).reason

/-- Numbers above zero. -/
def positive : Rule :=
  narrowing closed .number .number (number? fun n => Binary64.lessThan 0 n)
    (fun _ => .message "The number is not positive.")

/-- Numbers from a bound upwards. -/
def atLeast (least : Binary64) : Rule :=
  narrowing (Inspect.record "AtLeast" [("min", NumberLayout.inspect.render least)]) .value .number
    (number? fun n => least.atMost n)
    (fun _ => .message
      ("The value is not a number of at least " ++ NumberLayout.bound.render least ++ "."))

/-- Numbers from one bound to another, in whatever order the bounds are given. -/
def between (a b : Binary64) : Rule :=
  let lo := a.lesser b
  let hi := a.greater b
  narrowing
    (Inspect.record "Between"
      [("lo", NumberLayout.inspect.render lo), ("hi", NumberLayout.inspect.render hi)])
    .value .number
    (number? fun n => lo.atMost n && n.atMost hi)
    (fun _ => .message
      ("The value is not between " ++ NumberLayout.bound.render lo ++ " and " ++
        NumberLayout.bound.render hi ++ "."))

/-- One string. -/
def tagged (tag : String) : Rule :=
  narrowing (Inspect.record "Tagged" [("tag", Text.quoted tag)]) .value .value
    (fun x => if x.string? = some tag then some x else none)
    (fun x => .because ("expected " ++ Text.quoted tag) (.message ("got " ++ x.display)))

/-- Nothing at all. -/
def fail (reason : Reason) : Rule where
  label := closed
  input := .value
  output := .value
  judge _ := .rejected reason

/-- The length in bytes of strings up to a bound. -/
def maxLength (most : Nat) : Rule :=
  narrowing closed .string .number
    (fun x => (x.string?.filter fun s => decide (s.utf8ByteSize ≤ most)).map fun s =>
      .number (.ofInt s.utf8ByteSize))
    (fun _ => .message "The string is too long.")

/-- The rule as a validator. -/
def validator (rule : Rule) : Validator :=
  .leaf (.rule rule)

end Rule

namespace Validator

/-- The validator behind its own name only. -/
def boxed (v : Validator) : Validator :=
  .sealed "Boxed" v

/-- Rejects what another validator rejects, and all else with a message. -/
def thenFail (v : Validator) (message : String) : Validator :=
  .sealed Rule.closed (.pipe v (Rule.fail (.message message)).validator)

end Validator

end Narrowing
