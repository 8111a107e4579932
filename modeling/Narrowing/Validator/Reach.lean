-- SUMMARY: Which values come to the parts of a validator.
import Narrowing.Validator.Run

/-!
# What reaches the parts of a validator

Running a validator on a value passes values on to the validators inside it, but not always to all
of them: what comes after a decision is not run. Each function here takes the values on which a
validator was run and gives those that came to one of its parts. `judge` says what validators make
of values.
-/

namespace Narrowing

namespace Validator

variable (judge : Validator → Value → Verdict)

/-- What comes to the branches behind one of which the first to accept decides. -/
def reachAfterRejecting (v : Validator) (xs : List Value) : List Value :=
  xs.filter fun x => (judge v x).isRejected

/-- What comes to the branches behind one of which the first to reject decides. -/
def reachAfterAccepting (v : Validator) (xs : List Value) : List Value :=
  xs.filter fun x => (judge v x).isAccepted

/-- What comes to the second validator of a pipe: the outputs of the first. -/
def reachSecond (first : Validator) (xs : List Value) : List Value :=
  xs.filterMap fun x => (judge first x).output?

/-- What comes to the validator of a property. -/
def reachProperty (key : PropertyKey) (options : PropertyOptions) (xs : List Value) : List Value :=
  xs.filterMap fun x => x.object?.bind fun o => o.find? options.ownOnly key

/-- The own keys of an object that a dictionary gets to. -/
def reachedKeys (k v : Validator) (o : Object) : List PropertyKey :=
  Outcome.reached (checkEntry o (judge k) (judge v)) o.ownKeys

/-- What comes to the validator of the keys of a dictionary. -/
def reachKey (k v : Validator) (xs : List Value) : List Value :=
  (xs.filterMap Value.object?).flatMap fun o =>
    (reachedKeys judge k v o).map PropertyKey.toValue

/-- What comes to the validator of the values of a dictionary. -/
def reachEntry (k v : Validator) (xs : List Value) : List Value :=
  (xs.filterMap Value.object?).flatMap fun o =>
    ((reachedKeys judge k v o).filter fun key => (judge k key.toValue).isAccepted).map fun key =>
      (o.getOwn key).getD .undefined

/-- What comes to the validator of the elements of an array. -/
def reachElement (v : Validator) (xs : List Value) : List Value :=
  (xs.filterMap Value.elements?).flatMap fun elements => Outcome.reached (judge v) elements

/-- The arrays that are long enough and not too long for a tuple. -/
def reachElements (vs : List Validator) (xs : List Value) : List (List Value) :=
  (xs.filterMap Value.elements?).filter fun elements => elements.length == vs.length

/-- What is left of the elements of arrays behind the first, if it is accepted. -/
def reachRest (v : Validator) (rows : List (List Value)) : List (List Value) :=
  rows.filterMap fun
    | [] => none
    | x :: rest => if (judge v x).isAccepted then some rest else none

end Validator

end Narrowing
