-- SUMMARY: Deferred validators as a state machine over requests: forcing, validating, and looking.
import Narrowing.Definitions

/-!
# Deferred validators

A deferred validator is made when it is first needed, and then kept. It can be looked at without
making it (`get?`, `isReady`, `inspect`); forcing it and validating with it make it.

The references inside the validator are deferred in turn, each until a value comes to it. What they
show follows from the values that were validated, which are kept for that (`inputs`).

`Deferred.step` takes one request at a time and `Deferred.answers` a sequence of them, so that what
depends on the requests before can be told from what does not.
-/

namespace Narrowing

/-- A validator that is made when it is first needed. -/
structure Deferred where
  /-- How the validator is made. -/
  make : Unit → Validator
  /-- The validator, once it is made. -/
  validator : Option Validator := none
  /-- How often it has been made. -/
  makings : Nat := 0
  /-- The values that were validated, in turn. -/
  inputs : List Value := []

namespace Deferred

/-- The validator if it is made. -/
def get? (d : Deferred) : Option Validator :=
  d.validator

/-- Whether the validator is made. -/
def isReady (d : Deferred) : Bool :=
  d.validator.isSome

/-- The structural text. -/
def inspect (definitions : Definitions) (d : Deferred) : String :=
  inspectDeferred (d.validator.map fun v => definitions.inspect v d.inputs)

/-- The validator, made now if it is not yet, and the state afterwards. -/
def force (d : Deferred) : Validator × Deferred :=
  match d.validator with
  | some v => (v, d)
  | none =>
      let v := d.make ()
      (v, { d with validator := some v, makings := d.makings + 1 })

/-- What the validator makes of a value, and the state afterwards. -/
def validate (definitions : Definitions) (d : Deferred) (x : Value) : Verdict × Deferred :=
  let (v, d) := d.force
  (definitions.validate v x, { d with inputs := d.inputs ++ [x] })

/-! ## Requests -/

/-- What can be asked of a deferred validator. -/
inductive Request where
  | get
  | isReady
  | inspect
  | force
  | validate (input : Value)

/-- What a deferred validator answers. -/
inductive Answer where
  | found (validator : Option Validator)
  | ready (isReady : Bool)
  | text (text : String)
  | forced (validator : Validator)
  | verdict (verdict : Verdict)

/-- The answer to a request, and the state afterwards. -/
def step (definitions : Definitions) (d : Deferred) : Request → Answer × Deferred
  | .get => (.found d.get?, d)
  | .isReady => (.ready d.isReady, d)
  | .inspect => (.text (d.inspect definitions), d)
  | .force => (.forced d.force.1, d.force.2)
  | .validate x => (.verdict (d.validate definitions x).1, (d.validate definitions x).2)

/-- The answers to requests in turn, each with the state after it. -/
def answers (definitions : Definitions) (d : Deferred) :
    List Request → List (Answer × Deferred)
  | [] => []
  | request :: rest =>
      d.step definitions request :: (d.step definitions request).2.answers definitions rest

end Deferred

end Narrowing
