-- SUMMARY: The state of a deferred validator after any sequence of requests.
import Narrowing.Deferred

/-!
# Making a validator once

The state of a deferred validator follows from the requests that it had since it was new
(`Deferred.standing`): one request takes the state for some requests to the state for one more
(`step_standing`), and so do all requests in turn (`after_eq_standing`). So the validator is made by
the first request that needs it, and never again.
-/

namespace Narrowing

namespace Deferred

/-! ## Requests in turn -/

/-- Whether a request needs the validator itself. -/
def Request.forces : Request → Bool
  | .get | .isReady | .inspect => false
  | .force | .validate _ => true

/-- The value that a request validates. -/
def Request.input? : Request → Option Value
  | .validate x => some x
  | .get | .isReady | .inspect | .force => none

/-- The state after requests. -/
def after (defs : Definitions) (d : Deferred) (requests : List Request) : Deferred :=
  requests.foldl (fun d request => (d.step defs request).2) d

/-- The state for the requests since the deferred validator was new. -/
def standing (make : Unit → Validator) (requests : List Request) : Deferred where
  make
  validator := if requests.any Request.forces then some (make ()) else none
  makings := if requests.any Request.forces then 1 else 0
  inputs := requests.filterMap Request.input?

variable {defs : Definitions} {make : Unit → Validator} {requests : List Request}

theorem isReady_standing :
    (standing make requests).isReady = requests.any Request.forces := by
  rw [isReady, standing]
  cases requests.any Request.forces <;> rfl

/-! ## Steps -/

/-- Forcing gives the one validator, whether it is there already or not. -/
theorem force_standing :
    (standing make requests).force = (make (), standing make (requests ++ [.force])) := by
  cases hready : requests.any Request.forces <;>
    simp [force, standing, hready, Request.forces, Request.input?]

theorem validate_standing (x : Value) :
    (standing make requests).validate defs x =
      (defs.validate (make ()) x, standing make (requests ++ [.validate x])) := by
  rw [validate, force_standing]
  simp [standing, Request.forces, Request.input?]

/-- A request that does not need the validator leaves the state alone. -/
theorem step_of_not_forces {d : Deferred} {request : Request} (h : request.forces = false) :
    (d.step defs request).2 = d := by
  cases request with
  | force | validate _ => cases h
  | _ => rfl

/-- A request takes the state to the one for the requests with it. -/
theorem step_standing (request : Request) :
    ((standing make requests).step defs request).2 = standing make (requests ++ [request]) := by
  cases hforces : request.forces with
  | true =>
    cases request with
    | force => rw [step, force_standing]
    | validate x => rw [step, validate_standing]
    | _ => cases hforces
  | false =>
    have hinput : request.input? = none := by
      cases request with
      | validate x => cases hforces
      | _ => rfl
    rw [step_of_not_forces hforces]
    simp [standing, hforces, hinput]

/-! ## Runs -/

theorem after_standing (rest : List Request) :
    after defs (standing make requests) rest = standing make (requests ++ rest) := by
  induction rest generalizing requests with
  | nil => rw [List.append_nil, after, List.foldl_nil]
  | cons request rest ih =>
    rw [after, List.foldl_cons, step_standing, ← after, ih, List.append_assoc,
      List.singleton_append]

/-- From its making on, the state is the one for the requests so far. -/
theorem after_eq_standing : after defs { make } requests = standing make requests := by
  have hnew : standing make [] = { make } := rfl
  rw [← hnew, after_standing, List.nil_append]

/-- The answer to a request is the one that is given in the state that it is put in. -/
theorem getElem?_answers (d : Deferred) (before : List Request) (request : Request)
    (rest : List Request) :
    (d.answers defs (before ++ request :: rest))[before.length]? =
      some ((after defs d before).step defs request) := by
  induction before generalizing d with
  | nil => rfl
  | cons first before ih => exact ih (d.step defs first).2

/-- A deferred validator is made by the first request that needs it and by no other one. It is there
from then on, and what is only looked at stays as it is. Whatever was asked before, it makes of a
value what the validator made of it, and the answers to a sequence of requests are these. -/
theorem makes_once (defs : Definitions) (make : Unit → Validator) (requests : List Request) :
    let d := after defs { make } requests
    let ready := requests.any Request.forces
    d.makings = (if ready then 1 else 0) ∧
      d.isReady = ready ∧
      d.get? = (if ready then some (make ()) else none) ∧
      (∀ request, request.forces = false → (d.step defs request).2 = d) ∧
      (∀ x, (d.step defs (.validate x)).1 = .verdict (defs.validate (make ()) x)) ∧
      ∀ request rest, (answers defs { make } (requests ++ request :: rest))[requests.length]? =
        some (d.step defs request) := by
  intro d ready
  have hd : d = standing make requests := after_eq_standing
  refine ⟨?_, ?_, ?_, fun _ => step_of_not_forces, fun x => ?_,
    fun request rest => getElem?_answers { make } requests request rest⟩
  · rw [hd, standing]
  · rw [hd, isReady_standing]
  · rw [hd, get?, standing]
  · rw [hd, step, validate_standing]

end Deferred

end Narrowing
