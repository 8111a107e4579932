-- SUMMARY: Outcomes of checks (accepted, rejected, unsettled), their combinators, and the two loops over checks.
import Narrowing.Reason

/-!
# Outcomes

What comes of a check: it accepts with an output, it rejects with a reason, or it is unsettled. A
check is unsettled only if a recursive validator was not allowed to unfold often enough.

Checks follow one another by `bind`: the first one that does not accept decides.
-/

namespace Narrowing

/-- What comes of a check with reasons in `ε` and outputs in `α`. -/
inductive Outcome (ε α : Type) where
  | accepted (output : α)
  | rejected (reason : ε)
  | unsettled
  deriving DecidableEq

namespace Outcome

variable {ε ε' α β γ : Type}

/-- The output of one check given to the next. -/
def bind : Outcome ε α → (α → Outcome ε β) → Outcome ε β
  | .accepted a, next => next a
  | .rejected reason, _ => .rejected reason
  | .unsettled, _ => .unsettled

/-- The outcome with another reason. -/
def mapReason (f : ε → ε') : Outcome ε α → Outcome ε' α
  | .accepted a => .accepted a
  | .rejected reason => .rejected (f reason)
  | .unsettled => .unsettled

/-- The outcome with another output. -/
def as (output : β) : Outcome ε α → Outcome ε β
  | .accepted _ => .accepted output
  | .rejected reason => .rejected reason
  | .unsettled => .unsettled

/-- Whether the check accepts. -/
def isAccepted : Outcome ε α → Bool
  | .accepted _ => true
  | .rejected _ | .unsettled => false

/-- Whether the check rejects. -/
def isRejected : Outcome ε α → Bool
  | .rejected _ => true
  | .accepted _ | .unsettled => false

/-- The output, if the check accepts. -/
def output? : Outcome ε α → Option α
  | .accepted a => some a
  | .rejected _ | .unsettled => none

/-- A value if there is one, or else a reason. -/
def ofOption (reason : ε) : Option α → Outcome ε α
  | some a => .accepted a
  | none => .rejected reason

/-- Acceptance on a condition. -/
def ensure (condition : Bool) (reason : ε) (output : α) : Outcome ε α :=
  if condition then .accepted output else .rejected reason

/-- A check of each member of a list, up to the first that is not accepted. -/
def forEach (check : α → Outcome ε β) : List α → Outcome ε Unit
  | [] => .accepted ()
  | a :: rest => (check a).bind fun _ => forEach check rest

/-- The members of a list that a check comes to see: all up to the first that is not accepted. -/
def reached (check : α → Outcome ε β) : List α → List α
  | [] => []
  | a :: rest => a :: if (check a).isAccepted then reached check rest else []

/-- A rejection behind a message. -/
def behind (text : String) : Outcome Reason α → Outcome Reason α :=
  mapReason (.because text)

/-! ## Equations -/

@[simp] theorem bind_accepted (a : α) (next : α → Outcome ε β) :
    (accepted a).bind next = next a := rfl
@[simp] theorem bind_rejected (reason : ε) (next : α → Outcome ε β) :
    (rejected reason).bind next = .rejected reason := rfl
@[simp] theorem bind_unsettled (next : α → Outcome ε β) : unsettled.bind next = .unsettled := rfl

@[simp] theorem mapReason_accepted (f : ε → ε') (a : α) :
    (accepted a).mapReason f = .accepted a := rfl
@[simp] theorem mapReason_rejected (f : ε → ε') (reason : ε) :
    (rejected reason : Outcome ε α).mapReason f = .rejected (f reason) := rfl
@[simp] theorem mapReason_unsettled (f : ε → ε') :
    (unsettled : Outcome ε α).mapReason f = .unsettled := rfl

@[simp] theorem forEach_nil (check : α → Outcome ε β) : forEach check [] = .accepted () := rfl
@[simp] theorem forEach_cons (check : α → Outcome ε β) (a : α) (rest : List α) :
    forEach check (a :: rest) = (check a).bind fun _ => forEach check rest := rfl

theorem bind_assoc (x : Outcome ε α) (f : α → Outcome ε β) (g : β → Outcome ε γ) :
    (x.bind f).bind g = x.bind fun a => (f a).bind g := by
  cases x <;> rfl

end Outcome

end Narrowing
