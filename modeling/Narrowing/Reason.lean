-- SUMMARY: Reasons as trees of messages, with views that list the messages.
/-!
# Reasons

Why a value was refused. A reason is a message, a message with the reason behind it, or several
reasons side by side. The views below list the messages of a reason in one order: each message
before those behind it, reasons side by side from first to last.
-/

namespace Narrowing

/-- Why a value was refused. -/
inductive Reason where
  | message (text : String)
  | because (text : String) (cause : Reason)
  | several (reasons : List Reason)

namespace Reason

instance : Inhabited Reason := ⟨.several []⟩

/-- Several reasons behind one message. -/
def aggregate (text : String) (reasons : List Reason) : Reason :=
  .because text (.several reasons)

/-! ## Equality -/

mutual

/-- Reasons can be compared. -/
def decEq : (r s : Reason) → Decidable (r = s)
  | .message a, .message b => decidable_of_iff (a = b) (by simp)
  | .because a r, .because b s =>
      have := decEq r s
      decidable_of_iff (a = b ∧ r = s) (by simp)
  | .several rs, .several ss =>
      have := decEqAll rs ss
      decidable_of_iff (rs = ss) (by simp)
  | .message _, .because _ _ | .message _, .several _ => isFalse (by simp)
  | .because _ _, .message _ | .because _ _, .several _ => isFalse (by simp)
  | .several _, .message _ | .several _, .because _ _ => isFalse (by simp)

/-- Lists of reasons can be compared. -/
def decEqAll : (rs ss : List Reason) → Decidable (rs = ss)
  | [], [] => isTrue rfl
  | [], _ :: _ | _ :: _, [] => isFalse (by simp)
  | r :: rs, s :: ss =>
      have := decEq r s
      have := decEqAll rs ss
      decidable_of_iff (r = s ∧ rs = ss) (by simp)

end

instance : DecidableEq Reason := decEq

/-! ## The parts of one reason -/

/-- The message of a reason; several reasons have none of their own. -/
def message? : Reason → Option String
  | .message text | .because text _ => some text
  | .several _ => none

/-- The reason behind a message. -/
def cause? : Reason → Option Reason
  | .because _ cause => some cause
  | .message _ | .several _ => none

/-- The reasons directly below. Several reasons behind a message count as its own. -/
def causes : Reason → List Reason
  | .message _ => []
  | .because _ (.several reasons) => reasons
  | .because _ cause => [cause]
  | .several reasons => reasons

/-- Whether there is nothing behind a message. -/
def isLeaf : Reason → Bool
  | .message _ => true
  | .because _ _ | .several _ => false

/-! ## The messages of a whole reason -/

mutual

/-- The number of messages. -/
def count : Reason → Nat
  | .message _ => 1
  | .because _ cause => 1 + cause.count
  | .several reasons => countAll reasons

/-- The number of messages in several reasons. -/
def countAll : List Reason → Nat
  | [] => 0
  | r :: rs => r.count + countAll rs

end

mutual

/-- The reasons that bear a message. -/
def flatten : Reason → List Reason
  | .message text => [.message text]
  | .because text cause => .because text cause :: cause.flatten
  | .several reasons => flattenAll reasons

/-- The reasons that bear a message among several. -/
def flattenAll : List Reason → List Reason
  | [] => []
  | r :: rs => r.flatten ++ flattenAll rs

end

/-- The messages that have nothing behind them. -/
def leafMessages (r : Reason) : List String :=
  (r.flatten.filter isLeaf).filterMap message?

mutual

/-- The messages with the number of messages in front of which they stand, starting from a given
depth. -/
def outline (depth : Nat) : Reason → List (Nat × String)
  | .message text => [(depth, text)]
  | .because text cause => (depth, text) :: cause.outline (depth + 1)
  | .several reasons => outlineAll depth reasons

/-- The outlines of several reasons, which all stand at one depth. -/
def outlineAll (depth : Nat) : List Reason → List (Nat × String)
  | [] => []
  | r :: rs => r.outline depth ++ outlineAll depth rs

end

end Reason

end Narrowing
