-- SUMMARY: Texts and documents of reasons.
import Narrowing.Inspect
import Narrowing.Json
import Narrowing.Reason
import Narrowing.Text.Quoted

/-!
# Texts of reasons

A reason is shown by its first message (`display`), by an indented tree with a line for each
message (`tree`), by its structure (`inspect`), or as a JSON document that keeps all of it
(`toJson`).
-/

namespace Narrowing

namespace Reason

/-- The displayed text: the message, or how many reasons there are. -/
def display : Reason → String
  | .message text | .because text _ => text
  | .several reasons => toString reasons.length ++ " reasons"

/-- One line of a tree: two spaces for each level of depth, then the message. The width has no limit
here. A formatter that takes widths of 16 bits, so of 65535 at most, writes the lines down to depth
32767 and none below. -/
def treeLine : Nat × String → String
  | (depth, text) => String.ofList (List.replicate (2 * depth) ' ') ++ text

/-- The indented tree. -/
def tree (r : Reason) : String :=
  "\n".intercalate ((r.outline 0).map treeLine)

/-- The displayed texts of the reasons that lie one behind the other. -/
def sources : Reason → List String
  | .because _ cause => cause.display :: cause.sources
  | .message _ | .several _ => []

mutual

/-- The structural text. -/
def inspect : Reason → String
  | .message text => Inspect.call "Message" (Text.quoted text)
  | .because text cause =>
      Inspect.record "Wrapped" [("message", Text.quoted text), ("cause", cause.inspect)]
  | .several reasons => Inspect.call "Many" (Inspect.list (inspectAll reasons))

/-- The structural texts of several reasons. -/
def inspectAll : List Reason → List String
  | [] => []
  | r :: rs => r.inspect :: inspectAll rs

end

mutual

/-- The document of a reason: a message is a string, several reasons are an array. -/
def toJson : Reason → Json
  | .message text => .string text
  | .because text cause => .object [("cause", cause.toJson), ("message", .string text)]
  | .several reasons => .array (toJsonAll reasons)

/-- The documents of several reasons. -/
def toJsonAll : List Reason → List Json
  | [] => []
  | r :: rs => r.toJson :: toJsonAll rs

end

end Reason

end Narrowing
