-- SUMMARY: The compact text of a document.
import Narrowing.Json

/-!
# Written JSON

The compact text of a document: no blanks, the least of escapes, and every number that is no
integer written with a point or an exponent.
-/

namespace Narrowing

namespace Json

/-- A digit of a character's four-digit number. -/
def hexDigit (code place : Nat) : Char :=
  Nat.digitChar (code / Nat.pow 16 place % 16)

/-- How one character is written in a string. -/
def escape (c : Char) : List Char :=
  if c = '"' ∨ c = '\\' then ['\\', c]
  else if c = '\n' then ['\\', 'n']
  else if c = '\r' then ['\\', 'r']
  else if c = '\t' then ['\\', 't']
  else if c.toNat = 8 then ['\\', 'b']
  else if c.toNat = 12 then ['\\', 'f']
  else if c.toNat < 32 then
    ['\\', 'u', hexDigit c.toNat 3, hexDigit c.toNat 2, hexDigit c.toNat 1, hexDigit c.toNat 0]
  else [c]

/-- A string with its quotation marks. -/
def quoted (text : String) : String :=
  String.ofList ('"' :: (text.toList.flatMap escape ++ ['"']))

mutual

/-- The text of a document. -/
def text : Json → String
  | .null => "null"
  | .bool b => if b then "true" else "false"
  | .integer i => toString i
  | .float x => NumberLayout.json.render x
  | .string s => quoted s
  | .array items => "[" ++ ",".intercalate (itemTexts items) ++ "]"
  | .object members => "\x7b" ++ ",".intercalate (memberTexts members) ++ "\x7d"

/-- The texts of the items of a list. -/
def itemTexts : List Json → List String
  | [] => []
  | d :: ds => d.text :: itemTexts ds

/-- The texts of members. -/
def memberTexts : List (String × Json) → List String
  | [] => []
  | (key, d) :: ds => (quoted key ++ ":" ++ d.text) :: memberTexts ds

end

end Json

end Narrowing
