-- SUMMARY: Symbols, property keys, array indices, and the texts of keys.
import Narrowing.Binary64.Layout
import Narrowing.Text.Quoted

/-!
# Property keys

A property is named by a text or by a symbol. A number names the property that its displayed text
names, so the texts that are decimal numerals of array positions play a special part: they are the
*indices* (`arrayIndex?`).

A symbol is a name that no text spells: two symbols are the same only if they were made together,
whatever they are described as.
-/

namespace Narrowing

/-! ## Symbols -/

/-- A symbol, by its number in the order of creation and its description. -/
structure Symbol where
  id : Nat
  description : Option String
  deriving DecidableEq

namespace Symbol

/-- The text of a symbol: its description in parentheses, as it is. -/
def text (symbol : Symbol) : String :=
  "Symbol(" ++ symbol.description.getD "" ++ ")"

end Symbol

/-! ## Keys -/

/-- The name of a property. -/
inductive PropertyKey where
  | text (name : String)
  | symbol (name : Symbol)
  deriving DecidableEq

namespace PropertyKey

/-- Array indices are the numbers below this one. -/
def indexLimit : Nat := 4294967295

/-- The key that names an array position. -/
def ofIndex (index : Nat) : PropertyKey :=
  .text (String.ofList (Nat.toDigits 10 index))

/-- The key that a number names. -/
def ofNumber (x : Binary64) : PropertyKey :=
  .text x.displayText

/-- The array index that a numeral stands for: digits only, no zero in front of others, below the
limit. -/
def indexOfDigits? (digits : List Char) : Option Nat :=
  let value := Nat.ofDigitChars 10 digits 0
  if digits ≠ [] ∧ digits.all Char.isDigit ∧ (digits.head? = some '0' → digits.length = 1) ∧
      value < indexLimit then
    some value
  else none

/-- The array index that a key is, if it is one. -/
def arrayIndex? : PropertyKey → Option Nat
  | .text name => indexOfDigits? name.toList
  | .symbol _ => none

/-- The name that a text key spells. -/
def text? : PropertyKey → Option String
  | .text name => some name
  | .symbol _ => none

/-- Whether the key is a symbol. -/
def isSymbol : PropertyKey → Bool
  | .text _ => false
  | .symbol _ => true

/-- The displayed text of a key. -/
def display : PropertyKey → String
  | .text name => name
  | .symbol s => s.text

/-- The structural text of a key. -/
def inspect : PropertyKey → String
  | .text name => "String(" ++ Text.quoted name ++ ")"
  | .symbol s => "Symbol(" ++ s.text ++ ")"

@[simp] theorem arrayIndex?_symbol (s : Symbol) : (PropertyKey.symbol s).arrayIndex? = none :=
  rfl

end PropertyKey

end Narrowing
