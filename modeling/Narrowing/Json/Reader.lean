-- SUMMARY: Reading a text into a document.
import Narrowing.Json.Numeral

/-!
# Reading JSON

From a text to its document. Objects come out with their members in ascending order of keys. Which
number a numeral stands for is said in `Narrowing.Json.Numeral`.

Each reading function returns what it read and the characters after it. The nesting is bounded by
the number of characters, which is what `read?` starts from.
-/

namespace Narrowing

namespace Json

/-! ## Characters -/

def isBlank (c : Char) : Bool :=
  c == ' ' || c == '\n' || c == '\r' || c == '\t'

def skipBlanks (input : List Char) : List Char :=
  input.dropWhile isBlank

/-- The value of a hexadecimal digit. -/
def hexValue? (c : Char) : Option Nat :=
  if c.isDigit then some (c.toNat - '0'.toNat)
  else if 'a' ≤ c ∧ c ≤ 'f' then some (c.toNat - 'a'.toNat + 10)
  else if 'A' ≤ c ∧ c ≤ 'F' then some (c.toNat - 'A'.toNat + 10)
  else none

/-- The number that four hexadecimal digits stand for. -/
def hexUnit? (a b c d : Char) : Option Nat :=
  match hexValue? a, hexValue? b, hexValue? c, hexValue? d with
  | some i, some j, some k, some l => some (((i * 16 + j) * 16 + k) * 16 + l)
  | _, _, _, _ => none

/-- The character that a backslash and a letter stand for. -/
def shortEscape? : Char → Option Char
  | '"' => some '"'
  | '\\' => some '\\'
  | '/' => some '/'
  | 'b' => some '\x08'
  | 'f' => some '\x0c'
  | 'n' => some '\n'
  | 'r' => some '\r'
  | 't' => some '\t'
  | _ => none

/-! ## Strings -/

/-- The numbers up to the closing quotation mark. An escape by number counts as it stands, so a
character beyond the first plane may come as two surrogates. -/
def readUnits : List Char → Option (List Nat × List Char)
  | [] => none
  | '"' :: rest => some ([], rest)
  | '\\' :: 'u' :: a :: b :: c :: d :: rest =>
      match hexUnit? a b c d, readUnits rest with
      | some unit, some (units, rest) => some (unit :: units, rest)
      | _, _ => none
  | '\\' :: letter :: rest =>
      match shortEscape? letter, readUnits rest with
      | some c, some (units, rest) => some (c.toNat :: units, rest)
      | _, _ => none
  | c :: rest => (readUnits rest).map fun (units, rest) => (c.toNat :: units, rest)

/-- The characters that numbers stand for, surrogates in pairs. -/
def joinSurrogates : List Nat → Option (List Char)
  | [] => some []
  | unit :: rest =>
      if 0xD800 ≤ unit ∧ unit < 0xDC00 then
        match rest with
        | low :: rest =>
            if 0xDC00 ≤ low ∧ low < 0xE000 then
              (joinSurrogates rest).map
                (Char.ofNat (0x10000 + (unit - 0xD800) * 0x400 + (low - 0xDC00)) :: ·)
            else none
        | [] => none
      else if 0xDC00 ≤ unit ∧ unit < 0xE000 then none
      else (joinSurrogates rest).map (Char.ofNat unit :: ·)

/-- A string, after its opening quotation mark. -/
def readString (input : List Char) : Option (String × List Char) :=
  match readUnits input with
  | none => none
  | some (units, rest) => (joinSurrogates units).map fun cs => (String.ofList cs, rest)

/-! ## Numbers -/

/-- The digits at the front, at least one. -/
def readDigits (input : List Char) : Option (List Char × List Char) :=
  match input.takeWhile Char.isDigit with
  | [] => none
  | digits => some (digits, input.dropWhile Char.isDigit)

/-- The digits after a point, none if there is no point. -/
def readFraction : List Char → Option (List Char × List Char)
  | '.' :: rest => readDigits rest
  | rest => some ([], rest)

/-- An exponent with its sign. -/
def readSignedDigits : List Char → Option (Int × List Char)
  | '-' :: rest => (readDigits rest).map fun (ds, rest) => (-(Nat.ofDigitChars 10 ds 0 : Int), rest)
  | '+' :: rest => (readDigits rest).map fun (ds, rest) => ((Nat.ofDigitChars 10 ds 0 : Int), rest)
  | rest => (readDigits rest).map fun (ds, rest) => ((Nat.ofDigitChars 10 ds 0 : Int), rest)

/-- The exponent, if there is one. -/
def readExponent : List Char → Option (Option Int × List Char)
  | 'e' :: rest | 'E' :: rest =>
      (readSignedDigits rest).map fun (exponent, rest) => (some exponent, rest)
  | rest => some (none, rest)

/-- A number, after its sign. -/
def readNumber (negative : Bool) (input : List Char) : Option (Json × List Char) := do
  let (whole, rest) ← readDigits input
  let (fraction, rest) ← readFraction rest
  let (exponent, rest) ← readExponent rest
  let document ← ofNumeral? negative whole fraction exponent
  return (document, rest)

/-! ## Documents -/

mutual

/-- A document after any blanks, nested no deeper than the bound. -/
def readDocument : Nat → List Char → Option (Json × List Char)
  | 0, _ => none
  | depth + 1, input =>
      match skipBlanks input with
      | 'n' :: 'u' :: 'l' :: 'l' :: rest => some (.null, rest)
      | 't' :: 'r' :: 'u' :: 'e' :: rest => some (.bool true, rest)
      | 'f' :: 'a' :: 'l' :: 's' :: 'e' :: rest => some (.bool false, rest)
      | '"' :: rest => (readString rest).map fun (s, rest) => (.string s, rest)
      | '-' :: rest => readNumber true rest
      | '[' :: rest =>
          match skipBlanks rest with
          | ']' :: rest => some (.array [], rest)
          | rest => (readItems depth rest).map fun (items, rest) => (.array items, rest)
      | '{' :: rest =>
          match skipBlanks rest with
          | '}' :: rest => some (.object [], rest)
          | rest =>
              (readMembers depth rest).map fun (members, rest) =>
                (.object (sortMembers members), rest)
      | rest => readNumber false rest

/-- Items up to the closing bracket, at least one. -/
def readItems : Nat → List Char → Option (List Json × List Char)
  | 0, _ => none
  | depth + 1, input => do
      let (item, rest) ← readDocument depth input
      match skipBlanks rest with
      | ',' :: rest =>
          let (items, rest) ← readItems depth rest
          return (item :: items, rest)
      | ']' :: rest => return ([item], rest)
      | _ => none

/-- Members up to the closing brace, at least one. -/
def readMembers : Nat → List Char → Option (List (String × Json) × List Char)
  | 0, _ => none
  | depth + 1, input => do
      let (key, rest) ← match skipBlanks input with
        | '"' :: rest => readString rest
        | _ => none
      let (item, rest) ← match skipBlanks rest with
        | ':' :: rest => readDocument depth rest
        | _ => none
      match skipBlanks rest with
      | ',' :: rest =>
          let (members, rest) ← readMembers depth rest
          return ((key, item) :: members, rest)
      | '}' :: rest => return ([(key, item)], rest)
      | _ => none

end

/-- The document of a text. -/
def read? (text : String) : Option Json :=
  let input := text.toList
  match readDocument (input.length + 1) input with
  | some (document, rest) => if skipBlanks rest = [] then some document else none
  | none => none

end Json

end Narrowing
