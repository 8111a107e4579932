-- SUMMARY: The messages of the library and the reasons made of them.
import Narrowing.Reason
import Narrowing.Value.Text
import Narrowing.ValueType

/-!
# Complaints

The library's own messages, by what they complain of. `Complaint.text` holds their wording.
-/

namespace Narrowing

/-- What a validator of the library complains of. -/
inductive Complaint where
  | notOfType (type : ValueType)
  | notNull
  | notUndefined
  | notNullish
  | notEqual (expected : Value)
  | notAllowed (allowed : List Value)
  | notInstance (c : Class)
  | notKey (key : PropertyKey)
  | noneSatisfied
  | notAllSatisfied
  | satisfied
  | missingProperty (key : PropertyKey)
  | invalidProperty (key : PropertyKey)
  | invalidKey (key : PropertyKey)
  | invalidElement (index : Nat)
  | wrongLength (found expected : Nat)
  /-- Keys that no field defines; the first few are named and the rest are counted. -/
  | extraKeys (keys : List PropertyKey)

namespace Complaint

/-- The number of extra keys that are named. -/
def namedExtraKeys : Nat := 3

/-- A key in quotation marks, as it is. -/
def quotedKey (key : PropertyKey) : String :=
  "\"" ++ key.display ++ "\""

/-- The wording for extra keys, some of them in quotation marks and the others by their number. -/
def extraKeysText (named : List String) (others : Nat) : String :=
  "The object has unexpected properties: " ++ ", ".intercalate named ++
    (if 0 < others then " and " ++ toString others ++ " more" else "") ++ "."

/-- The wording of a complaint. -/
def text : Complaint → String
  | .notOfType type => "The value is not " ++ type.phrase ++ "."
  | .notNull => "The value is not null."
  | .notUndefined => "The value is not undefined."
  | .notNullish => "The value is not null or undefined."
  | .notEqual expected => "The value is not equal to " ++ expected.display ++ "."
  | .notAllowed allowed =>
      "The value is not one of the allowed values: " ++
        ", ".intercalate (allowed.map Value.display) ++ "."
  | .notInstance c => "The value is not an instance of " ++ c.name ++ "."
  | .notKey key => "The key " ++ quotedKey key ++ " is not a property of the object."
  | .noneSatisfied => "The value does not satisfy any of the validators."
  | .notAllSatisfied => "The value does not satisfy all of the validators."
  | .satisfied => "The value should not satisfy the validator."
  | .missingProperty key => "The property " ++ quotedKey key ++ " is missing."
  | .invalidProperty key => "The property " ++ quotedKey key ++ " is invalid."
  | .invalidKey key => "The key " ++ quotedKey key ++ " is invalid."
  | .invalidElement index => "The element at index " ++ toString index ++ " is invalid."
  | .wrongLength found expected =>
      "The array has " ++ toString found ++ (if found = 1 then " element" else " elements") ++
        ", expected exactly " ++ toString expected ++ "."
  | .extraKeys keys =>
      extraKeysText ((keys.take namedExtraKeys).map quotedKey) (keys.length - namedExtraKeys)

/-- The complaint as a reason with nothing behind it. -/
def reason (complaint : Complaint) : Reason :=
  .message complaint.text

end Complaint

end Narrowing
