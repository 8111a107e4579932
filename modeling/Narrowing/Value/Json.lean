-- SUMMARY: Documents of values and values of documents.
import Narrowing.Json
import Narrowing.Object

/-!
# Values and JSON

What a value shows of itself in JSON, and the value that a document describes.

A value shows its scalars, the elements of arrays and the text-keyed properties of ordinary
objects, in the order of the object's own keys. Symbols, functions, undefined and the numbers that
are not finite become null; wrappers show what they wrap; prototypes, classes and identities are
lost.
-/

namespace Narrowing

/-! ## To JSON -/

/-- The document of a number. -/
def Binary64.toJson : Binary64 → Json
  | .nan _ _ | .infinite _ => .null
  | .finite negative exponent fraction => .float (.finite negative exponent fraction)

/-- The document of a scalar. -/
def Scalar.toJson : Scalar → Json
  | .boolean b => .bool b
  | .number x => x.toJson
  | .bigint i => .integer i
  | .string s => .string s
  | .symbol _ => .null

/-- The text-keyed entries of a table, in the order in which an object enumerates its keys. -/
def textMembers {α : Type} (entries : List (PropertyKey × α)) : List (String × α) :=
  let keys := entries.map Prod.fst
  let ordered :=
    (Object.indicesOf 0 keys).map PropertyKey.ofIndex ++ keys.filter Object.isPlainText
  ordered.filterMap fun key =>
    match key.text?, entries.lookup key with
    | some name, some item => some (name, item)
    | _, _ => none

mutual

/-- The document of a value. -/
def Value.toJson : Value → Json
  | .undefined | .null => .null
  | .scalar s => s.toJson
  | .object o => o.toJson

/-- The document of an object. -/
def Object.toJson : Object → Json
  | .mk _ .ordinary properties _ _ => .object (textMembers (entriesToJson properties))
  | .mk _ (.array elements) _ _ _ => .array (elementsToJson elements)
  | .mk _ (.function _ _) _ _ _ => .null
  | .mk _ (.wrapper s) _ _ _ => s.toJson

/-- The documents of the members of a list. -/
def elementsToJson : List Value → List Json
  | [] => []
  | v :: vs => v.toJson :: elementsToJson vs

/-- The documents of the entries of a table. -/
def entriesToJson : List (PropertyKey × Value) → List (PropertyKey × Json)
  | [] => []
  | (key, v) :: rest => (key, v.toJson) :: entriesToJson rest

end

/-- The canonical document of a value. -/
def Value.toCanonicalJson? (v : Value) : Except Json.Fault Json :=
  v.toJson.canonical?

/-! ## From JSON -/

mutual

/-- The value that a document describes. Its objects are marked by their places below the given
one. -/
def Value.ofJson (path : List Nat) : Json → Value
  | .null => .null
  | .bool b => .boolean b
  | .integer i => .number (.ofInt i)
  | .float x => .number x
  | .string s => .string s
  | .array items => .object (.ofKind (.made path) (.array (elementsOfJson path 0 items)))
  | .object members =>
      .object ((Object.ofKind (.made path) .ordinary).setProperties (entriesOfJson path 0 members))

/-- The values of the items of a list, the first of which has the given place. -/
def elementsOfJson (path : List Nat) (place : Nat) : List Json → List Value
  | [] => []
  | d :: ds => Value.ofJson (place :: path) d :: elementsOfJson path (place + 1) ds

/-- The entries for members, the first of which has the given place. -/
def entriesOfJson (path : List Nat) (place : Nat) :
    List (String × Json) → List (PropertyKey × Value)
  | [] => []
  | (name, d) :: ds =>
      (.text name, Value.ofJson (place :: path) d) :: entriesOfJson path (place + 1) ds

end

end Narrowing
