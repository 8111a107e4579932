-- SUMMARY: The option records of property validators, and reading them from documents.
import Narrowing.Inspect
import Narrowing.Json
import Narrowing.Text.Quoted

/-!
# Option records

The flags that adjust the property validators, and how they are read from JSON documents. A record
is an object whose members name flags, or an array that lists them by position. Flags that are not
mentioned take their defaults, members that name no flag are passed over.
-/

namespace Narrowing

/-! ## The records -/

/-- How one property is looked up. -/
structure PropertyOptions where
  /-- Only own properties count; inherited ones do as well if this is off. -/
  ownOnly : Bool := true
  /-- The property may be missing. -/
  mayBeMissing : Bool := false
  deriving DecidableEq

/-- How the properties of a shape are looked up. -/
structure ShapeOptions where
  /-- Only own properties count; inherited ones do as well if this is off. -/
  ownOnly : Bool := true
  /-- Every property may be missing. -/
  mayBeMissing : Bool := false
  /-- Own keys beyond those of the shape are allowed. -/
  allowExtra : Bool := true
  deriving DecidableEq

/-- Which keys of an object count as its keys. -/
structure KeyOptions where
  /-- Only own keys count; inherited ones do as well if this is off. -/
  ownOnly : Bool := true
  deriving DecidableEq

/-- The structural text of the options of a property. -/
def PropertyOptions.inspect (options : PropertyOptions) : String :=
  Inspect.record "PropOptions"
    [("own", Inspect.bool options.ownOnly), ("partial", Inspect.bool options.mayBeMissing)]

/-- The structural text of the options of a shape. -/
def ShapeOptions.inspect (options : ShapeOptions) : String :=
  Inspect.record "PropsOptions"
    [("own", Inspect.bool options.ownOnly), ("partial", Inspect.bool options.mayBeMissing),
     ("allow_extra", Inspect.bool options.allowExtra)]

/-- The structural text of the options of a key check. -/
def KeyOptions.inspect (options : KeyOptions) : String :=
  Inspect.record "KeyOfOptions" [("own", Inspect.bool options.ownOnly)]

/-! ## Faults -/

/-- Why a document is no option record. -/
inductive OptionFault where
  /-- A flag is given by something that is no truth value. -/
  | notFlag (found : Json)
  /-- The document is neither an object nor an array. -/
  | notRecord (title : String) (found : Json)
  /-- An array has more items than there are flags. -/
  | tooLong (length : Nat)

/-- What a document is, in the wording of faults. -/
def Json.describe : Json → String
  | .null => "null"
  | .bool b => "boolean `" ++ Inspect.bool b ++ "`"
  | .integer i => "integer `" ++ toString i ++ "`"
  | .float x => "floating point `" ++ NumberLayout.json.render x ++ "`"
  | .string s => "string " ++ Text.quoted s
  | .array _ => "sequence"
  | .object _ => "map"

/-- The wording of a fault. -/
def OptionFault.message : OptionFault → String
  | .notFlag found => "invalid type: " ++ found.describe ++ ", expected a boolean"
  | .notRecord title found => "invalid type: " ++ found.describe ++ ", expected struct " ++ title
  | .tooLong length =>
      "invalid length " ++ toString length ++ ", expected fewer elements in array"

/-! ## Reading -/

/-- A kind of option record: its title, and its flags with their defaults. -/
structure RecordFormat where
  title : String
  flags : List (String × Bool)

namespace RecordFormat

/-- The truth value of a flag. -/
def readFlag : Json → Except OptionFault Bool
  | .bool b => .ok b
  | found => .error (.notFlag found)

/-- The flags by position: all items are read before an excess of them is a fault. -/
def readItems (length : Nat) : List (String × Bool) → List Json → Except OptionFault (List Bool)
  | flags, [] => .ok (flags.map Prod.snd)
  | [], _ :: _ => .error (.tooLong length)
  | _ :: flags, item :: items =>
      match readFlag item with
      | .error fault => .error fault
      | .ok value => (readItems length flags items).map (value :: ·)

/-- The flags that the members of an object mention, in the order of the members. -/
def readMembers (flags : List (String × Bool)) :
    List (String × Json) → Except OptionFault (List (String × Bool))
  | [] => .ok []
  | (name, item) :: members =>
      if (flags.lookup name).isSome then
        match readFlag item with
        | .error fault => .error fault
        | .ok value => (readMembers flags members).map ((name, value) :: ·)
      else readMembers flags members

/-- The values of the flags of a format, in the order of the format. -/
def read (format : RecordFormat) : Json → Except OptionFault (List Bool)
  | .array items => readItems items.length format.flags items
  | .object members =>
      (readMembers format.flags members).map fun given =>
        format.flags.map fun (name, value) => (given.lookup name).getD value
  | found => .error (.notRecord format.title found)

end RecordFormat

/-- The flags of the options of a property. -/
def PropertyOptions.format : RecordFormat where
  title := "PropOptions"
  flags := [("own", true), ("partial", false)]

/-- The flags of the options of a shape. -/
def ShapeOptions.format : RecordFormat where
  title := "PropsOptions"
  flags := [("own", true), ("partial", false), ("allowExtra", true)]

/-- The flags of the options of a key check. -/
def KeyOptions.format : RecordFormat where
  title := "KeyOfOptions"
  flags := [("own", true)]

/-- The options of a property from their document. -/
def PropertyOptions.ofJson (document : Json) : Except OptionFault PropertyOptions :=
  (format.read document).map fun
    | [ownOnly, mayBeMissing] => ⟨ownOnly, mayBeMissing⟩
    | _ => {}

/-- The options of a shape from their document. -/
def ShapeOptions.ofJson (document : Json) : Except OptionFault ShapeOptions :=
  (format.read document).map fun
    | [ownOnly, mayBeMissing, allowExtra] => ⟨ownOnly, mayBeMissing, allowExtra⟩
    | _ => {}

/-- The options of a key check from their document. -/
def KeyOptions.ofJson (document : Json) : Except OptionFault KeyOptions :=
  (format.read document).map fun
    | [ownOnly] => ⟨ownOnly⟩
    | _ => {}

end Narrowing
