-- SUMMARY: The syntax of validators, their three strengths, and their input and output types.
import Narrowing.Options
import Narrowing.Outcome
import Narrowing.ValueType

/-!
# Validators

A validator takes a value of one type and either gives one of another type, or rejects it with a
reason. Validators are data: `Leaf` has those that look at a value by themselves, and `Validator`
puts others together. What they do is said in `Narrowing.Validator.Run`.

The validators of objects and arrays come in three strengths. The constructors are the strict ones,
which take an object or an array; `checked` and `coerced` put a test or a conversion in front.
-/

namespace Narrowing

/-- A check from outside the library, with the structural text it goes by. -/
structure Rule where
  label : String
  input : ValueType
  output : ValueType
  judge : Value → Outcome Reason Value

/-- The validators that have no others inside. -/
inductive Leaf where
  /-- Accepts the values of a type. -/
  | ofType (type : ValueType)
  | null
  | undefined
  | nullish
  /-- Gives the object that the value is or stands in for. -/
  | toObject
  | equal (expected : Value)
  | oneOf (allowed : List Value)
  | instanceOf (c : Class)
  /-- Accepts the keys of an object. -/
  | keyOf (object : Object) (options : KeyOptions)
  | rule (rule : Rule)

/-- How the branches of a validator are put down, which only its structural text shows. -/
inductive Form where
  | tuple
  | list
  deriving DecidableEq

/-- A property of a shape. -/
structure Field (ν : Type) where
  key : PropertyKey
  /-- The property may be missing. -/
  mayBeMissing : Bool
  validator : ν

/-- A validator. -/
inductive Validator where
  | leaf (leaf : Leaf)
  /-- Gives what the first branch gives that accepts. -/
  | anyOf (form : Form) (branches : List Validator)
  /-- Gives the value back if all branches accept it. -/
  | allOf (form : Form) (branches : List Validator)
  /-- Gives the value back if the other validator rejects it. -/
  | not (inner : Validator)
  /-- Gives the output of the first validator to the second. -/
  | pipe (first second : Validator)
  /-- Puts a message in front of the reasons. -/
  | explained (message : String) (inner : Validator)
  /-- Does what the other validator does and shows a label instead of it. -/
  | sealed (label : String) (inner : Validator)
  /-- Accepts undefined as well. -/
  | optional (inner : Validator)
  /-- Accepts null as well. -/
  | nullable (inner : Validator)
  /-- Stands for a definition. -/
  | reference (name : String)
  /-- Checks a property of an object. -/
  | property (key : PropertyKey) (value : Validator) (options : PropertyOptions)
  /-- Checks properties of an object one by one. -/
  | shape (fields : List (Field Validator)) (options : ShapeOptions)
  /-- Checks each own key of an object and the value under it. -/
  | dictionary (key value : Validator)
  /-- Checks each element of an array. -/
  | arrayOf (element : Validator)
  /-- Checks the elements of an array of fixed length, each by a validator of its own. -/
  | tuple (elements : List Validator)

namespace Validator

abbrev ofType (type : ValueType) : Validator := .leaf (.ofType type)

instance : Inhabited Validator := ⟨.ofType .value⟩

/-- A validator of objects for any value, which has to be an object. -/
def checked (v : Validator) : Validator := .pipe (.ofType .object) v

/-- A validator of objects for any value, which is turned into one. -/
def coerced (v : Validator) : Validator := .pipe (.leaf .toObject) v

/-- A validator of arrays for any value, which has to be an array. -/
def checkedArray (v : Validator) : Validator := .pipe (.ofType .array) v

/-- A validator of keys for any value, which has to name one. -/
def checkedKey (v : Validator) : Validator := .pipe (.ofType .key) v

end Validator

/-! ## Types -/

/-- What a leaf takes. -/
def Leaf.input : Leaf → ValueType
  | .keyOf _ _ => .key
  | .rule r => r.input
  | _ => .value

/-- What a leaf gives. -/
def Leaf.output : Leaf → ValueType
  | .ofType type => type
  | .toObject | .instanceOf _ => .object
  | .keyOf _ _ => .key
  | .rule r => r.output
  | .null | .undefined | .nullish | .equal _ | .oneOf _ => .value

namespace Validator

/-- What a validator takes. Branches take the same, so the first one tells; without branches
anything is taken. -/
def input : Validator → ValueType
  | .leaf l => l.input
  | .anyOf _ [] | .allOf _ [] => .value
  | .anyOf _ (v :: _) | .allOf _ (v :: _) => v.input
  | .not v | .explained _ v | .sealed _ v => v.input
  | .pipe first _ => first.input
  | .optional _ | .nullable _ | .reference _ => .value
  | .property _ _ _ | .shape _ _ | .dictionary _ _ => .object
  | .arrayOf _ | .tuple _ => .array

/-- What a validator gives. -/
def output : Validator → ValueType
  | .leaf l => l.output
  | .anyOf _ _ | .not _ | .optional _ | .nullable _ | .reference _ => .value
  | .allOf form branches => input (.allOf form branches)
  | .pipe _ second => second.output
  | .explained _ v | .sealed _ v => v.output
  | .property _ _ _ | .shape _ _ | .dictionary _ _ => .object
  | .arrayOf _ | .tuple _ => .array

end Validator

end Narrowing
