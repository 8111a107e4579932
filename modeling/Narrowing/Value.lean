-- SUMMARY: Values, objects, and identities, with views, strict equality, conversions, and depth.
import Narrowing.Binary64
import Narrowing.Class
import Narrowing.PropertyKey

/-!
# Values

The dynamic values that validators look at. A value is undefined, null, a scalar, or an object. An
object is a finite tree: its own properties, its elements and its prototype are part of it.

Sameness of objects is not sameness of contents. Each object carries the mark of the place where
it was made (`Identity`), and strict equality compares nothing else of it.

The depth of a value says how deep objects are nested in it, by way of elements, properties and
prototypes.
-/

namespace Narrowing

/-! ## Scalars and identities -/

/-- The values that a wrapper object can hold. -/
inductive Scalar where
  | boolean (value : Bool)
  | number (value : Binary64)
  | bigint (value : Int)
  | string (value : String)
  | symbol (value : Symbol)
  deriving DecidableEq

/-- Where an object comes from. An object that was made on purpose has the path of positions that
leads to its making. An object that stands in for a value without properties is told by that
value: it is made on the way and never held by anyone who could compare two of them. -/
inductive Identity where
  | made (path : List Nat)
  | wrapping (scalar : Scalar)
  | blank
  deriving DecidableEq

/-! ## Values and objects -/

mutual

/-- A dynamic value. -/
inductive Value where
  | undefined
  | null
  | scalar (scalar : Scalar)
  | object (object : Object)

/-- What an object is besides its properties. -/
inductive ObjectKind where
  | ordinary
  | array (elements : List Value)
  | function (name : String) (arity : Nat)
  | wrapper (scalar : Scalar)

/-- An object. Its properties are listed in the order in which their keys were first set. -/
inductive Object where
  | mk (identity : Identity) (kind : ObjectKind) (properties : List (PropertyKey × Value))
      (prototype : Option Object) (classOf : Option Class)

end

namespace Object

def identity : Object → Identity
  | .mk identity _ _ _ _ => identity

def kind : Object → ObjectKind
  | .mk _ kind _ _ _ => kind

def properties : Object → List (PropertyKey × Value)
  | .mk _ _ properties _ _ => properties

def prototype : Object → Option Object
  | .mk _ _ _ prototype _ => prototype

def classOf : Object → Option Class
  | .mk _ _ _ _ classOf => classOf

/-- An object with nothing but a kind. -/
def ofKind (identity : Identity) (kind : ObjectKind) : Object :=
  .mk identity kind [] none none

/-- The scalar that an object wraps. -/
def wrapped? (o : Object) : Option Scalar :=
  match o.kind with
  | .wrapper s => some s
  | _ => none

/-- Whether two objects are one. -/
def sameAs (o p : Object) : Bool :=
  o.identity == p.identity

@[simp] theorem identity_mk (i k ps p c) : (Object.mk i k ps p c).identity = i := rfl
@[simp] theorem kind_mk (i k ps p c) : (Object.mk i k ps p c).kind = k := rfl
@[simp] theorem properties_mk (i k ps p c) : (Object.mk i k ps p c).properties = ps := rfl
@[simp] theorem prototype_mk (i k ps p c) : (Object.mk i k ps p c).prototype = p := rfl
@[simp] theorem classOf_mk (i k ps p c) : (Object.mk i k ps p c).classOf = c := rfl

end Object

/-! ## Strict equality -/

/-- Strict equality of scalars: numbers by numeric equality, all else by being the same. -/
def Scalar.strictEq : Scalar → Scalar → Bool
  | .number x, .number y => x.sameNumber y
  | .number _, _ => false
  | s, t => s == t

namespace Value

abbrev boolean (b : Bool) : Value := .scalar (.boolean b)
abbrev number (x : Binary64) : Value := .scalar (.number x)
abbrev bigint (i : Int) : Value := .scalar (.bigint i)
abbrev string (s : String) : Value := .scalar (.string s)
abbrev symbol (s : Symbol) : Value := .scalar (.symbol s)

instance : Inhabited Value := ⟨.undefined⟩

/-- Strict equality: nothing is converted, and objects are compared by identity. -/
def strictEq : Value → Value → Bool
  | .undefined, .undefined => true
  | .null, .null => true
  | .scalar s, .scalar t => s.strictEq t
  | .object o, .object p => o.sameAs p
  | _, _ => false

/-! ## Views -/

def scalar? : Value → Option Scalar
  | .scalar s => some s
  | _ => none

def object? : Value → Option Object
  | .object o => some o
  | _ => none

def boolean? : Value → Option Bool
  | .scalar (.boolean b) => some b
  | _ => none

def number? : Value → Option Binary64
  | .scalar (.number x) => some x
  | _ => none

def bigint? : Value → Option Int
  | .scalar (.bigint i) => some i
  | _ => none

def string? : Value → Option String
  | .scalar (.string s) => some s
  | _ => none

def symbol? : Value → Option Symbol
  | .scalar (.symbol s) => some s
  | _ => none

/-- The property key that a value is, if it is one without conversion. -/
def key? : Value → Option PropertyKey
  | .scalar (.string s) => some (.text s)
  | .scalar (.symbol s) => some (.symbol s)
  | _ => none

/-- The elements of an array. -/
def elements? : Value → Option (List Value)
  | .object (.mk _ (.array elements) _ _ _) => some elements
  | _ => none

/-- The name and arity of a function. -/
def function? : Value → Option (String × Nat)
  | .object (.mk _ (.function name arity) _ _ _) => some (name, arity)
  | _ => none

def isUndefined : Value → Bool
  | .undefined => true
  | _ => false

def isNull : Value → Bool
  | .null => true
  | _ => false

def isNullish (v : Value) : Bool :=
  v.isUndefined || v.isNull

def isObject (v : Value) : Bool :=
  v.object?.isSome

def isPrimitive (v : Value) : Bool :=
  !v.isObject

/-- The name of the value's type. Null counts as an object by name, a function does not. -/
def typeName : Value → String
  | .undefined => "undefined"
  | .null => "object"
  | .scalar (.boolean _) => "boolean"
  | .scalar (.number _) => "number"
  | .scalar (.bigint _) => "bigint"
  | .scalar (.string _) => "string"
  | .scalar (.symbol _) => "symbol"
  | .object (.mk _ (.function _ _) _ _ _) => "function"
  | .object _ => "object"

/-- Whether the name of the value's type is one of a primitive type. -/
def hasPrimitiveTypeName (v : Value) : Bool :=
  v.typeName != "object" && v.typeName != "function"

/-! ## Conversions -/

/-- The property key that a value names. A number names the key that its text spells. -/
def toPropertyKey? : Value → Option PropertyKey
  | .scalar (.string s) => some (.text s)
  | .scalar (.number x) => some (.ofNumber x)
  | .scalar (.symbol s) => some (.symbol s)
  | _ => none

/-- The object that a value is or stands in for: an empty one without a value, a wrapper for a
scalar. -/
def toObject : Value → Object
  | .undefined | .null => .ofKind .blank .ordinary
  | .scalar s => .ofKind (.wrapping s) (.wrapper s)
  | .object o => o

end Value

/-- A key as a value. -/
def PropertyKey.toValue : PropertyKey → Value
  | .text name => .string name
  | .symbol name => .symbol name

@[simp] theorem Value.key?_toValue (key : PropertyKey) : key.toValue.key? = some key := by
  cases key <;> rfl

@[simp] theorem Value.toPropertyKey?_toValue (key : PropertyKey) :
    key.toValue.toPropertyKey? = some key := by
  cases key <;> rfl

/-! ## Depth -/

mutual

/-- How deep a value is nested. -/
def Value.depth : Value → Nat
  | .undefined | .null | .scalar _ => 0
  | .object o => o.depth

/-- How deep an object is nested: one more than its elements, properties and prototype. -/
def Object.depth : Object → Nat
  | .mk _ (.array elements) properties prototype _ =>
      1 + max (depthOfElements elements)
        (max (depthOfEntries properties) (depthOfPrototype prototype))
  | .mk _ _ properties prototype _ =>
      1 + max (depthOfEntries properties) (depthOfPrototype prototype)

/-- The greatest depth among values. -/
def depthOfElements : List Value → Nat
  | [] => 0
  | v :: vs => max v.depth (depthOfElements vs)

/-- The greatest depth among the values of entries. -/
def depthOfEntries : List (PropertyKey × Value) → Nat
  | [] => 0
  | (_, v) :: rest => max v.depth (depthOfEntries rest)

/-- The depth of a prototype, if there is one. -/
def depthOfPrototype : Option Object → Nat
  | none => 0
  | some o => o.depth

end

end Narrowing
