-- SUMMARY: Property access on objects: slots, own keys, inherited lookup, instances, and building by properties.
import Narrowing.Binary64.Rounding
import Narrowing.Value

/-!
# Property access

The properties of an object come from two places. Its kind gives it *slots*: the elements of an
array or the characters of a wrapped string under index keys, and a few named ones. All others are
in the table of the properties that were set. A slot hides a table entry under the same key.

The own keys (`ownKeys`) leave the named slots out: first all indices in ascending order, then the
other texts and then the symbols of the table, in the order in which they were first set.
Inherited access walks the chain of prototypes (`chain`).
-/

namespace Narrowing

/-! ## Slots -/

/-- The name of the kind of object that wraps a scalar. -/
def Scalar.wrapperName : Scalar → String
  | .boolean _ => "Boolean"
  | .number _ => "Number"
  | .bigint _ => "BigInt"
  | .string _ => "String"
  | .symbol _ => "Symbol"

namespace ObjectKind

/-- The number of values under index keys that come with a kind. -/
def indexCount : ObjectKind → Nat
  | .array elements => elements.length
  | .wrapper (.string s) => s.toList.length
  | .ordinary | .function _ _ | .wrapper _ => 0

/-- The value under an index key that comes with a kind. -/
def indexed? : ObjectKind → Nat → Option Value
  | .array elements, index => elements[index]?
  | .wrapper (.string s), index => s.toList[index]?.map fun c => .string (String.singleton c)
  | .ordinary, _ | .function _ _, _ | .wrapper _, _ => none

/-- The number of something as a value. -/
def countValue (n : Nat) : Value :=
  .number (.ofInt n)

/-- The value under any other text that comes with a kind. -/
def named? (kind : ObjectKind) (name : String) : Option Value :=
  match kind with
  | .array elements => if name = "length" then some (countValue elements.length) else none
  | .function title arity =>
      if name = "name" then some (.string title)
      else if name = "length" then some (countValue arity)
      else none
  | .wrapper (.string s) => if name = "length" then some (countValue s.toList.length) else none
  | .ordinary | .wrapper _ => none

/-- The value that comes with a kind under a key. -/
def slot? (kind : ObjectKind) : PropertyKey → Option Value
  | .symbol _ => none
  | .text name =>
      match kind.named? name with
      | some value => some value
      | none => (PropertyKey.text name).arrayIndex?.bind kind.indexed?

end ObjectKind

namespace Object

/-! ## Making objects -/

/-- The entries after setting a key: a present one keeps its place. -/
def setEntry (key : PropertyKey) (value : Value) :
    List (PropertyKey × Value) → List (PropertyKey × Value)
  | [] => [(key, value)]
  | (k, v) :: rest => if k = key then (key, value) :: rest else (k, v) :: setEntry key value rest

/-- The object with a property set. -/
def setProperty (o : Object) (key : PropertyKey) (value : Value) : Object :=
  .mk o.identity o.kind (setEntry key value o.properties) o.prototype o.classOf

/-- The object with another prototype. -/
def withPrototype (o : Object) (prototype : Object) : Object :=
  .mk o.identity o.kind o.properties (some prototype) o.classOf

/-- The object with another class. -/
def withClass (o : Object) (c : Class) : Object :=
  .mk o.identity o.kind o.properties o.prototype (some c)

/-- The object with properties set one after the other. -/
def setProperties (o : Object) (entries : List (PropertyKey × Value)) : Object :=
  entries.foldl (fun o (key, value) => o.setProperty key value) o

/-! ## Own properties -/

/-- The value of an own property. -/
def getOwn (o : Object) (key : PropertyKey) : Option Value :=
  match o.kind.slot? key with
  | some value => some value
  | none => o.properties.lookup key

/-- Whether there is an own property under a key. -/
def hasOwn (o : Object) (key : PropertyKey) : Bool :=
  (o.kind.slot? key).isSome || o.properties.any fun (k, _) => k == key

/-- An ascending list with a number put in, unless it is there. -/
def insertAscending (i : Nat) : List Nat → List Nat
  | [] => [i]
  | j :: rest =>
      if i < j then i :: j :: rest
      else if i = j then j :: rest
      else j :: insertAscending i rest

/-- The indices among some keys and the indices below a bound, in ascending order. -/
def indicesOf (bound : Nat) (keys : List PropertyKey) : List Nat :=
  (keys.filterMap PropertyKey.arrayIndex?).foldr insertAscending (List.range bound)

/-- Whether a key is a text that is no index. -/
def isPlainText (key : PropertyKey) : Bool :=
  key.text?.isSome && key.arrayIndex?.isNone

/-- The keys under which an object is enumerated, in order. -/
def ownKeys (o : Object) : List PropertyKey :=
  let keys := o.properties.map Prod.fst
  (indicesOf o.kind.indexCount keys).map PropertyKey.ofIndex ++
    (keys.filter isPlainText ++ keys.filter PropertyKey.isSymbol)

/-! ## Inherited properties -/

/-- The object and its prototypes, nearest first. -/
def chain : Object → List Object
  | .mk i k ps none c => [.mk i k ps none c]
  | .mk i k ps (some prototype) c => .mk i k ps (some prototype) c :: prototype.chain

/-- The value of an own or inherited property. -/
def get (o : Object) (key : PropertyKey) : Option Value :=
  o.chain.findSome? fun p => p.getOwn key

/-- Whether there is an own or inherited property under a key. -/
def has (o : Object) (key : PropertyKey) : Bool :=
  o.chain.any fun p => p.hasOwn key

/-- The keys of an object, as far as the options count them. -/
def hasKey (o : Object) (ownOnly : Bool) (key : PropertyKey) : Bool :=
  if ownOnly then o.hasOwn key else o.has key

/-- The value of a property, as far as the options count it. -/
def find? (o : Object) (ownOnly : Bool) (key : PropertyKey) : Option Value :=
  if ownOnly then o.getOwn key else o.get key

/-- Whether the object or one of its prototypes is of a class or of one that extends it. -/
def instanceOf (o : Object) (c : Class) : Bool :=
  o.chain.any fun p => p.classOf.any fun d => d.isSubclassOf c

/-- The word for what an object is. -/
def tag (o : Object) : String :=
  match o.kind with
  | .array _ => "Array"
  | .function _ _ => "Function"
  | .wrapper s => s.wrapperName
  | .ordinary => (o.classOf.map Class.name).getD "Object"

/-- The name of the object's kind. -/
def kindName (o : Object) : String :=
  match o.kind with
  | .ordinary => "ordinary"
  | .array _ => "array"
  | .function _ _ => "function"
  | .wrapper _ => "boxed"

theorem mem_chain_self (o : Object) : o ∈ o.chain := by
  rcases o with ⟨i, k, ps, _ | p, c⟩ <;> simp [chain]

end Object

end Narrowing
