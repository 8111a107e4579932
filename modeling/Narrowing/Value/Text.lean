-- SUMMARY: Displayed and structural texts of values.
import Narrowing.Inspect
import Narrowing.Object

/-!
# Texts of values

The displayed text of a value is short, as messages show it: objects show their tag and not their
contents. The structural text shows a value with all its parts, the prototypes of objects excepted.
-/

namespace Narrowing

/-! ## Displayed texts -/

/-- The displayed text of a scalar. -/
def Scalar.display : Scalar → String
  | .boolean b => if b then "true" else "false"
  | .number x => x.displayText
  | .bigint i => toString i ++ "n"
  | .string s => Text.quoted s
  | .symbol s => s.text

/-- The displayed text of an object. -/
def Object.display (o : Object) : String :=
  match o.kind with
  | .ordinary | .array _ => "[object " ++ o.tag ++ "]"
  | .function name _ => if name = "" then "[Function (anonymous)]" else "[Function " ++ name ++ "]"
  | .wrapper s => "[" ++ s.wrapperName ++ ": " ++ s.display ++ "]"

/-- The displayed text of a value. -/
def Value.display : Value → String
  | .undefined => "undefined"
  | .null => "null"
  | .scalar s => s.display
  | .object o => o.display

/-! ## Structural texts -/

/-- The structural text of a scalar. -/
def Scalar.inspect : Scalar → String
  | .boolean b => Inspect.call "Boolean" (Inspect.bool b)
  | .number x => Inspect.call "Number" (NumberLayout.inspect.render x)
  | .bigint i => Inspect.call "BigInt" (toString i)
  | .string s => Inspect.call "String" (Text.quoted s)
  | .symbol s => Inspect.call "Symbol" s.text

mutual

/-- The structural text of a value. -/
def Value.inspect : Value → String
  | .undefined => "Undefined"
  | .null => "Null"
  | .scalar s => s.inspect
  | .object o => Inspect.call "Object" o.inspect

/-- The structural text of an object's kind. -/
def ObjectKind.inspect : ObjectKind → String
  | .ordinary => "Ordinary"
  | .array elements => Inspect.call "Array" (Inspect.list (inspectAll elements))
  | .function name arity =>
      Inspect.record "Function" [("name", Text.quoted name), ("arity", toString arity)]
  | .wrapper s => Inspect.call "Boxed" s.inspect

/-- The structural text of an object. -/
def Object.inspect : Object → String
  | .mk _ kind properties prototype classOf =>
      Inspect.record "Object"
        [("kind", kind.inspect),
         ("properties", Inspect.map (inspectEntries properties)),
         ("class", Inspect.option (classOf.map Class.inspect)),
         ("has_prototype", Inspect.bool prototype.isSome)]

/-- The structural texts of the members of a list. -/
def inspectAll : List Value → List String
  | [] => []
  | v :: vs => v.inspect :: inspectAll vs

/-- The structural texts of the entries of a table. -/
def inspectEntries : List (PropertyKey × Value) → List (String × String)
  | [] => []
  | (key, v) :: rest => (key.inspect, v.inspect) :: inspectEntries rest

end

end Narrowing
