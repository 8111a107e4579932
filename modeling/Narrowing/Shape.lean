-- SUMMARY: Definitions of shapes, made step by step.
import Narrowing.Validator.Inspect

/-!
# Shapes

The definition of a shape, made step by step: fields in the order in which they are checked, and
the options that hold for all of them.
-/

namespace Narrowing

/-- The definition of the properties that an object should have. -/
structure Shape where
  fields : List (Field Validator) := []
  options : ShapeOptions := {}

namespace Shape

/-- The shape with a field behind the others. -/
def addField (shape : Shape) (key : PropertyKey) (v : Validator) (mayBeMissing : Bool) : Shape :=
  { shape with fields := shape.fields ++ [⟨key, mayBeMissing, v⟩] }

/-- The shape whose properties may all be missing. -/
def allowMissing (shape : Shape) : Shape :=
  { shape with options := { shape.options with mayBeMissing := true } }

/-- The shape for which inherited properties count. -/
def allowInherited (shape : Shape) : Shape :=
  { shape with options := { shape.options with ownOnly := false } }

/-- The shape that allows no own keys but those of its fields. -/
def denyExtra (shape : Shape) : Shape :=
  { shape with options := { shape.options with allowExtra := false } }

/-- The shape with other options. -/
def withOptions (shape : Shape) (options : ShapeOptions) : Shape :=
  { shape with options }

/-- The keys of the fields. -/
def keys (shape : Shape) : List PropertyKey :=
  shape.fields.map Field.key

/-- The strict validator of a shape. -/
def strict (shape : Shape) : Validator :=
  .shape shape.fields shape.options

/-- The structural text of a shape. -/
def inspect (shape : Shape) : String :=
  inspectShape shape.keys shape.options

end Shape

end Narrowing
