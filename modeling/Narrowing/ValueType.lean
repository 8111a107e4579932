-- SUMMARY: Types of values and narrowing to them.
import Narrowing.Value

/-!
# Types of values

The types between which validators narrow. Narrowing a value to a type gives the value back if it
is of the type; a key is the one type to which values are converted (`ValueType.narrow?`).
-/

namespace Narrowing

/-- What a validator takes or gives. -/
inductive ValueType where
  | value
  | object
  | array
  | key
  | string
  | number
  | boolean
  | bigint
  | symbol
  | function
  deriving DecidableEq

namespace ValueType

/-- The word for a type. -/
def name : ValueType → String
  | .value => "value"
  | .object => "object"
  | .array => "array"
  | .key => "key"
  | .string => "string"
  | .number => "number"
  | .boolean => "boolean"
  | .bigint => "bigint"
  | .symbol => "symbol"
  | .function => "function"

/-- What a message calls a value of a type. -/
def phrase : ValueType → String
  | .value => "a value"
  | .object => "an object"
  | .array => "an array"
  | .key => "a valid property key"
  | .string => "a string"
  | .number => "a number"
  | .boolean => "a boolean"
  | .bigint => "a bigint"
  | .symbol => "a symbol"
  | .function => "a function"

/-- Whether a value is of a type as it is. -/
def holds : ValueType → Value → Bool
  | .value, _ => true
  | .object, v => v.isObject
  | .array, v => v.elements?.isSome
  | .key, v => v.key?.isSome
  | .string, v => v.string?.isSome
  | .number, v => v.number?.isSome
  | .boolean, v => v.boolean?.isSome
  | .bigint, v => v.bigint?.isSome
  | .symbol, v => v.symbol?.isSome
  | .function, v => v.function?.isSome

/-- A value as one of a type. What is of a type stays a value, so taking it for a value again is the
identity: a text, a number or an array that was narrowed is the value that it came from. -/
def narrow? : ValueType → Value → Option Value
  | .key, v => v.toPropertyKey?.map PropertyKey.toValue
  | type, v => if type.holds v then some v else none

/-- What narrowing gives is of the type. -/
theorem holds_of_narrow? {type : ValueType} {v w : Value} (h : type.narrow? v = some w) :
    type.holds w = true := by
  cases type
  case key =>
    obtain ⟨key, _, rfl⟩ := Option.map_eq_some_iff.1 h
    cases key <;> rfl
  all_goals
    simp only [narrow?, Option.ite_none_right_eq_some, Option.some.injEq] at h
    exact h.2 ▸ h.1

end ValueType

end Narrowing
