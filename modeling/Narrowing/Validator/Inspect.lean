-- SUMMARY: Structural texts of validators, before and after runs.
import Narrowing.Validator.Reach
import Narrowing.Value.Text

/-!
# Structural texts of validators

The text of a validator with all validators inside, as far as they show themselves.

A reference shows the definition that it stands for only once a value has come to it. So the text
depends on the values on which the validator was run (`inspectAfter`); `inspect` is the text before
any run.
-/

namespace Narrowing

/-- The structural text of the validator of a type. -/
def ValueType.inspect : ValueType → String
  | .value => "Unknown"
  | .object => "IsObject"
  | .array => "IsArray"
  | .key => "IsPropertyKey"
  | .string => "IsString"
  | .number => "IsNumber"
  | .boolean => "IsBoolean"
  | .bigint => "IsBigInt"
  | .symbol => "IsSymbol"
  | .function => "IsFunction"

/-- The structural text of a leaf. -/
def Leaf.inspect : Leaf → String
  | .ofType type => type.inspect
  | .null => "IsNull"
  | .undefined => "IsUndefined"
  | .nullish => "IsNullish"
  | .toObject => "ToObject"
  | .equal expected => Inspect.record "Equal" [("expected", expected.inspect)]
  | .oneOf allowed => Inspect.record "OneOf" [("values", Inspect.list (allowed.map Value.inspect))]
  | .instanceOf c => Inspect.record "InstanceOf" [("class", c.inspect)]
  | .keyOf o options =>
      Inspect.record "StrictKeyOf" [("object", o.inspect), ("options", options.inspect)]
  | .rule r => r.label

/-- The structural text of branches. -/
def Form.inspect : Form → List String → String
  | .tuple, parts => Inspect.tuple parts
  | .list, parts => Inspect.list parts

/-- The structural text of the fields of a shape, of which only the keys are shown. -/
def inspectShape (keys : List PropertyKey) (options : ShapeOptions) : String :=
  Inspect.record "Props"
    [("keys", Inspect.list (keys.map PropertyKey.inspect)), ("options", options.inspect)]

/-- The structural text of a validator that is made when it is first needed. -/
def inspectDeferred (validator : Option String) : String :=
  Inspect.record "Lazy"
    [("validator", Inspect.option validator), ("initialized", Inspect.bool validator.isSome)]

namespace Validator

section

variable (judge : Validator → Value → Verdict) (refer : String → List Value → String)

mutual

/-- The structural text of a validator after it was run on values, `judge` saying what validators
make of values and `refer` being the text of the references. -/
def inspectAfter : Validator → List Value → String
  | .leaf l, _ => l.inspect
  | .anyOf form vs, xs => Inspect.record "Or" [("validators", form.inspect (inspectAny vs xs))]
  | .allOf form vs, xs => Inspect.record "And" [("validators", form.inspect (inspectEvery vs xs))]
  | .not v, xs => Inspect.record "Not" [("inner", inspectAfter v xs)]
  | .pipe v w, xs =>
      Inspect.record "Pipe"
        [("first", inspectAfter v xs), ("second", inspectAfter w (reachSecond judge v xs))]
  | .explained message v, xs =>
      Inspect.record "WrapError"
        [("inner", inspectAfter v xs), ("message", Text.quoted message)]
  | .sealed label _, _ => label
  | .optional v, xs =>
      Inspect.record "Optional" [("inner", inspectAfter v (xs.filter fun x => !x.isUndefined))]
  | .nullable v, xs =>
      Inspect.record "Nullable" [("inner", inspectAfter v (xs.filter fun x => !x.isNull))]
  | .reference name, xs => refer name xs
  | .property key v options, xs =>
      Inspect.record "StrictProp"
        [("key", key.inspect), ("validator", inspectAfter v (reachProperty key options xs)),
         ("options", options.inspect)]
  | .shape fields options, _ =>
      Inspect.record "StrictProps" [("props", inspectShape (fields.map Field.key) options)]
  | .dictionary k v, xs =>
      Inspect.record "StrictDict"
        [("key", inspectAfter k (reachKey judge k v xs)),
         ("value", inspectAfter v (reachEntry judge k v xs))]
  | .arrayOf v, xs =>
      Inspect.record "StrictArrayOf" [("element", inspectAfter v (reachElement judge v xs))]
  | .tuple vs, xs =>
      Inspect.record "StrictTuple"
        [("elements", Inspect.tuple (inspectElements vs (reachElements vs xs)))]

/-- The structural texts of branches of which the first to accept decides. -/
def inspectAny : List Validator → List Value → List String
  | [], _ => []
  | v :: vs, xs => inspectAfter v xs :: inspectAny vs (reachAfterRejecting judge v xs)

/-- The structural texts of branches of which the first to reject decides. -/
def inspectEvery : List Validator → List Value → List String
  | [], _ => []
  | v :: vs, xs => inspectAfter v xs :: inspectEvery vs (reachAfterAccepting judge v xs)

/-- The structural texts of the validators of the elements of arrays. -/
def inspectElements : List Validator → List (List Value) → List String
  | [], _ => []
  | v :: vs, rows =>
      inspectAfter v (rows.filterMap List.head?) :: inspectElements vs (reachRest judge v rows)

end

end

/-- The structural text of a validator that was not run yet. -/
def inspect (v : Validator) : String :=
  v.inspectAfter (fun _ _ => .unsettled) (fun _ _ => inspectDeferred none) []

/-- The validators directly inside a validator, in the order in which it has them. -/
def parts : Validator → List Validator
  | .leaf _ | .reference _ => []
  | .anyOf _ vs | .allOf _ vs | .tuple vs => vs
  | .not v | .explained _ v | .sealed _ v | .optional v | .nullable v | .arrayOf v => [v]
  | .property _ v _ => [v]
  | .pipe v w | .dictionary v w => [v, w]
  | .shape fields _ => fields.map Field.validator

end Validator

end Narrowing
