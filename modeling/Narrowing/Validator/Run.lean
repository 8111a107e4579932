-- SUMMARY: What validators make of values: leaves, checks of parts, and the recursion over validators.
import Narrowing.Complaint
import Narrowing.Validator

/-!
# Running validators

`Validator.runWith` says what each validator makes of a value, given what the definitions that it
refers to make of theirs. It recurses on the validator alone, and the loops over the parts of an
object or an array end at the first part that is not accepted.
-/

namespace Narrowing

/-- What a validator makes of a value. -/
abbrev Verdict := Outcome Reason Value

/-! ## Leaves -/

/-- What a leaf makes of a value. An output needs no conversion to be a value again. What passes the
test for null or for undefined is that constant, so it is the same to give the constant or the value
tested; this holds of optional and nullable validators as well. -/
def Leaf.judge : Leaf → Value → Verdict
  | .ofType type, x => .ofOption (Complaint.notOfType type).reason (type.narrow? x)
  | .null, x => .ensure x.isNull Complaint.notNull.reason x
  | .undefined, x => .ensure x.isUndefined Complaint.notUndefined.reason x
  | .nullish, x => .ensure x.isNullish Complaint.notNullish.reason x
  | .toObject, x => .accepted (.object x.toObject)
  | .equal expected, x =>
      .ensure (x.strictEq expected) (Complaint.notEqual expected).reason x
  | .oneOf allowed, x =>
      .ensure (allowed.any fun v => v.strictEq x) (Complaint.notAllowed allowed).reason x
  | .instanceOf c, x =>
      .ensure (x.object?.any fun o => o.instanceOf c) (Complaint.notInstance c).reason x
  | .keyOf o options, x =>
      match x.key? with
      | some key => .ensure (o.hasKey options.ownOnly key) (Complaint.notKey key).reason x
      | none => .rejected (Complaint.notOfType .key).reason
  | .rule r, x => r.judge x

/-! ## Parts of objects -/

/-- A check of a value that has to be an object. -/
def withObject (x : Value) (check : Object → Outcome Reason Unit) : Verdict :=
  match x with
  | .object o => (check o).as x
  | _ => .rejected (Complaint.notOfType .object).reason

/-- A check of a value that has to be an array. -/
def withElements (x : Value) (check : List Value → Outcome Reason Unit) : Verdict :=
  match x.elements? with
  | some elements => (check elements).as x
  | none => .rejected (Complaint.notOfType .array).reason

/-- A check of the value of a property. -/
def checkProperty (o : Object) (key : PropertyKey) (options : PropertyOptions)
    (check : Value → Verdict) : Outcome Reason Unit :=
  match o.find? options.ownOnly key with
  | some v => ((check v).behind (Complaint.invalidProperty key).text).as ()
  | none =>
      .ensure options.mayBeMissing (Complaint.missingProperty key).reason ()

/-- A check of an own key and of the value under it. -/
def checkEntry (o : Object) (checkKey checkValue : Value → Verdict) (key : PropertyKey) :
    Outcome Reason Unit :=
  ((checkKey key.toValue).behind (Complaint.invalidKey key).text).bind fun _ =>
    ((checkValue ((o.getOwn key).getD .undefined)).behind
      (Complaint.invalidProperty key).text).as ()

/-- A check of an element at its position. -/
def checkElement (check : Value → Verdict) (element : Value) (index : Nat) :
    Outcome Reason Unit :=
  ((check element).behind (Complaint.invalidElement index).text).as ()

/-- What there is to say of extra keys: the first few by name, the others by their number. -/
structure ExtraReport where
  named : List String := []
  others : Nat := 0

/-- The report with one more key. -/
def ExtraReport.add (report : ExtraReport) (key : PropertyKey) : ExtraReport :=
  if report.named.length < Complaint.namedExtraKeys then
    { report with named := report.named ++ [Complaint.quotedKey key] }
  else { report with others := report.others + 1 }

/-- The report on keys, of which the given ones are passed over. -/
def ExtraReport.ofKeys (keys defined : List PropertyKey) : ExtraReport :=
  keys.foldl (fun report key => if defined.contains key then report else report.add key) {}

/-- A check that an object has no keys but the given ones. -/
def checkExtra (o : Object) (defined : List PropertyKey) : Outcome Reason Unit :=
  let report := ExtraReport.ofKeys o.ownKeys defined
  .ensure report.named.isEmpty
    (.message (Complaint.extraKeysText report.named report.others)) ()

/-- How a field of a shape is looked up. -/
def ShapeOptions.forField (options : ShapeOptions) (mayBeMissing : Bool) : PropertyOptions where
  ownOnly := options.ownOnly
  mayBeMissing := options.mayBeMissing || mayBeMissing

/-! ## Validators -/

namespace Validator

mutual

/-- What a validator makes of a value, `refer` saying it for the definitions. -/
def runWith (refer : String → Value → Verdict) : Validator → Value → Verdict
  | .leaf l, x => l.judge x
  | .anyOf _ branches, x =>
      (runAny refer branches x).mapReason (.aggregate Complaint.noneSatisfied.text)
  -- What the branches give is dropped.
  | .allOf _ branches, x =>
      ((runAll refer branches x).behind Complaint.notAllSatisfied.text).as x
  | .not v, x =>
      match runWith refer v x with
      | .accepted _ => .rejected Complaint.satisfied.reason
      | .rejected _ => .accepted x
      | .unsettled => .unsettled
  | .pipe first second, x => (runWith refer first x).bind fun y => runWith refer second y
  | .explained message v, x => (runWith refer v x).behind message
  | .sealed _ v, x => runWith refer v x
  | .optional v, x => if x.isUndefined then .accepted x else runWith refer v x
  | .nullable v, x => if x.isNull then .accepted x else runWith refer v x
  | .reference name, x => refer name x
  | .property key v options, x =>
      withObject x fun o => checkProperty o key options fun y => runWith refer v y
  | .shape fields options, x =>
      withObject x fun o =>
        -- Extra keys count only if all fields are there.
        (runFields refer o options fields).bind fun _ =>
          if options.allowExtra then .accepted () else checkExtra o (fields.map Field.key)
  | .dictionary k v, x =>
      withObject x fun o =>
        Outcome.forEach (checkEntry o (fun y => runWith refer k y) fun y => runWith refer v y)
          o.ownKeys
  | .arrayOf v, x =>
      withElements x fun elements =>
        Outcome.forEach (fun (y, index) => checkElement (fun y => runWith refer v y) y index)
          elements.zipIdx
  | .tuple vs, x =>
      withElements x fun elements =>
        -- A wrong length is told before any wrong element.
        if elements.length = vs.length then runElements refer vs elements 0
        else .rejected (Complaint.wrongLength elements.length vs.length).reason

/-- The output of the first branch that accepts, or the reasons of all of them. -/
def runAny (refer : String → Value → Verdict) :
    List Validator → Value → Outcome (List Reason) Value
  | [], _ => .rejected []
  | v :: vs, x =>
      match runWith refer v x with
      | .accepted y => .accepted y
      | .rejected reason => (runAny refer vs x).mapReason (reason :: ·)
      | .unsettled => .unsettled

/-- Whether all branches accept, or the reason of the first that does not. -/
def runAll (refer : String → Value → Verdict) : List Validator → Value → Outcome Reason Unit
  | [], _ => .accepted ()
  | v :: vs, x => (runWith refer v x).bind fun _ => runAll refer vs x

/-- Whether an object has the fields of a shape. -/
def runFields (refer : String → Value → Verdict) (o : Object) (options : ShapeOptions) :
    List (Field Validator) → Outcome Reason Unit
  | [] => .accepted ()
  | ⟨key, mayBeMissing, v⟩ :: fields =>
      (checkProperty o key (options.forField mayBeMissing) fun y => runWith refer v y).bind fun _ =>
        runFields refer o options fields

/-- Whether each value is accepted by the validator in its place. -/
def runElements (refer : String → Value → Verdict) :
    List Validator → List Value → Nat → Outcome Reason Unit
  | v :: vs, x :: xs, index =>
      (checkElement (fun y => runWith refer v y) x index).bind fun _ =>
        runElements refer vs xs (index + 1)
  | _, _, _ => .accepted ()

end

end Validator

end Narrowing
