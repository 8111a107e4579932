-- SUMMARY: Shapes as conjunctions of their fields, followed by the check for extra keys.
import Narrowing.Proofs.Containers
import Narrowing.Shape

/-!
# Shapes as conjunctions

A field of a shape is a check of one property and so a validator of its own (`Field.alone`). A shape
does what the conjunction of its fields does, only without the message that a conjunction puts in
front of the reason, and looks for extra keys behind them all (`Definitions.shape_as_conjunction`).
-/

namespace Narrowing

/-- A field of a shape as a validator of one property, which may be missing if the field or the
whole shape says so. -/
def Field.alone (options : ShapeOptions) (f : Field Validator) : Validator :=
  .property f.key f.validator
    { ownOnly := options.ownOnly, mayBeMissing := options.mayBeMissing || f.mayBeMissing }

/-- The fields of a shape as branches that all have to accept. -/
def Shape.conjunction (shape : Shape) : Validator :=
  .allOf .list (shape.fields.map (Field.alone shape.options))

namespace Definitions

variable (defs : Definitions) (bound : Nat)

/-- Whether an object has the fields of a shape, definitions being unfolded up to a bound. -/
def checkFields (o : Object) (shape : Shape) : Outcome Reason Unit :=
  Outcome.forEach (fun f => checkProperty o f.key (shape.options.forField f.mayBeMissing)
    (defs.run bound f.validator)) shape.fields

theorem run_conjunction (shape : Shape) (o : Object) :
    defs.run bound shape.conjunction (.object o) =
      ((defs.checkFields bound o shape).behind Complaint.notAllSatisfied.text).as (.object o) := by
  unfold Shape.conjunction checkFields
  rw [run_allOf, Outcome.forEach_map]
  -- A branch is the check of its field, but for the output, which the loop drops.
  simp only [Field.alone, run_property, withObject, Outcome.forEach_as, ShapeOptions.forField]

theorem run_strict (shape : Shape) (o : Object) :
    defs.run bound shape.strict (.object o) =
      ((defs.checkFields bound o shape).bind fun _ =>
        if shape.options.allowExtra then .accepted ()
        else checkExtra o shape.keys).as (.object o) := by
  unfold Shape.strict checkFields
  rw [run_shape]
  rfl

variable {defs} {shape : Shape} {o : Object} {y : Value} {reason : Reason}

/-! ## Verdicts of conjunctions and of shapes -/

theorem settles_conjunction_iff :
    defs.Settles shape.conjunction (.object o) ↔
      ∃ bound, defs.checkFields bound o shape ≠ .unsettled := by
  simp [settles_iff_run, run_conjunction]

theorem settles_strict_iff :
    defs.Settles shape.strict (.object o) ↔
      ∃ bound, defs.checkFields bound o shape ≠ .unsettled := by
  -- Looking for extra keys always comes to an end.
  cases hextra : shape.options.allowExtra <;>
    simp [settles_iff_run, run_strict, hextra, checkExtra_eq]

theorem returns_conjunction_accepted_iff :
    defs.Returns shape.conjunction (.object o) (.accepted y) ↔
      (∃ bound, defs.checkFields bound o shape = .accepted ()) ∧ y = .object o := by
  unfold Returns
  simp [run_conjunction, Unique.exists_iff, eq_comm (a := y)]

theorem accepts_conjunction_iff :
    defs.Accepts shape.conjunction (.object o) ↔
      ∃ bound, defs.checkFields bound o shape = .accepted () := by
  unfold Accepts
  simp [returns_conjunction_accepted_iff]

theorem returns_conjunction_rejected_iff :
    defs.Returns shape.conjunction (.object o) (.rejected reason) ↔
      ∃ cause, (∃ bound, defs.checkFields bound o shape = .rejected cause) ∧
        reason = .because Complaint.notAllSatisfied.text cause := by
  unfold Returns
  simp only [run_conjunction, Outcome.as_eq_rejected_iff, Outcome.behind_eq_rejected_iff,
    eq_comm (b := reason), ← exists_and_right]
  rw [exists_comm]
  simp

theorem returns_strict_accepted_iff :
    defs.Returns shape.strict (.object o) (.accepted y) ↔
      (∃ bound, defs.checkFields bound o shape = .accepted ()) ∧
        (shape.options.allowExtra = true ∨ ∀ key ∈ o.ownKeys, key ∈ shape.keys) ∧
          y = .object o := by
  unfold Returns
  cases hextra : shape.options.allowExtra <;>
    simp [run_strict, hextra, checkExtra_eq_accepted_iff, Unique.exists_iff, eq_comm (a := y),
      and_assoc]

theorem returns_strict_rejected_iff :
    defs.Returns shape.strict (.object o) (.rejected reason) ↔
      (∃ bound, defs.checkFields bound o shape = .rejected reason) ∨
        (∃ bound, defs.checkFields bound o shape = .accepted ()) ∧
          shape.options.allowExtra = false ∧ (∃ key ∈ o.ownKeys, key ∉ shape.keys) ∧
            reason = (Complaint.extraKeys (extraKeys o shape.keys)).reason := by
  unfold Returns
  cases hextra : shape.options.allowExtra <;>
    simp [run_strict, hextra, checkExtra_eq_rejected_iff, Unique.exists_iff, exists_or]

/-- A shape comes to an end if and only if the conjunction of its fields does. It accepts an object,
and gives it, if and only if the conjunction does and, unless extra keys are allowed, each own key
is the key of a field. Its reason is the one that the conjunction has behind its message; or else
the conjunction accepts, and the reason names the extra keys. So the order of the fields does not
matter for what is accepted. -/
theorem shape_as_conjunction (defs : Definitions) (shape : Shape) (o : Object) :
    let x := Value.object o
    (defs.Settles shape.strict x ↔ defs.Settles shape.conjunction x) ∧
      (∀ y, defs.Returns shape.conjunction x (.accepted y) → y = x) ∧
      (∀ y, defs.Returns shape.strict x (.accepted y) ↔
        defs.Returns shape.conjunction x (.accepted y) ∧
          (shape.options.allowExtra = true ∨ ∀ key ∈ o.ownKeys, key ∈ shape.keys)) ∧
      (∀ reason, defs.Returns shape.strict x (.rejected reason) ↔
        (∃ r, defs.Returns shape.conjunction x (.rejected r) ∧ r.cause? = some reason) ∨
          defs.Accepts shape.conjunction x ∧ shape.options.allowExtra = false ∧
            (∃ key ∈ o.ownKeys, key ∉ shape.keys) ∧
              reason = (Complaint.extraKeys (extraKeys o shape.keys)).reason) ∧
      ∀ fields, shape.fields.Perm fields →
        (defs.Accepts shape.strict x ↔ defs.Accepts { shape with fields }.strict x) := by
  intro x
  refine ⟨?_, fun y h => (returns_conjunction_accepted_iff.1 h).2, fun y => ?_, fun reason => ?_,
    fun fields hperm => ?_⟩
  · rw [settles_strict_iff, settles_conjunction_iff]
  · rw [returns_strict_accepted_iff, returns_conjunction_accepted_iff, and_assoc,
      and_comm (a := y = _)]
  · rw [returns_strict_rejected_iff, accepts_conjunction_iff]
    simp only [x, returns_conjunction_rejected_iff]
    simp [Reason.cause?]
  · simp only [Shape.strict, x, accepts_shape_iff, hperm.mem_iff]

end Definitions

end Narrowing
