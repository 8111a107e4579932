-- SUMMARY: Monotonicity of shapes in their options.
import Mathlib.Logic.Relation
import Narrowing.Proofs.ClosedShapes
import Narrowing.Shape

/-!
# Relaxing shapes

A shape is relaxed when properties may be missing that had to be there, or extra keys are allowed
(`Shape.Relaxes`). What a shape accepts it still accepts however often it is relaxed.

Counting inherited properties is no relaxation: it finds more properties, and each that is found is
checked. It makes no difference to the fields that an object has as its own, so that a shape whose
fields are all required goes on accepting what it accepts (`Definitions.strict_relaxed`).
-/

namespace Narrowing

/-- A shape becomes another when one thing more is allowed. -/
inductive Shape.Relaxes : Shape → Shape → Prop
  | allowMissing (shape : Shape) : Relaxes shape shape.allowMissing
  | allowExtra (shape : Shape) :
      Relaxes shape (shape.withOptions { shape.options with allowExtra := true })
  | allowMissingField (before after : List (Field Validator)) (f : Field Validator)
      (options : ShapeOptions) :
      Relaxes ⟨before ++ f :: after, options⟩
        ⟨before ++ { f with mayBeMissing := true } :: after, options⟩

namespace Definitions

variable {defs : Definitions} {o : Object} {shape relaxed : Shape} {options : ShapeOptions}
  {f : Field Validator}

/-! ## Allowing more -/

/-- A field that an object has it has under all options that look in the same place, unless the
field may no longer be missing. -/
theorem FieldPasses.of_imp {options' : ShapeOptions} {mayBeMissing : Bool}
    (h : defs.FieldPasses o options f) (hown : options'.ownOnly = options.ownOnly)
    (hmissing : (options.mayBeMissing || f.mayBeMissing) = true →
      (options'.mayBeMissing || mayBeMissing) = true) :
    defs.FieldPasses o options' { f with mayBeMissing } := by
  rw [fieldPasses_iff] at h ⊢
  rw [hown]
  rcases h with hfound | ⟨hnone, hmay⟩
  · exact .inl hfound
  · exact .inr ⟨hnone, hmissing hmay⟩

theorem accepts_of_relaxes (hstep : shape.Relaxes relaxed)
    (h : defs.Accepts shape.strict (.object o)) : defs.Accepts relaxed.strict (.object o) := by
  unfold Shape.strict at h ⊢
  rw [accepts_shape_iff] at h ⊢
  obtain ⟨hfields, hclosed⟩ := h
  cases hstep with
  | allowMissing =>
    refine ⟨?_, hclosed⟩
    intro f hf
    exact (hfields f hf).of_imp rfl fun _ => rfl
  | allowExtra =>
    refine ⟨?_, fun hextra => absurd hextra Bool.noConfusion⟩
    intro f hf
    exact (hfields f hf).of_imp rfl id
  | allowMissingField before after f options =>
    simp only [List.mem_append, List.mem_cons] at hfields hclosed ⊢
    constructor
    · rintro g (hbefore | rfl | hafter)
      · exact hfields g (.inl hbefore)
      · exact (hfields f (.inr (.inl rfl))).of_imp rfl fun _ => Bool.or_true _
      · exact hfields g (.inr (.inr hafter))
    · intro hextra key hkey
      -- The field is another one, but its key is the same.
      obtain ⟨g, hbefore | rfl | hafter, rfl⟩ := hclosed hextra key hkey
      · exact ⟨g, .inl hbefore, rfl⟩
      · exact ⟨_, .inr (.inl rfl), rfl⟩
      · exact ⟨g, .inr (.inr hafter), rfl⟩

theorem accepts_of_relaxed (hsteps : Relation.ReflTransGen Shape.Relaxes shape relaxed)
    (h : defs.Accepts shape.strict (.object o)) : defs.Accepts relaxed.strict (.object o) := by
  induction hsteps with
  | refl => exact h
  | tail _ hstep ih => exact accepts_of_relaxes hstep ih

/-! ## Counting inherited properties -/

/-- A field that an object has stays one when inherited properties count as well, unless there is no
own property and the inherited one is not accepted. -/
theorem FieldPasses.allowInherited_iff (h : defs.FieldPasses o options f) :
    defs.FieldPasses o { options with ownOnly := false } f ↔
      (o.getOwn f.key = none → ∀ x, o.get f.key = some x → defs.Accepts f.validator x) := by
  rw [fieldPasses_iff] at h ⊢
  cases hown : o.getOwn f.key with
  | some y =>
    -- The own property stands in front of all inherited ones.
    rw [Object.find?_of_getOwn _ hown] at h ⊢
    simpa using h
  | none =>
    have hfind : o.find? false f.key = o.get f.key := rfl
    rw [hfind]
    cases hget : o.get f.key with
    | some x => simp
    | none =>
      -- There is nothing to be found in either place, so the field may be missing.
      have hnone : o.find? options.ownOnly f.key = none := by
        cases options.ownOnly with
        | true => exact hown
        | false => exact hget
      simpa [hnone] using h

theorem accepts_allowInherited_iff (h : defs.Accepts shape.strict (.object o)) :
    defs.Accepts shape.allowInherited.strict (.object o) ↔
      ∀ f ∈ shape.fields, o.getOwn f.key = none →
        ∀ x, o.get f.key = some x → defs.Accepts f.validator x := by
  unfold Shape.strict at h ⊢
  rw [accepts_shape_iff] at h ⊢
  obtain ⟨hfields, hclosed⟩ := h
  have hinherited (f : Field Validator) (hf : f ∈ shape.fields) :=
    (hfields f hf).allowInherited_iff
  constructor
  · rintro ⟨hpasses, -⟩ f hf
    exact (hinherited f hf).1 (hpasses f hf)
  · intro haccepts
    exact ⟨fun f hf => (hinherited f hf).2 (haccepts f hf), hclosed⟩

/-- A required field that an object has without its prototypes is an own property. -/
theorem FieldPasses.getOwn_ne_none (h : defs.FieldPasses o options f)
    (hown : options.ownOnly = true) (hshape : options.mayBeMissing = false)
    (hrequired : f.mayBeMissing = false) : o.getOwn f.key ≠ none := by
  intro hnone
  rcases fieldPasses_iff.1 h with ⟨x, hx, -⟩ | ⟨-, hmay⟩
  · rw [hown] at hx
    cases hnone.symm.trans hx
  · simp [hshape, hrequired] at hmay

/-- What a shape accepts it accepts as well when more may be missing and more is allowed, in any
combination. It accepts it when inherited properties count as well if and only if no field without
an own property finds an inherited one that it does not accept; and there is no such field if only
own properties counted and none of them was allowed to be missing. -/
theorem strict_relaxed (defs : Definitions) (shape : Shape) (o : Object)
    (h : defs.Accepts shape.strict (.object o)) :
    (∀ relaxed, Relation.ReflTransGen Shape.Relaxes shape relaxed →
      defs.Accepts relaxed.strict (.object o)) ∧
    (shape.options.ownOnly = true → shape.options.mayBeMissing = false →
      (∀ f ∈ shape.fields, f.mayBeMissing = false) →
        defs.Accepts shape.allowInherited.strict (.object o)) ∧
    (defs.Accepts shape.allowInherited.strict (.object o) ↔
      ∀ f ∈ shape.fields, o.getOwn f.key = none →
        ∀ x, o.get f.key = some x → defs.Accepts f.validator x) := by
  refine ⟨fun relaxed hsteps => accepts_of_relaxed hsteps h, ?_, accepts_allowInherited_iff h⟩
  intro hown hshape hrequired
  rw [accepts_allowInherited_iff h]
  intro f hf hnone
  have hpasses := (accepts_shape_iff.1 h).1 f hf
  exact absurd hnone (hpasses.getOwn_ne_none hown hshape (hrequired f hf))

/-- An object with two own properties, one of them in front of an inherited one of another type, and
one more that is inherited. -/
def badge : Object :=
  let base : Object := .mk (.made [0]) .ordinary
    [(.text "id", .string "x"), (.text "note", .number 0)] none none
  .mk (.made []) .ordinary [(.text "id", .number 0), (.text "name", .string "a")] (some base) none

/-- A closed shape for it. -/
def badgeShape : Shape where
  fields := [⟨.text "id", false, .ofType .number⟩, ⟨.text "name", false, .ofType .string⟩]
  options := { allowExtra := false }

theorem badge_accepted :
    Accepts [] badgeShape.strict (.object badge) ∧
      Accepts [] (.shape
        [⟨.text "id", false, .ofType .number⟩, ⟨.text "name", true, .ofType .string⟩]
        { mayBeMissing := true, allowExtra := true }) (.object badge) ∧
      Accepts [] badgeShape.allowInherited.strict (.object badge) := by
  have hrun : run [] 0 badgeShape.strict (.object badge) =
      .accepted (.object badge) := by rfl
  have haccepts := accepts_of_run hrun
  obtain ⟨hrelaxed, hinherited, -⟩ := strict_relaxed [] badgeShape badge haccepts
  refine ⟨haccepts, ?_, hinherited rfl rfl (by simp [badgeShape])⟩
  have hsteps : Relation.ReflTransGen Shape.Relaxes badgeShape _ :=
    ((Relation.ReflTransGen.single (.allowMissing badgeShape)).tail (.allowExtra _)).tail
      (.allowMissingField [_] [] _ _)
  exact hrelaxed _ hsteps

-- With a field that may be missing, the object is accepted as long as the inherited property is not
-- looked at.
example :
    let shape := badgeShape.addField (.text "note") (.ofType .string) true
    run [] 0 shape.strict (.object badge) = .accepted (.object badge) ∧
      run [] 0 shape.allowInherited.strict (.object badge) =
        .rejected (.because "The property \"note\" is invalid."
          (.message "The value is not a string.")) := by
  exact ⟨rfl, rfl⟩

end Definitions

end Narrowing
