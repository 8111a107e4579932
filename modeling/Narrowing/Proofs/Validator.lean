-- SUMMARY: Induction principles for validators and properties of all parts.
import Narrowing.Validator.Inspect

/-!
# Validators and their parts

Induction on validators, and properties that hold of every validator inside one. The parts of a
validator are the validators directly inside it (`Validator.parts`).
-/

namespace Narrowing

namespace Validator

/-- Induction on validators, a list of validators being taken member by member. -/
theorem induction {motive : Validator → Prop} (leaf : ∀ l, motive (.leaf l))
    (anyOf : ∀ form vs, (∀ v ∈ vs, motive v) → motive (.anyOf form vs))
    (allOf : ∀ form vs, (∀ v ∈ vs, motive v) → motive (.allOf form vs))
    (not : ∀ v, motive v → motive (.not v))
    (pipe : ∀ v w, motive v → motive w → motive (.pipe v w))
    (explained : ∀ message v, motive v → motive (.explained message v))
    (sealed : ∀ label v, motive v → motive (.sealed label v))
    (optional : ∀ v, motive v → motive (.optional v))
    (nullable : ∀ v, motive v → motive (.nullable v))
    (reference : ∀ name, motive (.reference name))
    (property : ∀ key v options, motive v → motive (.property key v options))
    (shape : ∀ fields options, (∀ f ∈ fields, motive f.validator) → motive (.shape fields options))
    (dictionary : ∀ k v, motive k → motive v → motive (.dictionary k v))
    (arrayOf : ∀ v, motive v → motive (.arrayOf v))
    (tuple : ∀ vs, (∀ v ∈ vs, motive v) → motive (.tuple vs)) (v : Validator) : motive v := by
  refine @Validator.rec motive (fun vs => ∀ v ∈ vs, motive v)
    (fun fields => ∀ f ∈ fields, motive f.validator) (fun f => motive f.validator)
    leaf anyOf allOf not pipe explained sealed optional nullable reference property shape
    dictionary arrayOf tuple ?_ ?_ ?_ ?_ ?_ v
  -- The remaining cases put the lists of branches and of fields together.
  · simp
  · intro v vs hv hvs
    simpa using ⟨hv, hvs⟩
  · simp
  · intro f fields hf hfields
    simpa using ⟨hf, hfields⟩
  · intro key mayBeMissing v hv
    exact hv

/-- Induction on validators by their parts, whatever they are parts of. -/
theorem partsInduction {motive : Validator → Prop}
    (step : ∀ v, (∀ u ∈ v.parts, motive u) → motive v) (v : Validator) : motive v := by
  induction v using Validator.induction with
  | leaf l => exact step _ (by simp [parts])
  | anyOf form vs ih => exact step _ ih
  | allOf form vs ih => exact step _ ih
  | not v ih => exact step _ (by simpa [parts] using ih)
  | pipe v w ihv ihw => exact step _ (by simpa [parts] using ⟨ihv, ihw⟩)
  | explained message v ih => exact step _ (by simpa [parts] using ih)
  | sealed label v ih => exact step _ (by simpa [parts] using ih)
  | optional v ih => exact step _ (by simpa [parts] using ih)
  | nullable v ih => exact step _ (by simpa [parts] using ih)
  | reference name => exact step _ (by simp [parts])
  | property key v options ih => exact step _ (by simpa [parts] using ih)
  | shape fields options ih => exact step _ (by simpa [parts] using ih)
  | dictionary k v ihk ihv => exact step _ (by simpa [parts] using ⟨ihk, ihv⟩)
  | arrayOf v ih => exact step _ (by simpa [parts] using ih)
  | tuple vs ih => exact step _ ih

/-! ## Properties of all validators inside one -/

/-- Whether a validator looks into an object or an array. -/
def isContainer : Validator → Bool
  | .property _ _ _ | .shape _ _ | .dictionary _ _ | .arrayOf _ | .tuple _ => true
  | _ => false

/-- Whether a validator stands for a definition. -/
def isReference : Validator → Bool
  | .reference _ => true
  | _ => false

theorem isReference_iff {v : Validator} : v.isReference = true ↔ ∃ name, v = .reference name := by
  cases v <;> simp [isReference]

/-- All validators inside one, itself included, have a property. -/
inductive Throughout (p : Validator → Prop) : Validator → Prop
  | intro {v : Validator} (here : p v) (inside : ∀ u ∈ v.parts, Throughout p u) : Throughout p v

namespace Throughout

variable {p : Validator → Prop} {v : Validator}

theorem here (h : Throughout p v) : p v := by
  cases h with
  | intro here _ => exact here

theorem inside (h : Throughout p v) : ∀ u ∈ v.parts, Throughout p u := by
  cases h with
  | intro _ inside => exact inside

theorem iff : Throughout p v ↔ p v ∧ ∀ u ∈ v.parts, Throughout p u :=
  ⟨fun h => ⟨h.here, h.inside⟩, fun ⟨here, inside⟩ => ⟨here, inside⟩⟩

theorem and {q : Validator → Prop} (hp : Throughout p v) (hq : Throughout q v) :
    Throughout (fun u => p u ∧ q u) v := by
  induction hp with
  | intro here _ ih => exact ⟨⟨here, hq.here⟩, fun u hu => ih u hu (hq.inside u hu)⟩

theorem mono {q : Validator → Prop} (hpq : ∀ u, p u → q u) (h : Throughout p v) :
    Throughout q v := by
  induction h with
  | intro here _ ih => exact ⟨hpq _ here, ih⟩

end Throughout

/-! ### Form by form -/

section

variable {p : Validator → Prop} {v w : Validator} {vs : List Validator}

@[simp] theorem throughout_leaf {l : Leaf} : Throughout p (.leaf l) ↔ p (.leaf l) := by
  simp [Throughout.iff (v := .leaf l), parts]

@[simp] theorem throughout_reference {name : String} :
    Throughout p (.reference name) ↔ p (.reference name) := by
  simp [Throughout.iff (v := .reference name), parts]

@[simp] theorem throughout_anyOf {form : Form} :
    Throughout p (.anyOf form vs) ↔ p (.anyOf form vs) ∧ ∀ v ∈ vs, Throughout p v :=
  Throughout.iff

@[simp] theorem throughout_allOf {form : Form} :
    Throughout p (.allOf form vs) ↔ p (.allOf form vs) ∧ ∀ v ∈ vs, Throughout p v :=
  Throughout.iff

@[simp] theorem throughout_not : Throughout p (.not v) ↔ p (.not v) ∧ Throughout p v := by
  simp [Throughout.iff (v := .not v), parts]

@[simp] theorem throughout_pipe :
    Throughout p (.pipe v w) ↔ p (.pipe v w) ∧ Throughout p v ∧ Throughout p w := by
  simp [Throughout.iff (v := .pipe v w), parts]

@[simp] theorem throughout_explained {message : String} :
    Throughout p (.explained message v) ↔ p (.explained message v) ∧ Throughout p v := by
  simp [Throughout.iff (v := .explained message v), parts]

@[simp] theorem throughout_nullable :
    Throughout p (.nullable v) ↔ p (.nullable v) ∧ Throughout p v := by
  simp [Throughout.iff (v := .nullable v), parts]

@[simp] theorem throughout_property {key : PropertyKey} {options : PropertyOptions} :
    Throughout p (.property key v options) ↔ p (.property key v options) ∧ Throughout p v := by
  simp [Throughout.iff (v := .property key v options), parts]

@[simp] theorem throughout_shape {fields : List (Field Validator)} {options : ShapeOptions} :
    Throughout p (.shape fields options) ↔
      p (.shape fields options) ∧ ∀ f ∈ fields, Throughout p f.validator := by
  simp [Throughout.iff (v := .shape fields options), parts]

@[simp] theorem throughout_dictionary :
    Throughout p (.dictionary v w) ↔ p (.dictionary v w) ∧ Throughout p v ∧ Throughout p w := by
  simp [Throughout.iff (v := .dictionary v w), parts]

@[simp] theorem throughout_arrayOf :
    Throughout p (.arrayOf v) ↔ p (.arrayOf v) ∧ Throughout p v := by
  simp [Throughout.iff (v := .arrayOf v), parts]

end

end Validator

end Narrowing
