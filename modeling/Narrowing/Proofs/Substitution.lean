-- SUMMARY: Substitution of keys, leaves, and references in validators and definitions.
import Narrowing.Proofs.Definitions

/-!
# Substitution

The validator that comes of another one if its keys, its leaves and its references are exchanged and
all else stays in its place (`Validator.subst`). The same is done to a set of definitions by doing
it to each of them.
-/

namespace Narrowing

/-- What comes in the place of keys, leaves and references. -/
structure Substitution where
  key : PropertyKey → PropertyKey := id
  leaf : Leaf → Validator := .leaf
  reference : String → Validator := .reference

/-- The substitution of leaves for leaves. -/
def Substitution.ofLeaves (f : Leaf → Leaf) : Substitution where
  leaf l := .leaf (f l)

namespace Validator

variable (σ : Substitution)

mutual

/-- The validator with its keys, leaves and references exchanged. -/
def subst : Validator → Validator
  | .leaf l => σ.leaf l
  | .anyOf form vs => .anyOf form (substAll vs)
  | .allOf form vs => .allOf form (substAll vs)
  | .not v => .not v.subst
  | .pipe v w => .pipe v.subst w.subst
  | .explained message v => .explained message v.subst
  | .sealed label v => .sealed label v.subst
  | .optional v => .optional v.subst
  | .nullable v => .nullable v.subst
  | .reference name => σ.reference name
  | .property key v options => .property (σ.key key) v.subst options
  | .shape fields options => .shape (substFields fields) options
  | .dictionary k v => .dictionary k.subst v.subst
  | .arrayOf v => .arrayOf v.subst
  | .tuple vs => .tuple (substAll vs)

/-- The branches with theirs exchanged. -/
def substAll : List Validator → List Validator
  | [] => []
  | v :: vs => v.subst :: substAll vs

/-- The fields with theirs exchanged. -/
def substFields : List (Field Validator) → List (Field Validator)
  | [] => []
  | ⟨key, mayBeMissing, v⟩ :: fields => ⟨σ.key key, mayBeMissing, v.subst⟩ :: substFields fields

end

/-- The field with its key, and the leaves and references of its validator, exchanged. -/
def substField (f : Field Validator) : Field Validator :=
  ⟨σ.key f.key, f.mayBeMissing, f.validator.subst σ⟩

@[simp] theorem substAll_eq_map (vs : List Validator) : substAll σ vs = vs.map (subst σ) := by
  induction vs with
  | nil => rfl
  | cons v vs ih => rw [substAll, ih, List.map_cons]

@[simp] theorem substFields_eq_map (fields : List (Field Validator)) :
    substFields σ fields = fields.map (substField σ) := by
  induction fields with
  | nil => rfl
  | cons f fields ih =>
    rw [substFields, ih, List.map_cons]
    rfl

/-- Without any exchange a validator stays the same. -/
theorem subst_id (v : Validator) : v.subst {} = v := by
  have hall {vs : List Validator} (h : ∀ v ∈ vs, v.subst {} = v) : vs.map (subst {}) = vs :=
    (List.map_congr_left h).trans (List.map_id _)
  induction v using Validator.induction with
  | leaf l | reference name => simp only [subst]
  | anyOf form vs ih | allOf form vs ih | tuple vs ih => simp only [subst, substAll_eq_map, hall ih]
  | not v ih | explained message v ih | sealed label v ih | optional v ih | nullable v ih
  | property key v options ih | arrayOf v ih => simp only [subst, ih, id]
  | pipe v w ihv ihw | dictionary v w ihv ihw => simp only [subst, ihv, ihw]
  | shape fields options ih =>
    have hfields : fields.map (substField {}) = fields := by
      refine (List.map_congr_left fun f hf => ?_).trans (List.map_id _)
      simp only [substField, ih f hf, id]
    simp only [subst, substFields_eq_map, hfields]

/-! ## Substitution of leaves for leaves -/

section

variable {f : Leaf → Leaf} {v : Validator} {p q : Validator → Prop}

theorem parts_subst (f : Leaf → Leaf) (v : Validator) :
    (v.subst (.ofLeaves f)).parts = v.parts.map (subst (.ofLeaves f)) := by
  cases v with
  | shape fields options => simp [subst, parts, substField, Function.comp_def]
  | _ => simp [subst, parts, Substitution.ofLeaves]

theorem isReference_subst (f : Leaf → Leaf) (v : Validator) :
    (v.subst (.ofLeaves f)).isReference = v.isReference := by
  cases v <;> rfl

theorem isContainer_subst (f : Leaf → Leaf) (v : Validator) :
    (v.subst (.ofLeaves f)).isContainer = v.isContainer := by
  cases v <;> rfl

theorem Throughout.subst (hpq : ∀ u, p u → q (u.subst (.ofLeaves f))) (h : Throughout p v) :
    Throughout q (v.subst (.ofLeaves f)) := by
  induction h with
  | @intro v here _ ih =>
    refine ⟨hpq v here, fun u hu => ?_⟩
    rw [parts_subst] at hu
    obtain ⟨w, hw, rfl⟩ := List.mem_map.1 hu
    exact ih w hw

end

end Validator

namespace Definitions

/-- The definitions with the keys, leaves and references of each exchanged. -/
def subst (σ : Substitution) (defs : Definitions) : Definitions :=
  defs.map fun d => (d.1, d.2.subst σ)

theorem lookup_subst (σ : Substitution) (defs : Definitions) (name : String) :
    (defs.subst σ).lookup name = (defs.lookup name).map (Validator.subst σ) := by
  induction defs with
  | nil => rfl
  | cons d rest ih =>
    rw [subst, List.map_cons, List.lookup_cons, List.lookup_cons]
    split
    · rfl
    · exact ih

theorem subst_id (defs : Definitions) : defs.subst {} = defs :=
  (List.map_congr_left fun d _ => by rw [Validator.subst_id]; rfl).trans (List.map_id _)

end Definitions

end Narrowing
