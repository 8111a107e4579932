-- SUMMARY: Types of validators, substitution for references, and preservation of output types.
import Narrowing.Proofs.Substitution

/-!
# Types of validators

A validator takes values of one type and gives values of another (`Validator.HasType`). Validators
are put together only if their types fit: branches take the same, the second validator of a pipe
takes what the first one gives, and what lies below a container takes any value. A negation gives
what it takes, so behind it an object is still an object. If definitions are of the types that
references to them are supposed to have, then validators keep to their types
(`Definitions.Typed.holds_output`).
-/

namespace Narrowing

/-- What references take and give; none for a name that may not be referred to. -/
abbrev Types := String → Option (ValueType × ValueType)

/-- Every value of the one type is of the other as it is. -/
def ValueType.Within (s t : ValueType) : Prop := ∀ x, s.holds x = true → t.holds x = true

theorem ValueType.Within.refl (t : ValueType) : t.Within t := fun _ h => h

/-- A leaf gives what it is supposed to give. Only checks from outside the library may fail to. -/
def Leaf.Sound : Leaf → Prop
  | .rule r => ∀ x y, r.input.holds x = true → r.judge x = .accepted y → r.output.holds y = true
  | _ => True

/-- A validator takes values of one type and gives values of another, supposing that references
do. -/
inductive Validator.HasType (Γ : Types) : Validator → ValueType → ValueType → Prop
  | leaf {l : Leaf} (hl : l.Sound) : HasType Γ (.leaf l) l.input l.output
  /-- What is given may be taken for a value, whatever its type. -/
  | asValue {v : Validator} {i o : ValueType} (h : HasType Γ v i o) : HasType Γ v i .value
  | anyOf {form : Form} {vs : List Validator} {i : ValueType}
      (h : ∀ v ∈ vs, HasType Γ v i .value) : HasType Γ (.anyOf form vs) i .value
  | allOf {form : Form} {vs : List Validator} {i : ValueType}
      (h : ∀ v ∈ vs, HasType Γ v i .value) : HasType Γ (.allOf form vs) i i
  /-- A negation gives back what it takes, as a value of any type that it is: of the same, or of
  keys if it is a text. To have it converted otherwise, put a check behind it that converts. -/
  | not {v : Validator} {i o : ValueType} (hio : i.Within o) (h : HasType Γ v i .value) :
      HasType Γ (.not v) i o
  | pipe {v w : Validator} {i m o : ValueType} (hv : HasType Γ v i m) (hw : HasType Γ w m o) :
      HasType Γ (.pipe v w) i o
  | explained {message : String} {v : Validator} {i o : ValueType} (h : HasType Γ v i o) :
      HasType Γ (.explained message v) i o
  | sealed {label : String} {v : Validator} {i o : ValueType} (h : HasType Γ v i o) :
      HasType Γ (.sealed label v) i o
  | optional {v : Validator} (h : HasType Γ v .value .value) :
      HasType Γ (.optional v) .value .value
  | nullable {v : Validator} (h : HasType Γ v .value .value) :
      HasType Γ (.nullable v) .value .value
  | reference {name : String} {i o : ValueType} (h : Γ name = some (i, o)) :
      HasType Γ (.reference name) i o
  | property {key : PropertyKey} {v : Validator} {options : PropertyOptions}
      (h : HasType Γ v .value .value) : HasType Γ (.property key v options) .object .object
  | shape {fields : List (Field Validator)} {options : ShapeOptions}
      (h : ∀ f ∈ fields, HasType Γ f.validator .value .value) :
      HasType Γ (.shape fields options) .object .object
  | dictionary {k v : Validator} (hk : HasType Γ k .value .value)
      (hv : HasType Γ v .value .value) : HasType Γ (.dictionary k v) .object .object
  | arrayOf {v : Validator} (h : HasType Γ v .value .value) : HasType Γ (.arrayOf v) .array .array
  | tuple {vs : List Validator} (h : ∀ v ∈ vs, HasType Γ v .value .value) :
      HasType Γ (.tuple vs) .array .array

/-- What a leaf gives is of its type. -/
theorem Leaf.Sound.holds_output {l : Leaf} {x y : Value} (hl : l.Sound)
    (hx : l.input.holds x = true) (h : l.judge x = .accepted y) : l.output.holds y = true := by
  cases l with
  | ofType type =>
    simp only [judge, Outcome.ofOption_eq_accepted_iff] at h
    exact ValueType.holds_of_narrow? h
  | null | undefined | nullish | equal _ | oneOf _ => rfl
  | toObject =>
    cases h
    rfl
  | instanceOf c =>
    -- Only an object is an instance, so the type of the output is that of objects.
    simp only [judge, Outcome.ensure_eq_accepted_iff] at h
    obtain ⟨hinstance, rfl⟩ := h
    cases x with
    | object o => rfl
    | _ => cases hinstance
  | keyOf o options =>
    simp only [judge] at h
    split at h
    · simp only [Outcome.ensure_eq_accepted_iff] at h
      exact h.2 ▸ hx
    · cases h
  | rule r => exact hl x y hx h

/-! ## Other validators in the place of references -/

/-- The substitution of validators for references. -/
def Substitution.ofReferences (σ : String → Validator) : Substitution where
  reference := σ

@[simp] theorem Substitution.key_ofReferences (σ : String → Validator) (key : PropertyKey) :
    (ofReferences σ).key key = key := rfl

namespace Validator.HasType

variable {Γ Δ : Types} {σ : String → Validator} {v : Validator} {i o : ValueType}

/-- Types are kept if what comes in the place of a reference is of its type. -/
theorem subst (hσ : ∀ name i o, Γ name = some (i, o) → (σ name).HasType Δ i o)
    (h : v.HasType Γ i o) : (v.subst (.ofReferences σ)).HasType Δ i o := by
  -- The rules look at forms and types only, and at a reference the context has a type.
  induction h with
  | leaf hl => exact .leaf hl
  | asValue _ ih => exact .asValue ih
  | anyOf _ ih =>
    simp only [Validator.subst, substAll_eq_map]
    exact .anyOf (List.forall_mem_map.2 ih)
  | allOf _ ih =>
    simp only [Validator.subst, substAll_eq_map]
    exact .allOf (List.forall_mem_map.2 ih)
  | not hio _ ih => exact .not hio ih
  | pipe _ _ ihv ihw => exact .pipe ihv ihw
  | explained _ ih => exact .explained ih
  | sealed _ ih => exact .sealed ih
  | optional _ ih => exact .optional ih
  | nullable _ ih => exact .nullable ih
  | reference h => exact hσ _ _ _ h
  | property _ ih => exact .property ih
  | shape _ ih =>
    simp only [Validator.subst, substFields_eq_map]
    exact .shape (List.forall_mem_map.2 ih)
  | dictionary _ _ ihk ihv => exact .dictionary ihk ihv
  | arrayOf _ ih => exact .arrayOf ih
  | tuple _ ih =>
    simp only [Validator.subst, substAll_eq_map]
    exact .tuple (List.forall_mem_map.2 ih)

/-- What may be referred to may grow. -/
theorem mono (hΓ : ∀ name t, Γ name = some t → Δ name = some t) (h : v.HasType Γ i o) :
    v.HasType Δ i o := by
  have hsame : v.subst (.ofReferences .reference) = v := subst_id v
  exact hsame ▸ h.subst fun name i o hname => .reference (hΓ name (i, o) hname)

/-- References that may occur are left as they are, and so is the whole. -/
theorem subst_eq_self (hσ : ∀ name t, Γ name = some t → σ name = .reference name)
    (h : v.HasType Γ i o) : v.subst (.ofReferences σ) = v := by
  have hall {vs : List Validator} (h : ∀ v ∈ vs, v.subst (.ofReferences σ) = v) :
      vs.map (Validator.subst (.ofReferences σ)) = vs :=
    (List.map_congr_left h).trans (List.map_id _)
  induction h with
  | leaf hl => rfl
  | asValue _ ih => exact ih
  | anyOf _ ih | allOf _ ih | tuple _ ih => simp only [Validator.subst, substAll_eq_map, hall ih]
  | not _ _ ih | explained _ ih | sealed _ ih | optional _ ih | nullable _ ih | arrayOf _ ih =>
    simp only [Validator.subst, ih]
  | property _ ih => simp only [Validator.subst, ih, Substitution.key_ofReferences]
  | pipe _ _ ihv ihw | dictionary _ _ ihv ihw => simp only [Validator.subst, ihv, ihw]
  | reference h => exact hσ _ _ h
  | @shape fields options _ ih =>
    have hfields : fields.map (substField (.ofReferences σ)) = fields := by
      refine (List.map_congr_left fun f hf => ?_).trans (List.map_id _)
      simp only [substField, ih f hf, Substitution.key_ofReferences, id]
    simp only [Validator.subst, substFields_eq_map, hfields]

end Validator.HasType

/-! ## Outputs -/

namespace Definitions

variable {Γ Δ : Types} {defs : Definitions} {bound : Nat} {v : Validator} {i o : ValueType}
  {x y : Value}

/-- There are definitions for the names in `Γ`, of the types that it says, supposing that references
in them are of the types that `Δ` says. -/
def Typed (defs : Definitions) (Γ Δ : Types) : Prop :=
  ∀ name i o, Γ name = some (i, o) → ∃ w, defs.lookup name = some w ∧ w.HasType Δ i o

theorem holds_output_of_refer
    (hrefer : ∀ name i o, Γ name = some (i, o) → ∀ x y, i.holds x = true →
      defs.run bound (.reference name) x = .accepted y → o.holds y = true)
    (h : v.HasType Γ i o) (hx : i.holds x = true) (hrun : defs.run bound v x = .accepted y) :
    o.holds y = true := by
  -- The output is a part of the run in `pipe`, and the input or any value elsewhere.
  induction h generalizing x y with
  | leaf hl =>
    rw [run_leaf] at hrun
    exact hl.holds_output hx hrun
  | asValue | anyOf | optional | nullable => rfl
  | allOf _ _ =>
    rw [run_allOf] at hrun
    obtain ⟨-, rfl⟩ := Outcome.as_eq_accepted_iff.1 hrun
    exact hx
  | not hio _ _ =>
    -- A negation hands the input on, under a type that holds whatever the input has.
    obtain ⟨-, rfl⟩ := run_not_eq_accepted_iff.1 hrun
    exact hio _ hx
  | pipe _ _ ihv ihw =>
    simp only [run_pipe, Outcome.bind_eq_accepted_iff] at hrun
    obtain ⟨z, hz, hrun⟩ := hrun
    exact ihw (ihv hx hz) hrun
  | explained _ ih =>
    simp only [run_explained, Outcome.behind_eq_accepted_iff] at hrun
    exact ih hx hrun
  | sealed _ ih =>
    rw [run_sealed] at hrun
    exact ih hx hrun
  | reference h => exact hrefer _ _ _ h x y hx hrun
  | property | shape | dictionary =>
    simp only [run_property, run_shape, run_dictionary, withObject_eq_accepted_iff] at hrun
    obtain ⟨o, rfl, -, rfl⟩ := hrun
    rfl
  | arrayOf | tuple =>
    simp only [run_arrayOf, run_tuple, withElements_eq_accepted_iff] at hrun
    obtain ⟨elements, -, -, rfl⟩ := hrun
    exact hx

/-- A validator gives values of its type only, if the definitions are of their types. -/
theorem Typed.holds_output (hdefs : defs.Typed Γ Γ) (h : v.HasType Γ i o) (hx : i.holds x = true)
    (hrun : defs.run bound v x = .accepted y) : o.holds y = true := by
  induction bound generalizing v i o x y with
  | zero =>
    refine holds_output_of_refer (fun name i o _ x y _ hrun => ?_) h hx hrun
    rw [run_reference_zero] at hrun
    cases hrun
  | succ bound ih =>
    refine holds_output_of_refer (fun name i o hname x y hx hrun => ?_) h hx hrun
    obtain ⟨w, hw, htype⟩ := hdefs name i o hname
    rw [run_reference_succ, hw] at hrun
    exact ih htype hx hrun

end Definitions

end Narrowing
