-- SUMMARY: Acceptance by shapes and dictionaries, stated without a bound.
import Narrowing.Proofs.Calls
import Narrowing.Proofs.Connectives

/-!
# What containers accept

A shape accepts an object that has all of its fields and, if it is closed, no other own keys. A
dictionary accepts an object whose own keys and the values under them are accepted one by one. Both
are stated without a bound: one that is enough for each check is enough for all.
-/

namespace Narrowing

namespace Definitions

variable {defs : Definitions} {o : Object}

/-- What a check accepts under one bound it accepts under all greater ones. -/
theorem eventually_accepted {ε α : Type} {check : Nat → Outcome ε α} {m : Nat} {a : α}
    (hbelow : ∀ {m n}, m ≤ n → (check m).Below (check n)) (h : check m = .accepted a) :
    ∀ᶠ bound in Filter.atTop, check bound = .accepted a := by
  rw [Filter.eventually_atTop]
  refine ⟨m, ?_⟩
  intro bound hle
  rw [hbelow hle (by simp [h]), h]

/-! ## Shapes -/

variable {fields : List (Field Validator)} {f : Field Validator} {options : ShapeOptions}

theorem FieldPasses.eventually (h : defs.FieldPasses o options f) :
    ∀ᶠ bound in Filter.atTop, checkProperty o f.key (options.forField f.mayBeMissing)
      (defs.run bound f.validator) = .accepted () := by
  obtain ⟨bound, h⟩ := h
  exact eventually_accepted (fun hle => checkProperty_below (run_below hle _)) h

/-- An object has a field if the validator accepts what is found under its key, or if nothing is
found there and nothing need be. -/
theorem fieldPasses_iff :
    defs.FieldPasses o options f ↔
      (∃ x, o.find? options.ownOnly f.key = some x ∧ defs.Accepts f.validator x) ∨
        o.find? options.ownOnly f.key = none ∧
          (options.mayBeMissing || f.mayBeMissing) = true := by
  simp only [FieldPasses, checkProperty_eq_accepted_iff, ShapeOptions.forField]
  constructor
  · rintro ⟨bound, ⟨x, hx, y, hy⟩ | hmissing⟩
    · exact .inl ⟨x, hx, accepts_of_run hy⟩
    · exact .inr hmissing
  · rintro (⟨x, hx, y, -, bound, hy⟩ | hmissing)
    · exact ⟨bound, .inl ⟨x, hx, y, hy⟩⟩
    · exact ⟨0, .inr hmissing⟩

theorem accepts_shape_iff :
    defs.Accepts (.shape fields options) (.object o) ↔
      (∀ f ∈ fields, defs.FieldPasses o options f) ∧
        (options.allowExtra = false → ∀ key ∈ o.ownKeys, ∃ f ∈ fields, f.key = key) := by
  have hextra : (if options.allowExtra then .accepted () else
      checkExtra o (fields.map Field.key)) = .accepted () ↔
        (options.allowExtra = false → ∀ key ∈ o.ownKeys, ∃ f ∈ fields, f.key = key) := by
    cases options.allowExtra <;> simp [checkExtra_eq_accepted_iff]
  constructor
  · intro h
    obtain ⟨y, -, bound, h⟩ := h
    simp only [run_shape, withObject_eq_accepted_iff, Value.object.injEq, exists_eq_left',
      Outcome.bind_eq_accepted_iff, Outcome.forEach_eq_accepted_iff, exists_const, hextra] at h
    obtain ⟨⟨hfields, hclosed⟩, -⟩ := h
    refine ⟨?_, hclosed⟩
    intro f hf
    obtain ⟨_, hf⟩ := hfields f hf
    exact ⟨bound, hf⟩
  · rintro ⟨hfields, hclosed⟩
    -- Each field passes under a bound of its own, and one bound is enough for all.
    obtain ⟨bound, hrun⟩ := (eventually_forall_mem fun f hf => (hfields f hf).eventually).exists
    refine ⟨.object o, by simp, bound, ?_⟩
    simp only [run_shape, withObject_eq_accepted_iff, Value.object.injEq, exists_eq_left',
      Outcome.bind_eq_accepted_iff, Outcome.forEach_eq_accepted_iff, exists_const, hextra]
    exact ⟨⟨fun f hf => ⟨(), hrun f hf⟩, hclosed⟩, trivial⟩

/-! ## Dictionaries -/

variable {k v : Validator} {key : PropertyKey}

theorem EntryPasses.eventually (h : defs.EntryPasses o k v key) :
    ∀ᶠ bound in Filter.atTop,
      checkEntry o (defs.run bound k) (defs.run bound v) key = .accepted () := by
  obtain ⟨bound, h⟩ := h
  exact eventually_accepted (fun hle => checkEntry_below (run_below hle _) (run_below hle _)) h

theorem entryPasses_iff :
    defs.EntryPasses o k v key ↔
      defs.Accepts k key.toValue ∧ defs.Accepts v ((o.getOwn key).getD .undefined) := by
  simp only [EntryPasses, checkEntry_eq_accepted_iff]
  constructor
  · rintro ⟨bound, ⟨y, hk⟩, z, hv⟩
    exact ⟨accepts_of_run hk, accepts_of_run hv⟩
  · rintro ⟨hk, hv⟩
    exact (hk.eventually.and hv.eventually).exists

theorem accepts_dictionary_iff :
    defs.Accepts (.dictionary k v) (.object o) ↔ ∀ key ∈ o.ownKeys, defs.EntryPasses o k v key := by
  constructor
  · intro h
    obtain ⟨y, -, bound, h⟩ := h
    simp only [run_dictionary, withObject_eq_accepted_iff, Value.object.injEq, exists_eq_left',
      Outcome.forEach_eq_accepted_iff] at h
    intro key hkey
    obtain ⟨_, hentry⟩ := h.1 key hkey
    exact ⟨bound, hentry⟩
  · intro h
    obtain ⟨bound, hrun⟩ := (eventually_forall_mem fun key hkey => (h key hkey).eventually).exists
    refine ⟨.object o, by simp, bound, ?_⟩
    simp only [run_dictionary, withObject_eq_accepted_iff, Value.object.injEq, exists_eq_left',
      Outcome.forEach_eq_accepted_iff]
    exact ⟨fun key hkey => ⟨(), hrun key hkey⟩, trivial⟩

end Definitions

end Narrowing
