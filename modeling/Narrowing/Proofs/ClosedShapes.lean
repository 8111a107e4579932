-- SUMMARY: What a shape without extra keys accepts.
import Narrowing.Proofs.OwnKeys

/-!
# Closed shapes

A shape that allows no extra keys leaves no own property of an object unchecked: each own key is the
key of a field, and all fields under it accept the own value
(`Definitions.closedShape_accepts_iff`). Where inherited properties count as well, the own value
still comes first.
-/

namespace Narrowing

/-- What is found among own and inherited properties is the own one if there is one. -/
theorem Object.find?_of_getOwn {o : Object} {key : PropertyKey} {x : Value} (ownOnly : Bool)
    (h : o.getOwn key = some x) : o.find? ownOnly key = some x := by
  cases ownOnly with
  | true => exact h
  | false =>
    -- The object itself stands in front of its chain.
    obtain ⟨rest, hchain⟩ : ∃ rest, o.chain = o :: rest := by
      rcases o with ⟨i, kind, properties, _ | prototype, c⟩ <;> exact ⟨_, by rw [chain]⟩
    simp [find?, get, hchain, h]

namespace Definitions

variable {defs : Definitions} {fields : List (Field Validator)} {options : ShapeOptions}
  {o : Object} {key : PropertyKey} {x : Value}

/-- The field of an own property is there because its validator accepts the own value. -/
theorem FieldPasses.accepts {f : Field Validator} (h : defs.FieldPasses o options f)
    (hx : o.getOwn f.key = some x) : defs.Accepts f.validator x := by
  have hfind := Object.find?_of_getOwn options.ownOnly hx
  rcases fieldPasses_iff.1 h with ⟨y, hy, haccepts⟩ | ⟨hnone, -⟩
  · rw [hfind] at hy
    cases hy
    exact haccepts
  · rw [hfind] at hnone
    cases hnone

/-- A closed shape accepts an object without indices beyond the limit if and only if each own key is
the key of a field and all fields under it accept the own value, and the object has the other fields
as well. -/
theorem closedShape_accepts_iff (hclosed : options.allowExtra = false)
    (hcount : o.kind.indexCount ≤ PropertyKey.indexLimit) :
    defs.Accepts (.shape fields options) (.object o) ↔
      (∀ key ∈ o.ownKeys, (∃ f ∈ fields, f.key = key) ∧
        ∃ x, o.getOwn key = some x ∧
          ∀ f ∈ fields, f.key = key → defs.Accepts f.validator x) ∧
      ∀ f ∈ fields, f.key ∉ o.ownKeys → defs.FieldPasses o options f := by
  rw [accepts_shape_iff]
  constructor
  · rintro ⟨hfields, hextra⟩
    refine ⟨?_, fun f hf _ => hfields f hf⟩
    intro key hkey
    refine ⟨hextra hclosed key hkey, ?_⟩
    obtain ⟨x, hx⟩ := (Object.indexed_of_indexCount_le hcount).exists_getOwn hkey
    refine ⟨x, hx, ?_⟩
    rintro f hf rfl
    exact (hfields f hf).accepts hx
  · rintro ⟨hown, hothers⟩
    refine ⟨?_, fun _ key hkey => (hown key hkey).1⟩
    intro f hf
    -- A field is accepted on the value of its own key, or passes without one.
    by_cases hkey : f.key ∈ o.ownKeys
    · obtain ⟨-, x, hx, haccepts⟩ := hown f.key hkey
      exact fieldPasses_iff.2
        (.inl ⟨x, Object.find?_of_getOwn options.ownOnly hx, haccepts f hf rfl⟩)
    · exact hothers f hf hkey

/-- An object with a number under a key for which its prototype has a string. -/
def Object.overriding : Object :=
  let base : Object := .mk (.made [0]) .ordinary [(.text "id", .string "x")] none none
  .mk (.made []) .ordinary [(.text "2", .null), (.text "id", .number 0)] (some base) none

/-- Fields for it, one of them twice and one more that may be missing. -/
def overridingFields : List (Field Validator) :=
  [⟨.text "id", false, .ofType .number⟩, ⟨.text "2", false, .leaf .null⟩,
    ⟨.text "id", true, .not (.ofType .string)⟩, ⟨.text "note", true, .ofType .string⟩]

theorem overriding_checked :
    Accepts [] (.shape overridingFields ⟨false, false, false⟩) (.object Object.overriding) ∧
      ∃ x, Object.overriding.getOwn (.text "id") = some x ∧
        ∀ f ∈ overridingFields, f.key = .text "id" → Accepts [] f.validator x := by
  have hrun : run [] 0 (.shape overridingFields ⟨false, false, false⟩) (.object Object.overriding) =
      .accepted (.object Object.overriding) := by rfl
  have haccepts := accepts_of_run hrun
  refine ⟨haccepts, ?_⟩
  have hkey : .text "id" ∈ Object.overriding.ownKeys :=
    Object.mem_ownKeys_iff.2 (.inr (by simp [Object.overriding]))
  have hcount : Object.overriding.kind.indexCount ≤ PropertyKey.indexLimit := by
    simp [Object.overriding, ObjectKind.indexCount]
  exact (((closedShape_accepts_iff rfl hcount).1 haccepts).1 (.text "id") hkey).2

end Definitions

end Narrowing
