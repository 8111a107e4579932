-- SUMMARY: Termination of recursion through conversion to objects, on primitive values.
import Narrowing.Proofs.Primitive

/-!
# Recursion through conversion

Recursion is *loose* if every reference checks a property of an object that the value was turned
into. Such recursion need not follow the value: the object that stands in for a text of one
character has this very text as its first character, and a definition that looks at it never comes
to an end (`Definitions.firstCharacters_not_settles`).

What decides is whether a definition comes back to a value (`Definitions.loose_settles_iff`). Only
numbers and strings can bring it back, all other primitive values have nothing inside.
-/

namespace Narrowing

/-- Every reference lies in the place of a property value, below a validator that turns the value
into an object. -/
inductive Validator.Loose : Validator → Prop
  | property (key : PropertyKey) (v : Validator) (options : PropertyOptions) :
      Loose (.coerced (.property key v options))
  | shape (fields : List (Field Validator)) (options : ShapeOptions) :
      Loose (.coerced (.shape fields options))
  | dictionary {k : Validator} (hk : Loose k) (v : Validator) : Loose (.coerced (.dictionary k v))
  | parts {v : Validator} (hv : v.isReference = false) (hparts : ∀ u ∈ v.parts, Loose u) : Loose v

theorem Validator.Loose.isReference_eq_false {v : Validator} (h : v.Loose) :
    v.isReference = false := by
  cases h with
  | parts hv _ => exact hv
  | _ => rfl

theorem Validator.Loose.mem_parts {u v : Validator} (h : v.Loose) (hu : u ∈ v.parts) :
    u.Loose ∨ u.isContainer = true := by
  have hleaf (l : Leaf) : Validator.Loose (.leaf l) := .parts rfl (by simp [Validator.parts])
  cases h with
  | property key v options | shape fields options | dictionary hk v =>
    simp only [Validator.coerced, Validator.parts, List.mem_cons, List.not_mem_nil, or_false] at hu
    rcases hu with rfl | rfl
    · exact .inl (hleaf _)
    · exact .inr rfl
  | parts _ hparts => exact .inl (hparts u hu)

/-! ## Values with nothing inside -/

/-- A value that is no number, and for which an object stands in that has nothing inside. -/
def Value.Barren (x : Value) : Prop :=
  x.number? = none ∧ ∀ y, ¬ (Value.object x.toObject).Yields y

namespace Value

variable {x y : Value}

theorem barren_of_isPrimitive (hx : x.isPrimitive = true) (hnumber : x.number? = none)
    (hstring : x.string? = none) : x.Barren := by
  refine ⟨hnumber, ?_⟩
  intro y h
  obtain ⟨text, rfl, -⟩ := h.of_toObject hx
  cases hstring

theorem Barren.not_yields (hx : x.Barren) : ¬ x.Yields y := by
  intro h
  obtain ⟨o, rfl⟩ := h.eq_object
  exact hx.2 y h

theorem Barren.judge {l : Leaf} (hl : l.isRule = false) (hx : x.Barren)
    (h : l.judge x = .accepted y) : y.Barren := by
  rcases Leaf.output_cases hl h with rfl | ⟨n, rfl, -⟩ | ⟨-, rfl⟩
  · exact hx
  · cases hx.1
  · exact ⟨rfl, hx.2⟩

end Value

namespace Definitions

variable {defs : Definitions} {v : Validator} {x : Value} {trace : List (String × Value)}

/-- Loose recursion unfolds no definition on a value with nothing inside. -/
theorem CallPath.eq_nil_of_barren (hdefs : defs.Each (Validator.Throughout defs.Known))
    (hv : v.Throughout defs.Known) (hx : x.Barren) (hloose : v.Loose ∨ v.isContainer = true)
    (h : defs.CallPath v x trace) : trace = [] := by
  induction h with
  | done => rfl
  | @call v w x y trace hcall _ ih =>
    cases hcontainer : v.isContainer with
    | true => exact absurd (hcall.yields hcontainer) hx.not_yields
    | false =>
      -- The value keeps having nothing inside, and the call goes on to a loose part or to a
      -- validator that finds nothing in the value.
      have hy : y.Barren :=
        hcall.keeps hcontainer hdefs hv (fun l hl _ _ => Value.Barren.judge hl) hx
      have hloose : v.Loose := by simpa [hcontainer] using hloose
      exact ih (hv.inside w hcall.mem_parts) hy (hloose.mem_parts hcall.mem_parts)
  | unfold _ _ _ =>
    rcases hloose with hloose | hcontainer
    · cases hloose.isReference_eq_false
    · cases hcontainer

/-- Loose recursion on a primitive value ends if and only if it does not come back to a definition
with the same value. So it ends if the value is neither a number nor a string. -/
theorem loose_settles_iff (hdefs : defs.Each fun w => w.Loose ∧ w.Throughout defs.Known)
    (hloose : v.Loose) (hv : v.Throughout defs.Known) (hx : x.isPrimitive = true) :
    (defs.Settles v x ↔ ∀ trace, defs.CallPath v x trace → trace.Nodup) ∧
      (x.number? = none → x.string? = none → defs.Settles v x) := by
  have hknown : defs.Each (Validator.Throughout defs.Known) := fun name w hw => (hdefs name w hw).2
  refine ⟨settles_iff_nodup hknown hv hx, ?_⟩
  intro hnumber hstring
  rw [settles_iff_nodup hknown hv hx]
  intro trace hpath
  have hbarren := Value.barren_of_isPrimitive hx hnumber hstring
  rw [hpath.eq_nil_of_barren hknown hv hbarren (.inl hloose)]
  exact List.nodup_nil

/-- Numbers that, taken for objects, have such a number as their first character. -/
def firstCharacter : Validator :=
  .allOf .tuple [.coerced (.property (.text "0") (.reference "First") {}), .ofType .number]

def firstCharacters : Definitions := [("First", firstCharacter)]

theorem firstCharacters_loose :
    firstCharacters.Each fun w => w.Loose ∧ w.Throughout firstCharacters.Known := by
  refine each_of_mem ?_
  simp only [firstCharacters, List.mem_singleton, forall_eq, firstCharacter]
  constructor
  · refine .parts rfl ?_
    simp only [Validator.parts, List.forall_mem_cons]
    exact ⟨.property .., .parts rfl (by simp [Validator.parts]), by simp⟩
  · simp [Validator.coerced, Known, Leaf.isRule]

theorem firstCharacter_settles : firstCharacters.Settles firstCharacter (.boolean true) := by
  obtain ⟨hloose, hknown⟩ := firstCharacters_loose "First" firstCharacter rfl
  exact (loose_settles_iff firstCharacters_loose hloose hknown rfl).2 rfl rfl

/-- The first character of a text of one character is the text. So the recursion has no end. -/
theorem firstCharacters_not_settles :
    (firstCharacters.Each fun w => w.Loose ∧ w.Throughout firstCharacters.Known) ∧
      (Value.string "a").isPrimitive = true ∧
        ¬ firstCharacters.Settles (.reference "First") (.string "a") := by
  refine ⟨firstCharacters_loose, rfl, ?_⟩
  intro hsettles
  have hobject : firstCharacters.Returns (.leaf .toObject) (.string "a")
      (.accepted (.object (Value.string "a").toObject)) :=
    ⟨by simp, 0, by simp [Leaf.judge]⟩
  have hfind : (Value.string "a").toObject.find? true (.text "0") = some (.string "a") := by rfl
  -- The definition runs on the text, on the object in its place, and on the text again.
  have hround {trace : List (String × Value)}
      (h : firstCharacters.CallPath (.reference "First") (.string "a") trace) :
      firstCharacters.CallPath (.reference "First") (.string "a")
        (("First", .string "a") :: trace) := by
    refine .unfold rfl (.call (@Calls.allOf _ _ [] _ _ _ (by simp)) ?_)
    exact .call (.second hobject) (.call (.property hfind) h)
  have hnodup := (hround (hround .done)).nodup_of_settles hsettles
  simp at hnodup

end Definitions

end Narrowing
