-- SUMMARY: Output positions, and properties of values that output keeps.
import Narrowing.Proofs.Definitions

/-!
# Outputs

An accepted value is given back as it came, unless a validator that converts has put another one in
its place. Only the validators at an *output position* can do that: those whose output becomes the
output of the whole. What stands elsewhere, below a negation, a conjunction or a container, only
decides whether a value is accepted.

`output_keeps` is the general form: a property of values that the leaves at output positions keep is
kept by the whole.
-/

namespace Narrowing

/-- Whether a leaf may give another value than it takes: a key or an object in place of a value, or
whatever a rule from outside the library gives. -/
def Leaf.converts : Leaf → Bool
  | .ofType type => type == .key
  | .toObject | .rule _ => true
  | .null | .undefined | .nullish | .equal _ | .oneOf _ | .instanceOf _ | .keyOf _ _ => false

theorem ValueType.narrow?_eq_some {type : ValueType} {x y : Value} (htype : type ≠ .key)
    (h : type.narrow? x = some y) : y = x := by
  cases type with
  | key => exact absurd rfl htype
  | _ =>
    simp only [narrow?, Option.ite_none_right_eq_some, Option.some.injEq] at h
    exact h.2.symm

theorem Leaf.output_eq {l : Leaf} {x y : Value} (hl : l.converts = false)
    (h : l.judge x = .accepted y) : y = x := by
  cases l with
  | ofType type =>
    simp only [judge, Outcome.ofOption_eq_accepted_iff] at h
    exact ValueType.narrow?_eq_some (by simpa [converts] using hl) h
  | toObject => cases hl
  | rule r => cases hl
  | keyOf o options =>
    simp only [judge] at h
    split at h
    · simp only [Outcome.ensure_eq_accepted_iff] at h
      exact h.2.symm
    · cases h
  | null | undefined | nullish | equal _ | oneOf _ | instanceOf _ =>
    simp only [judge, Outcome.ensure_eq_accepted_iff] at h
    exact h.2.symm

/-- Whether a leaf is a check from outside the library. -/
def Leaf.isRule : Leaf → Bool
  | .rule _ => true
  | _ => false

/-- Keys are the values that they come from, unless these are numbers. -/
theorem Value.toPropertyKey?_cases {x : Value} {key : PropertyKey}
    (h : x.toPropertyKey? = some key) :
    key.toValue = x ∨ ∃ n, x = .number n ∧ key.toValue = .string n.displayText := by
  match x, h with
  | .scalar (.string s), h => cases h; exact .inl rfl
  | .scalar (.symbol s), h => cases h; exact .inl rfl
  | .scalar (.number n), h => cases h; exact .inr ⟨n, rfl, rfl⟩

/-- A leaf of the library gives the value back, the key that a number names, or an object. -/
theorem Leaf.output_cases {l : Leaf} {x y : Value} (hl : l.isRule = false)
    (h : l.judge x = .accepted y) :
    y = x ∨ (∃ n, x = .number n ∧ y = .string n.displayText) ∨
      l = .toObject ∧ y = .object x.toObject := by
  cases hconverts : l.converts with
  | false => exact .inl (output_eq hconverts h)
  | true =>
    cases l with
    | ofType type =>
      obtain rfl : type = .key := by simpa [converts] using hconverts
      simp only [judge, Outcome.ofOption_eq_accepted_iff] at h
      obtain ⟨key, hkey, rfl⟩ := Option.map_eq_some_iff.1 h
      exact (Value.toPropertyKey?_cases hkey).imp_right .inl
    | toObject =>
      cases h
      exact .inr (.inr ⟨rfl, rfl⟩)
    | rule r => cases hl
    | _ => cases hconverts

namespace Validator

/-- The parts of a validator whose outputs may become its output. -/
def outputParts : Validator → List Validator
  | .anyOf _ vs => vs
  | .pipe v w => [v, w]
  | .explained _ v | .sealed _ v | .optional v | .nullable v => [v]
  | .leaf _ | .allOf _ _ | .not _ | .reference _ | .property _ _ _ | .shape _ _
  | .dictionary _ _ | .arrayOf _ | .tuple _ => []

theorem mem_parts_of_mem_outputParts {u v : Validator} (h : u ∈ v.outputParts) : u ∈ v.parts := by
  cases v <;> simp_all [outputParts, parts]

end Validator

namespace Definitions

/-- A validator stands at an output position of another one, which may be inside a definition that
is referred to from an output position. -/
inductive OutputPosition (defs : Definitions) (u : Validator) : Validator → Prop
  | whole : OutputPosition defs u u
  | part {v w : Validator} (hw : w ∈ v.outputParts) (hu : OutputPosition defs u w) :
      OutputPosition defs u v
  | definition {name : String} {w : Validator} (hw : defs.lookup name = some w)
      (hu : OutputPosition defs u w) : OutputPosition defs u (.reference name)

variable {defs : Definitions} {P : Value → Prop} {bound : Nat} {v w : Validator} {x y : Value}

variable (defs P) in
/-- The leaves at output positions keep a property of values. -/
def LeavesKeep (v : Validator) : Prop :=
  ∀ l, defs.OutputPosition (.leaf l) v → ∀ x y, P x → l.judge x = .accepted y → P y

theorem LeavesKeep.part (h : defs.LeavesKeep P v) (hw : w ∈ v.outputParts) :
    defs.LeavesKeep P w :=
  fun l hl => h l (.part hw hl)

theorem LeavesKeep.definition {name : String} (h : defs.LeavesKeep P (.reference name))
    (hw : defs.lookup name = some w) : defs.LeavesKeep P w :=
  fun l hl => h l (.definition hw hl)

/-- What is true of all validators inside and in the definitions is true at output positions. -/
theorem OutputPosition.throughout {p : Validator → Prop} {u : Validator}
    (hdefs : defs.Each (Validator.Throughout p)) (h : defs.OutputPosition u v)
    (hv : v.Throughout p) : p u := by
  induction h with
  | whole => exact hv.here
  | part hw _ ih => exact ih (hv.inside _ (Validator.mem_parts_of_mem_outputParts hw))
  | definition hw _ ih => exact ih (hdefs _ _ hw)

theorem leavesKeep_of_throughout {p : Validator → Prop}
    (hdefs : defs.Each (Validator.Throughout p)) (hv : v.Throughout p)
    (hp : ∀ l, p (.leaf l) → ∀ x y, P x → l.judge x = .accepted y → P y) : defs.LeavesKeep P v :=
  fun l hl => hp l (hl.throughout hdefs hv)

/-! ## Outputs and inputs -/

/-- What the leaves and the references keep is kept by every validator put together. -/
theorem output_keeps_of_references
    (href : ∀ name x y, defs.LeavesKeep P (.reference name) → P x →
      defs.run bound (.reference name) x = .accepted y → P y)
    (hv : defs.LeavesKeep P v) (hx : P x) (h : defs.run bound v x = .accepted y) : P y := by
  induction v using Validator.induction generalizing x y with
  | leaf l => exact hv l .whole x y hx (by simpa using h)
  | anyOf form vs ih =>
    simp only [run_anyOf, Outcome.mapReason_eq_accepted_iff, Outcome.firstOf_eq_accepted_iff] at h
    -- The output is that of the first branch that accepts, which is at an output position.
    obtain ⟨before, v, after, rfl, -, h⟩ := h
    have hmem : v ∈ before ++ v :: after := List.mem_append_right before List.mem_cons_self
    exact ih v hmem (hv.part hmem) hx h
  | allOf form vs _ =>
    simp only [run_allOf, Outcome.as_eq_accepted_iff] at h
    exact h.2 ▸ hx
  | not v _ =>
    rw [run_not_eq_accepted_iff] at h
    exact h.2 ▸ hx
  | pipe v w ihv ihw =>
    simp only [run_pipe, Outcome.bind_eq_accepted_iff] at h
    obtain ⟨z, hz, hy⟩ := h
    -- Both stages are at output positions, so the value in the middle has the property too.
    have hmiddle : P z := ihv (hv.part List.mem_cons_self) hx hz
    exact ihw (hv.part (List.mem_cons_of_mem v List.mem_cons_self)) hmiddle hy
  | explained message v ih =>
    simp only [run_explained, Outcome.behind_eq_accepted_iff] at h
    exact ih (hv.part List.mem_cons_self) hx h
  | sealed label v ih =>
    rw [run_sealed] at h
    exact ih (hv.part List.mem_cons_self) hx h
  | optional v ih =>
    rw [run_optional] at h
    split at h
    · cases h
      exact hx
    · exact ih (hv.part List.mem_cons_self) hx h
  | nullable v ih =>
    rw [run_nullable] at h
    split at h
    · cases h
      exact hx
    · exact ih (hv.part List.mem_cons_self) hx h
  | reference name => exact href name x y hv hx h
  -- What looks into a value gives this value back, whatever its parts give.
  | property key v options _ =>
    simp only [run_property, withObject_eq_accepted_iff] at h
    obtain ⟨o, -, -, rfl⟩ := h
    exact hx
  | shape fields options _ =>
    simp only [run_shape, withObject_eq_accepted_iff] at h
    obtain ⟨o, -, -, rfl⟩ := h
    exact hx
  | dictionary k v _ _ =>
    simp only [run_dictionary, withObject_eq_accepted_iff] at h
    obtain ⟨o, -, -, rfl⟩ := h
    exact hx
  | arrayOf v _ =>
    simp only [run_arrayOf, withElements_eq_accepted_iff] at h
    obtain ⟨elements, -, -, rfl⟩ := h
    exact hx
  | tuple vs _ =>
    simp only [run_tuple, withElements_eq_accepted_iff] at h
    obtain ⟨elements, -, -, rfl⟩ := h
    exact hx

/-- What the leaves at output positions keep is kept by the whole. -/
theorem output_keeps (hv : defs.LeavesKeep P v) (hx : P x)
    (h : defs.run bound v x = .accepted y) : P y := by
  -- The bound goes down where a definition is unfolded, the validator everywhere else.
  induction bound generalizing v x y with
  | zero =>
    refine output_keeps_of_references ?_ hv hx h
    intro name x y _ _ h
    rw [run_reference_zero] at h
    cases h
  | succ bound ih =>
    refine output_keeps_of_references ?_ hv hx h
    intro name x y hv hx h
    rw [run_reference_succ] at h
    cases hw : defs.lookup name with
    | none =>
      rw [hw] at h
      cases h
    | some w =>
      rw [hw] at h
      exact ih (hv.definition hw) hx h

/-- A validator gives the value back that it accepts, if nothing converts at an output position. -/
theorem output_eq_input (hv : ∀ l, defs.OutputPosition (.leaf l) v → l.converts = false)
    (h : defs.Returns v x (.accepted y)) : y = x := by
  obtain ⟨-, bound, hrun⟩ := h
  have hleaves : defs.LeavesKeep (· = x) v := by
    intro l hl z y hz hjudge
    rw [Leaf.output_eq (hv l hl) hjudge, hz]
  have hy := output_keeps hleaves rfl hrun
  exact hy

/-- Arrays of keys and of further such arrays. -/
def keyTrees : Definitions :=
  [("Tree", .checkedArray (.arrayOf (.anyOf .tuple [.ofType .key, .reference "Tree"])))]

theorem keyTrees_converts_eq_false {l : Leaf}
    (h : keyTrees.OutputPosition (.leaf l) (.reference "Tree")) : l.converts = false := by
  cases h with
  | part hw _ => cases hw
  | definition hw h =>
    cases hw
    cases h with
    | part hw h =>
      cases hw with
      | head =>
        cases h with
        | whole => rfl
        | part hw _ => cases hw
      | tail _ hw =>
        cases hw with
        | head =>
          cases h with
          | part hw _ => cases hw
        | tail _ hw => cases hw

/-- The array `[-0, []]`. -/
def keyTree : Value :=
  let empty : Object := .ofKind (.made [1]) (.array [])
  .object (.ofKind (.made []) (.array [.number (.signedZero true), .object empty]))

theorem keyTree_output_eq : ∃ y,
    keyTrees.Returns (.reference "Tree") keyTree (.accepted y) ∧ y = keyTree := by
  have hrun : keyTrees.run 2 (.reference "Tree") keyTree = .accepted keyTree := by rfl
  have hreturns := returns_of_run hrun (by simp)
  exact ⟨keyTree, hreturns, output_eq_input (fun _ => keyTrees_converts_eq_false) hreturns⟩

end Definitions

end Narrowing
