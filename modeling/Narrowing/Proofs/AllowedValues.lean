-- SUMMARY: A list of allowed values against the disjunction of its equalities.
import Narrowing.Proofs.Connectives
import Narrowing.Proofs.StrictEquality

/-!
# Allowed values

A list of allowed values accepts what a disjunction accepts that has an equality for each of them.
Both give the value back that was checked, which may differ from the allowed value that it is equal
to. The list rejects with one message that shows all allowed values, the disjunction with a message
for each (`Definitions.oneOf_as_disjunction`).
-/

namespace Narrowing

/-- A validator of the values that are equal to one of a list, each of which has a branch. -/
def Validator.equalToSome (form : Form) (allowed : List Value) : Validator :=
  .anyOf form (allowed.map fun v => .leaf (.equal v))

namespace Definitions

variable {defs : Definitions} {form : Form} {v x y : Value} {vs : List Value} {reason : Reason}

/-! ## One value -/

theorem returns_equal_accepted_iff :
    defs.Returns (.leaf (.equal v)) x (.accepted y) ↔ x.strictEq v = true ∧ y = x := by
  simp [returns_leaf_iff, Leaf.judge, @eq_comm _ y]

theorem returns_equal_rejected_iff :
    defs.Returns (.leaf (.equal v)) x (.rejected reason) ↔
      x.strictEq v = false ∧ reason = (Complaint.notEqual v).reason := by
  simp [returns_leaf_iff, Leaf.judge, @eq_comm _ reason]

theorem settles_equal : defs.Settles (.leaf (.equal v)) x :=
  settles_iff_run.2 ⟨0, by simp [Leaf.judge]⟩

/-! ## A list of values -/

theorem returns_oneOf_accepted_iff :
    defs.Returns (.leaf (.oneOf vs)) x (.accepted y) ↔
      (∃ v ∈ vs, x.strictEq v = true) ∧ y = x := by
  simp [returns_leaf_iff, Leaf.judge, x.strictEq_comm, @eq_comm _ y]

theorem returns_oneOf_rejected_iff :
    defs.Returns (.leaf (.oneOf vs)) x (.rejected reason) ↔
      (∀ v ∈ vs, x.strictEq v = false) ∧ reason = (Complaint.notAllowed vs).reason := by
  simp [returns_leaf_iff, Leaf.judge, x.strictEq_comm, @eq_comm _ reason]

theorem settles_oneOf : defs.Settles (.leaf (.oneOf vs)) x :=
  settles_iff_run.2 ⟨0, by simp [Leaf.judge]⟩

/-! ## A disjunction -/

theorem settles_equalToSome : defs.Settles (.equalToSome form vs) x := by
  apply settles_anyOf
  intro u hu
  obtain ⟨v, -, rfl⟩ := List.mem_map.1 hu
  exact settles_equal

/-- Each branch that rejects has the reason for its own value. -/
theorem forall₂_rejected_iff {reasons : List Reason} :
    List.Forall₂ (fun u r => defs.Returns u x (.rejected r))
        (vs.map fun v => .leaf (.equal v)) reasons ↔
      (∀ v ∈ vs, x.strictEq v = false) ∧
        vs.map (fun v => (Complaint.notEqual v).reason) = reasons := by
  rw [List.forall₂_map_left_iff, ← List.forall₂_eq_eq_eq, List.forall₂_map_left_iff,
    ← List.forall₂_and_left]
  simp only [returns_equal_rejected_iff, eq_comm]

theorem returns_equalToSome_rejected_iff :
    defs.Returns (.equalToSome form vs) x (.rejected reason) ↔
      (∀ v ∈ vs, x.strictEq v = false) ∧
        reason = .aggregate Complaint.noneSatisfied.text
          (vs.map fun v => (Complaint.notEqual v).reason) := by
  simp only [Validator.equalToSome, returns_anyOf_rejected_iff, forall₂_rejected_iff]
  constructor
  · rintro ⟨_, ⟨hvs, rfl⟩, rfl⟩
    exact ⟨hvs, rfl⟩
  · rintro ⟨hvs, rfl⟩
    exact ⟨_, ⟨hvs, rfl⟩, rfl⟩

theorem exists_strictEq_of_returns (h : defs.Returns (.equalToSome form vs) x (.accepted y)) :
    (∃ v ∈ vs, x.strictEq v = true) ∧ y = x := by
  obtain ⟨before, u, after, hvs, -, hu⟩ := returns_anyOf_accepted_iff.1 h
  have hmem : u ∈ vs.map fun v => Validator.leaf (.equal v) := by simp [hvs]
  obtain ⟨v, hv, rfl⟩ := List.mem_map.1 hmem
  obtain ⟨heq, hy⟩ := returns_equal_accepted_iff.1 hu
  exact ⟨⟨v, hv, heq⟩, hy⟩

theorem returns_equalToSome_accepted_iff :
    defs.Returns (.equalToSome form vs) x (.accepted y) ↔
      (∃ v ∈ vs, x.strictEq v = true) ∧ y = x := by
  refine ⟨exists_strictEq_of_returns, ?_⟩
  rintro ⟨⟨v, hv, heq⟩, rfl⟩
  have hsettles : defs.Settles (.equalToSome form vs) y := settles_equalToSome
  -- The first branch that accepts need not be the one for this value, but it gives the same.
  rcases hsettles.accepts_or_rejects with hacc | hrej
  · obtain ⟨z, hz⟩ := hacc
    obtain ⟨-, rfl⟩ := exists_strictEq_of_returns hz
    exact hz
  · obtain ⟨reason, hreason⟩ := hrej
    have hne : y.strictEq v = false := (returns_equalToSome_rejected_iff.1 hreason).1 v hv
    rw [hne] at heq
    cases heq

/-- A list of allowed values and the disjunction over them come to an end on every value and accept
the same. They accept a value if it is equal to an allowed one, and give the value itself. If it is
equal to none, the list gives one message with all allowed values, and the disjunction a message for
each of them, in the same order and with the same texts. -/
theorem oneOf_as_disjunction (defs : Definitions) (form : Form) (vs : List Value) (x : Value) :
    defs.Settles (.leaf (.oneOf vs)) x ∧ defs.Settles (.equalToSome form vs) x ∧
    (∀ y, defs.Returns (.leaf (.oneOf vs)) x (.accepted y) ↔
      defs.Returns (.equalToSome form vs) x (.accepted y)) ∧
    (∀ y, defs.Returns (.equalToSome form vs) x (.accepted y) ↔
      (∃ v ∈ vs, x.strictEq v = true) ∧ y = x) ∧
    (∀ reason, defs.Returns (.leaf (.oneOf vs)) x (.rejected reason) ↔
      (∀ v ∈ vs, x.strictEq v = false) ∧
        reason = .message ("The value is not one of the allowed values: " ++
          ", ".intercalate (vs.map Value.display) ++ ".")) ∧
    (∀ reason, defs.Returns (.equalToSome form vs) x (.rejected reason) ↔
      (∀ v ∈ vs, x.strictEq v = false) ∧
        reason = .because "The value does not satisfy any of the validators."
          (.several ((vs.map Value.display).map fun text =>
            .message ("The value is not equal to " ++ text ++ ".")))) := by
  refine ⟨settles_oneOf, settles_equalToSome, fun y => ?_,
    fun y => returns_equalToSome_accepted_iff, fun reason => returns_oneOf_rejected_iff,
    fun reason => ?_⟩
  · rw [returns_oneOf_accepted_iff, returns_equalToSome_accepted_iff]
  · rw [returns_equalToSome_rejected_iff, List.map_map]
    rfl

end Definitions

end Narrowing
