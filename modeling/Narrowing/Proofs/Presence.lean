-- SUMMARY: Presence of a key against the property check, and lookup along prototypes.
import Narrowing.Proofs.Calls

/-!
# Presence of properties

A key is accepted as a key of an object if and only if the object is accepted as one with a property
under it (`Definitions.keyOf_as_property`). One of the two checks asks whether the key is there, the
other looks for a value, and a key is there exactly if a value is found
(`Object.hasKey_eq_isSome_find?`), be it undefined.

An inherited property is looked for from the object upwards. The value that is found is the own
value of the first object that has the key (`Object.get_eq_some_iff`).
-/

namespace Narrowing

/-! ## Lookup along the prototypes -/

namespace Object

variable {o p : Object} {key : PropertyKey} {x : Value}

theorem getOwn_eq_none_iff : o.getOwn key = none ↔ o.hasOwn key = false := by
  rw [hasOwn_eq_isSome_getOwn, Option.isSome_eq_false_iff, Option.isNone_iff_eq_none]

theorem get_of_hasOwn (h : o.hasOwn key = true) : o.get key = o.getOwn key := by
  rw [hasOwn_eq_isSome_getOwn, Option.isSome_iff_exists] at h
  obtain ⟨x, hx⟩ := h
  rw [get, chain_eq, List.findSome?_cons, hx]

/-- What an object does not have as its own it has from its prototype. -/
theorem get_of_not_hasOwn (h : o.hasOwn key = false) :
    o.get key = o.prototype.bind fun p => p.get key := by
  rw [get, chain_eq, List.findSome?_cons, getOwn_eq_none_iff.2 h]
  cases o.prototype <;> rfl

/-- The first object with a key of its own, from an object on up its prototypes. -/
inductive NearestWith (key : PropertyKey) : Object → Object → Prop
  | here {o : Object} (h : o.hasOwn key = true) : NearestWith key o o
  | above {o p q : Object} (h : o.hasOwn key = false) (hp : o.prototype = some p)
      (hq : NearestWith key p q) : NearestWith key o q

theorem NearestWith.hasOwn (h : o.NearestWith key p) : p.hasOwn key = true := by
  induction h with
  | here h => exact h
  | above _ _ _ ih => exact ih

theorem NearestWith.get_eq (h : o.NearestWith key p) : o.get key = p.getOwn key := by
  induction h with
  | here h => exact get_of_hasOwn h
  | above h hp _ ih => rw [get_of_not_hasOwn h, hp, Option.bind_some, ih]

theorem exists_nearestWith_of_get (h : o.get key = some x) : ∃ p, o.NearestWith key p := by
  fun_induction chain o with
  | case1 i k ps c =>
    cases hown : (mk i k ps none c).hasOwn key with
    | true => exact ⟨_, .here hown⟩
    | false =>
      rw [get_of_not_hasOwn hown] at h
      cases h
  | case2 i k ps prototype c ih =>
    cases hown : (mk i k ps (some prototype) c).hasOwn key with
    | true => exact ⟨_, .here hown⟩
    | false =>
      rw [get_of_not_hasOwn hown] at h
      obtain ⟨p, hp⟩ := ih h
      exact ⟨p, .above hown rfl hp⟩

/-- A property is found if some object has it, and it has the value that it has in the first such
one. -/
theorem get_eq_some_iff :
    o.get key = some x ↔ ∃ p, o.NearestWith key p ∧ p.getOwn key = some x := by
  constructor
  · intro h
    obtain ⟨p, hp⟩ := exists_nearestWith_of_get h
    exact ⟨p, hp, hp.get_eq ▸ h⟩
  · rintro ⟨p, hp, hx⟩
    rw [hp.get_eq, hx]

theorem get_eq_none_iff : o.get key = none ↔ ∀ p, ¬ o.NearestWith key p := by
  constructor
  · intro h p hp
    have hown := hp.hasOwn
    rw [hasOwn_eq_isSome_getOwn, ← hp.get_eq, h] at hown
    cases hown
  · intro h
    rw [Option.eq_none_iff_forall_ne_some]
    intro x hx
    obtain ⟨p, hp⟩ := exists_nearestWith_of_get hx
    exact h p hp

end Object

/-! ## Checks of a property -/

namespace Definitions

variable {defs : Definitions} {bound : Nat} {v w : Validator} {o : Object} {key : PropertyKey}
  {options : PropertyOptions} {x : Value} {ownOnly mayBeMissing : Bool}

theorem run_property_of_find? (hx : o.find? options.ownOnly key = some x) :
    defs.run bound (.property key v options) (.object o) =
      ((defs.run bound v x).behind (Complaint.invalidProperty key).text).as (.object o) := by
  rw [run_property, withObject, checkProperty_of_find? hx]
  cases defs.run bound v x <;> rfl

theorem run_property_of_missing (h : o.find? options.ownOnly key = none) :
    defs.run bound (.property key v options) (.object o) =
      .ensure options.mayBeMissing (Complaint.missingProperty key).reason (.object o) := by
  rw [run_property, withObject, checkProperty_of_missing h]
  cases options.mayBeMissing <;> rfl

/-- The validator of a property is run on the value that is found, and on nothing else. -/
theorem calls_property_iff :
    defs.Calls (.property key v options) (.object o) w x ↔
      w = v ∧ o.find? options.ownOnly key = some x := by
  constructor
  · intro h
    cases h with
    | property hx => exact ⟨rfl, hx⟩
  · rintro ⟨rfl, hx⟩
    exact .property hx

theorem run_property_value (bound : Nat) :
    defs.run bound (.property key (.ofType .value) ⟨ownOnly, false⟩) (.object o) =
      .ensure (o.hasKey ownOnly key) (Complaint.missingProperty key).reason (.object o) := by
  rw [Object.hasKey_eq_isSome_find?]
  cases hx : o.find? ownOnly key with
  | some x =>
    rw [run_property_of_find? hx, run_leaf]
    rfl
  | none => exact run_property_of_missing hx

theorem run_keyOf (bound : Nat) :
    defs.run bound (.leaf (.keyOf o ⟨ownOnly⟩)) key.toValue =
      .ensure (o.hasKey ownOnly key) (Complaint.notKey key).reason key.toValue := by
  rw [run_leaf, Leaf.judge, Value.key?_toValue]

/-! ## Keys and properties -/

/-- A key is accepted as a key of an object if and only if the object is accepted as one with any
property under it, whether inherited properties count or not. Both checks come to an end.

If inherited ones count, the validator of a property is run on one value only, which is the own
value of the first object from the given one upwards that has the key. Any such value is handed on,
and what the validator says of it is the verdict. If there is no such object, the validator is not
run. -/
theorem keyOf_as_property (defs : Definitions) (o : Object) (key : PropertyKey) :
    (∀ ownOnly,
      defs.Settles (.leaf (.keyOf o ⟨ownOnly⟩)) key.toValue ∧
      defs.Settles (.property key (.ofType .value) ⟨ownOnly, false⟩) (.object o) ∧
      (defs.Accepts (.leaf (.keyOf o ⟨ownOnly⟩)) key.toValue ↔
        defs.Accepts (.property key (.ofType .value) ⟨ownOnly, false⟩) (.object o))) ∧
    (∀ v mayBeMissing w x,
      defs.Calls (.property key v ⟨false, mayBeMissing⟩) (.object o) w x ↔
        w = v ∧ ∃ p, o.NearestWith key p ∧ p.getOwn key = some x) ∧
    ((∃ p x, o.NearestWith key p ∧ p.getOwn key = some x ∧ ∀ v mayBeMissing bound,
        defs.run bound (.property key v ⟨false, mayBeMissing⟩) (.object o) =
          ((defs.run bound v x).behind (Complaint.invalidProperty key).text).as (.object o)) ∨
      (∀ p, ¬ o.NearestWith key p) ∧ ∀ v mayBeMissing bound,
        defs.run bound (.property key v ⟨false, mayBeMissing⟩) (.object o) =
          .ensure mayBeMissing (Complaint.missingProperty key).reason (.object o)) := by
  refine ⟨fun ownOnly => ⟨settles_of_ensure run_keyOf, settles_of_ensure run_property_value, ?_⟩,
    fun v mayBeMissing w x => ?_, ?_⟩
  · rw [accepts_iff_of_ensure run_keyOf, accepts_iff_of_ensure run_property_value]
  · rw [calls_property_iff, ← Object.get_eq_some_iff]
    rfl
  · cases hx : o.get key with
    | some x =>
      obtain ⟨p, hp, hown⟩ := Object.get_eq_some_iff.1 hx
      exact .inl ⟨p, x, hp, hown, fun v mayBeMissing bound => run_property_of_find? hx⟩
    | none =>
      exact .inr ⟨Object.get_eq_none_iff.1 hx, fun v mayBeMissing bound =>
        run_property_of_missing hx⟩

-- An own property hides an inherited one even if it is undefined, and the length of an array hides
-- what was set under its name.
example :
    let parent : Object := .mk (.made [0]) (.array [.null])
      [(.text "length", .undefined), (.text "a", .null)] none none
    let o : Object := .mk (.made []) .ordinary [(.text "a", .undefined)] (some parent) none
    run [] 0 (.allOf .list [.property (.text "a") (.leaf .undefined) ⟨false, false⟩,
      .property (.text "length") (.ofType .number) ⟨false, false⟩]) (.object o) =
      .accepted (.object o) := by
  rfl

end Definitions

end Narrowing
