-- SUMMARY: Objects with the same properties, in particular a boxed string and the array of its characters.
import Narrowing.Proofs.Equivariance
import Narrowing.Proofs.OwnKeys

/-!
# Strings as arrays of their characters

The object that stands in for a string has the same properties as the array of its characters
(`Object.sameProperties_characters`). What looks at nothing but the properties of an object, the
checks of properties, shapes, dictionaries and keys, cannot tell two such objects apart
(`Object.SameProperties`).
-/

namespace Narrowing

/-! ## Objects with the same properties -/

namespace Object

/-- Two objects have the same own keys in the same order, the same own values and one prototype. -/
structure SameProperties (o p : Object) : Prop where
  ownKeys : o.ownKeys = p.ownKeys
  getOwn (key : PropertyKey) : o.getOwn key = p.getOwn key
  prototype : o.prototype = p.prototype

namespace SameProperties

variable {o p : Object} (h : o.SameProperties p)
include h

theorem hasOwn (key : PropertyKey) : o.hasOwn key = p.hasOwn key := by
  rw [hasOwn_eq_isSome_getOwn, hasOwn_eq_isSome_getOwn, h.getOwn]

theorem find? (ownOnly : Bool) (key : PropertyKey) : o.find? ownOnly key = p.find? ownOnly key := by
  cases ownOnly with
  | true => exact h.getOwn key
  | false => simp only [Object.find?, get, chain_eq o, chain_eq p, List.findSome?_cons, h.getOwn,
      h.prototype]

theorem hasKey (ownOnly : Bool) (key : PropertyKey) :
    o.hasKey ownOnly key = p.hasKey ownOnly key := by
  rw [hasKey_eq_isSome_find?, hasKey_eq_isSome_find?, h.find?]

/-! ### Checks of one object -/

theorem checkProperty (key : PropertyKey) (options : PropertyOptions) (check : Value → Verdict) :
    checkProperty o key options check = checkProperty p key options check := by
  unfold Narrowing.checkProperty
  rw [h.find?]

theorem checkEntry (checkKey checkValue : Value → Verdict) (key : PropertyKey) :
    checkEntry o checkKey checkValue key = checkEntry p checkKey checkValue key := by
  unfold Narrowing.checkEntry
  rw [h.getOwn]

theorem checkExtra (defined : List PropertyKey) : checkExtra o defined = checkExtra p defined := by
  unfold Narrowing.checkExtra
  rw [h.ownKeys]

theorem judge_keyOf (options : KeyOptions) (x : Value) :
    (Leaf.keyOf o options).judge x = (Leaf.keyOf p options).judge x := by
  simp only [Leaf.judge, h.hasKey]

end SameProperties

end Object

theorem as_withObject (o : Object) (check : Object → Outcome Reason Unit) :
    (withObject (.object o) check).as () = check o := by
  cases h : check o <;> simp [withObject, h, Outcome.as]

namespace Definitions

variable {defs : Definitions} {v w : Validator} {x y : Value} {o p : Object}

variable (defs) in
/-- Two validators, each on a value of its own, both accept or both reject with the same reason. -/
structure SameVerdict (v : Validator) (x : Value) (w : Validator) (y : Value) : Prop where
  accepts_iff : defs.Accepts v x ↔ defs.Accepts w y
  rejected_iff (reason : Reason) :
    defs.Returns v x (.rejected reason) ↔ defs.Returns w y (.rejected reason)

/-- Verdicts are the same if runs differ by their outputs at most. -/
theorem sameVerdict_of_run (h : ∀ bound, (defs.run bound v x).as () = (defs.run bound w y).as ()) :
    defs.SameVerdict v x w y := by
  have haccepted (bound : Nat) :
      (∃ z, defs.run bound v x = .accepted z) ↔ ∃ z, defs.run bound w y = .accepted z := by
    have := congrArg Outcome.isAccepted (h bound)
    cases hv : defs.run bound v x <;> cases hw : defs.run bound w y <;>
      simp [hv, hw, Outcome.as, Outcome.isAccepted] at this ⊢
  have hrejected (bound : Nat) (reason : Reason) :
      defs.run bound v x = .rejected reason ↔ defs.run bound w y = .rejected reason := by
    have hreason := congrArg (· = Outcome.rejected reason) (h bound)
    simpa using hreason
  refine ⟨⟨?_, ?_⟩, fun reason => ?_⟩
  · rintro ⟨z, -, bound, hz⟩
    obtain ⟨z', hz'⟩ := (haccepted bound).1 ⟨z, hz⟩
    exact accepts_of_run hz'
  · rintro ⟨z, -, bound, hz⟩
    obtain ⟨z', hz'⟩ := (haccepted bound).2 ⟨z, hz⟩
    exact accepts_of_run hz'
  · simp only [Returns, hrejected]

/-! ## Validators of objects -/

theorem property_sameVerdict (h : o.SameProperties p) (key : PropertyKey) (v : Validator)
    (options : PropertyOptions) :
    defs.SameVerdict (.property key v options) (.object o) (.property key v options)
      (.object p) := by
  refine sameVerdict_of_run fun bound => ?_
  rw [run_property, run_property, as_withObject, as_withObject, h.checkProperty]

theorem shape_sameVerdict (h : o.SameProperties p) (fields : List (Field Validator))
    (options : ShapeOptions) :
    defs.SameVerdict (.shape fields options) (.object o) (.shape fields options) (.object p) := by
  refine sameVerdict_of_run fun bound => ?_
  simp only [run_shape, as_withObject, h.checkProperty, h.checkExtra]

/-- Of an object, a dictionary looks at the own keys and the values under them only. -/
theorem run_dictionary_as_of_entries (hkeys : o.ownKeys = p.ownKeys)
    (hvalues : ∀ key ∈ o.ownKeys, o.getOwn key = p.getOwn key) (bound : Nat) (k v : Validator) :
    (defs.run bound (.dictionary k v) (.object o)).as () =
      (defs.run bound (.dictionary k v) (.object p)).as () := by
  rw [run_dictionary, run_dictionary, as_withObject, as_withObject, ← hkeys]
  apply Outcome.forEach_congr
  intro key hkey
  unfold checkEntry
  rw [hvalues key hkey]

theorem run_dictionary_as (h : o.SameProperties p) (bound : Nat) (k v : Validator) :
    (defs.run bound (.dictionary k v) (.object o)).as () =
      (defs.run bound (.dictionary k v) (.object p)).as () :=
  run_dictionary_as_of_entries h.ownKeys (fun key _ => h.getOwn key) bound k v

/-- A dictionary of a value that is turned into an object, and one of a value that is one. -/
theorem coerced_sameVerdict_checked (h : x.toObject.SameProperties p) (k v : Validator) :
    defs.SameVerdict (.coerced (.dictionary k v)) x (.checked (.dictionary k v)) (.object p) := by
  refine sameVerdict_of_run fun bound => ?_
  rw [run_coerced, run_checked]
  exact run_dictionary_as h bound k v

end Definitions

/-! ## Characters -/

/-- The characters of a string, each as a string. -/
def characters (s : String) : List Value :=
  s.toList.map fun c => .string (.singleton c)

namespace ObjectKind

theorem indexed?_characters (s : String) (index : Nat) :
    (wrapper (.string s)).indexed? index = (array (characters s)).indexed? index :=
  (List.getElem?_map ..).symm

theorem named?_characters (s name : String) :
    (wrapper (.string s)).named? name = (array (characters s)).named? name := by
  simp only [named?, characters, List.length_map]

/-- A string comes with the same values under the same keys as the array of its characters. -/
theorem slot?_characters (s : String) (key : PropertyKey) :
    (wrapper (.string s)).slot? key = (array (characters s)).slot? key := by
  cases key with
  | symbol name => rfl
  | text name =>
    have hindexed : (wrapper (.string s)).indexed? = (array (characters s)).indexed? :=
      funext (indexed?_characters s)
    rw [slot?, slot?, named?_characters, hindexed]

end ObjectKind

theorem Object.sameProperties_characters (s : String) (i j : Identity)
    (ps : List (PropertyKey × Value)) (p : Option Object) (c d : Option Class) :
    (Object.mk i (.wrapper (.string s)) ps p c).SameProperties
      (.mk j (.array (characters s)) ps p d) where
  ownKeys := by simp [ownKeys, ObjectKind.indexCount, characters]
  getOwn key := by simp [getOwn, ObjectKind.slot?_characters]
  prototype := rfl

/-- The object that stands in for a string cannot be told from the array of its characters by its
properties: neither by own keys and values, nor by a validator of properties, shapes, dictionaries
or keys. So a dictionary takes the string, turned into an object, if it takes the array. -/
theorem Definitions.string_like_characters (defs : Definitions) (s : String) (i j : Identity)
    (ps : List (PropertyKey × Value)) (p : Option Object) (c d : Option Class) :
    let b := Object.mk i (.wrapper (.string s)) ps p c
    let a := Object.mk j (.array (characters s)) ps p d
    b.ownKeys = a.ownKeys ∧
      (∀ key, b.hasOwn key = a.hasOwn key ∧ b.getOwn key = a.getOwn key) ∧
      (∀ key v options, defs.SameVerdict (.property key v options) (.object b)
        (.property key v options) (.object a)) ∧
      (∀ fields options, defs.SameVerdict (.shape fields options) (.object b)
        (.shape fields options) (.object a)) ∧
      (∀ k v, defs.SameVerdict (.dictionary k v) (.object b) (.dictionary k v) (.object a)) ∧
      (∀ options x, (Leaf.keyOf b options).judge x = (Leaf.keyOf a options).judge x) ∧
      ∀ k v, defs.SameVerdict (.coerced (.dictionary k v)) (.string s)
        (.checked (.dictionary k v)) (.object (.ofKind j (.array (characters s)))) := by
  intro b a
  have h : b.SameProperties a := Object.sameProperties_characters s i j ps p c d
  refine ⟨h.ownKeys, fun key => ⟨h.hasOwn key, h.getOwn key⟩, property_sameVerdict h,
    shape_sameVerdict h, fun k v => ?_, h.judge_keyOf, fun k v => ?_⟩
  · exact sameVerdict_of_run fun bound => run_dictionary_as h bound k v
  · -- What a string is turned into has no table of its own.
    have hstring : (Value.string s).toObject.SameProperties (.ofKind j (.array (characters s))) :=
      Object.sameProperties_characters ..
    exact coerced_sameVerdict_checked hstring k v

-- Characters are counted, whatever the length of their encoding.
example : (Value.string "a→b").toObject.getOwn (.ofIndex 2) = some (.string "b") := by rfl

end Narrowing
