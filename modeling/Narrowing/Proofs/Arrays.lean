-- SUMMARY: Arrays checked as lists and as objects: element checks against dictionaries, tuples against shapes.
import Narrowing.Proofs.Counts
import Narrowing.Proofs.Dictionaries
import Narrowing.Proofs.Shapes

/-!
# Arrays as objects

The elements of an array are its properties under index keys. So an array can be checked as a list
or as an object: a check of all elements is a dictionary of any keys
(`Definitions.list_as_dictionary`), and a tuple is the shape of its length and its indices
(`Definitions.tuple_as_shape`). The two ways agree, and where both reject, both blame the same index
around the same cause (`Reason.SameIndex`).
-/

namespace Narrowing

/-! ## Checks that correspond -/

namespace Outcome

variable {ε ε' α β γ : Type} {r : ε → ε' → Prop} {x : Outcome ε α} {y : Outcome ε' α}

/-- Two checks correspond: both accept with one output, or both reject with reasons that are
related, or both are unsettled. -/
inductive Paired (r : ε → ε' → Prop) : Outcome ε α → Outcome ε' α → Prop
  | accepted (a : α) : Paired r (.accepted a) (.accepted a)
  | rejected {reason : ε} {reason' : ε'} (h : r reason reason') :
      Paired r (.rejected reason) (.rejected reason')
  | unsettled : Paired r .unsettled .unsettled

namespace Paired

theorem bind {f : α → Outcome ε β} {g : α → Outcome ε' β} (h : Paired r x y)
    (hf : ∀ a, Paired r (f a) (g a)) : Paired r (x.bind f) (y.bind g) := by
  cases h with
  | accepted a => exact hf a
  | rejected h => exact .rejected h
  | unsettled => exact .unsettled

theorem as (output : β) (h : Paired r x y) : Paired r (x.as output) (y.as output) := by
  cases h with
  | accepted a => exact .accepted output
  | rejected h => exact .rejected h
  | unsettled => exact .unsettled

theorem imp {s : ε → ε' → Prop} (h : Paired r x y) (hr : ∀ reason reason', r reason reason' →
    s reason reason') : Paired s x y := by
  cases h with
  | accepted a => exact .accepted a
  | rejected h => exact .rejected (hr _ _ h)
  | unsettled => exact .unsettled

theorem forEach {check : γ → Outcome ε α} {check' : γ → Outcome ε' α} {cs : List γ}
    (h : ∀ c ∈ cs, Paired r (check c) (check' c)) :
    Paired r (Outcome.forEach check cs) (Outcome.forEach check' cs) := by
  induction cs with
  | nil => exact .accepted ()
  | cons c rest ih =>
    have htail := ih fun d hd => h d (List.mem_cons_of_mem c hd)
    exact (h c List.mem_cons_self).bind fun _ => htail

theorem accepted_iff (h : Paired r x y) {a : α} : x = .accepted a ↔ y = .accepted a := by
  cases h <;> simp

theorem exists_of_rejected {reason : ε} (h : Paired r x y) (hx : x = .rejected reason) :
    ∃ reason', r reason reason' ∧ y = .rejected reason' := by
  subst hx
  cases h with
  | rejected hr => exact ⟨_, hr, rfl⟩

theorem exists_rejected_of {reason' : ε'} (h : Paired r x y) (hy : y = .rejected reason') :
    ∃ reason, r reason reason' ∧ x = .rejected reason := by
  subst hy
  cases h with
  | rejected hr => exact ⟨_, hr, rfl⟩

end Paired

end Outcome

/-! ## The two ways to blame an element -/

/-- Both reasons blame the same index below a length, one as the position of an element and one as
the key of a property, around the same cause. -/
inductive Reason.SameIndex (length : Nat) : Reason → Reason → Prop
  | intro {index : Nat} (hindex : index < length) (cause : Reason) :
      SameIndex length
        (.because ("The element at index " ++ toString index ++ " is invalid.") cause)
        (.because ("The property \"" ++ toString index ++ "\" is invalid.") cause)

/-- What blames an element tells what blames the property. -/
theorem Reason.SameIndex.eq_property {length : Nat} (index : Nat) {cause r : Reason}
    (h : SameIndex length
      (.because ("The element at index " ++ toString index ++ " is invalid.") cause) r) :
    r = .because ("The property \"" ++ toString index ++ "\" is invalid.") cause := by
  generalize hreason : Reason.because _ cause = reason at h
  cases h with
  | @intro i hindex cause' =>
    obtain ⟨htext, rfl⟩ := Reason.because.inj hreason
    have hnumeral : toString index = toString i := by
      apply String.toList_injective
      simpa using congrArg String.toList htext
    rw [hnumeral]

theorem Complaint.text_invalidProperty_ofIndex (index : Nat) :
    (invalidProperty (.ofIndex index)).text =
      "The property \"" ++ toString index ++ "\" is invalid." :=
  text_invalidProperty _

/-- A check of an element, and the same check of the value under its index. -/
theorem checkElement_paired {length index : Nat} (hindex : index < length) (check : Value → Verdict)
    (x : Value) :
    (checkElement check x index).Paired (Reason.SameIndex length)
      (((check x).behind (Complaint.invalidProperty (.ofIndex index)).text).as ()) := by
  rw [Complaint.text_invalidProperty_ofIndex]
  unfold checkElement
  cases check x with
  | accepted y => exact .accepted ()
  | rejected cause => exact .rejected (.intro hindex cause)
  | unsettled => exact .unsettled

/-! ## Elements as properties -/

theorem Value.elements?_object {o : Object} {elements : List Value}
    (hkind : o.kind = .array elements) : (Value.object o).elements? = some elements :=
  elements?_eq_some_iff.2 ⟨o, rfl, hkind⟩

namespace Object

variable {o : Object} {elements : List Value} {x : Value} {index : Nat}

/-- Whatever else is set on an array, its elements are found under their indices. -/
theorem getOwn_element (hkind : o.kind = .array elements) (hx : elements[index]? = some x)
    (hindex : index < PropertyKey.indexLimit) : o.getOwn (.ofIndex index) = some x := by
  have hslot : o.kind.slot? (.ofIndex index) = some x := by
    rw [ObjectKind.slot?_ofIndex, if_pos hindex, hkind]
    exact hx
  unfold getOwn
  rw [hslot]

/-- Whatever else is set on an array, its length is found under its name. -/
theorem getOwn_length (hkind : o.kind = .array elements) :
    o.getOwn (.text "length") = some (ObjectKind.countValue elements.length) := by
  unfold getOwn
  rw [hkind]
  rfl

/-- An array without a table is enumerated by its indices. -/
theorem ownKeys_array (i : Identity) (p : Option Object) (c : Option Class) :
    (Object.mk i (.array elements) [] p c).ownKeys =
      elements.zipIdx.map fun (_, index) => PropertyKey.ofIndex index := by
  have hindices : elements.zipIdx.map Prod.snd = List.range elements.length := by
    rw [List.zipIdx_map_snd, List.range_eq_range']
  simp only [ownKeys, indicesOf, ObjectKind.indexCount, kind_mk, properties_mk, List.map_nil,
    List.filterMap_nil, List.foldr_nil, List.filter_nil, List.append_nil, ← hindices, List.map_map]
  rfl

end Object

namespace Definitions

variable {defs : Definitions} {v w : Validator} {x : Value} {o : Object} {elements : List Value}

/-- Two validators correspond on a value: they accept it with the same outputs, and for each reason
of one of them there is a related one of the other. -/
structure Corresponds (defs : Definitions) (r : Reason → Reason → Prop) (v w : Validator)
    (x : Value) : Prop where
  accepted_iff (y : Value) : defs.Returns v x (.accepted y) ↔ defs.Returns w x (.accepted y)
  rejected {reason : Reason} (h : defs.Returns v x (.rejected reason)) :
    ∃ reason', r reason reason' ∧ defs.Returns w x (.rejected reason')
  rejected_of {reason' : Reason} (h : defs.Returns w x (.rejected reason')) :
    ∃ reason, r reason reason' ∧ defs.Returns v x (.rejected reason)

theorem corresponds_of_run {r : Reason → Reason → Prop}
    (h : ∀ bound, (defs.run bound v x).Paired r (defs.run bound w x)) :
    defs.Corresponds r v w x where
  accepted_iff y := by
    simp only [Returns, (h _).accepted_iff]
  rejected := by
    rintro reason ⟨-, bound, hrun⟩
    obtain ⟨reason', hr, hrun'⟩ := (h bound).exists_of_rejected hrun
    exact ⟨reason', hr, returns_of_run hrun' (by simp)⟩
  rejected_of := by
    rintro reason' ⟨-, bound, hrun'⟩
    obtain ⟨reason, hr, hrun⟩ := (h bound).exists_rejected_of hrun'
    exact ⟨reason, hr, returns_of_run hrun (by simp)⟩

/-! ## Lists and dictionaries -/

theorem run_arrayOf_array (bound : Nat) (hkind : o.kind = .array elements) :
    defs.run bound (.arrayOf v) (.object o) =
      (Outcome.forEach (fun p => checkElement (defs.run bound v) p.1 p.2) elements.zipIdx).as
        (.object o) := by
  rw [run_arrayOf, withElements, Value.elements?_object hkind]

/-- An entry under a key that nothing is asked of is the property under the key. -/
theorem checkEntry_of_getOwn {key : PropertyKey} (bound : Nat) (hx : o.getOwn key = some x)
    (check : Value → Verdict) :
    checkEntry o (defs.run bound (.ofType .value)) check key =
      ((check x).behind (Complaint.invalidProperty key).text).as () := by
  have hkey : defs.run bound (.ofType .value) key.toValue = .accepted key.toValue := by
    rw [run_leaf]
    rfl
  unfold checkEntry
  rw [hkey, hx]
  rfl

theorem run_arrayOf_paired {i : Identity} {p : Option Object} {c : Option Class}
    (hlength : elements.length ≤ PropertyKey.indexLimit) (v : Validator) (bound : Nat) :
    let x := Value.object (.mk i (.array elements) [] p c)
    (defs.run bound (.arrayOf v) x).Paired (Reason.SameIndex elements.length)
      (defs.run bound (.dictionary (.ofType .value) v) x) := by
  intro x
  rw [run_arrayOf_array bound rfl, run_dictionary_object, Object.ownKeys_array, Outcome.forEach_map]
  refine (Outcome.Paired.forEach ?_).as _
  rintro ⟨y, index⟩ hmem
  have hy : elements[index]? = some y := List.mk_mem_zipIdx_iff_getElem?.1 hmem
  obtain ⟨hindex, -⟩ := List.getElem?_eq_some_iff.1 hy
  have hown := Object.getOwn_element (o := .mk i (.array elements) [] p c) rfl hy
    (Nat.lt_of_lt_of_le hindex hlength)
  rw [checkEntry_of_getOwn bound hown]
  exact checkElement_paired hindex _ y

/-- An array of which nothing was set but elements, no more of them than there are indices, is a
list and a dictionary: a check of all elements accepts it as the dictionary of any keys does, and
the two blame the same index around the same cause. -/
theorem list_as_dictionary (defs : Definitions) (v : Validator) (i : Identity)
    (elements : List Value) (p : Option Object) (c : Option Class)
    (hlength : elements.length ≤ PropertyKey.indexLimit) :
    defs.Corresponds (Reason.SameIndex elements.length) (.arrayOf v)
      (.dictionary (.ofType .value) v) (.object (.mk i (.array elements) [] p c)) :=
  corresponds_of_run (run_arrayOf_paired hlength v)

/-- An array of twelve elements, of which the third and the eleventh are no strings. -/
def twelveItems : List Value :=
  [.string "a", .string "b", .null, .string "d", .string "e", .string "f", .string "g", .string "h",
    .string "i", .string "j", .undefined, .string "l"]

theorem twelveItems_refused :
    let x := Value.object (.mk (.made []) (.array twelveItems) [] none none)
    let cause := Reason.message "The value is not a string."
    twelveItems.length ≤ PropertyKey.indexLimit ∧
      Returns [] (.arrayOf (.ofType .string)) x
        (.rejected (.because "The element at index 2 is invalid." cause)) ∧
      Returns [] (.dictionary (.ofType .value) (.ofType .string)) x
        (.rejected (.because "The property \"2\" is invalid." cause)) := by
  intro x cause
  have hlength : twelveItems.length ≤ PropertyKey.indexLimit := by decide
  have hlist : Returns [] (.arrayOf (.ofType .string)) x
      (.rejected (.because "The element at index 2 is invalid." cause)) :=
    ⟨by simp, 0, rfl⟩
  obtain ⟨reason, hsame, hdictionary⟩ :=
    (list_as_dictionary [] (.ofType .string) (.made []) twelveItems none none hlength).rejected
      hlist
  obtain rfl := hsame.eq_property 2
  exact ⟨hlength, hlist, hdictionary⟩

end Definitions

/-! ## Tuples and shapes -/

/-- The shape of the arrays with a fixed number of elements: first their length, then each element
under its index. -/
def Shape.ofElements (vs : List Validator) : Shape where
  fields :=
    ⟨.text "length", false, .leaf (.equal (ObjectKind.countValue vs.length))⟩ ::
      vs.zipIdx.map fun (v, index) => ⟨.ofIndex index, false, v⟩

/-- How arrays of some length are refused where another is expected: for the length, whatever their
elements are, or at an index. -/
inductive Reason.SameMisfit (found expected : Nat) : Reason → Reason → Prop
  | length (hlength : found ≠ expected) :
      SameMisfit found expected
        (.message ("The array has " ++ toString found ++
          (if found = 1 then " element" else " elements") ++ ", expected exactly " ++
            toString expected ++ "."))
        (.because "The property \"length\" is invalid."
          (.message ("The value is not equal to " ++
            (ObjectKind.countValue expected).display ++ ".")))
  | element {r s : Reason} (hlength : found = expected) (h : SameIndex expected r s) :
      SameMisfit found expected r s

theorem Reason.SameMisfit.sameIndex {found expected : Nat} {r s : Reason}
    (h : SameMisfit found expected r s) (hlength : found = expected) : SameIndex expected r s := by
  cases h with
  | length hne => exact absurd hlength hne
  | element _ h => exact h

theorem ObjectKind.countValue_strictEq {m n : Nat} (hn : n ≤ PropertyKey.indexLimit) :
    (countValue m).strictEq (countValue n) = decide (m = n) := by
  have hlt : n < 2 ^ 53 := by
    unfold PropertyKey.indexLimit at hn
    omega
  rw [Bool.eq_iff_iff, decide_eq_true_iff]
  exact Binary64.sameNumber_ofInt_iff hlt

namespace Definitions

variable {defs : Definitions} {v : Validator} {vs : List Validator} {o : Object}
  {elements : List Value}

/-- The check of the length of an array. -/
theorem checkProperty_length {options : PropertyOptions} (bound : Nat) {expected : Nat}
    (hkind : o.kind = .array elements) (hown : options.ownOnly = true)
    (hexpected : expected ≤ PropertyKey.indexLimit) :
    checkProperty o (.text "length") options
        (defs.run bound (.leaf (.equal (ObjectKind.countValue expected)))) =
      if elements.length = expected then .accepted () else
        .rejected (.because "The property \"length\" is invalid."
          (.message ("The value is not equal to " ++
            (ObjectKind.countValue expected).display ++ "."))) := by
  have hlength : o.find? options.ownOnly (.text "length") =
      some (ObjectKind.countValue elements.length) := by
    rw [hown]
    exact Object.getOwn_length hkind
  rw [checkProperty_of_find? hlength, run_leaf, Leaf.judge,
    ObjectKind.countValue_strictEq hexpected]
  by_cases h : elements.length = expected
  · simp [h, Outcome.ensure, Outcome.as, Outcome.behind]
  · have hinvalid : (Complaint.invalidProperty (.text "length")).text =
        "The property \"length\" is invalid." := by decide
    rw [decide_eq_false h, if_neg h, hinvalid]
    rfl

theorem run_tuple_array (bound : Nat) (hkind : o.kind = .array elements) :
    defs.run bound (.tuple vs) (.object o) =
      (if elements.length = vs.length then
        Outcome.forEach (fun p : Validator.Placed => checkElement (defs.run bound p.1.1) p.1.2 p.2)
          (vs.zip elements).zipIdx
      else .rejected (Complaint.wrongLength elements.length vs.length).reason).as (.object o) := by
  rw [run_tuple, withElements, Value.elements?_object hkind]

theorem checkFields_ofElements (bound : Nat) (hkind : o.kind = .array elements)
    (hexpected : vs.length ≤ PropertyKey.indexLimit) :
    defs.checkFields bound o (Shape.ofElements vs) =
      if elements.length = vs.length then
        Outcome.forEach (fun p : Validator × Nat => checkProperty o (.ofIndex p.2) {}
          (defs.run bound p.1)) vs.zipIdx
      else .rejected (.because "The property \"length\" is invalid."
          (.message ("The value is not equal to " ++
            (ObjectKind.countValue vs.length).display ++ "."))) := by
  unfold checkFields Shape.ofElements
  rw [Outcome.forEach_cons, checkProperty_length bound hkind rfl hexpected, Outcome.forEach_map]
  by_cases h : elements.length = vs.length
  · simp only [if_pos h]
    rfl
  · simp only [if_neg h]
    rfl

/-- A tuple goes through the same validators and values as the shape of its length and indices. -/
theorem forEach_elements_paired (bound : Nat) (hkind : o.kind = .array elements)
    (hlength : elements.length = vs.length) (hexpected : vs.length ≤ PropertyKey.indexLimit) :
    (Outcome.forEach (fun p : Validator.Placed => checkElement (defs.run bound p.1.1) p.1.2 p.2)
      (vs.zip elements).zipIdx).Paired (Reason.SameIndex vs.length)
      (Outcome.forEach (fun p : Validator × Nat => checkProperty o (.ofIndex p.2) {}
        (defs.run bound p.1)) vs.zipIdx) := by
  have hfst : (vs.zip elements).map Prod.fst = vs := List.map_fst_zip (Nat.le_of_eq hlength.symm)
  have hplaces : vs.zipIdx = (vs.zip elements).zipIdx.map (Prod.map Prod.fst id) := by
    rw [← List.zipIdx_map, hfst]
  rw [hplaces, Outcome.forEach_map]
  refine Outcome.Paired.forEach ?_
  rintro ⟨⟨v, y⟩, index⟩ hmem
  have hplace : (vs.zip elements)[index]? = some (v, y) := List.mk_mem_zipIdx_iff_getElem?.1 hmem
  obtain ⟨hv, hy⟩ := List.getElem?_zip_eq_some.1 hplace
  obtain ⟨hindex, -⟩ := List.getElem?_eq_some_iff.1 hv
  have hown := Object.getOwn_element hkind hy (Nat.lt_of_lt_of_le hindex hexpected)
  have hproperty : checkProperty o (.ofIndex index) {} (defs.run bound v) =
      ((defs.run bound v y).behind (Complaint.invalidProperty (.ofIndex index)).text).as () := by
    apply checkProperty_of_find?
    exact hown
  exact hproperty ▸ checkElement_paired hindex _ y

theorem run_tuple_paired (bound : Nat) (hkind : o.kind = .array elements)
    (hexpected : vs.length ≤ PropertyKey.indexLimit) :
    (defs.run bound (.tuple vs) (.object o)).Paired
      (Reason.SameMisfit elements.length vs.length)
      (defs.run bound (Shape.ofElements vs).strict (.object o)) := by
  have hextra (x : Outcome Reason Unit) : (x.bind fun _ => .accepted ()) = x := by
    cases x <;> rfl
  have hstrict : defs.run bound (Shape.ofElements vs).strict (.object o) =
      (defs.checkFields bound o (Shape.ofElements vs)).as (.object o) := by
    rw [run_strict]
    exact congrArg (Outcome.as _) (hextra _)
  rw [hstrict, run_tuple_array bound hkind, checkFields_ofElements bound hkind hexpected]
  refine Outcome.Paired.as _ ?_
  -- The length decides first, in both.
  by_cases hlength : elements.length = vs.length
  · rw [if_pos hlength, if_pos hlength]
    exact (forEach_elements_paired bound hkind hlength hexpected).imp fun _ _ => .element hlength
  · rw [if_neg hlength, if_neg hlength]
    exact .rejected (.length hlength)

theorem run_checkedArray (bound : Nat) (hkind : o.kind = .array elements) :
    defs.run bound (.checkedArray v) (.object o) = defs.run bound v (.object o) := by
  have hjudge : (Leaf.ofType .array).judge (.object o) = .accepted (.object o) := by
    simp [Leaf.judge, ValueType.narrow?, ValueType.holds, Value.elements?_object hkind,
      Outcome.ofOption]
  rw [Validator.checkedArray, run_pipe, run_leaf, hjudge, Outcome.bind_accepted]

/-- A tuple is the shape that asks for the length of an array and then for each index, whatever
else was set on the array: it accepts the same arrays, it looks at the length first as well, and it
blames the same index around the same cause. -/
theorem tuple_as_shape (defs : Definitions) (vs : List Validator) (i : Identity)
    (elements : List Value) (ps : List (PropertyKey × Value)) (p : Option Object)
    (c : Option Class) (hexpected : vs.length ≤ PropertyKey.indexLimit) :
    defs.Corresponds (Reason.SameMisfit elements.length vs.length) (.checkedArray (.tuple vs))
      (.checked (Shape.ofElements vs).strict) (.object (.mk i (.array elements) ps p c)) := by
  apply corresponds_of_run
  intro bound
  rw [run_checkedArray bound rfl, run_checked]
  exact run_tuple_paired bound rfl hexpected

/-- An array of two elements on which properties were set under the names of its slots, and of
which the prototype has a third element. -/
def overlaid : Object :=
  .mk (.made []) (.array [.string "a", .null])
    [(.text "1", .number (.ofInt 5)), (.text "length", .number (.ofInt 3)), (.text "2", .null)]
    (some (.ofKind (.made [0]) (.array [.null, .null, .null]))) none

theorem overlaid_refused :
    let vs : List Validator := [.ofType .string, .ofType .number]
    let cause := Reason.message "The value is not a number."
    vs.length ≤ PropertyKey.indexLimit ∧
      Returns [] (.checkedArray (.tuple vs)) (.object overlaid)
        (.rejected (.because "The element at index 1 is invalid." cause)) ∧
      Returns [] (.checked (Shape.ofElements vs).strict) (.object overlaid)
        (.rejected (.because "The property \"1\" is invalid." cause)) := by
  intro vs cause
  have hexpected : vs.length ≤ PropertyKey.indexLimit := by decide
  have htuple : Returns [] (.checkedArray (.tuple vs)) (.object overlaid)
      (.rejected (.because "The element at index 1 is invalid." cause)) :=
    ⟨by simp, 0, rfl⟩
  obtain ⟨reason, hmisfit, hshape⟩ :=
    (tuple_as_shape [] vs _ _ _ _ _ hexpected).rejected htuple
  obtain rfl := (hmisfit.sameIndex rfl).eq_property 1
  exact ⟨hexpected, htuple, hshape⟩

-- The length that was set does not make up for the one that the array has.
example :
    run [] 0 (.checked (Shape.ofElements [.ofType .value, .ofType .value, .ofType .value]).strict)
      (.object overlaid) =
      .rejected (.because "The property \"length\" is invalid."
        (.message "The value is not equal to 3.")) := by
  rfl

end Definitions

end Narrowing
