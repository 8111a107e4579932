-- SUMMARY: The path that the messages of a reason describe, and the value to blame at its end.
import Narrowing.Proofs.Guarded
import Narrowing.Proofs.OwnKeys

/-!
# Where reasons point

A container that rejects a value either has a complaint of its own about it (`Validator.Complains`),
or has asked a validator about a part of it that this one rejects (`Validator.Asks`). Then it puts a
message in front of the reason that tells the step to the part. So the messages of a reason, from
the outside in, are steps that can be followed from the value to the one that is to blame
(`Definitions.Blames`).

A dictionary asks about undefined if it finds nothing under one of the keys, and then there is no
such value. For this the objects that it comes to are supposed to be `Object.Indexed`.
-/

namespace Narrowing

/-! ## Steps -/

/-- A step from a value to one inside it. -/
inductive Step where
  | property (key : PropertyKey) (ownOnly : Bool)
  | ownKey (key : PropertyKey)
  | element (index : Nat)

namespace Step

/-- What a reason says of a step. -/
def complaint : Step → Complaint
  | .property key _ => .invalidProperty key
  | .ownKey key => .invalidKey key
  | .element index => .invalidElement index

/-- Where a step leads from a value, if there is anything. -/
def take? : Step → Value → Option Value
  | .property key ownOnly, x => x.object?.bind fun o => o.find? ownOnly key
  | .ownKey key, x => x.object?.bind fun o => if key ∈ o.ownKeys then some key.toValue else none
  | .element index, x => x.elements?.bind fun elements => elements[index]?

/-- Where a path of steps leads from a value. -/
def follow? : List Step → Value → Option Value
  | [], x => some x
  | step :: path, x => (step.take? x).bind (follow? path)

theorem follow?_cons (step : Step) (path : List Step) (x : Value) :
    follow? (step :: path) x = (step.take? x).bind (follow? path) := rfl

end Step

/-- A reason behind the messages of the steps of a path. -/
def Reason.behindPath (path : List Step) (cause : Reason) : Reason :=
  path.foldr (fun step reason => .because step.complaint.text reason) cause

/-! ## Questions and complaints of containers -/

namespace Validator

/-- A container asks a validator about what a step leads to. -/
inductive Asks : Validator → Step → Validator → Prop
  | property {key : PropertyKey} {v : Validator} {options : PropertyOptions} :
      Asks (.property key v options) (.property key options.ownOnly) v
  | field {fields : List (Field Validator)} {options : ShapeOptions} {f : Field Validator}
      (hf : f ∈ fields) : Asks (.shape fields options) (.property f.key options.ownOnly) f.validator
  | key {k v : Validator} {key : PropertyKey} : Asks (.dictionary k v) (.ownKey key) k
  | entry {k v : Validator} {key : PropertyKey} : Asks (.dictionary k v) (.property key true) v
  | element {v : Validator} {index : Nat} : Asks (.arrayOf v) (.element index) v
  | position {vs : List Validator} {v : Validator} {index : Nat} (hv : vs[index]? = some v) :
      Asks (.tuple vs) (.element index) v

theorem Asks.mem_parts {v u : Validator} {step : Step} (h : v.Asks step u) : u ∈ v.parts := by
  cases h with
  | field hf => exact List.mem_map_of_mem hf
  | position hv => exact List.mem_of_getElem? hv
  | _ => simp [parts]

theorem Asks.isContainer {v u : Validator} {step : Step} (h : v.Asks step u) :
    v.isContainer = true := by
  cases h <;> rfl

/-- A container has a complaint of its own about a value. -/
inductive Complains : Validator → Value → Complaint → Prop
  | notOfType {v : Validator} {x : Value} (hv : v.isContainer = true)
      (hx : v.input.holds x = false) : Complains v x (.notOfType v.input)
  | missing {key : PropertyKey} {v : Validator} {options : PropertyOptions} {o : Object}
      (hnone : o.find? options.ownOnly key = none) (hneeded : options.mayBeMissing = false) :
      Complains (.property key v options) (.object o) (.missingProperty key)
  | missingField {fields : List (Field Validator)} {options : ShapeOptions} {f : Field Validator}
      {o : Object} (hf : f ∈ fields) (hnone : o.find? options.ownOnly f.key = none)
      (hneeded : (options.mayBeMissing || f.mayBeMissing) = false) :
      Complains (.shape fields options) (.object o) (.missingProperty f.key)
  | extraKeys {fields : List (Field Validator)} {options : ShapeOptions} {o : Object}
      (hclosed : options.allowExtra = false) (hextra : extraKeys o (fields.map Field.key) ≠ []) :
      Complains (.shape fields options) (.object o)
        (.extraKeys (extraKeys o (fields.map Field.key)))
  | wrongLength {vs : List Validator} {x : Value} {elements : List Value}
      (hx : x.elements? = some elements) (hlength : elements.length ≠ vs.length) :
      Complains (.tuple vs) x (.wrongLength elements.length vs.length)

/-! ## Containers behind a test -/

/-- The container behind a test for what it takes; any other validator is left as it is. -/
def core : Validator → Validator
  | .pipe (.leaf (.ofType type)) v =>
      if v.isContainer = true ∧ v.input = type then v else .pipe (.leaf (.ofType type)) v
  | v => v

theorem core_of_isContainer {v : Validator} (h : v.isContainer = true) : v.core = v := by
  cases v with
  | property | shape | dictionary | arrayOf | tuple => rfl
  | _ => cases h

theorem core_cases (v : Validator) :
    v.core = v ∨ ∃ w, v = .pipe (.ofType w.input) w ∧ w.isContainer = true ∧ v.core = w := by
  unfold core
  split
  · next type w =>
    split
    · next h =>
      obtain ⟨hw, rfl⟩ := h
      exact .inr ⟨w, rfl, hw, rfl⟩
    · exact .inl rfl
  · exact .inl rfl

/-- Induction on validators by those that they ask, themselves or behind a test. -/
theorem askInduction {motive : Validator → Prop}
    (step : ∀ v, (∀ s u, v.core.Asks s u → motive u) → motive v) (v : Validator) : motive v := by
  -- A part may be the container behind the test, so what it asks has to be known as well.
  suffices h : motive v ∧ ∀ s u, v.core.Asks s u → motive u from h.1
  induction v using Validator.partsInduction with
  | step v ih =>
    have hasked : ∀ s u, v.core.Asks s u → motive u := by
      intro s u hu
      rcases v.core_cases with hcore | ⟨w, rfl, hw, hcore⟩
      · rw [hcore] at hu
        exact (ih u hu.mem_parts).1
      · have hpart : w ∈ (pipe (.ofType w.input) w).parts := by simp [parts]
        refine (ih w hpart).2 s u ?_
        rwa [core_of_isContainer hw, ← hcore]
    exact ⟨step v hasked, hasked⟩

/-- A path of steps leads from a validator to one inside it. -/
inductive Leads : Validator → List Step → Validator → Prop
  | here {v : Validator} : Leads v [] v
  | step {v u w : Validator} {step : Step} {path : List Step} (hu : v.core.Asks step u)
      (hpath : Leads u path w) : Leads v (step :: path) w

/-- From a validator that is no container only the empty path leads anywhere. -/
theorem Leads.eq_of_not_isContainer {v w : Validator} {path : List Step} (h : v.Leads path w)
    (hv : v.core.isContainer = false) : path = [] ∧ w = v := by
  cases h with
  | here => exact ⟨rfl, rfl⟩
  | step hu _ =>
    rw [hu.isContainer] at hv
    cases hv

/-- Wherever a dictionary stands inside a validator, its keys are found again on the object to which
the path leads from a value. -/
def FindsKeys (v : Validator) (x : Value) : Prop :=
  ∀ path w k u o, v.Leads path w → w.core = .dictionary k u →
    Step.follow? path x = some (.object o) → o.Indexed

theorem FindsKeys.indexed {v k u : Validator} {o : Object} (h : v.FindsKeys (.object o))
    (hv : v.core = .dictionary k u) : o.Indexed :=
  h [] v k u o .here hv rfl

theorem FindsKeys.step {v u : Validator} {x y : Value} {step : Step} (h : v.FindsKeys x)
    (hu : v.core.Asks step u) (hy : step.take? x = some y) : u.FindsKeys y := by
  intro path w k u' o hpath hw ho
  refine h (step :: path) w k u' o (.step hu hpath) hw ?_
  rw [Step.follow?_cons, hy, Option.bind_some, ho]

end Validator

/-! ## What a rejection comes from -/

namespace Definitions

variable {defs : Definitions} {bound : Nat} {v w k : Validator} {x y : Value} {reason : Reason}

/-- A test for what a container takes is one that the container makes itself. -/
theorem run_core (v : Validator) (x : Value) : defs.run bound v.core x = defs.run bound v x := by
  rcases v.core_cases with hcore | ⟨w, rfl, hw, hcore⟩
  · rw [hcore]
  · rw [hcore, run_pipe, run_leaf]
    cases w with
    | property | shape | dictionary =>
      cases x <;> simp [Validator.input, Leaf.judge, ValueType.narrow?, ValueType.holds,
        Value.isObject, Value.object?, Outcome.ofOption, withObject]
    | arrayOf | tuple =>
      cases h : x.elements? <;> simp [Validator.input, Leaf.judge, ValueType.narrow?,
        ValueType.holds, Outcome.ofOption, withElements, h]
    | _ => cases hw

variable (defs bound) in
/-- A container rejects a value with a complaint of its own or because of what a step leads to. -/
inductive Refuses : Validator → Value → Reason → Prop
  | complains {v : Validator} {x : Value} {complaint : Complaint} (h : v.Complains x complaint) :
      Refuses v x complaint.reason
  | asks {v u : Validator} {x y : Value} {step : Step} {cause : Reason} (hu : v.Asks step u)
      (hy : step.take? x = some y) (hrun : defs.run bound u y = .rejected cause) :
      Refuses v x (.because step.complaint.text cause)

theorem refuses_of_property {key : PropertyKey} {options : PropertyOptions}
    (h : defs.run bound (.property key v options) x = .rejected reason) :
    defs.Refuses bound (.property key v options) x reason := by
  rw [run_property, withObject_eq_rejected_iff] at h
  rcases h with ⟨hx, rfl⟩ | ⟨o, rfl, h⟩
  · exact .complains (.notOfType rfl hx)
  · rcases checkProperty_eq_rejected_iff.1 h with ⟨y, cause, hy, hrun, rfl⟩ | ⟨hnone, hneeded, rfl⟩
    · exact .asks .property hy hrun
    · exact .complains (.missing hnone hneeded)

theorem refuses_of_shape {fields : List (Field Validator)} {options : ShapeOptions}
    (h : defs.run bound (.shape fields options) x = .rejected reason) :
    defs.Refuses bound (.shape fields options) x reason := by
  rw [run_shape, withObject_eq_rejected_iff] at h
  rcases h with ⟨hx, rfl⟩ | ⟨o, rfl, h⟩
  · exact .complains (.notOfType rfl hx)
  · rcases Outcome.bind_eq_rejected_iff.1 h with hloop | ⟨-, -, hextra⟩
    · obtain ⟨before, f, after, rfl, -, hcheck⟩ := Outcome.forEach_eq_rejected_iff.1 hloop
      have hf : f ∈ before ++ f :: after := List.mem_append_cons_self
      rcases checkProperty_eq_rejected_iff.1 hcheck with
        ⟨y, cause, hy, hrun, rfl⟩ | ⟨hnone, hneeded, rfl⟩
      · exact .asks (.field hf) hy hrun
      · exact .complains (.missingField hf hnone hneeded)
    · split at hextra
      · cases hextra
      · next hclosed =>
        rw [checkExtra_eq] at hextra
        obtain ⟨hnonempty, rfl⟩ := Outcome.ensure_eq_rejected_iff.1 hextra
        exact .complains (.extraKeys (by simpa using hclosed) (by simpa using hnonempty))

theorem refuses_of_dictionary (hindexed : ∀ o, x = .object o → o.Indexed)
    (h : defs.run bound (.dictionary k v) x = .rejected reason) :
    defs.Refuses bound (.dictionary k v) x reason := by
  rw [run_dictionary, withObject_eq_rejected_iff] at h
  rcases h with ⟨hx, rfl⟩ | ⟨o, rfl, h⟩
  · exact .complains (.notOfType rfl hx)
  · obtain ⟨before, key, after, hkeys, -, hcheck⟩ := Outcome.forEach_eq_rejected_iff.1 h
    have hkey : key ∈ o.ownKeys := hkeys ▸ List.mem_append_cons_self
    rcases checkEntry_eq_rejected_iff.1 hcheck with ⟨cause, hrun, rfl⟩ | ⟨-, cause, hrun, rfl⟩
    · exact .asks .key (if_pos hkey) hrun
    · -- What the value validator is asked about is the value under the key.
      obtain ⟨y, hy⟩ := (hindexed o rfl).exists_getOwn hkey
      rw [hy, Option.getD_some] at hrun
      exact .asks .entry hy hrun

theorem refuses_of_arrayOf (h : defs.run bound (.arrayOf v) x = .rejected reason) :
    defs.Refuses bound (.arrayOf v) x reason := by
  rw [run_arrayOf, withElements_eq_rejected_iff] at h
  rcases h with ⟨hx, rfl⟩ | ⟨elements, helements, h⟩
  · exact .complains (.notOfType rfl (by simp [Validator.input, ValueType.holds, hx]))
  · obtain ⟨before, p, after, hplaces, -, hcheck⟩ := Outcome.forEach_eq_rejected_iff.1 h
    obtain ⟨cause, hrun, rfl⟩ := checkElement_eq_rejected_iff.1 hcheck
    have hplace : p ∈ elements.zipIdx := hplaces ▸ List.mem_append_cons_self
    have hy : (Step.element p.2).take? x = some p.1 := by
      rw [Step.take?, helements, Option.bind_some, List.mem_zipIdx_iff_getElem?.1 hplace]
    exact .asks .element hy hrun

theorem refuses_of_tuple {vs : List Validator}
    (h : defs.run bound (.tuple vs) x = .rejected reason) :
    defs.Refuses bound (.tuple vs) x reason := by
  rw [run_tuple, withElements_eq_rejected_iff] at h
  rcases h with ⟨hx, rfl⟩ | ⟨elements, helements, h⟩
  · exact .complains (.notOfType rfl (by simp [Validator.input, ValueType.holds, hx]))
  · split at h
    · obtain ⟨before, ⟨⟨u, y⟩, index⟩, after, hplaces, -, hcheck⟩ :=
        Outcome.forEach_eq_rejected_iff.1 h
      obtain ⟨cause, hrun, rfl⟩ := checkElement_eq_rejected_iff.1 hcheck
      have hplace : ((u, y), index) ∈ (vs.zip elements).zipIdx :=
        hplaces ▸ List.mem_append_cons_self
      -- Validators and elements were paired off by their places.
      obtain ⟨hu, hy⟩ := List.getElem?_zip_eq_some.1 (List.mem_zipIdx_iff_getElem?.1 hplace)
      exact .asks (.position hu) (by rw [Step.take?, helements, Option.bind_some, hy]) hrun
    · next hlength =>
      cases h
      exact .complains (.wrongLength helements hlength)

theorem refuses_of_isContainer (hv : v.isContainer = true)
    (hindexed : ∀ k u o, v = .dictionary k u → x = .object o → o.Indexed)
    (h : defs.run bound v x = .rejected reason) : defs.Refuses bound v x reason := by
  cases v with
  | property key u options => exact refuses_of_property h
  | shape fields options => exact refuses_of_shape h
  | dictionary k u => exact refuses_of_dictionary (fun o => hindexed k u o rfl) h
  | arrayOf u => exact refuses_of_arrayOf h
  | tuple vs => exact refuses_of_tuple h
  | _ => cases hv

/-! ## The value to blame -/

variable (defs) in
/-- The messages of a reason tell a path that can be followed from the value. At the end of the path
a validator stands that rejects the value there with what is left of the reason: it is no container,
or it is one that has this complaint of its own. -/
def Blames (v : Validator) (x : Value) (reason : Reason) : Prop :=
  ∃ path w y cause, v.Leads path w ∧ Step.follow? path x = some y ∧
    reason = cause.behindPath path ∧ defs.Returns w y (.rejected cause) ∧
    (w.core.isContainer = false ∨
      ∃ complaint, w.core.Complains y complaint ∧ cause = complaint.reason)

theorem Blames.step {u : Validator} {step : Step} {cause : Reason} (hu : v.core.Asks step u)
    (hy : step.take? x = some y) (h : defs.Blames u y cause) :
    defs.Blames v x (.because step.complaint.text cause) := by
  obtain ⟨path, w, z, last, hpath, hz, rfl, hlast⟩ := h
  refine ⟨step :: path, w, z, last, .step hu hpath, ?_, rfl, hlast⟩
  rw [Step.follow?_cons, hy, Option.bind_some, hz]

/-- A validator that is put together from properties, shapes, dictionaries, arrays and tuples blames
what it rejects: its reason tells the path to a value that the validator for this value rejects. -/
theorem rejection_blames (hkeys : v.FindsKeys x) (h : defs.Returns v x (.rejected reason)) :
    defs.Blames v x reason := by
  obtain ⟨-, bound, hrun⟩ := h
  induction v using Validator.askInduction generalizing x reason with
  | step v ih =>
    have hreturns : defs.Returns v x (.rejected reason) := returns_of_run hrun (by simp)
    cases hcore : v.core.isContainer with
    | false => exact ⟨[], v, x, reason, .here, rfl, rfl, hreturns, .inl hcore⟩
    | true =>
      have hindexed : ∀ k u o, v.core = .dictionary k u → x = .object o → o.Indexed := by
        rintro k u o hdictionary rfl
        exact hkeys.indexed hdictionary
      rw [← run_core] at hrun
      cases refuses_of_isContainer hcore hindexed hrun with
      | complains hcomplains =>
        exact ⟨[], v, x, _, .here, rfl, rfl, hreturns, .inr ⟨_, hcomplains, rfl⟩⟩
      | asks hu hy hpart => exact .step hu hy (ih _ _ hu (hkeys.step hu hy) hpart)

/-- Arrays of objects whose own properties are numbers. -/
def numberTables : Validator :=
  .checkedArray (.arrayOf (.checked (.dictionary (.ofType .string) (.ofType .number))))

/-- An empty object and one with a string. -/
def mixedRows : List Value :=
  [.object (.ofKind (.made [1]) .ordinary),
    .object (.mk (.made [2]) .ordinary [(.text "a", .string "b")] none none)]

def mixedTables : Value :=
  .object (.ofKind (.made [0]) (.array mixedRows))

theorem mixedTables_findsKeys : numberTables.FindsKeys mixedTables := by
  intro path w k u o hpath hw ho
  -- A dictionary stands at the elements, and nothing below it is one.
  cases hpath with
  | here => cases hw
  | step hu hpath =>
    cases hu with
    | @element _ index =>
      cases hpath with
      | here =>
        have hrow : mixedRows[index]? = some (.object o) := (Option.bind_fun_some _).symm.trans ho
        have hmem := List.mem_of_getElem? hrow
        simp only [mixedRows, List.mem_cons, Value.object.injEq, List.not_mem_nil, or_false] at hmem
        apply Object.indexed_of_indexCount_le
        rcases hmem with rfl | rfl <;> simp [Object.ofKind, ObjectKind.indexCount]
      | step hu hpath =>
        cases hu with
        | key | entry =>
          obtain ⟨-, rfl⟩ := hpath.eq_of_not_isContainer rfl
          cases hw

/-- The second object is blamed for what is under its key. -/
theorem mixedTables_blamed :
    let reason := Reason.because "The element at index 1 is invalid."
      (.because "The property \"a\" is invalid." (.message "The value is not a number."))
    numberTables.FindsKeys mixedTables ∧
      Returns [] numberTables mixedTables (.rejected reason) ∧
        Blames [] numberTables mixedTables reason := by
  intro reason
  have hreturns : Returns [] numberTables mixedTables (.rejected reason) := ⟨by simp, 0, rfl⟩
  exact ⟨mixedTables_findsKeys, hreturns, rejection_blames mixedTables_findsKeys hreturns⟩

/-- Objects without an own property that is undefined. -/
def withoutUndefined : Validator :=
  .dictionary (.ofType .value) (.not (.leaf .undefined))

theorem accepts_undefined_iff : defs.Accepts (.leaf .undefined) x ↔ x.isUndefined = true := by
  simp [accepts_leaf_iff, Leaf.judge]

/-- It takes an own key with nothing under it for an undefined property. -/
theorem rejects_withoutUndefined {o : Object} {key : PropertyKey} (hkey : key ∈ o.ownKeys)
    (hnone : o.getOwn key = none) : Rejects [] withoutUndefined (.object o) := by
  have hstrict : withoutUndefined.Throughout (Strict []) := by
    simp [withoutUndefined, Strict]
  have hsettles : Settles [] withoutUndefined (.object o) :=
    settles_of_guarded (fun _ _ h => by cases h) hstrict _
  refine hsettles.accepts_or_rejects.resolve_left ?_
  rw [withoutUndefined, accepts_dictionary_iff]
  intro h
  have hvalue := (entryPasses_iff.1 (h key hkey)).2
  rw [hnone, Option.getD_none, accepts_not_iff] at hvalue
  exact (accepts_undefined_iff.2 rfl).not_rejects hvalue

/-- A text with one character more than there are indices is rejected for the property under its
last key, but there is no such property. -/
theorem missing_blamed :
    let x := Value.object (.ofLength (PropertyKey.indexLimit + 1))
    ∃ reason, Returns [] withoutUndefined x (.rejected reason) ∧
      ¬ Blames [] withoutUndefined x reason := by
  intro x
  obtain ⟨reason, hreturns⟩ := rejects_withoutUndefined
    (Object.mem_ownKeys_ofLength (Nat.lt_succ_self PropertyKey.indexLimit))
    (Object.getOwn_ofLength_indexLimit _)
  refine ⟨reason, hreturns, ?_⟩
  rintro ⟨path, w, y, cause, hpath, hy, -, hw, hend⟩
  cases hpath with
  | here =>
    -- The dictionary itself has nothing to say of an object.
    cases hy
    rcases hend with hleaf | ⟨complaint, hcomplains, -⟩
    · cases hleaf
    · cases hcomplains with
      | notOfType _ hx => cases hx
  | step hu hpath =>
    cases hu with
    | key =>
      obtain ⟨rfl, rfl⟩ := hpath.eq_of_not_isContainer rfl
      have haccepts : Accepts [] (.ofType .value) y := accepts_leaf_iff.2 ⟨y, rfl⟩
      exact haccepts.not_rejects ⟨cause, hw⟩
    | entry =>
      obtain ⟨rfl, rfl⟩ := hpath.eq_of_not_isContainer rfl
      have hundefined := accepts_undefined_iff.1 (rejects_not_iff.1 ⟨cause, hw⟩)
      have hown : _ = some y := (Option.bind_fun_some _).symm.trans hy
      obtain ⟨s, rfl⟩ := Object.exists_scalar_of_getOwn_ofLength hown
      cases hundefined

end Definitions

end Narrowing
