-- SUMMARY: Runs under a renaming of identities: equal verdicts and reasons, renamed outputs.
import Narrowing.Proofs.Renaming
import Narrowing.Proofs.Outputs
import Narrowing.Proofs.Substitution

/-!
# Identity by sameness alone

If objects, symbols and classes are given new identities, in the value and in the validators
together, then the outcome is the one from before with its output renamed, and the reasons are the
same to the letter (`Definitions.validate_rename`). So what a validator makes of a value depends on
identities only by which of them are the same.
-/

namespace Narrowing

/-! ## Outcomes with another output -/

namespace Outcome

variable {ε δ α β γ : Type} {f : α → β}

/-- The outcome with its output put through a function. -/
def map (f : α → β) : Outcome ε α → Outcome ε β
  | .accepted a => .accepted (f a)
  | .rejected reason => .rejected reason
  | .unsettled => .unsettled

theorem map_eq_unsettled_iff {x : Outcome ε α} : x.map f = .unsettled ↔ x = .unsettled := by
  cases x <;> simp [map]

theorem bind_map (x : Outcome ε α) (g : β → Outcome ε γ) :
    (x.map f).bind g = x.bind fun a => g (f a) := by
  cases x <;> rfl

theorem map_bind (x : Outcome ε γ) (g : γ → Outcome ε α) :
    (x.bind g).map f = x.bind fun c => (g c).map f := by
  cases x <;> rfl

theorem mapReason_map (x : Outcome ε α) (g : ε → δ) :
    (x.map f).mapReason g = (x.mapReason g).map f := by
  cases x <;> rfl

theorem behind_map (x : Outcome Reason α) (text : String) :
    (x.map f).behind text = (x.behind text).map f :=
  mapReason_map x _

theorem as_map (x : Outcome ε α) (c : γ) : (x.map f).as c = x.as c := by
  cases x <;> rfl

theorem map_as (x : Outcome ε γ) (a : α) : (x.as a).map f = x.as (f a) := by
  cases x <;> rfl

theorem map_ensure (condition : Bool) (reason : ε) (a : α) :
    (ensure condition reason a).map f = ensure condition reason (f a) := by
  cases condition <;> rfl

theorem map_ofOption (reason : ε) (x : Option α) :
    (ofOption reason x).map f = ofOption reason (x.map f) := by
  cases x <;> rfl

theorem firstOf_congr_map {ν : Type} {check : ν → Outcome ε α} {check' : ν → Outcome ε β}
    {vs : List ν} (h : ∀ v ∈ vs, check' v = (check v).map f) :
    firstOf check' vs = (firstOf check vs).map f := by
  induction vs with
  | nil => rfl
  | cons v vs ih =>
    have htail := ih fun u hu => h u (List.mem_cons_of_mem v hu)
    rw [firstOf, firstOf, h v List.mem_cons_self, htail]
    cases check v with
    | rejected reason => exact mapReason_map ..
    | _ => rfl

/-- Checks in a row do not differ if each differs from the one in its place by its output only. -/
theorem forEach_congr {ν : Type} {check : ν → Outcome ε α} {check' : ν → Outcome ε β}
    {vs : List ν} (h : ∀ v ∈ vs, (check' v).as () = (check v).as ()) :
    forEach check' vs = forEach check vs := by
  have hbind (γ : Type) (x : Outcome ε γ) (next : Outcome ε Unit) :
      (x.bind fun _ => next) = (x.as ()).bind fun _ => next := by
    cases x <;> rfl
  induction vs with
  | nil => rfl
  | cons v vs ih =>
    have htail := ih fun u hu => h u (List.mem_cons_of_mem v hu)
    rw [forEach_cons, forEach_cons, htail, hbind, h v List.mem_cons_self, ← hbind]

end Outcome

/-! ## Leaves -/

/-- The leaf with new identities throughout. -/
def Leaf.rename (ρ : Renaming) : Leaf → Leaf
  | .equal expected => .equal (expected.rename ρ)
  | .oneOf allowed => .oneOf (allowed.map (Value.rename ρ))
  | .instanceOf c => .instanceOf (c.rename ρ)
  | .keyOf o options => .keyOf (o.rename ρ) options
  | l => l

variable {ρ : Renaming}

variable (ρ) in
/-- The second check makes of the renamed value what the first makes of the value, renamed. -/
def Equivariant (check check' : Value → Verdict) : Prop :=
  ∀ x, check' (x.rename ρ) = (check x).map (Value.rename ρ)

theorem Leaf.judge_rename {l : Leaf} (hl : l.isRule = false) :
    Equivariant ρ l.judge (l.rename ρ).judge := by
  intro x
  cases l with
  | ofType type =>
    simp only [rename, judge, ValueType.narrow?_rename, Outcome.map_ofOption]
  | null => simp only [rename, judge, Value.isNull_rename, Outcome.map_ensure]
  | undefined => simp only [rename, judge, Value.isUndefined_rename, Outcome.map_ensure]
  | nullish => simp only [rename, judge, Value.isNullish_rename, Outcome.map_ensure]
  | toObject => simp only [rename, judge, Value.toObject_rename, Outcome.map, Value.rename_object]
  | equal expected =>
    -- What is compared with is renamed as well, and the complaint shows it by the same text.
    have hreason := Complaint.reason_rename ρ (.notEqual expected)
    simp only [Complaint.rename] at hreason
    simp only [rename, judge, Value.strictEq_rename, hreason, Outcome.map_ensure]
  | oneOf allowed =>
    have hreason := Complaint.reason_rename ρ (.notAllowed allowed)
    simp only [Complaint.rename] at hreason
    simp only [rename, judge, List.any_map, Function.comp_def, Value.strictEq_rename, hreason,
      Outcome.map_ensure]
  | instanceOf c =>
    -- Classes keep their names, and which of them extend which.
    have hreason := Complaint.reason_rename ρ (.notInstance c)
    simp only [Complaint.rename] at hreason
    simp only [rename, judge, Value.object?_rename, Option.any_map, Object.instanceOf_rename,
      hreason, Outcome.map_ensure]
  | keyOf o options =>
    simp only [rename, judge, Value.key?_rename]
    -- The complaint shows a symbol by its description, which is kept.
    cases x.key? with
    | none => rfl
    | some key =>
      have hreason := Complaint.reason_rename ρ (.notKey key)
      simp only [Complaint.rename] at hreason
      simp only [Option.map_some, Object.hasKey_rename, hreason, Outcome.map_ensure]
  | rule r => cases hl

/-! ## Checks of parts -/

section

variable {check check' checkKey checkKey' checkValue checkValue' : Value → Verdict}

theorem withObject_rename {check check' : Object → Outcome Reason Unit}
    (h : ∀ o, check' (o.rename ρ) = check o) :
    Equivariant ρ (fun x => withObject x check) (fun x => withObject x check') := by
  intro x
  cases x with
  | object o => simp only [Value.rename_object, withObject, h, Outcome.map_as]
  | _ => rfl

theorem withElements_rename {check check' : List Value → Outcome Reason Unit}
    (h : ∀ xs, check' (xs.map (Value.rename ρ)) = check xs) :
    Equivariant ρ (fun x => withElements x check) (fun x => withElements x check') := by
  intro x
  simp only [withElements, Value.elements?_rename]
  cases x.elements? with
  | none => rfl
  | some xs => simp only [Option.map_some, h, Outcome.map_as]

theorem checkProperty_rename (h : Equivariant ρ check check') (o : Object) (key : PropertyKey)
    (options : PropertyOptions) :
    checkProperty (o.rename ρ) (key.rename ρ) options check' =
      checkProperty o key options check := by
  have hinvalid := Complaint.text_rename ρ (.invalidProperty key)
  have hmissing := Complaint.reason_rename ρ (.missingProperty key)
  simp only [Complaint.rename] at hinvalid hmissing
  simp only [checkProperty, Object.find?_rename]
  cases o.find? options.ownOnly key with
  | none => simp only [Option.map_none, hmissing]
  | some y => simp only [Option.map_some, h y, hinvalid, Outcome.behind_map, Outcome.as_map]

theorem checkEntry_rename (hkey : Equivariant ρ checkKey checkKey')
    (hvalue : Equivariant ρ checkValue checkValue') (o : Object) (key : PropertyKey) :
    checkEntry (o.rename ρ) checkKey' checkValue' (key.rename ρ) =
      checkEntry o checkKey checkValue key := by
  have hinvalid := Complaint.text_rename ρ (.invalidProperty key)
  have hinvalidKey := Complaint.text_rename ρ (.invalidKey key)
  simp only [Complaint.rename] at hinvalid hinvalidKey
  have hown : ((o.rename ρ).getOwn (key.rename ρ)).getD .undefined =
      ((o.getOwn key).getD .undefined).rename ρ := by
    rw [Object.getOwn_rename]
    cases o.getOwn key <;> rfl
  simp only [checkEntry, PropertyKey.toValue_rename, hkey key.toValue, hown, hvalue _, hinvalid,
    hinvalidKey, Outcome.behind_map, Outcome.bind_map, Outcome.as_map]

theorem checkElement_rename (h : Equivariant ρ check check') (x : Value) (index : Nat) :
    checkElement check' (x.rename ρ) index = checkElement check x index := by
  simp only [checkElement, h x, Outcome.behind_map, Outcome.as_map]

theorem checkExtra_rename (o : Object) (defined : List PropertyKey) :
    checkExtra (o.rename ρ) (defined.map (PropertyKey.rename ρ)) = checkExtra o defined := by
  -- No two keys become one, so the same keys are defined and the same are extra.
  have hcontains (key : PropertyKey) :
      (defined.map (PropertyKey.rename ρ)).contains (key.rename ρ) = defined.contains key := by
    rw [Bool.eq_iff_iff, List.contains_iff_mem, List.contains_iff_mem,
      List.mem_map_of_injective (PropertyKey.rename_injective ρ)]
  have hextra : extraKeys (o.rename ρ) (defined.map (PropertyKey.rename ρ)) =
      (extraKeys o defined).map (PropertyKey.rename ρ) := by
    simp only [extraKeys, Object.ownKeys_rename, List.filter_map, Function.comp_def, hcontains]
  have hreason := Complaint.reason_rename ρ (.extraKeys (extraKeys o defined))
  simp only [Complaint.rename] at hreason
  simp only [checkExtra_eq, hextra, hreason, List.isEmpty_map]

end

/-! ## Validators -/

/-- The exchange of keys and leaves for those with new identities. -/
def Renaming.exchange (ρ : Renaming) : Substitution where
  key := PropertyKey.rename ρ
  leaf l := .leaf (l.rename ρ)

namespace Validator

/-- The validator with new identities throughout. -/
def rename (ρ : Renaming) (v : Validator) : Validator := v.subst ρ.exchange

/-- A validator is no check from outside the library. -/
def NoRule : Validator → Prop
  | .leaf l => l.isRule = false
  | _ => True

end Validator

namespace Definitions

open Validator (Throughout NoRule)

/-- The definitions with new identities throughout. -/
def rename (ρ : Renaming) (defs : Definitions) : Definitions := defs.subst ρ.exchange

variable {defs defs' : Definitions} {bound : Nat} {v : Validator}

/-! ### Containers, supposing that what lies below is equivariant -/

theorem run_shape_rename {fields : List (Field Validator)} {options : ShapeOptions}
    (h : ∀ f ∈ fields, Equivariant ρ (defs.run bound f.validator)
      (defs'.run bound (f.validator.subst ρ.exchange))) :
    Equivariant ρ (defs.run bound (.shape fields options))
      (defs'.run bound ((Validator.shape fields options).subst ρ.exchange)) := by
  intro x
  simp only [Validator.subst, Validator.substFields_eq_map, run_shape, Outcome.forEach_map]
  refine withObject_rename (fun o => ?_) x
  -- Fields are checked under renamed keys, with the same reasons.
  have hfields : ∀ f ∈ fields,
      checkProperty (o.rename ρ) (f.key.rename ρ) (options.forField f.mayBeMissing)
          (defs'.run bound (f.validator.subst ρ.exchange)) =
        checkProperty o f.key (options.forField f.mayBeMissing) (defs.run bound f.validator) :=
    fun f hf => checkProperty_rename (h f hf) o ..
  have hkeys : (fields.map (Validator.substField ρ.exchange)).map Field.key =
      (fields.map Field.key).map (PropertyKey.rename ρ) := by
    rw [List.map_map, List.map_map]
    rfl
  rw [hkeys, checkExtra_rename]
  congr 1
  exact Outcome.forEach_congr fun f hf => congrArg _ (hfields f hf)

theorem run_dictionary_rename {k : Validator}
    (hk : Equivariant ρ (defs.run bound k) (defs'.run bound (k.subst ρ.exchange)))
    (hv : Equivariant ρ (defs.run bound v) (defs'.run bound (v.subst ρ.exchange))) :
    Equivariant ρ (defs.run bound (.dictionary k v))
      (defs'.run bound ((Validator.dictionary k v).subst ρ.exchange)) := by
  intro x
  simp only [Validator.subst, run_dictionary]
  refine withObject_rename (fun o => ?_) x
  rw [Object.ownKeys_rename, Outcome.forEach_map]
  exact Outcome.forEach_congr fun key _ => congrArg _ (checkEntry_rename hk hv o key)

theorem run_arrayOf_rename
    (hv : Equivariant ρ (defs.run bound v) (defs'.run bound (v.subst ρ.exchange))) :
    Equivariant ρ (defs.run bound (.arrayOf v))
      (defs'.run bound ((Validator.arrayOf v).subst ρ.exchange)) := by
  intro x
  simp only [Validator.subst, run_arrayOf]
  refine withElements_rename (fun xs => ?_) x
  rw [List.zipIdx_map, Outcome.forEach_map]
  exact Outcome.forEach_congr fun p _ => congrArg _ (checkElement_rename hv p.1 p.2)

theorem run_tuple_rename {vs : List Validator}
    (h : ∀ v ∈ vs, Equivariant ρ (defs.run bound v) (defs'.run bound (v.subst ρ.exchange))) :
    Equivariant ρ (defs.run bound (.tuple vs))
      (defs'.run bound ((Validator.tuple vs).subst ρ.exchange)) := by
  intro x
  simp only [Validator.subst, Validator.substAll_eq_map, run_tuple, List.length_map]
  refine withElements_rename (fun xs => ?_) x
  rw [List.length_map]
  split
  · rw [List.zip_map, List.zipIdx_map, Outcome.forEach_map]
    refine Outcome.forEach_congr fun p hp => congrArg _ ?_
    have hmem : p.1.1 ∈ vs := (List.of_mem_zip (List.fst_mem_of_mem_zipIdx hp)).1
    exact checkElement_rename (h p.1.1 hmem) p.1.2 p.2
  · rfl

/-- Under a bound a validator is equivariant if references are. -/
theorem run_rename_of_refer
    (hrefer : ∀ name, Equivariant ρ (defs.run bound (.reference name))
      (defs'.run bound (.reference name)))
    (hv : v.Throughout NoRule) :
    Equivariant ρ (defs.run bound v) (defs'.run bound (v.rename ρ)) := by
  unfold Validator.rename
  induction v using Validator.induction with
  | leaf l =>
    intro x
    simp only [Validator.subst, Renaming.exchange, run_leaf]
    exact Leaf.judge_rename hv.here x
  | anyOf form vs ih =>
    intro x
    simp only [Validator.subst, Validator.substAll_eq_map, run_anyOf, Outcome.firstOf_map]
    rw [Outcome.firstOf_congr_map fun v hmem => ih v hmem (hv.inside v hmem) x,
      Outcome.mapReason_map]
  | allOf form vs ih =>
    intro x
    simp only [Validator.subst, Validator.substAll_eq_map, run_allOf, Outcome.forEach_map,
      Outcome.map_as]
    -- What the branches give is dropped, so it does not count that it is renamed.
    have hbranch : ∀ v ∈ vs, (defs'.run bound (v.subst ρ.exchange) (x.rename ρ)).as () =
        (defs.run bound v x).as () := by
      intro v hmem
      rw [ih v hmem (hv.inside v hmem) x, Outcome.as_map]
    rw [Outcome.forEach_congr hbranch]
  | not v ih =>
    intro x
    simp only [Validator.subst, run_not, ih (hv.inside v List.mem_cons_self) x]
    cases defs.run bound v x <;> rfl
  | pipe v w ihv ihw =>
    -- The second validator takes the renamed output of the first one.
    intro x
    simp only [Validator.subst, run_pipe, ihv (hv.inside v List.mem_cons_self) x, Outcome.bind_map,
      Outcome.map_bind]
    congr 1
    funext y
    exact ihw (hv.inside w (by simp [Validator.parts])) y
  | explained message v ih =>
    intro x
    simp only [Validator.subst, run_explained, ih (hv.inside v List.mem_cons_self) x,
      Outcome.behind_map]
  | sealed label v ih =>
    intro x
    simp only [Validator.subst, run_sealed, ih (hv.inside v List.mem_cons_self) x]
  | optional v ih =>
    intro x
    simp only [Validator.subst, run_optional, Value.isUndefined_rename]
    split
    · rfl
    · exact ih (hv.inside v List.mem_cons_self) x
  | nullable v ih =>
    intro x
    simp only [Validator.subst, run_nullable, Value.isNull_rename]
    split
    · rfl
    · exact ih (hv.inside v List.mem_cons_self) x
  | reference name => exact hrefer name
  | property key v options ih =>
    intro x
    simp only [Validator.subst, run_property]
    refine withObject_rename (fun o => ?_) x
    exact checkProperty_rename (ih (hv.inside v List.mem_cons_self)) o key options
  | shape fields options ih =>
    -- Containers are equivariant if what lies below them is, as was shown above.
    exact run_shape_rename fun f hf =>
      ih f hf (hv.inside f.validator (List.mem_map_of_mem hf))
  | dictionary k v ihk ihv =>
    exact run_dictionary_rename (ihk (hv.inside k List.mem_cons_self))
      (ihv (hv.inside v (by simp [Validator.parts])))
  | arrayOf v ih => exact run_arrayOf_rename (ih (hv.inside v List.mem_cons_self))
  | tuple vs ih => exact run_tuple_rename fun v hmem => ih v hmem (hv.inside v hmem)

/-- Under every bound a validator is equivariant. -/
theorem run_rename (hdefs : defs.Each (Throughout NoRule)) (hv : v.Throughout NoRule) :
    Equivariant ρ (defs.run bound v) ((defs.rename ρ).run bound (v.rename ρ)) := by
  induction bound generalizing v with
  | zero =>
    refine run_rename_of_refer (fun name x => ?_) hv
    rw [run_reference_zero, run_reference_zero]
    rfl
  | succ bound ih =>
    refine run_rename_of_refer (fun name x => ?_) hv
    -- Both sides unfold the definition, the one under new identities.
    rw [run_reference_succ, run_reference_succ, rename, lookup_subst]
    cases hw : defs.lookup name with
    | none => rfl
    | some w => exact ih (hdefs name w hw) x

/-- The bound that is taken from the depth of a value does not depend on identities. -/
theorem unfoldings_rename (x : Value) :
    (defs.rename ρ).unfoldings (x.rename ρ) = defs.unfoldings x := by
  simp only [unfoldings, rename, subst, List.length_map, Value.depth_rename]

/-- What a validator of the library makes of a value with new identities throughout is what it made
of the value, with new identities throughout. Reasons stay the same, and it comes to an end on the
one if it does on the other. -/
theorem validate_rename (ρ : Renaming) (hdefs : defs.Each (Throughout NoRule))
    (hv : v.Throughout NoRule) (x : Value) :
    (defs.rename ρ).validate (v.rename ρ) (x.rename ρ) =
        (defs.validate v x).map (Value.rename ρ) ∧
      (∀ verdict, defs.Returns v x verdict →
        (defs.rename ρ).Returns (v.rename ρ) (x.rename ρ) (verdict.map (Value.rename ρ))) ∧
      ((defs.rename ρ).Settles (v.rename ρ) (x.rename ρ) ↔ defs.Settles v x) := by
  have hrun (bound : Nat) : (defs.rename ρ).run bound (v.rename ρ) (x.rename ρ) =
      (defs.run bound v x).map (Value.rename ρ) := run_rename hdefs hv x
  -- A bound that is enough for the one run is enough for the other.
  have hreturns : ∀ verdict, defs.Returns v x verdict →
      (defs.rename ρ).Returns (v.rename ρ) (x.rename ρ) (verdict.map (Value.rename ρ)) := by
    rintro verdict ⟨hs, bound, rfl⟩
    exact ⟨fun h => hs (Outcome.map_eq_unsettled_iff.1 h), bound, hrun bound⟩
  refine ⟨?_, hreturns, ?_, fun ⟨verdict, hr⟩ => ⟨_, hreturns verdict hr⟩⟩
  · simp only [validate, hrun, unfoldings_rename]
    cases defs.run firstBound v x <;> rfl
  · rintro ⟨_, hs, bound, rfl⟩
    have hsettled : defs.run bound v x ≠ .unsettled := by
      intro h
      rw [hrun bound, h] at hs
      exact hs rfl
    exact settles_of_run hsettled

/-- All identities moved on by one. -/
def shifted : Renaming where
  paths path := 0 :: path
  symbols id := id + 1
  classes id := id + 1
  paths_injective _ _ h := List.tail_eq_of_cons_eq h
  symbols_injective _ _ h := Nat.succ.inj h
  classes_injective _ _ h := Nat.succ.inj h

/-- A symbol that is both a key and a value of an object of a class. -/
def mark : Symbol := ⟨0, some "mark"⟩

def markedItem : Object :=
  .mk (.made []) .ordinary [(.symbol mark, .symbol mark)] none (some (.root 0 "Item"))

/-- This very item, an instance of its class with this very symbol under itself. -/
def markedItems : Validator :=
  .allOf .tuple
    [.leaf (.equal (.object markedItem)), .leaf (.instanceOf (.root 0 "Item")),
      .coerced (.property (.symbol mark) (.leaf (.equal (.symbol mark))) {})]

theorem markedItem_renamed :
    validate [] markedItems (.object markedItem) = .accepted (.object markedItem) ∧
      (rename shifted []).validate (markedItems.rename shifted)
        (.object (markedItem.rename shifted)) =
          .accepted (.object (markedItem.rename shifted)) := by
  have haccepted : validate [] markedItems (.object markedItem) =
      .accepted (.object markedItem) := by rfl
  have hrule : markedItems.Throughout NoRule := by
    simp [markedItems, Validator.coerced, NoRule, Leaf.isRule]
  have hdefs : Each [] (Throughout NoRule) := fun _ _ h => by cases h
  obtain ⟨hrenamed, -⟩ := validate_rename shifted hdefs hrule (.object markedItem)
  rw [haccepted] at hrenamed
  exact ⟨haccepted, hrenamed⟩

end Definitions

end Narrowing
