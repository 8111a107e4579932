-- SUMMARY: Calls between validators and call paths, with the correspondence of long paths and unsettled runs.
import Narrowing.Proofs.Outputs
import Narrowing.Proofs.Value

/-!
# Calls

Running a validator on a value runs validators inside it on the value, on an output or on a part of
the value, as far as nothing was decided before (`Definitions.Calls`). A *call path* goes from one
such call to the next and unfolds the references on its way, which leave a trace
(`Definitions.CallPath`).

If a run under a bound is unsettled, then there is a call path with more unfoldings than the bound
allows (`exists_path_of_unsettled`). A validator that comes to an end passes no definition twice
with the same value on one call path (`CallPath.nodup_of_settles`).
-/

namespace Narrowing

theorem Leaf.judge_ne_unsettled {l : Leaf} {x : Value} (hl : l.isRule = false) :
    l.judge x ≠ .unsettled := by
  cases l with
  | rule r => cases hl
  | toObject => simp [judge]
  | keyOf o options =>
    simp only [judge]
    split <;> simp
  | _ => simp [judge]

namespace Definitions

variable {defs : Definitions} {bound : Nat} {v w : Validator} {x y : Value}

theorem Accepts.run_ne_rejected (h : defs.Accepts v x) (reason : Reason) :
    defs.run bound v x ≠ .rejected reason := by
  intro hrun
  exact h.not_rejects (rejects_of_run hrun)

theorem Rejects.run_ne_accepted (h : defs.Rejects v x) (y : Value) :
    defs.run bound v x ≠ .accepted y := by
  intro hrun
  exact (accepts_of_run hrun).not_rejects h

/-! ## Checks that pass -/

variable (defs) in
/-- An object has a field of a shape. -/
def FieldPasses (o : Object) (options : ShapeOptions) (f : Field Validator) : Prop :=
  ∃ bound, checkProperty o f.key (options.forField f.mayBeMissing) (defs.run bound f.validator) =
    .accepted ()

variable (defs) in
/-- A dictionary takes an own key of an object with the value under it. -/
def EntryPasses (o : Object) (k v : Validator) (key : PropertyKey) : Prop :=
  ∃ bound, checkEntry o (defs.run bound k) (defs.run bound v) key = .accepted ()

/-- What is accepted under one bound is rejected under none. -/
theorem ne_rejected_of_accepted {ε α : Type} {check : Nat → Outcome ε α} {m n : Nat} {a : α}
    (hbelow : ∀ {m n}, m ≤ n → (check m).Below (check n)) (h : check m = .accepted a)
    (reason : ε) : check n ≠ .rejected reason := by
  intro hn
  rcases Nat.le_total m n with hle | hle
  · have := hbelow hle (by simp [h])
    simp [h, hn] at this
  · have := hbelow hle (by simp [hn])
    simp [h, hn] at this

theorem FieldPasses.ne_rejected {o : Object} {options : ShapeOptions} {f : Field Validator}
    (h : defs.FieldPasses o options f) (reason : Reason) :
    checkProperty o f.key (options.forField f.mayBeMissing) (defs.run bound f.validator) ≠
      .rejected reason := by
  obtain ⟨m, h⟩ := h
  exact ne_rejected_of_accepted (fun hle => checkProperty_below (run_below hle _)) h reason

theorem EntryPasses.ne_rejected {o : Object} {k v : Validator} {key : PropertyKey}
    (h : defs.EntryPasses o k v key) (reason : Reason) :
    checkEntry o (defs.run bound k) (defs.run bound v) key ≠ .rejected reason := by
  obtain ⟨m, h⟩ := h
  exact ne_rejected_of_accepted
    (fun hle => checkEntry_below (run_below hle _) (run_below hle _)) h reason

/-! ## Calls -/

variable (defs) in
/-- Running a validator on a value runs a validator directly inside it on a value. -/
inductive Calls : Validator → Value → Validator → Value → Prop
  | anyOf {form : Form} {before after : List Validator} {v : Validator} {x : Value}
      (hbefore : ∀ u ∈ before, defs.Rejects u x) :
      Calls (.anyOf form (before ++ v :: after)) x v x
  | allOf {form : Form} {before after : List Validator} {v : Validator} {x : Value}
      (hbefore : ∀ u ∈ before, defs.Accepts u x) :
      Calls (.allOf form (before ++ v :: after)) x v x
  | not {v : Validator} {x : Value} : Calls (.not v) x v x
  | first {v w : Validator} {x : Value} : Calls (.pipe v w) x v x
  | second {v w : Validator} {x y : Value} (hy : defs.Returns v x (.accepted y)) :
      Calls (.pipe v w) x w y
  | explained {message : String} {v : Validator} {x : Value} : Calls (.explained message v) x v x
  | sealed {label : String} {v : Validator} {x : Value} : Calls (.sealed label v) x v x
  | optional {v : Validator} {x : Value} (hx : x.isUndefined = false) : Calls (.optional v) x v x
  | nullable {v : Validator} {x : Value} (hx : x.isNull = false) : Calls (.nullable v) x v x
  | property {key : PropertyKey} {v : Validator} {options : PropertyOptions} {o : Object}
      {y : Value} (hy : o.find? options.ownOnly key = some y) :
      Calls (.property key v options) (.object o) v y
  | field {before after : List (Field Validator)} {f : Field Validator} {options : ShapeOptions}
      {o : Object} {y : Value} (hbefore : ∀ g ∈ before, defs.FieldPasses o options g)
      (hy : o.find? options.ownOnly f.key = some y) :
      Calls (.shape (before ++ f :: after) options) (.object o) f.validator y
  | key {k v : Validator} {o : Object} {before after : List PropertyKey} {key : PropertyKey}
      (hkeys : o.ownKeys = before ++ key :: after)
      (hbefore : ∀ key ∈ before, defs.EntryPasses o k v key) :
      Calls (.dictionary k v) (.object o) k key.toValue
  | entry {k v : Validator} {o : Object} {before after : List PropertyKey} {key : PropertyKey}
      (hkeys : o.ownKeys = before ++ key :: after)
      (hbefore : ∀ key ∈ before, defs.EntryPasses o k v key)
      (hkey : defs.Accepts k key.toValue) :
      Calls (.dictionary k v) (.object o) v ((o.getOwn key).getD .undefined)
  | element {v : Validator} {x y : Value} {before after : List Value}
      (hx : x.elements? = some (before ++ y :: after))
      (hbefore : ∀ z ∈ before, defs.Accepts v z) :
      Calls (.arrayOf v) x v y
  | position {vs : List Validator} {v : Validator} {x y : Value} {elements : List Value}
      {before after : List (Validator × Value)} (hx : x.elements? = some elements)
      (hlength : elements.length = vs.length) (hzip : vs.zip elements = before ++ (v, y) :: after)
      (hbefore : ∀ p ∈ before, defs.Accepts p.1 p.2) :
      Calls (.tuple vs) x v y

theorem Calls.mem_parts (h : defs.Calls v x w y) : w ∈ v.parts := by
  cases h with
  | @position vs v x y elements before after _ _ hzip _ =>
    have hmem : (w, y) ∈ vs.zip elements :=
      hzip ▸ List.mem_append_right before List.mem_cons_self
    exact (List.of_mem_zip hmem).1
  | _ => simp [Validator.parts]

/-- A validator that looks into values calls its parts on what is inside. -/
theorem Calls.yields (h : defs.Calls v x w y) (hv : v.isContainer = true) : x.Yields y := by
  cases h with
  | property hy => exact .property hy
  | field _ hy => exact .property hy
  | key hkeys _ => exact .key (hkeys ▸ List.mem_append_right _ List.mem_cons_self)
  | entry hkeys _ _ => exact .entry (hkeys ▸ List.mem_append_right _ List.mem_cons_self)
  | element hx _ => exact .element hx (List.mem_append_right _ List.mem_cons_self)
  | @position vs v x y elements before after hx _ hzip _ =>
    have hmem : (w, y) ∈ vs.zip elements :=
      hzip ▸ List.mem_append_right before List.mem_cons_self
    exact .element hx (List.of_mem_zip hmem).2
  | _ => cases hv

/-- Any other validator calls its parts on its value or on an output of theirs, so with a value that
has what the leaves keep. -/
theorem Calls.keeps {P : Value → Prop} {p : Validator → Prop} (h : defs.Calls v x w y)
    (hcontainer : v.isContainer = false) (hdefs : defs.Each (Validator.Throughout p))
    (hv : v.Throughout p) (hleaf : ∀ l, p (.leaf l) → ∀ x y, P x → l.judge x = .accepted y → P y)
    (hx : P x) : P y := by
  cases h with
  | @second v w x y hy =>
    obtain ⟨-, bound, hrun⟩ := hy
    have hpart : v.Throughout p := hv.inside v List.mem_cons_self
    exact output_keeps (leavesKeep_of_throughout hdefs hpart hleaf) hx hrun
  | property _ | field _ _ | key _ _ | entry _ _ _ | element _ _ | position _ _ _ _ =>
    cases hcontainer
  | _ => exact hx

/-! ## Calls that do not come to an end -/

theorem map_fst_of_zipIdx {α : Type} {as : List α} {k : Nat} {before after : List (α × Nat)}
    {p : α × Nat} (h : as.zipIdx k = before ++ p :: after) :
    as = before.map Prod.fst ++ p.1 :: after.map Prod.fst := by
  have hmap := congrArg (List.map Prod.fst) h
  simpa using hmap

variable (defs) in
/-- A validator is no check from outside the library, and no reference without a definition. -/
def Known : Validator → Prop
  | .leaf l => l.isRule = false
  | .reference name => ∃ w, defs.lookup name = some w
  | _ => True

theorem accepts_of_checkElement {index : Nat} {u : Unit}
    (h : checkElement (defs.run bound v) x index = .accepted u) : defs.Accepts v x := by
  obtain ⟨y, hy⟩ := checkElement_eq_accepted_iff.1 h
  exact accepts_of_run hy

/-! ### Calls of checks that a run came to -/

theorem fieldPasses_of_run {o : Object} {options : ShapeOptions} {before : List (Field Validator)}
    (h : ∀ f ∈ before, ∃ u, checkProperty o f.key (options.forField f.mayBeMissing)
      (defs.run bound f.validator) = .accepted u) :
    ∀ f ∈ before, defs.FieldPasses o options f := by
  intro f hf
  obtain ⟨_, hrun⟩ := h f hf
  exact ⟨bound, hrun⟩

theorem entryPasses_of_run {o : Object} {k : Validator} {before : List PropertyKey}
    (h : ∀ key ∈ before, ∃ u, checkEntry o (defs.run bound k) (defs.run bound v) key =
      .accepted u) :
    ∀ key ∈ before, defs.EntryPasses o k v key := by
  intro key hkey
  obtain ⟨_, hrun⟩ := h key hkey
  exact ⟨bound, hrun⟩

theorem Calls.element_of_run {elements : List Value} {before after : List (Value × Nat)}
    {p : Value × Nat} (hx : x.elements? = some elements)
    (hsplit : elements.zipIdx = before ++ p :: after)
    (h : ∀ q ∈ before, ∃ u, checkElement (defs.run bound v) q.1 q.2 = .accepted u) :
    defs.Calls (.arrayOf v) x v p.1 := by
  rw [map_fst_of_zipIdx hsplit] at hx
  apply Calls.element hx
  intro z hz
  obtain ⟨q, hq, rfl⟩ := List.mem_map.1 hz
  obtain ⟨_, hrun⟩ := h q hq
  exact accepts_of_checkElement hrun

theorem Calls.position_of_run {vs : List Validator} {elements : List Value}
    {before after : List Validator.Placed} {p : Validator.Placed} (hx : x.elements? = some elements)
    (hlength : elements.length = vs.length)
    (hsplit : (vs.zip elements).zipIdx = before ++ p :: after)
    (h : ∀ q ∈ before, ∃ u, checkElement (defs.run bound q.1.1) q.1.2 q.2 = .accepted u) :
    defs.Calls (.tuple vs) x p.1.1 p.1.2 := by
  apply Calls.position hx hlength (map_fst_of_zipIdx hsplit)
  intro q hq
  obtain ⟨r, hr, rfl⟩ := List.mem_map.1 hq
  obtain ⟨_, hrun⟩ := h r hr
  exact accepts_of_checkElement hrun

/-! ### Runs that are unsettled -/

theorem exists_call_of_shape {fields : List (Field Validator)} {options : ShapeOptions}
    (h : defs.run bound (.shape fields options) x = .unsettled) :
    ∃ w y, defs.Calls (.shape fields options) x w y ∧ defs.run bound w y = .unsettled := by
  simp only [run_shape, withObject_eq_unsettled_iff, Outcome.bind_eq_unsettled_iff] at h
  obtain ⟨o, rfl, hfields | ⟨-, -, hextra⟩⟩ := h
  · -- The fields before the one that is unsettled are all accepted.
    obtain ⟨before, f, after, rfl, hbefore, hf⟩ := Outcome.forEach_eq_unsettled_iff.1 hfields
    obtain ⟨y, hy, hv⟩ := checkProperty_eq_unsettled_iff.1 hf
    exact ⟨f.validator, y, .field (fieldPasses_of_run hbefore) hy, hv⟩
  · -- The check for extra keys runs no validator.
    split at hextra
    · cases hextra
    · exact absurd hextra Outcome.ensure_ne_unsettled

theorem exists_call_of_dictionary {k : Validator}
    (h : defs.run bound (.dictionary k v) x = .unsettled) :
    ∃ w y, defs.Calls (.dictionary k v) x w y ∧ defs.run bound w y = .unsettled := by
  simp only [run_dictionary, withObject_eq_unsettled_iff, Outcome.forEach_eq_unsettled_iff] at h
  obtain ⟨o, rfl, before, key, after, hkeys, hbefore, hentry⟩ := h
  have hpass : ∀ key ∈ before, defs.EntryPasses o k v key := entryPasses_of_run hbefore
  -- The key is looked at first, and the value only if the key is accepted.
  rcases checkEntry_eq_unsettled_iff.1 hentry with hk | ⟨⟨y, hk⟩, hv⟩
  · exact ⟨k, key.toValue, .key hkeys hpass, hk⟩
  · exact ⟨v, _, .entry hkeys hpass (accepts_of_run hk), hv⟩

theorem exists_call_of_arrayOf (h : defs.run bound (.arrayOf v) x = .unsettled) :
    ∃ w y, defs.Calls (.arrayOf v) x w y ∧ defs.run bound w y = .unsettled := by
  simp only [run_arrayOf, withElements_eq_unsettled_iff, Outcome.forEach_eq_unsettled_iff] at h
  obtain ⟨elements, hx, before, p, after, hsplit, hbefore, hp⟩ := h
  exact ⟨v, p.1, .element_of_run hx hsplit hbefore, checkElement_eq_unsettled_iff.1 hp⟩

theorem exists_call_of_tuple {vs : List Validator}
    (h : defs.run bound (.tuple vs) x = .unsettled) :
    ∃ w y, defs.Calls (.tuple vs) x w y ∧ defs.run bound w y = .unsettled := by
  simp only [run_tuple, withElements_eq_unsettled_iff] at h
  obtain ⟨elements, hx, h⟩ := h
  split at h
  · next hlength =>
    obtain ⟨before, p, after, hsplit, hbefore, hp⟩ := Outcome.forEach_eq_unsettled_iff.1 h
    exact ⟨p.1.1, p.1.2, .position_of_run hx hlength hsplit hbefore,
      checkElement_eq_unsettled_iff.1 hp⟩
  · cases h

/-- A run that is unsettled was left so by one of its calls. -/
theorem exists_call_of_unsettled (hknown : defs.Known v) (hv : v.isReference = false)
    (h : defs.run bound v x = .unsettled) :
    ∃ w y, defs.Calls v x w y ∧ defs.run bound w y = .unsettled := by
  -- A loop is left unsettled by one check, and all checks before that one let it go on.
  cases v with
  | leaf l => exact absurd (by simpa using h) (Leaf.judge_ne_unsettled hknown)
  | anyOf form vs =>
    simp only [run_anyOf, Outcome.mapReason_eq_unsettled_iff, Outcome.firstOf_eq_unsettled_iff] at h
    obtain ⟨before, v, after, rfl, hbefore, hv⟩ := h
    refine ⟨v, x, .anyOf ?_, hv⟩
    intro u hu
    obtain ⟨reason, hu⟩ := hbefore u hu
    exact rejects_of_run hu
  | allOf form vs =>
    simp only [run_allOf, Outcome.as_eq_unsettled_iff, Outcome.behind_eq_unsettled_iff,
      Outcome.forEach_eq_unsettled_iff] at h
    obtain ⟨before, v, after, rfl, hbefore, hv⟩ := h
    refine ⟨v, x, .allOf ?_, hv⟩
    intro u hu
    obtain ⟨y, hu⟩ := hbefore u hu
    exact accepts_of_run hu
  | not v =>
    exact ⟨v, x, .not, run_not_eq_unsettled_iff.1 h⟩
  | pipe v w =>
    simp only [run_pipe, Outcome.bind_eq_unsettled_iff] at h
    -- Either stage may be unsettled, the second one on what the first one gave.
    rcases h with hv | ⟨y, hy, hw⟩
    · exact ⟨v, x, .first, hv⟩
    · exact ⟨w, y, .second (returns_of_run hy (by simp)), hw⟩
  | explained message v =>
    simp only [run_explained, Outcome.behind_eq_unsettled_iff] at h
    exact ⟨v, x, .explained, h⟩
  | sealed label v =>
    rw [run_sealed] at h
    exact ⟨v, x, .sealed, h⟩
  | optional v =>
    rw [run_optional] at h
    split at h
    · cases h
    · next hx => exact ⟨v, x, .optional (by simpa using hx), h⟩
  | nullable v =>
    rw [run_nullable] at h
    split at h
    · cases h
    · next hx => exact ⟨v, x, .nullable (by simpa using hx), h⟩
  | reference name => cases hv
  | property key v options =>
    simp only [run_property, withObject_eq_unsettled_iff, checkProperty_eq_unsettled_iff] at h
    obtain ⟨o, rfl, y, hy, hv⟩ := h
    exact ⟨v, y, .property hy, hv⟩
  | shape fields options => exact exists_call_of_shape h
  | dictionary k v => exact exists_call_of_dictionary h
  | arrayOf v => exact exists_call_of_arrayOf h
  | tuple vs => exact exists_call_of_tuple h

theorem checkElement_ne_rejected {index : Nat} (h : defs.Accepts v x) (reason : Reason) :
    checkElement (defs.run bound v) x index ≠ .rejected reason := by
  intro hrun
  simp only [checkElement, Outcome.as_eq_rejected_iff, Outcome.behind_eq_rejected_iff] at hrun
  obtain ⟨r, hr, -⟩ := hrun
  exact h.run_ne_rejected r hr

/-- A call that is unsettled leaves the run unsettled that makes it. -/
theorem Calls.run_eq_unsettled (h : defs.Calls v x w y) (hw : defs.run bound w y = .unsettled) :
    defs.run bound v x = .unsettled := by
  -- What stands before the call in a loop may be unsettled under this bound, but never ends it.
  cases h with
  | anyOf hbefore =>
    rw [run_anyOf, Outcome.mapReason_eq_unsettled_iff]
    exact Outcome.firstOf_unsettled (fun u hu => (hbefore u hu).run_ne_accepted) hw
  | allOf hbefore =>
    rw [run_allOf, Outcome.as_eq_unsettled_iff, Outcome.behind_eq_unsettled_iff]
    exact Outcome.forEach_unsettled (fun u hu => (hbefore u hu).run_ne_rejected) hw
  | not => rw [run_not, hw]
  | first => rw [run_pipe, hw, Outcome.bind_unsettled]
  | @second v w x y hy =>
    rw [run_pipe]
    -- The output that was passed on may have needed a greater bound.
    by_cases hv : defs.run bound v x = .unsettled
    · rw [hv, Outcome.bind_unsettled]
    · rw [hy.run_eq hv, Outcome.bind_accepted, hw]
  | explained => rw [run_explained, Outcome.behind_eq_unsettled_iff, hw]
  | sealed => rw [run_sealed, hw]
  | optional hx => simp [hx, hw]
  | nullable hx => simp [hx, hw]
  | @property key v options o y hy =>
    rw [run_property, withObject_eq_unsettled_iff]
    exact ⟨o, rfl, checkProperty_eq_unsettled_iff.2 ⟨y, hy, hw⟩⟩
  | @field before after f options o y hbefore hy =>
    rw [run_shape, withObject_eq_unsettled_iff]
    refine ⟨o, rfl, Outcome.bind_eq_unsettled_iff.2 (.inl ?_)⟩
    exact Outcome.forEach_unsettled (fun g hg => (hbefore g hg).ne_rejected)
      (checkProperty_eq_unsettled_iff.2 ⟨y, hy, hw⟩)
  | @key k v o before after key hkeys hbefore =>
    rw [run_dictionary, withObject_eq_unsettled_iff]
    refine ⟨o, rfl, ?_⟩
    rw [hkeys]
    exact Outcome.forEach_unsettled (fun key hkey => (hbefore key hkey).ne_rejected)
      (checkEntry_eq_unsettled_iff.2 (.inl hw))
  | @entry k v o before after key hkeys hbefore hkey =>
    rw [run_dictionary, withObject_eq_unsettled_iff]
    refine ⟨o, rfl, ?_⟩
    rw [hkeys]
    refine Outcome.forEach_unsettled (fun key hkey => (hbefore key hkey).ne_rejected)
      (checkEntry_eq_unsettled_iff.2 ?_)
    -- The key is accepted under some bound, so under this one it is not rejected.
    cases hk : defs.run bound k key.toValue with
    | accepted z => exact .inr ⟨⟨z, rfl⟩, hw⟩
    | rejected reason => exact absurd hk (hkey.run_ne_rejected reason)
    | unsettled => exact .inl rfl
  | @element v x y before after hx hbefore =>
    rw [run_arrayOf, withElements_eq_unsettled_iff]
    refine ⟨_, hx, ?_⟩
    rw [List.zipIdx_append, List.zipIdx_cons]
    refine Outcome.forEach_unsettled ?_ (checkElement_eq_unsettled_iff.2 hw)
    intro p hp
    exact checkElement_ne_rejected (hbefore p.1 (List.fst_mem_of_mem_zipIdx hp))
  | @position vs v x y elements before after hx hlength hzip hbefore =>
    rw [run_tuple, withElements_eq_unsettled_iff]
    refine ⟨elements, hx, ?_⟩
    rw [if_pos hlength, hzip, List.zipIdx_append, List.zipIdx_cons]
    refine Outcome.forEach_unsettled ?_ (checkElement_eq_unsettled_iff.2 hw)
    intro p hp
    exact checkElement_ne_rejected (hbefore p.1 (List.fst_mem_of_mem_zipIdx hp))

/-! ## Call paths -/

variable (defs) in
/-- From one call to the next. The trace lists the definitions that are unfolded one inside the
other, each with the value on which it is run. -/
inductive CallPath : Validator → Value → List (String × Value) → Prop
  | done {v : Validator} {x : Value} : CallPath v x []
  | call {v w : Validator} {x y : Value} {trace : List (String × Value)}
      (hcall : defs.Calls v x w y) (hpath : CallPath w y trace) : CallPath v x trace
  | unfold {name : String} {w : Validator} {x : Value} {trace : List (String × Value)}
      (hw : defs.lookup name = some w) (hpath : CallPath w x trace) :
      CallPath (.reference name) x ((name, x) :: trace)

/-- A run that is unsettled was left so by a reference that a call path leads to. -/
theorem exists_reference_of_unsettled (hv : v.Throughout defs.Known)
    (h : defs.run bound v x = .unsettled) :
    ∃ name w y, defs.lookup name = some w ∧ defs.run bound (.reference name) y = .unsettled ∧
      ∀ trace, defs.CallPath (.reference name) y trace → defs.CallPath v x trace := by
  -- Each call goes to a part, so a reference is reached before the validator is used up.
  induction v using Validator.partsInduction generalizing x with
  | step v ih =>
    cases hreference : v.isReference with
    | true =>
      obtain ⟨name, rfl⟩ := Validator.isReference_iff.1 hreference
      obtain ⟨w, hw⟩ := hv.here
      exact ⟨name, w, x, hw, h, fun _ hpath => hpath⟩
    | false =>
      obtain ⟨u, y, hcall, hu⟩ := exists_call_of_unsettled hv.here hreference h
      have hmem : u ∈ v.parts := hcall.mem_parts
      obtain ⟨name, w, z, hw, hz, hpath⟩ := ih u hmem (hv.inside u hmem) hu
      exact ⟨name, w, z, hw, hz, fun trace htrace => .call hcall (hpath trace htrace)⟩

/-- If a bound does not settle a run, a call path goes beyond it. -/
theorem exists_path_of_unsettled (hdefs : defs.Each (Validator.Throughout defs.Known))
    (hv : v.Throughout defs.Known) (h : defs.run bound v x = .unsettled) :
    ∃ trace, defs.CallPath v x trace ∧ trace.length = bound + 1 := by
  induction bound generalizing v x with
  | zero =>
    obtain ⟨name, w, y, hw, -, hpath⟩ := exists_reference_of_unsettled hv h
    exact ⟨[(name, y)], hpath _ (.unfold hw .done), rfl⟩
  | succ bound ih =>
    obtain ⟨name, w, y, hw, hy, hpath⟩ := exists_reference_of_unsettled hv h
    have hrun : defs.run bound w y = .unsettled := by simpa [run_reference_succ, hw] using hy
    obtain ⟨trace, htrace, hlength⟩ := ih (hdefs name w hw) hrun
    exact ⟨(name, y) :: trace, hpath _ (.unfold hw htrace), by simp [hlength]⟩

/-- A run is unsettled if a call path goes beyond its bound. -/
theorem CallPath.run_eq_unsettled {trace : List (String × Value)} (h : defs.CallPath v x trace)
    (hbound : bound < trace.length) : defs.run bound v x = .unsettled := by
  induction h generalizing bound with
  | done => simp at hbound
  | call hcall _ ih => exact hcall.run_eq_unsettled (ih hbound)
  | unfold hw _ ih =>
    cases bound with
    | zero => exact run_reference_zero ..
    | succ bound =>
      rw [run_reference_succ, hw]
      exact ih (by simpa using hbound)

/-- A validator comes to an end if and only if there is a bound to the unfoldings on call paths. -/
theorem settles_iff_bounded (hdefs : defs.Each (Validator.Throughout defs.Known))
    (hv : v.Throughout defs.Known) :
    defs.Settles v x ↔
      ∃ bound, ∀ trace, defs.CallPath v x trace → trace.length ≤ bound := by
  constructor
  · intro h
    obtain ⟨verdict, hs, bound, hrun⟩ := h
    -- The bound of a run that is settled is a bound to the paths as well.
    refine ⟨bound, ?_⟩
    intro trace hpath
    by_contra hlong
    exact hs (hrun ▸ hpath.run_eq_unsettled (by omega))
  · intro h
    obtain ⟨bound, hbound⟩ := h
    have hrun : defs.run bound v x ≠ .unsettled := by
      intro hrun
      obtain ⟨trace, hpath, hlength⟩ := exists_path_of_unsettled hdefs hv hrun
      have := hbound trace hpath
      omega
    exact settles_of_run hrun

/-! ## Coming back to a value -/

theorem Calls.settles (h : defs.Calls v x w y) (hv : defs.Settles v x) : defs.Settles w y := by
  obtain ⟨bound, hrun⟩ := hv.eventually.exists
  exact settles_of_run fun hw => hrun (h.run_eq_unsettled hw)

theorem settles_of_reference {name : String} (hw : defs.lookup name = some w)
    (h : defs.Settles (.reference name) x) : defs.Settles w x := by
  obtain ⟨verdict, hs, bound, hrun⟩ := h
  cases bound with
  | zero => exact absurd (hrun.symm.trans (run_reference_zero ..)) hs
  | succ bound =>
    rw [run_reference_succ, hw] at hrun
    exact ⟨verdict, returns_of_run hrun hs⟩

/-- From a place in the trace on, a call path may be continued in any other way. -/
theorem CallPath.replace {before after trace : List (String × Value)} {name : String}
    (h : defs.CallPath v x (before ++ (name, y) :: after))
    (htrace : defs.CallPath (.reference name) y trace) : defs.CallPath v x (before ++ trace) := by
  generalize hwhole : before ++ (name, y) :: after = whole at h
  induction h generalizing before with
  | done => simp at hwhole
  | call hcall _ ih => exact .call hcall (ih hwhole)
  | unfold hw _ ih =>
    cases before with
    | nil =>
      cases hwhole
      exact htrace
    | cons entry before =>
      cases hwhole
      exact .unfold hw (ih rfl)

/-- Where a definition comes back to its value, call paths become as long as one likes. -/
theorem CallPath.exists_longer {name : String} {between after : List (String × Value)}
    (h : defs.CallPath (.reference name) x ((name, x) :: between ++ (name, x) :: after))
    (length : Nat) :
    ∃ trace, defs.CallPath (.reference name) x trace ∧ length ≤ trace.length := by
  induction length with
  | zero => exact ⟨[], .done, Nat.le_refl 0⟩
  | succ length ih =>
    obtain ⟨trace, htrace, hlength⟩ := ih
    refine ⟨(name, x) :: between ++ trace, h.replace htrace, ?_⟩
    simp only [List.cons_append, List.length_cons, List.length_append]
    omega

/-- A validator that comes to an end passes no definition twice with the same value. -/
theorem CallPath.nodup_of_settles {trace : List (String × Value)} (h : defs.CallPath v x trace)
    (hv : defs.Settles v x) : trace.Nodup := by
  induction h with
  | done => exact List.nodup_nil
  | call hcall _ ih => exact ih (hcall.settles hv)
  | @unfold name w x trace hw hpath ih =>
    refine List.nodup_cons.2 ⟨?_, ih (settles_of_reference hw hv)⟩
    intro hmem
    -- Going round once more and once more makes a path that is too long for every bound.
    obtain ⟨between, after, rfl⟩ := List.append_of_mem hmem
    obtain ⟨verdict, hs, bound, hrun⟩ := hv
    obtain ⟨longer, hlonger, hlength⟩ := (CallPath.unfold hw hpath).exists_longer (bound + 1)
    exact hs (hrun ▸ hlonger.run_eq_unsettled hlength)

end Definitions

end Narrowing
