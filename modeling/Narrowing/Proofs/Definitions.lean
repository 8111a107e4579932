-- SUMMARY: Equations and inversion lemmas for runs, monotonicity in the bound, and verdicts that do not depend on it.
import Mathlib.Order.Filter.AtTopBot.Basic
import Narrowing.Definitions
import Narrowing.Proofs.Checks
import Narrowing.Proofs.Validator

/-!
# Runs under a bound

`Definitions.run` by the kinds of validators, the loops over branches, fields and elements being
the loops of `Outcome`. A greater bound never changes what a run says (`run_below`). So a validator
*returns* a verdict on a value (`Definitions.Returns`) if some bound is enough for it, and what it
returns does not depend on the bound.
-/

namespace Narrowing

namespace Validator

attribute [local simp] runWith runAny runAll runFields runElements

theorem runAny_eq_firstOf (refer : String → Value → Verdict) (vs : List Validator) (x : Value) :
    runAny refer vs x = Outcome.firstOf (fun v => v.runWith refer x) vs := by
  induction vs with
  | nil => simp
  | cons v vs ih => cases h : v.runWith refer x <;> simp [Outcome.firstOf, h, ih]

theorem runAll_eq_forEach (refer : String → Value → Verdict) (vs : List Validator) (x : Value) :
    runAll refer vs x = Outcome.forEach (fun v => v.runWith refer x) vs := by
  induction vs with
  | nil => simp
  | cons v vs ih => simp only [runAll, Outcome.forEach_cons, ih]

theorem runFields_eq_forEach (refer : String → Value → Verdict) (o : Object)
    (options : ShapeOptions) (fields : List (Field Validator)) :
    runFields refer o options fields =
      Outcome.forEach (fun f => checkProperty o f.key (options.forField f.mayBeMissing)
        (f.validator.runWith refer)) fields := by
  induction fields with
  | nil => simp
  | cons f fields ih => simp only [runFields, Outcome.forEach_cons, ih]

/-- A validator and a value in the same place of two lists, with the place. -/
abbrev Placed := (Validator × Value) × Nat

theorem runElements_eq_forEach (refer : String → Value → Verdict) (vs : List Validator)
    (xs : List Value) (index : Nat) :
    runElements refer vs xs index =
      Outcome.forEach (fun p : Placed => checkElement (p.1.1.runWith refer) p.1.2 p.2)
        ((vs.zip xs).zipIdx index) := by
  induction vs generalizing xs index with
  | nil => simp
  | cons v vs ih =>
    cases xs with
    | nil => simp
    | cons x xs => simp only [runElements, List.zip_cons_cons, List.zipIdx_cons,
        Outcome.forEach_cons, ih]

end Validator

namespace Definitions

variable (defs : Definitions)

/-- What references stand for under a bound. -/
def referWithin : Nat → String → Value → Verdict
  | 0, _, _ => .unsettled
  | bound + 1, name, x =>
      match defs.lookup name with
      | some w => defs.run bound w x
      | none => .unsettled

/-! ## Runs by kinds of validators -/

theorem run_eq_runWith (bound : Nat) (v : Validator) :
    defs.run bound v = v.runWith (defs.referWithin bound) := by
  cases bound <;> rfl

variable (bound : Nat)

@[simp] theorem run_leaf (l x) : defs.run bound (.leaf l) x = l.judge x := by
  simp only [run_eq_runWith, Validator.runWith]

@[simp] theorem run_anyOf (form vs x) : defs.run bound (.anyOf form vs) x =
    (Outcome.firstOf (fun v => defs.run bound v x) vs).mapReason
      (.aggregate Complaint.noneSatisfied.text) := by
  simp only [run_eq_runWith, Validator.runWith, Validator.runAny_eq_firstOf]

@[simp] theorem run_allOf (form vs x) : defs.run bound (.allOf form vs) x =
    ((Outcome.forEach (fun v => defs.run bound v x) vs).behind
      Complaint.notAllSatisfied.text).as x := by
  simp only [run_eq_runWith, Validator.runWith, Validator.runAll_eq_forEach]

@[simp] theorem run_not (v x) : defs.run bound (.not v) x =
    match defs.run bound v x with
    | .accepted _ => .rejected Complaint.satisfied.reason
    | .rejected _ => .accepted x
    | .unsettled => .unsettled := by
  simp only [run_eq_runWith]
  rfl

@[simp] theorem run_pipe (v w x) :
    defs.run bound (.pipe v w) x = (defs.run bound v x).bind (defs.run bound w) := by
  simp only [run_eq_runWith, Validator.runWith]

theorem run_checked (v o) :
    defs.run bound (.checked v) (.object o) = defs.run bound v (.object o) := by
  rw [Validator.checked, run_pipe, run_leaf]
  rfl

theorem run_coerced (v x) :
    defs.run bound (.coerced v) x = defs.run bound v (.object x.toObject) := by
  rw [Validator.coerced, run_pipe, run_leaf, Leaf.judge, Outcome.bind_accepted]

@[simp] theorem run_explained (message v x) :
    defs.run bound (.explained message v) x = (defs.run bound v x).behind message := by
  simp only [run_eq_runWith, Validator.runWith]

@[simp] theorem run_sealed (label v x) :
    defs.run bound (.sealed label v) x = defs.run bound v x := by
  simp only [run_eq_runWith, Validator.runWith]

@[simp] theorem run_optional (v x) : defs.run bound (.optional v) x =
    if x.isUndefined then .accepted x else defs.run bound v x := by
  simp only [run_eq_runWith, Validator.runWith]

@[simp] theorem run_nullable (v x) : defs.run bound (.nullable v) x =
    if x.isNull then .accepted x else defs.run bound v x := by
  simp only [run_eq_runWith, Validator.runWith]

theorem run_reference_zero (name x) : defs.run 0 (.reference name) x = .unsettled := by
  simp only [run_eq_runWith, Validator.runWith, referWithin]

theorem run_reference_succ (name x) : defs.run (bound + 1) (.reference name) x =
    match defs.lookup name with
    | some w => defs.run bound w x
    | none => .unsettled := by
  rw [run_eq_runWith, Validator.runWith, referWithin]

@[simp] theorem run_property (key v options x) : defs.run bound (.property key v options) x =
    withObject x fun o => checkProperty o key options (defs.run bound v) := by
  simp only [run_eq_runWith, Validator.runWith]

@[simp] theorem run_shape (fields options x) : defs.run bound (.shape fields options) x =
    withObject x fun o =>
      (Outcome.forEach (fun f => checkProperty o f.key (options.forField f.mayBeMissing)
        (defs.run bound f.validator)) fields).bind fun _ =>
          if options.allowExtra then .accepted () else checkExtra o (fields.map Field.key) := by
  simp only [run_eq_runWith, Validator.runWith, Validator.runFields_eq_forEach]

@[simp] theorem run_dictionary (k v x) : defs.run bound (.dictionary k v) x =
    withObject x fun o =>
      Outcome.forEach (checkEntry o (defs.run bound k) (defs.run bound v)) o.ownKeys := by
  simp only [run_eq_runWith, Validator.runWith]

@[simp] theorem run_arrayOf (v x) : defs.run bound (.arrayOf v) x =
    withElements x fun elements =>
      Outcome.forEach (fun p => checkElement (defs.run bound v) p.1 p.2) elements.zipIdx := by
  simp only [run_eq_runWith, Validator.runWith]

@[simp] theorem run_tuple (vs x) : defs.run bound (.tuple vs) x =
    withElements x fun elements =>
      if elements.length = vs.length then
        Outcome.forEach (fun p : Validator.Placed => checkElement (defs.run bound p.1.1) p.1.2 p.2)
          (vs.zip elements).zipIdx
      else .rejected (Complaint.wrongLength elements.length vs.length).reason := by
  simp only [run_eq_runWith, Validator.runWith, Validator.runElements_eq_forEach]

variable {defs bound}

/-! ## Verdicts of negations -/

section Negations

variable {v : Validator} {x y : Value} {reason : Reason}

theorem run_not_eq_accepted_iff : defs.run bound (.not v) x = .accepted y ↔
    (∃ reason, defs.run bound v x = .rejected reason) ∧ x = y := by
  rw [run_not]
  cases defs.run bound v x <;> simp

theorem run_not_eq_rejected_iff : defs.run bound (.not v) x = .rejected reason ↔
    (∃ y, defs.run bound v x = .accepted y) ∧ Complaint.satisfied.reason = reason := by
  rw [run_not]
  cases defs.run bound v x <;> simp

theorem run_not_eq_unsettled_iff :
    defs.run bound (.not v) x = .unsettled ↔ defs.run bound v x = .unsettled := by
  rw [run_not]
  cases defs.run bound v x <;> simp

end Negations

/-! ## Greater bounds -/

/-- A run says the same under a bound under which the references do. -/
theorem run_below_of_refer {m n : Nat}
    (h : ∀ name x, (defs.run m (.reference name) x).Below (defs.run n (.reference name) x))
    (v : Validator) (x : Value) : (defs.run m v x).Below (defs.run n v x) := by
  -- A loop says the same under both bounds if each of its checks does.
  induction v using Validator.induction generalizing x with
  | leaf l => simpa using Outcome.Below.refl _
  | anyOf form vs ih =>
    simp only [run_anyOf]
    exact (Outcome.Below.firstOf fun v hv => ih v hv x).mapReason _
  | allOf form vs ih =>
    simp only [run_allOf]
    exact ((Outcome.Below.forEach fun v hv => ih v hv x).behind _).as _
  | not v ih =>
    intro hsettled
    -- A negation is settled only if what it negates is.
    have hv : defs.run m v x ≠ .unsettled := by
      intro hv
      simp [hv] at hsettled
    simp only [run_not, ih x hv]
  | pipe v w ihv ihw =>
    simp only [run_pipe]
    exact (ihv x).bind ihw
  | explained message v ih =>
    simp only [run_explained]
    exact (ih x).behind _
  | sealed label v ih =>
    simp only [run_sealed]
    exact ih x
  | optional v ih =>
    simp only [run_optional]
    split
    · exact Outcome.Below.refl _
    · exact ih x
  | nullable v ih =>
    simp only [run_nullable]
    split
    · exact Outcome.Below.refl _
    · exact ih x
  | reference name => exact h name x
  | property key v options ih =>
    simp only [run_property]
    exact withObject_below fun o => checkProperty_below ih
  | shape fields options ih =>
    simp only [run_shape]
    apply withObject_below
    intro o
    apply Outcome.Below.bind
    · exact Outcome.Below.forEach fun f hf => checkProperty_below (ih f hf)
    · exact fun _ => Outcome.Below.refl _
  | dictionary k v ihk ihv =>
    simp only [run_dictionary]
    exact withObject_below fun o => Outcome.Below.forEach fun key _ => checkEntry_below ihk ihv
  | arrayOf v ih =>
    simp only [run_arrayOf]
    exact withElements_below fun elements => Outcome.Below.forEach fun p _ => checkElement_below ih
  | tuple vs ih =>
    simp only [run_tuple]
    apply withElements_below
    intro elements
    -- The length is looked at before any element, so it is the same under both bounds.
    split
    · refine Outcome.Below.forEach fun p hp => checkElement_below (ih p.1.1 ?_)
      exact (List.of_mem_zip (List.fst_mem_of_mem_zipIdx hp)).1
    · exact Outcome.Below.refl _

/-- A greater bound changes nothing that was settled. -/
theorem run_below {m n : Nat} (h : m ≤ n) (v : Validator) (x : Value) :
    (defs.run m v x).Below (defs.run n v x) := by
  -- Both bounds go down by one where a reference is unfolded, and the lesser one ends first.
  induction m generalizing n v x with
  | zero =>
    refine run_below_of_refer ?_ v x
    intro name y
    rw [run_reference_zero]
    exact Outcome.unsettled_below _
  | succ m ih =>
    obtain ⟨k, rfl⟩ : ∃ k, n = k + 1 := ⟨n - 1, by omega⟩
    refine run_below_of_refer ?_ v x
    intro name y
    rw [run_reference_succ, run_reference_succ]
    cases defs.lookup name with
    | none => exact Outcome.Below.refl _
    | some w => exact ih (by omega) w y

/-! ## What a validator returns -/

variable (defs) in
/-- A validator returns a verdict on a value: under some bound, and so under all greater ones, its
run comes to that verdict. -/
def Returns (v : Validator) (x : Value) (verdict : Verdict) : Prop :=
  verdict ≠ .unsettled ∧ ∃ bound, defs.run bound v x = verdict

variable (defs) in
/-- All definitions have a property. -/
def Each (p : Validator → Prop) : Prop :=
  ∀ name w, defs.lookup name = some w → p w

variable (defs) in
/-- A validator comes to an end on a value. -/
def Settles (v : Validator) (x : Value) : Prop :=
  ∃ verdict, defs.Returns v x verdict

variable (defs) in
def Accepts (v : Validator) (x : Value) : Prop :=
  ∃ y, defs.Returns v x (.accepted y)

variable (defs) in
def Rejects (v : Validator) (x : Value) : Prop :=
  ∃ reason, defs.Returns v x (.rejected reason)

variable {v w : Validator} {x y : Value} {verdict : Verdict}

theorem each_of_mem {p : Validator → Prop} (h : ∀ d ∈ defs, p d.2) : defs.Each p := by
  intro name w hw
  obtain ⟨before, after, rfl, -⟩ := List.lookup_eq_some_iff.1 hw
  exact h (name, w) (List.mem_append_right before List.mem_cons_self)

theorem returns_of_run (h : defs.run bound v x = verdict) (hs : verdict ≠ .unsettled) :
    defs.Returns v x verdict :=
  ⟨hs, bound, h⟩

theorem accepts_of_run (h : defs.run bound v x = .accepted y) : defs.Accepts v x :=
  ⟨y, returns_of_run h (by simp)⟩

theorem rejects_of_run {reason : Reason} (h : defs.run bound v x = .rejected reason) :
    defs.Rejects v x :=
  ⟨reason, returns_of_run h (by simp)⟩

theorem settles_of_run (h : defs.run bound v x ≠ .unsettled) : defs.Settles v x :=
  ⟨_, returns_of_run rfl h⟩

/-- A validator that decides by one condition under every bound comes to an end. -/
theorem settles_of_ensure {condition : Bool} {reason : Reason}
    (h : ∀ bound, defs.run bound v x = .ensure condition reason y) : defs.Settles v x := by
  have hrun : defs.run 0 v x ≠ .unsettled := by
    rw [h]
    exact Outcome.ensure_ne_unsettled
  exact settles_of_run hrun

theorem accepts_iff_of_ensure {condition : Bool} {reason : Reason}
    (h : ∀ bound, defs.run bound v x = .ensure condition reason y) :
    defs.Accepts v x ↔ condition = true := by
  constructor
  · rintro ⟨z, -, bound, hz⟩
    rw [h, Outcome.ensure_eq_accepted_iff] at hz
    exact hz.1
  · intro hcondition
    exact accepts_of_run ((h 0).trans (if_pos hcondition))

theorem returns_leaf_iff {l : Leaf} :
    defs.Returns (.leaf l) x verdict ↔ verdict ≠ .unsettled ∧ l.judge x = verdict := by
  simp [Returns]

theorem accepts_leaf_iff {l : Leaf} :
    defs.Accepts (.leaf l) x ↔ ∃ y, l.judge x = .accepted y := by
  simp [Accepts, returns_leaf_iff]

theorem settles_iff_run :
    defs.Settles v x ↔ ∃ bound, defs.run bound v x ≠ .unsettled := by
  constructor
  · rintro ⟨verdict, hverdict, bound, rfl⟩
    exact ⟨bound, hverdict⟩
  · rintro ⟨bound, hrun⟩
    exact settles_of_run hrun

/-- Two runs that are settled agree, whatever their bounds. -/
theorem Returns.run_eq (h : defs.Returns v x verdict) (hs : defs.run bound v x ≠ .unsettled) :
    defs.run bound v x = verdict := by
  obtain ⟨hverdict, n, hn⟩ := h
  rcases Nat.le_total bound n with hle | hle
  · rw [← run_below hle v x hs, hn]
  · rw [run_below hle v x (by rwa [hn]), hn]

theorem Returns.eq {verdict' : Verdict} (h : defs.Returns v x verdict)
    (h' : defs.Returns v x verdict') : verdict = verdict' := by
  obtain ⟨hs', n, hn⟩ := h'
  have hs : defs.run n v x ≠ .unsettled := by rwa [hn]
  rw [← h.run_eq hs, hn]

/-- What a validator returns is what it says under all bounds from some one upwards. -/
theorem Returns.eventually (h : defs.Returns v x verdict) :
    ∀ᶠ bound in Filter.atTop, defs.run bound v x = verdict := by
  obtain ⟨hs, n, hn⟩ := h
  rw [Filter.eventually_atTop]
  refine ⟨n, ?_⟩
  intro bound hle
  rw [run_below hle v x (by rwa [hn]), hn]

/-- The verdict of a run under the library's own bound is the one that is returned. -/
theorem returns_validate (h : defs.validate v x ≠ .unsettled) :
    defs.Returns v x (defs.validate v x) := by
  rw [validate_eq_run] at h ⊢
  exact returns_of_run rfl h

/-- The library's own bound is enough if the one that it takes from the depth of the value is. -/
theorem validate_ne_unsettled (h : defs.run (defs.unfoldings x) v x ≠ .unsettled) :
    defs.validate v x ≠ .unsettled := by
  unfold validate
  split
  · exact h
  · assumption

theorem Settles.accepts_or_rejects (h : defs.Settles v x) :
    defs.Accepts v x ∨ defs.Rejects v x := by
  obtain ⟨verdict, hr⟩ := h
  cases verdict with
  | accepted y => exact .inl ⟨y, hr⟩
  | rejected reason => exact .inr ⟨reason, hr⟩
  | unsettled => exact absurd rfl hr.1

theorem Accepts.settles (h : defs.Accepts v x) : defs.Settles v x :=
  h.elim fun _ hy => ⟨_, hy⟩

theorem Rejects.settles (h : defs.Rejects v x) : defs.Settles v x :=
  h.elim fun _ hr => ⟨_, hr⟩

theorem Accepts.eventually (h : defs.Accepts v x) :
    ∀ᶠ bound in Filter.atTop, ∃ y, defs.run bound v x = .accepted y := by
  obtain ⟨y, hy⟩ := h
  exact hy.eventually.mono fun _ hrun => ⟨y, hrun⟩

theorem Rejects.eventually (h : defs.Rejects v x) :
    ∀ᶠ bound in Filter.atTop, ∃ reason, defs.run bound v x = .rejected reason := by
  obtain ⟨reason, hr⟩ := h
  exact hr.eventually.mono fun _ hrun => ⟨reason, hrun⟩

theorem Settles.eventually (h : defs.Settles v x) :
    ∀ᶠ bound in Filter.atTop, defs.run bound v x ≠ .unsettled := by
  obtain ⟨verdict, hr⟩ := h
  exact hr.eventually.mono fun _ hrun => hrun ▸ hr.1

theorem Accepts.not_rejects (h : defs.Accepts v x) : ¬ defs.Rejects v x := by
  intro hrej
  obtain ⟨y, hy⟩ := h
  obtain ⟨reason, hr⟩ := hrej
  cases hy.eq hr

end Definitions

end Narrowing
