-- SUMMARY: Connectives as Boolean formulas: truth, the laws of Boolean logic, reasons, and outputs.
import Mathlib.Order.Filter.Finite
import Narrowing.Proofs.Definitions

/-!
# Connectives

Branches and negations put together are Boolean formulas over the validators at their leaves. A
formula accepts a value if it is true, a leaf being true if it accepts the value
(`Formula.accepts_iff_holds`). So formulas that differ by the laws of Boolean logic accept the same
values (`Formula.Rearranged`).

The connectives look at their branches in turn and end early. What they return tells which branch
decided, and the reasons of a disjunction tell what became of each.
-/

namespace Narrowing

namespace Definitions

variable {defs : Definitions} {form : Form} {v : Validator} {vs : List Validator} {x y : Value}
  {reason : Reason}

/-- One bound is enough for all members of a list. -/
theorem eventually_forall_mem {α : Type} {as : List α} {p : Nat → α → Prop}
    (h : ∀ a ∈ as, ∀ᶠ bound in Filter.atTop, p bound a) :
    ∀ᶠ bound in Filter.atTop, ∀ a ∈ as, p bound a :=
  (Filter.eventually_all_finite as.finite_toSet).2 h

/-! ## Disjunctions -/

/-- A disjunction gives the output of the first branch that accepts. -/
theorem returns_anyOf_accepted_iff :
    defs.Returns (.anyOf form vs) x (.accepted y) ↔
      ∃ before v after, vs = before ++ v :: after ∧ (∀ u ∈ before, defs.Rejects u x) ∧
        defs.Returns v x (.accepted y) := by
  constructor
  · intro h
    obtain ⟨-, bound, h⟩ := h
    simp only [run_anyOf, Outcome.mapReason_eq_accepted_iff, Outcome.firstOf_eq_accepted_iff] at h
    obtain ⟨before, v, after, rfl, hbefore, hv⟩ := h
    refine ⟨before, v, after, rfl, ?_, returns_of_run hv (by simp)⟩
    intro u hu
    obtain ⟨reason, hu⟩ := hbefore u hu
    exact rejects_of_run hu
  · intro h
    obtain ⟨before, v, after, rfl, hbefore, hv⟩ := h
    -- A bound under which all branches up to the one that decides are settled.
    have hall := eventually_forall_mem fun u hu => (hbefore u hu).eventually
    obtain ⟨bound, hrun, hlast⟩ := (hall.and hv.eventually).exists
    refine ⟨by simp, bound, ?_⟩
    simp only [run_anyOf, Outcome.mapReason_eq_accepted_iff, Outcome.firstOf_eq_accepted_iff]
    exact ⟨before, v, after, rfl, hrun, hlast⟩

/-- A disjunction that rejects gives the reasons of all branches, in their order. -/
theorem returns_anyOf_rejected_iff :
    defs.Returns (.anyOf form vs) x (.rejected reason) ↔
      ∃ reasons, List.Forall₂ (fun v r => defs.Returns v x (.rejected r)) vs reasons ∧
        reason = .aggregate Complaint.noneSatisfied.text reasons := by
  constructor
  · intro h
    obtain ⟨-, bound, h⟩ := h
    simp only [run_anyOf, Outcome.mapReason_eq_rejected_iff, Outcome.firstOf_eq_rejected_iff] at h
    obtain ⟨reasons, hall, rfl⟩ := h
    exact ⟨reasons, hall.imp fun _ _ hrun => returns_of_run hrun (by simp), rfl⟩
  · intro h
    obtain ⟨reasons, hall, rfl⟩ := h
    -- One bound for all branches, each with its own reason.
    have hrun : ∀ᶠ bound in Filter.atTop,
        List.Forall₂ (fun v r => defs.run bound v x = .rejected r) vs reasons := by
      induction hall with
      | nil => simp
      | cons hhead _ ih =>
        simpa only [List.forall₂_cons] using hhead.eventually.and ih
    obtain ⟨bound, hrun⟩ := hrun.exists
    refine ⟨by simp, bound, ?_⟩
    simp only [run_anyOf, Outcome.mapReason_eq_rejected_iff, Outcome.firstOf_eq_rejected_iff]
    exact ⟨reasons, hrun, rfl⟩

theorem exists_accepts_of_anyOf (h : defs.Accepts (.anyOf form vs) x) :
    ∃ v ∈ vs, defs.Accepts v x := by
  obtain ⟨y, hy⟩ := h
  obtain ⟨before, v, after, rfl, -, hv⟩ := returns_anyOf_accepted_iff.1 hy
  exact ⟨v, List.mem_append_right before List.mem_cons_self, y, hv⟩

theorem rejects_of_anyOf (h : defs.Rejects (.anyOf form vs) x) (hv : v ∈ vs) :
    defs.Rejects v x := by
  obtain ⟨reason, hr⟩ := h
  obtain ⟨reasons, hall, -⟩ := returns_anyOf_rejected_iff.1 hr
  -- The induction is on the reasons, one for each branch.
  clear hr
  induction hall with
  | nil => cases hv
  | cons hhead _ ih =>
    rcases List.mem_cons.1 hv with rfl | hv
    · exact ⟨_, hhead⟩
    · exact ih hv

/-! ## Conjunctions -/

theorem returns_allOf_accepted_iff :
    defs.Returns (.allOf form vs) x (.accepted y) ↔ (∀ v ∈ vs, defs.Accepts v x) ∧ y = x := by
  constructor
  · intro h
    obtain ⟨-, bound, h⟩ := h
    simp only [run_allOf, Outcome.as_eq_accepted_iff, Outcome.behind_eq_accepted_iff,
      Outcome.forEach_eq_accepted_iff, exists_const] at h
    refine ⟨?_, h.2.symm⟩
    intro v hv
    obtain ⟨y, hy⟩ := h.1 v hv
    exact accepts_of_run hy
  · intro h
    obtain ⟨hall, rfl⟩ := h
    obtain ⟨bound, hrun⟩ := (eventually_forall_mem fun v hv => (hall v hv).eventually).exists
    refine ⟨by simp, bound, ?_⟩
    simp only [run_allOf, Outcome.as_eq_accepted_iff, Outcome.behind_eq_accepted_iff,
      Outcome.forEach_eq_accepted_iff, exists_const]
    exact ⟨hrun, trivial⟩

/-- A conjunction that rejects gives the reason of the first branch that rejects. -/
theorem returns_allOf_rejected_iff :
    defs.Returns (.allOf form vs) x (.rejected reason) ↔
      ∃ before v after r, vs = before ++ v :: after ∧ (∀ u ∈ before, defs.Accepts u x) ∧
        defs.Returns v x (.rejected r) ∧ reason = .because Complaint.notAllSatisfied.text r := by
  constructor
  · intro h
    obtain ⟨-, bound, h⟩ := h
    simp only [run_allOf, Outcome.as_eq_rejected_iff, Outcome.behind_eq_rejected_iff,
      Outcome.forEach_eq_rejected_iff] at h
    obtain ⟨r, ⟨before, v, after, rfl, hbefore, hv⟩, rfl⟩ := h
    refine ⟨before, v, after, r, rfl, ?_, returns_of_run hv (by simp), rfl⟩
    intro u hu
    obtain ⟨y, hu⟩ := hbefore u hu
    exact accepts_of_run hu
  · intro h
    obtain ⟨before, v, after, r, rfl, hbefore, hv, rfl⟩ := h
    -- As above, with acceptance in the place of rejection.
    have hall := eventually_forall_mem fun u hu => (hbefore u hu).eventually
    obtain ⟨bound, hrun, hlast⟩ := (hall.and hv.eventually).exists
    refine ⟨by simp, bound, ?_⟩
    simp only [run_allOf, Outcome.as_eq_rejected_iff, Outcome.behind_eq_rejected_iff,
      Outcome.forEach_eq_rejected_iff]
    exact ⟨r, ⟨before, v, after, rfl, hrun, hlast⟩, rfl⟩

theorem accepts_of_allOf (h : defs.Accepts (.allOf form vs) x) (hv : v ∈ vs) :
    defs.Accepts v x := by
  obtain ⟨y, hy⟩ := h
  exact (returns_allOf_accepted_iff.1 hy).1 v hv

theorem exists_rejects_of_allOf (h : defs.Rejects (.allOf form vs) x) :
    ∃ v ∈ vs, defs.Rejects v x := by
  obtain ⟨reason, hr⟩ := h
  obtain ⟨before, v, after, r, rfl, -, hv, -⟩ := returns_allOf_rejected_iff.1 hr
  exact ⟨v, List.mem_append_right before List.mem_cons_self, r, hv⟩

/-! ## Negations -/

theorem accepts_not_iff : defs.Accepts (.not v) x ↔ defs.Rejects v x := by
  constructor
  · intro h
    obtain ⟨y, -, bound, h⟩ := h
    obtain ⟨⟨reason, hv⟩, -⟩ := run_not_eq_accepted_iff.1 h
    exact rejects_of_run hv
  · intro h
    obtain ⟨reason, -, bound, h⟩ := h
    exact ⟨x, by simp, bound, run_not_eq_accepted_iff.2 ⟨⟨reason, h⟩, rfl⟩⟩

theorem rejects_not_iff : defs.Rejects (.not v) x ↔ defs.Accepts v x := by
  constructor
  · intro h
    obtain ⟨reason, -, bound, h⟩ := h
    obtain ⟨⟨y, hv⟩, -⟩ := run_not_eq_rejected_iff.1 h
    exact accepts_of_run hv
  · intro h
    obtain ⟨y, -, bound, h⟩ := h
    exact ⟨_, by simp, bound, run_not_eq_rejected_iff.2 ⟨⟨y, h⟩, rfl⟩⟩

/-! ## Coming to an end -/

theorem settles_anyOf (h : ∀ v ∈ vs, defs.Settles v x) : defs.Settles (.anyOf form vs) x := by
  obtain ⟨bound, hrun⟩ := (eventually_forall_mem fun v hv => (h v hv).eventually).exists
  have hsettled : defs.run bound (.anyOf form vs) x ≠ .unsettled := by
    intro hloop
    simp only [run_anyOf, Outcome.mapReason_eq_unsettled_iff,
      Outcome.firstOf_eq_unsettled_iff] at hloop
    obtain ⟨before, v, after, rfl, -, hv⟩ := hloop
    exact hrun v (List.mem_append_right before List.mem_cons_self) hv
  exact settles_of_run hsettled

theorem settles_allOf (h : ∀ v ∈ vs, defs.Settles v x) : defs.Settles (.allOf form vs) x := by
  obtain ⟨bound, hrun⟩ := (eventually_forall_mem fun v hv => (h v hv).eventually).exists
  have hsettled : defs.run bound (.allOf form vs) x ≠ .unsettled := by
    intro hloop
    simp only [run_allOf, Outcome.as_eq_unsettled_iff, Outcome.behind_eq_unsettled_iff,
      Outcome.forEach_eq_unsettled_iff] at hloop
    obtain ⟨before, v, after, rfl, -, hv⟩ := hloop
    exact hrun v (List.mem_append_right before List.mem_cons_self) hv
  exact settles_of_run hsettled

theorem settles_not_iff : defs.Settles (.not v) x ↔ defs.Settles v x := by
  constructor
  · intro h
    rcases h.accepts_or_rejects with hacc | hrej
    · exact (accepts_not_iff.1 hacc).settles
    · exact (rejects_not_iff.1 hrej).settles
  · intro h
    rcases h.accepts_or_rejects with hacc | hrej
    · exact (rejects_not_iff.2 hacc).settles
    · exact (accepts_not_iff.2 hrej).settles

end Definitions

/-! ## Formulas -/

/-- A tree of connectives with validators at its leaves. -/
inductive Formula where
  | leaf (v : Validator)
  | any (form : Form) (branches : List Formula)
  | all (form : Form) (branches : List Formula)
  | not (inner : Formula)

namespace Formula

/-- Induction on formulas, the branches being taken one by one. -/
theorem induction {motive : Formula → Prop} (leaf : ∀ v, motive (.leaf v))
    (any : ∀ form fs, (∀ f ∈ fs, motive f) → motive (.any form fs))
    (all : ∀ form fs, (∀ f ∈ fs, motive f) → motive (.all form fs))
    (not : ∀ f, motive f → motive (.not f)) (f : Formula) : motive f := by
  refine @Formula.rec motive (fun fs => ∀ f ∈ fs, motive f) leaf any all not ?_ ?_ f
  · simp
  · intro f fs hf hfs
    simpa using ⟨hf, hfs⟩

/-- The validator that a formula is put down as. -/
def toValidator : Formula → Validator
  | .leaf v => v
  | .any form fs => .anyOf form (fs.map toValidator)
  | .all form fs => .allOf form (fs.map toValidator)
  | .not f => .not f.toValidator

/-- A validator is at a leaf of a formula. -/
inductive Occurs (v : Validator) : Formula → Prop
  | leaf : Occurs v (.leaf v)
  | any {form : Form} {f : Formula} {fs : List Formula} (hf : f ∈ fs) (hv : Occurs v f) :
      Occurs v (.any form fs)
  | all {form : Form} {f : Formula} {fs : List Formula} (hf : f ∈ fs) (hv : Occurs v f) :
      Occurs v (.all form fs)
  | not {f : Formula} (hv : Occurs v f) : Occurs v (.not f)

variable {v : Validator} {form : Form} {f : Formula} {fs : List Formula}

@[simp] theorem occurs_leaf {w : Validator} : (leaf w).Occurs v ↔ v = w := by
  constructor
  · intro h
    cases h with
    | leaf => rfl
  · intro h
    rw [h]
    exact .leaf

@[simp] theorem occurs_any : (any form fs).Occurs v ↔ ∃ f ∈ fs, f.Occurs v := by
  constructor
  · intro h
    cases h with
    | any hf hv => exact ⟨_, hf, hv⟩
  · intro h
    obtain ⟨f, hf, hv⟩ := h
    exact .any hf hv

@[simp] theorem occurs_all : (all form fs).Occurs v ↔ ∃ f ∈ fs, f.Occurs v := by
  constructor
  · intro h
    cases h with
    | all hf hv => exact ⟨_, hf, hv⟩
  · intro h
    obtain ⟨f, hf, hv⟩ := h
    exact .all hf hv

@[simp] theorem occurs_not : (not f).Occurs v ↔ f.Occurs v := by
  constructor
  · intro h
    cases h with
    | not hv => exact hv
  · exact .not

section

variable (p : Validator → Prop)

mutual

/-- The truth of a formula, given that of its leaves. -/
def Holds : Formula → Prop
  | .leaf v => p v
  | .any _ fs => SomeHolds fs
  | .all _ fs => EachHolds fs
  | .not f => ¬ Holds f

/-- The truth of a disjunction: without branches it is false. -/
def SomeHolds : List Formula → Prop
  | [] => False
  | f :: fs => Holds f ∨ SomeHolds fs

/-- The truth of a conjunction: without branches it is true. -/
def EachHolds : List Formula → Prop
  | [] => True
  | f :: fs => Holds f ∧ EachHolds fs

end

end

section

variable {p : Validator → Prop} {form : Form} {fs : List Formula}

@[simp] theorem holds_leaf (v : Validator) : (leaf v).Holds p ↔ p v := by
  simp only [Holds]

@[simp] theorem holds_not (f : Formula) : (not f).Holds p ↔ ¬ f.Holds p := by
  simp only [Holds]

@[simp] theorem holds_any : (any form fs).Holds p ↔ ∃ f ∈ fs, f.Holds p := by
  rw [Holds]
  induction fs with
  | nil => simp [SomeHolds]
  | cons f fs ih => simp [SomeHolds, ih]

@[simp] theorem holds_all : (all form fs).Holds p ↔ ∀ f ∈ fs, f.Holds p := by
  rw [Holds]
  induction fs with
  | nil => simp [EachHolds]
  | cons f fs ih => simp [EachHolds, ih]

end

/-! ## Acceptance and truth -/

variable {defs : Definitions} {f g : Formula} {x : Value}

/-- A formula comes to an end if its leaves do. -/
theorem settles_of_leaves (h : ∀ v, f.Occurs v → defs.Settles v x) :
    defs.Settles f.toValidator x := by
  induction f using Formula.induction with
  | leaf v => simpa only [toValidator] using h v .leaf
  | any form fs ih =>
    rw [toValidator]
    apply Definitions.settles_anyOf
    intro v hv
    obtain ⟨f, hf, rfl⟩ := List.mem_map.1 hv
    exact ih f hf fun v hv => h v (.any hf hv)
  | all form fs ih =>
    rw [toValidator]
    apply Definitions.settles_allOf
    intro v hv
    obtain ⟨f, hf, rfl⟩ := List.mem_map.1 hv
    exact ih f hf fun v hv => h v (.all hf hv)
  | not f ih =>
    rw [toValidator]
    exact Definitions.settles_not_iff.2 (ih fun v hv => h v (.not hv))

/-- A formula that comes to an end accepts a value if it is true. Leaves that are not reached may
do what they like. -/
theorem accepts_iff_holds (h : defs.Settles f.toValidator x) :
    defs.Accepts f.toValidator x ↔ f.Holds fun v => defs.Accepts v x := by
  induction f using Formula.induction with
  | leaf v => simp only [toValidator, holds_leaf]
  | any form fs ih =>
    rw [toValidator] at h ⊢
    rw [holds_any]
    rcases h.accepts_or_rejects with hacc | hrej
    · refine iff_of_true hacc ?_
      obtain ⟨v, hv, hacc⟩ := Definitions.exists_accepts_of_anyOf hacc
      obtain ⟨f, hf, rfl⟩ := List.mem_map.1 hv
      exact ⟨f, hf, (ih f hf hacc.settles).1 hacc⟩
    · -- All branches reject, so none of them is true.
      refine iff_of_false (fun hacc => hacc.not_rejects hrej) ?_
      intro hsome
      obtain ⟨f, hf, hholds⟩ := hsome
      have hrej : defs.Rejects f.toValidator x :=
        Definitions.rejects_of_anyOf hrej (List.mem_map_of_mem hf)
      exact ((ih f hf hrej.settles).2 hholds).not_rejects hrej
  | all form fs ih =>
    rw [toValidator] at h ⊢
    rw [holds_all]
    rcases h.accepts_or_rejects with hacc | hrej
    · refine iff_of_true hacc ?_
      intro f hf
      have hacc : defs.Accepts f.toValidator x :=
        Definitions.accepts_of_allOf hacc (List.mem_map_of_mem hf)
      exact (ih f hf hacc.settles).1 hacc
    · -- One branch rejects, so it is not true.
      refine iff_of_false (fun hacc => hacc.not_rejects hrej) ?_
      intro hholds
      obtain ⟨v, hv, hrej⟩ := Definitions.exists_rejects_of_allOf hrej
      obtain ⟨f, hf, rfl⟩ := List.mem_map.1 hv
      exact ((ih f hf hrej.settles).2 (hholds f hf)).not_rejects hrej
  | not f ih =>
    rw [toValidator] at h ⊢
    -- To be rejected is not to be accepted, since the inner formula comes to an end.
    have hinner := Definitions.settles_not_iff.1 h
    rw [Definitions.accepts_not_iff, holds_not, ← ih hinner]
    constructor
    · exact fun hrej hacc => hacc.not_rejects hrej
    · exact fun hnot => hinner.accepts_or_rejects.resolve_left hnot

/-! ## The laws of Boolean logic -/

/-- Formulas that differ by the order of branches, by De Morgan's laws and by double negations, in
whatever place. -/
inductive Rearranged : Formula → Formula → Prop
  | refl (f : Formula) : Rearranged f f
  | symm {f g : Formula} (h : Rearranged f g) : Rearranged g f
  | trans {f g k : Formula} (h : Rearranged f g) (h' : Rearranged g k) : Rearranged f k
  | permAny {form form' : Form} {fs gs : List Formula} (h : fs.Perm gs) :
      Rearranged (.any form fs) (.any form' gs)
  | permAll {form form' : Form} {fs gs : List Formula} (h : fs.Perm gs) :
      Rearranged (.all form fs) (.all form' gs)
  | notAny (form : Form) (fs : List Formula) :
      Rearranged (.not (.any form fs)) (.all form (fs.map .not))
  | notAll (form : Form) (fs : List Formula) :
      Rearranged (.not (.all form fs)) (.any form (fs.map .not))
  | notNot (f : Formula) : Rearranged (.not (.not f)) f
  | inAny {f g : Formula} (form : Form) (before after : List Formula) (h : Rearranged f g) :
      Rearranged (.any form (before ++ f :: after)) (.any form (before ++ g :: after))
  | inAll {f g : Formula} (form : Form) (before after : List Formula) (h : Rearranged f g) :
      Rearranged (.all form (before ++ f :: after)) (.all form (before ++ g :: after))
  | inNot {f g : Formula} (h : Rearranged f g) : Rearranged (.not f) (.not g)

theorem exists_mem_middle {p : Formula → Prop} {before after : List Formula} :
    (∃ g ∈ before ++ f :: after, p g) ↔ (∃ g ∈ before, p g) ∨ p f ∨ ∃ g ∈ after, p g := by
  simp [or_and_right, exists_or]

theorem Rearranged.holds_iff {p : Validator → Prop} (h : Rearranged f g) :
    f.Holds p ↔ g.Holds p := by
  induction h with
  | refl f => exact Iff.rfl
  | symm _ ih => exact ih.symm
  | trans _ _ ih ih' => exact ih.trans ih'
  | permAny hperm => simp only [holds_any, hperm.mem_iff]
  | permAll hperm => simp only [holds_all, hperm.mem_iff]
  | notAny form fs => simp
  | notAll form fs => simp
  | notNot f => simp
  | inAny form before after _ ih =>
    simp only [holds_any, exists_mem_middle, ih]
  | inAll form before after _ ih =>
    simp only [holds_all, List.forall_mem_append, List.forall_mem_cons, ih]
  | inNot _ ih => simp only [holds_not, ih]

theorem Rearranged.occurs_iff {v : Validator} (h : Rearranged f g) : f.Occurs v ↔ g.Occurs v := by
  induction h with
  | refl f => exact Iff.rfl
  | symm _ ih => exact ih.symm
  | trans _ _ ih ih' => exact ih.trans ih'
  | permAny hperm => simp only [occurs_any, hperm.mem_iff]
  | permAll hperm => simp only [occurs_all, hperm.mem_iff]
  | notAny form fs => simp
  | notAll form fs => simp
  | notNot f => simp
  | inAny form before after _ ih =>
    simp only [occurs_any, exists_mem_middle, ih]
  | inAll form before after _ ih =>
    simp only [occurs_all, exists_mem_middle, ih]
  | inNot _ ih => simp only [occurs_not, ih]

/-- What connectives do at every depth. A formula whose leaves come to an end does so as well, in
whatever order its branches stand and whatever law of Boolean logic was applied to it, and it
accepts a value if and only if it is true. A disjunction that rejects gives the reasons of all its
branches, a conjunction that rejects the reason of the first branch that does, and a disjunction
that accepts the output of the first branch that does. -/
theorem evaluates_as_boolean (defs : Definitions) (f : Formula) (x : Value) :
    (defs.Settles f.toValidator x →
      (defs.Accepts f.toValidator x ↔ f.Holds fun v => defs.Accepts v x)) ∧
    (∀ g, f.Rearranged g → (∀ v, f.Occurs v → defs.Settles v x) →
      defs.Settles g.toValidator x ∧
        (defs.Accepts g.toValidator x ↔ defs.Accepts f.toValidator x)) ∧
    (∀ form vs reason, defs.Returns (.anyOf form vs) x (.rejected reason) ↔
      ∃ reasons, List.Forall₂ (fun v r => defs.Returns v x (.rejected r)) vs reasons ∧
        reason = .aggregate Complaint.noneSatisfied.text reasons) ∧
    (∀ form vs reason, defs.Returns (.allOf form vs) x (.rejected reason) ↔
      ∃ before v after r, vs = before ++ v :: after ∧ (∀ u ∈ before, defs.Accepts u x) ∧
        defs.Returns v x (.rejected r) ∧ reason = .because Complaint.notAllSatisfied.text r) ∧
    (∀ form vs y, defs.Returns (.anyOf form vs) x (.accepted y) ↔
      ∃ before v after, vs = before ++ v :: after ∧ (∀ u ∈ before, defs.Rejects u x) ∧
        defs.Returns v x (.accepted y)) := by
  refine ⟨accepts_iff_holds, fun g hfg hleaves => ?_,
    fun _ _ _ => Definitions.returns_anyOf_rejected_iff,
    fun _ _ _ => Definitions.returns_allOf_rejected_iff,
    fun _ _ _ => Definitions.returns_anyOf_accepted_iff⟩
  -- Both formulas have the same leaves, so both come to an end.
  have hf : defs.Settles f.toValidator x := settles_of_leaves hleaves
  have hg : defs.Settles g.toValidator x :=
    settles_of_leaves fun v hv => hleaves v (hfg.occurs_iff.2 hv)
  exact ⟨hg, by rw [accepts_iff_holds hf, accepts_iff_holds hg, hfg.holds_iff]⟩

/-- Objects that are no arrays, said by what they are not. -/
def recordLike : Formula :=
  .not (.any .tuple [.leaf (.ofType .string),
    .not (.all .list [.leaf (.ofType .object), .not (.leaf (.ofType .array))])])

/-- The same with negations at the leaves only, and with the inner branches the other way round. -/
def recordLikeInside : Formula :=
  .all .tuple [.not (.leaf (.ofType .string)),
    .all .list [.not (.leaf (.ofType .array)), .leaf (.ofType .object)]]

theorem recordLike_rearranged : recordLike.Rearranged recordLikeInside := by
  -- De Morgan first, then the double negation in the second branch, then the order in there.
  apply (Rearranged.notAny _ _).trans
  apply (Rearranged.inAll .tuple [.not (.leaf (.ofType .string))] [] (.notNot _)).trans
  apply Rearranged.inAll .tuple [.not (.leaf (.ofType .string))] []
  exact .permAll (.swap ..)

/-- An object is accepted whichever way this is said. -/
theorem recordLike_evaluates :
    let x := Value.object (.ofKind (.made []) .ordinary)
    (∀ v, recordLike.Occurs v → Definitions.Settles [] v x) ∧
      recordLike.Rearranged recordLikeInside ∧
      Definitions.Accepts [] recordLike.toValidator x ∧
      Definitions.Accepts [] recordLikeInside.toValidator x := by
  intro x
  have hstring : Definitions.Rejects [] (.ofType .string) x :=
    Definitions.rejects_of_run (rfl : Definitions.run [] 0 _ _ = _)
  have hobject : Definitions.Accepts [] (.ofType .object) x :=
    Definitions.accepts_of_run (rfl : Definitions.run [] 0 _ _ = _)
  have harray : Definitions.Rejects [] (.ofType .array) x :=
    Definitions.rejects_of_run (rfl : Definitions.run [] 0 _ _ = _)
  have hleaves : ∀ v, recordLike.Occurs v → Definitions.Settles [] v x := by
    simp [recordLike, hstring.settles, hobject.settles, harray.settles]
  have hholds : recordLike.Holds fun v => Definitions.Accepts [] v x := by
    have hnostring : ¬ Definitions.Accepts [] (.ofType .string) x := fun h => h.not_rejects hstring
    have hnoarray : ¬ Definitions.Accepts [] (.ofType .array) x := fun h => h.not_rejects harray
    simp [recordLike, hnostring, hobject, hnoarray]
  obtain ⟨htruth, hlaws, -⟩ := evaluates_as_boolean [] recordLike x
  obtain ⟨-, hsame⟩ := hlaws _ recordLike_rearranged hleaves
  have haccepts := (htruth (settles_of_leaves hleaves)).2 hholds
  exact ⟨hleaves, recordLike_rearranged, haccepts, hsame.2 haccepts⟩

end Formula

end Narrowing
