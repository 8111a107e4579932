-- SUMMARY: Similarity relations on values, and the agreement of runs on similar values; values alike up to identity, prototype, and class.
import Mathlib.Data.List.Forall2
import Narrowing.Proofs.Substitution

/-!
# Values that validators cannot tell apart

A relation between values is a *similarity* if similar objects have the same own keys in whatever
order, similar values under these and similar elements (`Value.Similarity`). If what else a
validator looks at does not tell similar values apart either, it agrees with itself on them
(`Definitions.run_agrees`): it does not accept one and reject the other. It may be unsettled on one
of them alone, since it looks at own keys in their order. In the same way it agrees with the
validator that has other leaves in the place of its own.

Two values are *alike* if they are the same but for the prototypes, classes and identities of
objects (`Value.Alike`). This is a similarity for the validators that do not look at those.
-/

namespace Narrowing

/-! ## Outcomes that agree -/

namespace Outcome

variable {ε ε' α α' β β' : Type}

/-- Two checks do not contradict each other: if both are settled, then both reject or both accept
with outputs that are related. -/
inductive Agrees (R : α → α' → Prop) : Outcome ε α → Outcome ε' α' → Prop
  | accepted {a : α} {b : α'} (h : R a b) : Agrees R (.accepted a) (.accepted b)
  | rejected {r : ε} {s : ε'} : Agrees R (.rejected r) (.rejected s)
  | unsettled_left {y : Outcome ε' α'} : Agrees R .unsettled y
  | unsettled_right {x : Outcome ε α} : Agrees R x .unsettled

namespace Agrees

variable {R : α → α' → Prop} {S : β → β' → Prop} {x : Outcome ε α} {y : Outcome ε' α'}

theorem refl {R : α → α → Prop} (hR : ∀ a, R a a) (x : Outcome ε α) : Agrees R x x := by
  cases x with
  | accepted a => exact .accepted (hR a)
  | rejected r => exact .rejected
  | unsettled => exact .unsettled_left

theorem symm (h : Agrees R x y) : Agrees (fun b a => R a b) y x := by
  cases h with
  | accepted hab => exact .accepted hab
  | rejected => exact .rejected
  | unsettled_left => exact .unsettled_right
  | unsettled_right => exact .unsettled_left

theorem bind {f : α → Outcome ε β} {g : α' → Outcome ε' β'} (h : Agrees R x y)
    (hf : ∀ a b, R a b → Agrees S (f a) (g b)) : Agrees S (x.bind f) (y.bind g) := by
  cases h with
  | accepted hab => exact hf _ _ hab
  | rejected => exact .rejected
  | unsettled_left => exact .unsettled_left
  | unsettled_right => exact .unsettled_right

theorem mapReason {δ δ' : Type} {f : ε → δ} {g : ε' → δ'} (h : Agrees R x y) :
    Agrees R (x.mapReason f) (y.mapReason g) := by
  cases h with
  | accepted hab => exact .accepted hab
  | rejected => exact .rejected
  | unsettled_left => exact .unsettled_left
  | unsettled_right => exact .unsettled_right

theorem as {b : β} {b' : β'} (h : Agrees R x y) (hb : S b b') : Agrees S (x.as b) (y.as b') := by
  cases h with
  | accepted _ => exact .accepted hb
  | rejected => exact .rejected
  | unsettled_left => exact .unsettled_left
  | unsettled_right => exact .unsettled_right

theorem ensure {condition : Bool} {r : ε} {s : ε'} {a : α} {b : α'} (hab : R a b) :
    Agrees R (.ensure condition r a) (.ensure condition s b) := by
  cases condition with
  | true => exact .accepted hab
  | false => exact .rejected

/-- Checks in a row agree if each does with the one in its place. -/
theorem forEach {check : α → Outcome ε β} {check' : α' → Outcome ε' β'} {as : List α}
    {bs : List α'} (h : List.Forall₂ (fun a b => Agrees S (check a) (check' b)) as bs) :
    Agrees (fun _ _ => True) (Outcome.forEach check as) (Outcome.forEach check' bs) := by
  induction h with
  | nil => exact .accepted trivial
  | cons hhead _ ih => exact hhead.bind fun _ _ _ => ih

/-- A loop does not reject if a loop over all of its members accepts. -/
theorem forEach_ne_rejected {check : α → Outcome ε β} {check' : α → Outcome ε' β'} {as bs : List α}
    {u : Unit} (hmem : ∀ a ∈ bs, a ∈ as) (h : ∀ a ∈ bs, Agrees S (check a) (check' a))
    (has : Outcome.forEach check as = .accepted u) (s : ε') :
    Outcome.forEach check' bs ≠ .rejected s := by
  intro hbs
  obtain ⟨before, a, after, rfl, -, ha⟩ := forEach_eq_rejected_iff.1 hbs
  have hin : a ∈ before ++ a :: after := List.mem_append_cons_self
  obtain ⟨b, hb⟩ := forEach_eq_accepted_iff.1 has a (hmem a hin)
  have hagrees := h a hin
  rw [ha, hb] at hagrees
  cases hagrees

/-- Checks in a row agree even in another order. -/
theorem forEach_of_mem {check : α → Outcome ε β} {check' : α → Outcome ε' β'} {as bs : List α}
    (hmem : ∀ a, a ∈ as ↔ a ∈ bs) (h : ∀ a, Agrees S (check a) (check' a)) :
    Agrees (fun _ _ => True) (Outcome.forEach check as) (Outcome.forEach check' bs) := by
  cases has : Outcome.forEach check as with
  | unsettled => exact .unsettled_left
  | accepted u =>
    cases hbs : Outcome.forEach check' bs with
    | unsettled => exact .unsettled_right
    | accepted u' => exact .accepted trivial
    | rejected s =>
      exact absurd hbs (forEach_ne_rejected (fun a => (hmem a).2) (fun a _ => h a) has s)
  | rejected r =>
    cases hbs : Outcome.forEach check' bs with
    | unsettled => exact .unsettled_right
    | rejected s => exact .rejected
    | accepted u' =>
      exact absurd has (forEach_ne_rejected (fun a => (hmem a).1) (fun a _ => (h a).symm) hbs r)

theorem firstOf {ν : Type} {check : ν → Outcome ε α} {check' : ν → Outcome ε' α'} {vs : List ν}
    (h : ∀ v ∈ vs, Agrees R (check v) (check' v)) :
    Agrees R (Outcome.firstOf check vs) (Outcome.firstOf check' vs) := by
  induction vs with
  | nil => exact .rejected
  | cons v vs ih =>
    have hhead := h v List.mem_cons_self
    have htail := ih fun u hu => h u (List.mem_cons_of_mem v hu)
    unfold Outcome.firstOf
    generalize check v = x at hhead ⊢
    generalize check' v = y at hhead ⊢
    cases hhead with
    | accepted hab => exact .accepted hab
    | rejected => exact htail.mapReason
    | unsettled_left => exact .unsettled_left
    | unsettled_right => exact .unsettled_right

end Agrees

end Outcome

/-! ## Similar values -/

section

variable {α : Type} {R : α → α → Prop} {x y : Option α}

theorem rel_self (hR : ∀ a, R a a) (x : Option α) : Option.Rel R x x := by
  cases x with
  | none => exact .none
  | some a => exact .some (hR a)

theorem isSome_eq_of_rel (h : Option.Rel R x y) : x.isSome = y.isSome := by
  cases h <;> rfl

theorem getD_of_rel {a : α} (h : Option.Rel R x y) (ha : R a a) : R (x.getD a) (y.getD a) := by
  cases h with
  | none => exact ha
  | some hxy => exact hxy

theorem forall₂_getElem? {as bs : List α} (h : List.Forall₂ R as bs) (i : Nat) :
    Option.Rel R as[i]? bs[i]? := by
  induction h generalizing i with
  | nil => exact .none
  | cons hab _ ih =>
    cases i with
    | zero => exact .some hab
    | succ i => simpa using ih i

end

/-- What comes with arrays of related elements is related. -/
theorem ObjectKind.slot?_array_rel {R : Value → Value → Prop} (hR : ∀ x, R x x) {xs ys : List Value}
    (h : List.Forall₂ R xs ys) (key : PropertyKey) :
    Option.Rel R ((array xs).slot? key) ((array ys).slot? key) := by
  cases key with
  | symbol s => exact .none
  | text name =>
    simp only [slot?, named?, h.length_eq]
    split
    · exact .some (hR _)
    · cases (PropertyKey.text name).arrayIndex? with
      | none => exact .none
      | some i => exact forall₂_getElem? h i

/-- An own property is related if what comes with the kind under its key and what is in the table
are. -/
theorem Object.getOwn_rel {R : Value → Value → Prop} {o p : Object} {key : PropertyKey}
    (hslot : Option.Rel R (o.kind.slot? key) (p.kind.slot? key))
    (htable : Option.Rel R (o.properties.lookup key) (p.properties.lookup key)) :
    Option.Rel R (o.getOwn key) (p.getOwn key) := by
  unfold getOwn
  generalize o.kind.slot? key = x at hslot ⊢
  generalize p.kind.slot? key = y at hslot ⊢
  cases hslot with
  | none => exact htable
  | some hxy => exact .some hxy

/-- Similar values are undefined or null at the same time, similar objects have the same own keys,
and similar values under them and as elements. -/
structure Value.Similarity (R : Value → Value → Prop) : Prop where
  undefined : R .undefined .undefined
  key (key : PropertyKey) : R key.toValue key.toValue
  isUndefined {x y : Value} (h : R x y) : x.isUndefined = y.isUndefined
  isNull {x y : Value} (h : R x y) : x.isNull = y.isNull
  object? {x y : Value} (h : R x y) :
    Option.Rel (fun o p => R (.object o) (.object p)) x.object? y.object?
  elements? {x y : Value} (h : R x y) : Option.Rel (List.Forall₂ R) x.elements? y.elements?
  mem_ownKeys_iff {o p : Object} (h : R (.object o) (.object p)) (key : PropertyKey) :
    key ∈ o.ownKeys ↔ key ∈ p.ownKeys
  getOwn {o p : Object} (h : R (.object o) (.object p)) (key : PropertyKey) :
    Option.Rel R (o.getOwn key) (p.getOwn key)

/-- A leaf agrees on similar values with the one in its place, and what is looked up in similar
objects is similar. -/
def Validator.Respects (R : Value → Value → Prop) (f : Leaf → Leaf) : Validator → Prop
  | .leaf l => ∀ x y, R x y → Outcome.Agrees R (l.judge x) ((f l).judge y)
  | .property key _ options =>
      ∀ o p, R (.object o) (.object p) →
        Option.Rel R (o.find? options.ownOnly key) (p.find? options.ownOnly key)
  | .shape _ options =>
      ∀ o p key, R (.object o) (.object p) →
        Option.Rel R (o.find? options.ownOnly key) (p.find? options.ownOnly key)
  | _ => True

/-! ## Checks of parts -/

section

variable {R : Value → Value → Prop} {x y : Value} {o p : Object} {key : PropertyKey}

open Outcome (Agrees)

namespace Value.Similarity

theorem withObject (hR : Similarity R) {check check' : Object → Outcome Reason Unit} (h : R x y)
    (hcheck : ∀ o p, R (.object o) (.object p) → Agrees (fun _ _ => True) (check o) (check' p)) :
    Agrees R (withObject x check) (withObject y check') := by
  have hobject := hR.object? h
  cases x with
  | object o =>
    cases y with
    | object p =>
      cases hobject with
      | some hop => exact (hcheck o p hop).as h
    | _ => cases hobject
  | _ =>
    cases y with
    | object p => cases hobject
    | _ => exact .rejected

theorem withElements (hR : Similarity R) {check check' : List Value → Outcome Reason Unit}
    (h : R x y)
    (hcheck : ∀ xs ys, List.Forall₂ R xs ys → Agrees (fun _ _ => True) (check xs) (check' ys)) :
    Agrees R (withElements x check) (withElements y check') := by
  have helements := hR.elements? h
  unfold Narrowing.withElements
  generalize x.elements? = xs at helements ⊢
  generalize y.elements? = ys at helements ⊢
  cases helements with
  | none => exact .rejected
  | some hxs => exact (hcheck _ _ hxs).as h

variable {check check' checkKey checkKey' checkValue checkValue' : Value → Verdict}

theorem checkEntry (hR : Similarity R) (h : R (.object o) (.object p))
    (hkey : ∀ x y, R x y → Agrees R (checkKey x) (checkKey' y))
    (hvalue : ∀ x y, R x y → Agrees R (checkValue x) (checkValue' y)) :
    Agrees (fun _ _ => True) (checkEntry o checkKey checkValue key)
      (checkEntry p checkKey' checkValue' key) := by
  have hown : R ((o.getOwn key).getD .undefined) ((p.getOwn key).getD .undefined) :=
    getD_of_rel (hR.getOwn h key) hR.undefined
  exact (hkey _ _ (hR.key key)).mapReason.bind fun _ _ _ => (hvalue _ _ hown).mapReason.as trivial

theorem checkExtra (hR : Similarity R) {defined : List PropertyKey}
    (h : R (.object o) (.object p)) :
    Agrees (fun _ _ => True) (checkExtra o defined) (checkExtra p defined) := by
  have hempty : (extraKeys o defined).isEmpty = (extraKeys p defined).isEmpty := by
    rw [Bool.eq_iff_iff]
    simp [extraKeys, hR.mem_ownKeys_iff h]
  simp only [checkExtra_eq, hempty]
  exact .ensure trivial

end Value.Similarity

variable {check check' : Value → Verdict}

theorem checkProperty_agrees {options : PropertyOptions}
    (h : Option.Rel R (o.find? options.ownOnly key) (p.find? options.ownOnly key))
    (hcheck : ∀ x y, R x y → Agrees R (check x) (check' y)) :
    Agrees (fun _ _ => True) (checkProperty o key options check)
      (checkProperty p key options check') := by
  unfold checkProperty
  generalize o.find? options.ownOnly key = x at h ⊢
  generalize p.find? options.ownOnly key = y at h ⊢
  cases h with
  | none => exact .ensure trivial
  | some hxy => exact (hcheck _ _ hxy).mapReason.as trivial

theorem checkElement_agrees {index : Nat} (h : Agrees R (check x) (check' y)) :
    Agrees (fun _ _ => True) (checkElement check x index) (checkElement check' y index) :=
  h.mapReason.as trivial

end

/-! ## Runs -/

section

variable {α β : Type} {R : α → β → Prop} {as : List α} {bs : List β}

theorem forall₂_zipIdx (h : List.Forall₂ R as bs) (k : Nat) :
    List.Forall₂ (fun p q => R p.1 q.1 ∧ p.2 = q.2) (as.zipIdx k) (bs.zipIdx k) := by
  induction h generalizing k with
  | nil => exact .nil
  | cons hab _ ih => exact .cons ⟨hab, rfl⟩ (ih (k + 1))

theorem forall₂_zip_map {ν μ : Type} (h : List.Forall₂ R as bs) (f : ν → μ) (vs : List ν) :
    List.Forall₂ (fun p q => (p.1 ∈ vs ∧ q.1 = f p.1) ∧ R p.2 q.2) (vs.zip as)
      ((vs.map f).zip bs) := by
  induction h generalizing vs with
  | nil => simp
  | cons hab _ ih =>
    cases vs with
    | nil => exact .nil
    | cons v vs =>
      refine .cons ⟨⟨List.mem_cons_self, rfl⟩, hab⟩ ((ih vs).imp ?_)
      rintro p q ⟨⟨hp, hpq⟩, hr⟩
      exact ⟨⟨List.mem_cons_of_mem v hp, hpq⟩, hr⟩

end

namespace Definitions

open Outcome (Agrees)
open Validator (Respects)

variable {R : Value → Value → Prop} {f : Leaf → Leaf} {defs defs' : Definitions} {bound : Nat}
  {v : Validator} {x y : Value}

theorem run_shape_agrees {fields : List (Field Validator)} {options : ShapeOptions}
    (hR : Value.Similarity R) (hfind : Respects R f (.shape fields options))
    (hfields : ∀ g ∈ fields, ∀ x y, R x y → Agrees R (defs.run bound g.validator x)
      (defs'.run bound (g.validator.subst (.ofLeaves f)) y))
    (h : R x y) :
    Agrees R (defs.run bound (.shape fields options) x)
      (defs'.run bound ((Validator.shape fields options).subst (.ofLeaves f)) y) := by
  simp only [Validator.subst, Validator.substFields_eq_map, run_shape, Outcome.forEach_map]
  refine hR.withObject h fun o p hop => ?_
  -- A field finds similar values in similar objects, or nothing in both.
  have hproperties : ∀ g ∈ fields, Agrees (fun _ _ => True)
      (checkProperty o g.key (options.forField g.mayBeMissing) (defs.run bound g.validator))
      (checkProperty p g.key (options.forField g.mayBeMissing)
        (defs'.run bound (g.validator.subst (.ofLeaves f)))) :=
    fun g hg => checkProperty_agrees (hfind o p g.key hop) (hfields g hg)
  refine (Agrees.forEach (List.forall₂_same.2 hproperties)).bind fun _ _ _ => ?_
  -- Leaves are exchanged and keys are not, so the same own keys are extra.
  have hkeys : (fields.map (Validator.substField (.ofLeaves f))).map Field.key =
      fields.map Field.key := by
    rw [List.map_map]
    rfl
  rw [hkeys]
  split
  · exact .accepted trivial
  · exact hR.checkExtra hop

theorem run_tuple_agrees {vs : List Validator} (hR : Value.Similarity R)
    (hvs : ∀ v ∈ vs, ∀ x y, R x y →
      Agrees R (defs.run bound v x) (defs'.run bound (v.subst (.ofLeaves f)) y))
    (h : R x y) :
    Agrees R (defs.run bound (.tuple vs) x)
      (defs'.run bound ((Validator.tuple vs).subst (.ofLeaves f)) y) := by
  simp only [Validator.subst, Validator.substAll_eq_map, run_tuple, List.length_map]
  refine hR.withElements h fun xs ys hxs => ?_
  rw [hxs.length_eq]
  split
  · -- Each validator meets the elements at its own position, which are similar.
    refine Agrees.forEach (S := fun _ _ => True)
      ((forall₂_zipIdx (forall₂_zip_map hxs (Validator.subst (.ofLeaves f)) vs) 0).imp ?_)
    rintro ⟨⟨v, x⟩, i⟩ ⟨⟨w, y⟩, j⟩ ⟨⟨⟨hmem, rfl⟩, hxy⟩, rfl⟩
    exact checkElement_agrees (hvs v hmem x y hxy)
  · exact .rejected

/-- Under a bound a validator agrees with the one that has other leaves if references do. -/
theorem run_agrees_of_refer (hR : Value.Similarity R)
    (hrefer : ∀ name x y, R x y →
      Agrees R (defs.run bound (.reference name) x) (defs'.run bound (.reference name) y))
    (hv : v.Throughout (Respects R f)) (h : R x y) :
    Agrees R (defs.run bound v x) (defs'.run bound (v.subst (.ofLeaves f)) y) := by
  induction v using Validator.induction generalizing x y with
  | leaf l =>
    simp only [Validator.subst, Substitution.ofLeaves, run_leaf]
    exact hv.here x y h
  | anyOf form vs ih =>
    simp only [Validator.subst, Validator.substAll_eq_map, run_anyOf, Outcome.firstOf_map]
    exact (Agrees.firstOf fun v hmem => ih v hmem (hv.inside v hmem) h).mapReason
  | allOf form vs ih =>
    simp only [Validator.subst, Validator.substAll_eq_map, run_allOf, Outcome.forEach_map]
    have hbranch : ∀ v ∈ vs,
        Agrees R (defs.run bound v x) (defs'.run bound (v.subst (.ofLeaves f)) y) :=
      fun v hmem => ih v hmem (hv.inside v hmem) h
    exact (Agrees.forEach (List.forall₂_same.2 hbranch)).mapReason.as h
  | not v ih =>
    -- Outcomes that agree still do after acceptance and rejection have changed places.
    have hinner := ih (hv.inside v List.mem_cons_self) h
    simp only [Validator.subst, run_not]
    generalize defs.run bound v x = a at hinner ⊢
    generalize defs'.run bound (v.subst _) y = b at hinner ⊢
    cases hinner with
    | accepted _ => exact .rejected
    | rejected => exact .accepted h
    | unsettled_left => exact .unsettled_left
    | unsettled_right => exact .unsettled_right
  | pipe v w ihv ihw =>
    simp only [Validator.subst, run_pipe]
    -- The outputs need not be the same, but they are similar.
    have hfirst := ihv (hv.inside v List.mem_cons_self) h
    exact hfirst.bind fun a b hab => ihw (hv.inside w (by simp [Validator.parts])) hab
  | explained message v ih =>
    simp only [Validator.subst, run_explained]
    exact (ih (hv.inside v List.mem_cons_self) h).mapReason
  | sealed label v ih =>
    simp only [Validator.subst, run_sealed]
    exact ih (hv.inside v List.mem_cons_self) h
  | optional v ih =>
    simp only [Validator.subst, run_optional, hR.isUndefined h]
    split
    · exact .accepted h
    · exact ih (hv.inside v List.mem_cons_self) h
  | nullable v ih =>
    simp only [Validator.subst, run_nullable, hR.isNull h]
    split
    · exact .accepted h
    · exact ih (hv.inside v List.mem_cons_self) h
  | reference name => exact hrefer name x y h
  | property key v options ih =>
    simp only [Validator.subst, run_property]
    refine hR.withObject h fun o p hop => checkProperty_agrees (hv.here o p hop) ?_
    exact fun x y hxy => ih (hv.inside v List.mem_cons_self) hxy
  | shape fields options ih =>
    refine run_shape_agrees hR hv.here (fun g hg x y hxy => ?_) h
    exact ih g hg (hv.inside g.validator (List.mem_map_of_mem hg)) hxy
  | dictionary k v ihk ihv =>
    simp only [Validator.subst, run_dictionary]
    refine hR.withObject h fun o p hop => ?_
    -- The own keys are the same but may come in another order.
    refine Agrees.forEach_of_mem (hR.mem_ownKeys_iff hop) fun key => hR.checkEntry hop ?_ ?_
    · exact fun x y hxy => ihk (hv.inside k List.mem_cons_self) hxy
    · exact fun x y hxy => ihv (hv.inside v (by simp [Validator.parts])) hxy
  | arrayOf v ih =>
    simp only [Validator.subst, run_arrayOf]
    refine hR.withElements h fun xs ys hxs => Agrees.forEach (S := fun _ _ => True) ?_
    refine (forall₂_zipIdx hxs 0).imp ?_
    rintro ⟨x, i⟩ ⟨y, j⟩ ⟨hxy, rfl⟩
    exact checkElement_agrees (ih (hv.inside v List.mem_cons_self) hxy)
  | tuple vs ih =>
    exact run_tuple_agrees hR (fun v hmem x y hxy => ih v hmem (hv.inside v hmem) hxy) h

/-- On similar values a validator that does not tell them apart agrees with the one that has other
leaves. -/
theorem run_agrees (hR : Value.Similarity R)
    (hdefs : defs.Each (Validator.Throughout (Respects R f))) (hv : v.Throughout (Respects R f))
    (h : R x y) :
    Agrees R (defs.run bound v x)
      ((defs.subst (.ofLeaves f)).run bound (v.subst (.ofLeaves f)) y) := by
  induction bound generalizing v x y with
  | zero =>
    refine run_agrees_of_refer hR (fun name x y _ => ?_) hv h
    rw [run_reference_zero]
    exact .unsettled_left
  | succ bound ih =>
    refine run_agrees_of_refer hR (fun name x y hxy => ?_) hv h
    rw [run_reference_succ, run_reference_succ, lookup_subst]
    cases hw : defs.lookup name with
    | none => exact .unsettled_left
    | some w => exact ih (hdefs name w hw) hxy

/-- Verdicts on similar values do not differ. -/
theorem accepts_iff_of_similar (hR : Value.Similarity R)
    (hdefs : defs.Each (Validator.Throughout (Respects R f))) (hv : v.Throughout (Respects R f))
    (h : R x y) (hx : defs.Settles v x)
    (hy : (defs.subst (.ofLeaves f)).Settles (v.subst (.ofLeaves f)) y) :
    defs.Accepts v x ↔ (defs.subst (.ofLeaves f)).Accepts (v.subst (.ofLeaves f)) y := by
  obtain ⟨bound, hx, hy⟩ := (hx.eventually.and hy.eventually).exists
  have hagrees : Agrees R (defs.run bound v x) _ := run_agrees hR hdefs hv h
  generalize hrunx : defs.run bound v x = a at hagrees hx
  generalize hruny : (defs.subst _).run bound (v.subst _) y = b at hagrees hy
  cases hagrees with
  | accepted _ => exact iff_of_true (accepts_of_run hrunx) (accepts_of_run hruny)
  | rejected =>
    refine iff_of_false (fun hacc => ?_) fun hacc => ?_
    · exact hacc.not_rejects (rejects_of_run hrunx)
    · exact hacc.not_rejects (rejects_of_run hruny)
  | unsettled_left => exact absurd rfl hx
  | unsettled_right => exact absurd rfl hy

end Definitions

/-! ## Values that are alike -/

/-- Two values are the same, or objects whose elements and own properties are alike. -/
inductive Value.Alike : Value → Value → Prop
  | refl (x : Value) : Alike x x
  | object {o p : Object}
      (helements : Option.Rel (List.Forall₂ Alike) (object o).elements? (object p).elements?)
      (hfunction : (object o).function?.isSome = (object p).function?.isSome)
      (hkeys : ∀ key, key ∈ o.ownKeys ↔ key ∈ p.ownKeys)
      (hown : ∀ key, Option.Rel Alike (o.getOwn key) (p.getOwn key)) :
      Alike (object o) (object p)

namespace Value.Alike

variable {x y : Value} {o p : Object}

theorem elements? (h : x.Alike y) :
    Option.Rel (List.Forall₂ Alike) x.elements? y.elements? := by
  cases h with
  | refl => exact rel_self (fun _ => List.forall₂_same.2 fun x _ => .refl x) _
  | object helements _ _ _ => exact helements

theorem object? (h : x.Alike y) :
    Option.Rel (fun o p => Alike (.object o) (.object p)) x.object? y.object? := by
  cases h with
  | refl => exact rel_self (fun _ => .refl _) _
  | object helements hfunction hkeys hown => exact .some (.object helements hfunction hkeys hown)

theorem mem_ownKeys_iff (h : (Value.object o).Alike (.object p)) (key : PropertyKey) :
    key ∈ o.ownKeys ↔ key ∈ p.ownKeys := by
  cases h with
  | refl => exact Iff.rfl
  | object _ _ hkeys _ => exact hkeys key

theorem getOwn (h : (Value.object o).Alike (.object p)) (key : PropertyKey) :
    Option.Rel Alike (o.getOwn key) (p.getOwn key) := by
  cases h with
  | refl => exact rel_self .refl _
  | object _ _ _ hown => exact hown key

theorem isUndefined (h : x.Alike y) : x.isUndefined = y.isUndefined := by
  cases h <;> rfl

theorem isNull (h : x.Alike y) : x.isNull = y.isNull := by
  cases h <;> rfl

end Value.Alike

/-! ## Leaves -/

/-- What a validator may look at: it is no check from outside the library, asks for no class,
compares with no object and looks up own properties only. -/
def Validator.Plain : Validator → Prop
  | .leaf (.rule _) | .leaf (.instanceOf _) => False
  | .leaf (.equal expected) => expected.isPrimitive = true
  | .leaf (.oneOf allowed) => ∀ y ∈ allowed, y.isPrimitive = true
  | .property _ _ options => options.ownOnly = true
  | .shape _ options => options.ownOnly = true
  | _ => True

section

variable {x y : Value} {o p : Object} {key : PropertyKey}

open Outcome (Agrees)

theorem strictEq_object (hx : x.isPrimitive = true) : x.strictEq (.object o) = false := by
  cases x with
  | object p => cases hx
  | _ => rfl

theorem object_strictEq (hx : x.isPrimitive = true) : (Value.object o).strictEq x = false := by
  cases x with
  | object p => cases hx
  | _ => rfl

/-- Narrowing an object to a type gives the object back or nothing. -/
theorem narrow?_object (type : ValueType) (o : Object) :
    type.narrow? (.object o) = if type.holds (.object o) then some (.object o) else none := by
  cases type <;> rfl

theorem Leaf.judge_agrees_of_object {l : Leaf} (hl : (Validator.leaf l).Plain)
    (h : (Value.object o).Alike (.object p))
    (hholds : ∀ type : ValueType, type.holds (.object o) = type.holds (.object p)) :
    Agrees Value.Alike (l.judge (.object o)) (l.judge (.object p)) := by
  cases l with
  | ofType type =>
    simp only [judge, narrow?_object, hholds type]
    cases type.holds (.object p) with
    | true => exact .accepted h
    | false => exact .rejected
  | null | undefined | nullish => exact .rejected
  | toObject => exact .accepted h
  | equal expected =>
    -- Only primitive values are compared with, and no object is equal to one.
    simp only [judge, object_strictEq hl]
    exact .rejected
  | oneOf allowed =>
    have hnone (q : Object) : (allowed.any fun v => v.strictEq (.object q)) = false := by
      rw [List.any_eq_false]
      intro v hv
      rw [strictEq_object (hl v hv)]
      exact Bool.false_ne_true
    simp only [judge, hnone]
    exact .rejected
  | keyOf q options => exact .rejected
  | instanceOf c | rule r => exact hl.elim

theorem Leaf.judge_agrees {l : Leaf} (hl : (Validator.leaf l).Plain) (h : x.Alike y) :
    Agrees Value.Alike (l.judge x) (l.judge y) := by
  cases h with
  | refl => exact .refl .refl _
  | @object o p helements hfunction hkeys hown =>
    -- The two are of the same types: arrays both or neither, functions both or neither.
    refine judge_agrees_of_object hl (.object helements hfunction hkeys hown) ?_
    intro type
    cases type with
    | array => exact isSome_eq_of_rel helements
    | function => exact hfunction
    | _ => rfl

end

/-! ## Runs on values that are alike -/

theorem Value.alike_similarity : Value.Similarity Value.Alike where
  undefined := .refl _
  key _ := .refl _
  isUndefined h := h.isUndefined
  isNull h := h.isNull
  object? h := h.object?
  elements? h := h.elements?
  mem_ownKeys_iff h := h.mem_ownKeys_iff
  getOwn h := h.getOwn

theorem Validator.Plain.respects {v : Validator} (h : v.Plain) : v.Respects Value.Alike id := by
  cases v with
  | leaf l => exact fun x y hxy => Leaf.judge_agrees h hxy
  | property key v options =>
    intro o p hop
    have hown : options.ownOnly = true := h
    simpa only [Object.find?, hown, if_true] using hop.getOwn key
  | shape fields options =>
    intro o p key hop
    have hown : options.ownOnly = true := h
    simpa only [Object.find?, hown, if_true] using hop.getOwn key
  | _ => trivial

namespace Definitions

open Validator (Plain)

variable {defs : Definitions} {v : Validator} {x y : Value}

/-- Verdicts on values that are alike do not differ. -/
theorem accepts_iff_of_alike (hdefs : defs.Each (Validator.Throughout Plain))
    (hv : v.Throughout Plain) (h : x.Alike y) (hx : defs.Settles v x) (hy : defs.Settles v y) :
    defs.Accepts v x ↔ defs.Accepts v y := by
  -- Here no leaf is exchanged for another one.
  have hsame : v.subst (.ofLeaves id) = v := Validator.subst_id v
  have hsameDefs : defs.subst (.ofLeaves id) = defs := subst_id defs
  have hiff := accepts_iff_of_similar (f := id) Value.alike_similarity
    (fun name w hw => (hdefs name w hw).mono fun _ => Plain.respects)
    (hv.mono fun _ => Plain.respects) h hx
  rw [hsame, hsameDefs] at hiff
  exact hiff hy

end Definitions

end Narrowing
