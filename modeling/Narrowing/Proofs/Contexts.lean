-- SUMMARY: Equivalence of validators up to reasons, contexts with a hole, and congruence in recursive contexts.
import Narrowing.Proofs.Typing

/-!
# Validators in contexts

Two validators are *equivalent* if they make the same of every value of the type that they take,
except for the reasons that they give (`Definitions.Equivalent`). A context is a validator that
refers to a hole, with definitions that may refer to it as well. Another validator is plugged in by
putting it in the place of these references (`Validator.plug`).

What a validator makes of a value never depends on reasons. So equivalent validators are equivalent
in every context, and behind a message, a label or a name of its own a validator stays what it was
(`Definitions.equivalent_in_context`).
-/

namespace Narrowing

/-! ## Outcomes under greater and greater bounds -/

namespace Outcome

open Filter (atTop)

variable {ε δ α β : Type}

/-- From some bound upwards the outcomes say what one outcome says, except for the reason; nothing
has to be said if that one is unsettled. -/
inductive MetBy : Outcome ε α → (Nat → Outcome ε α) → Prop
  | accepted {a : α} {y : Nat → Outcome ε α} (h : ∀ᶠ m in atTop, y m = .accepted a) :
      MetBy (.accepted a) y
  | rejected {r : ε} {y : Nat → Outcome ε α} (h : ∀ᶠ m in atTop, ∃ s, y m = .rejected s) :
      MetBy (.rejected r) y
  | unsettled {y : Nat → Outcome ε α} : MetBy .unsettled y

namespace MetBy

variable {x : Outcome ε α} {y y' : Nat → Outcome ε α}

theorem refl (x : Outcome ε α) : x.MetBy fun _ => x := by
  cases x with
  | accepted a => exact .accepted (.of_forall fun _ => rfl)
  | rejected r => exact .rejected (.of_forall fun _ => ⟨r, rfl⟩)
  | unsettled => exact .unsettled

theorem congr (h : x.MetBy y) (hy : ∀ᶠ m in atTop, y' m = y m) : x.MetBy y' := by
  cases h with
  | accepted h => exact .accepted ((hy.and h).mono fun _ ⟨hm, ha⟩ => hm.trans ha)
  | rejected h => exact .rejected ((hy.and h).mono fun _ ⟨hm, s, hs⟩ => ⟨s, hm.trans hs⟩)
  | unsettled => exact .unsettled

theorem bind {f : α → Outcome ε β} {g : Nat → α → Outcome ε β} (h : x.MetBy y)
    (hf : ∀ a, x = .accepted a → (f a).MetBy fun m => g m a) :
    (x.bind f).MetBy fun m => (y m).bind (g m) := by
  cases h with
  | accepted h => exact (hf _ rfl).congr (h.mono fun _ hm => by rw [hm, bind_accepted])
  | rejected h => exact .rejected (h.mono fun _ ⟨s, hs⟩ => ⟨s, by rw [hs, bind_rejected]⟩)
  | unsettled => exact .unsettled

theorem mapReason (f g : ε → δ) (h : x.MetBy y) :
    (x.mapReason f).MetBy fun m => (y m).mapReason g := by
  cases h with
  | accepted h => exact .accepted (h.mono fun _ hm => by rw [hm, mapReason_accepted])
  | rejected h => exact .rejected (h.mono fun _ ⟨s, hs⟩ => ⟨g s, by rw [hs, mapReason_rejected]⟩)
  | unsettled => exact .unsettled

theorem behind {x : Outcome Reason α} {y : Nat → Outcome Reason α} (text text' : String)
    (h : x.MetBy y) : (x.behind text).MetBy fun m => (y m).behind text' :=
  h.mapReason _ _

theorem as (b : β) (h : x.MetBy y) : (x.as b).MetBy fun m => (y m).as b := by
  cases h with
  | accepted h => exact .accepted (h.mono fun _ hm => by rw [hm]; rfl)
  | rejected h => exact .rejected (h.mono fun _ ⟨s, hs⟩ => ⟨s, by rw [hs]; rfl⟩)
  | unsettled => exact .unsettled

theorem behind_left {x : Outcome Reason α} {y : Nat → Outcome Reason α} (text : String)
    (h : x.MetBy y) : (x.behind text).MetBy y := by
  cases h with
  | accepted h => exact .accepted h
  | rejected h => exact .rejected h
  | unsettled => exact .unsettled

theorem behind_right {x : Outcome Reason α} {y : Nat → Outcome Reason α} (text : String)
    (h : x.MetBy y) : x.MetBy fun m => (y m).behind text := by
  cases h with
  | accepted h => exact .accepted (h.mono fun _ hm => behind_eq_accepted_iff.2 hm)
  | rejected h =>
    exact .rejected (h.mono fun _ ⟨s, hs⟩ => ⟨_, behind_eq_rejected_iff.2 ⟨s, hs, rfl⟩⟩)
  | unsettled => exact .unsettled

/-- An outcome under a smaller bound is met by what meets the one under a greater bound. -/
theorem of_below {x' : Outcome ε α} (hbelow : x.Below x') (h : x'.MetBy y) : x.MetBy y := by
  by_cases hx : x = .unsettled
  · exact hx ▸ .unsettled
  · exact hbelow hx ▸ h

/-- The first of the outcomes does not count. -/
theorem of_succ (h : x.MetBy fun m => y (m + 1)) : x.MetBy y := by
  have hshift {p : Outcome ε α → Prop} (hp : ∀ᶠ m in atTop, p (y (m + 1))) :
      ∀ᶠ m in atTop, p (y m) := by
    rw [← Filter.map_add_atTop_eq_nat 1]
    exact hp
  cases h with
  | accepted h => exact .accepted (@hshift (fun z => z = .accepted _) h)
  | rejected h => exact .rejected (@hshift (fun z => ∃ s, z = .rejected s) h)
  | unsettled => exact .unsettled

theorem forEach {ν : Type} {check : ν → Outcome ε α} {check' : Nat → ν → Outcome ε α}
    {as : List ν} (h : ∀ a ∈ as, (check a).MetBy fun m => check' m a) :
    (Outcome.forEach check as).MetBy fun m => Outcome.forEach (check' m) as := by
  induction as with
  | nil => exact .accepted (.of_forall fun _ => rfl)
  | cons a as ih =>
    have htail := ih fun b hb => h b (List.mem_cons_of_mem a hb)
    exact (h a List.mem_cons_self).bind fun _ _ => htail

theorem firstOf {ν : Type} {check : ν → Outcome ε α} {check' : Nat → ν → Outcome ε α}
    {as : List ν} (h : ∀ a ∈ as, (check a).MetBy fun m => check' m a) :
    (Outcome.firstOf check as).MetBy fun m => Outcome.firstOf (check' m) as := by
  induction as with
  | nil => exact .rejected (.of_forall fun _ => ⟨[], rfl⟩)
  | cons a as ih =>
    have hhead := h a List.mem_cons_self
    have htail := ih fun b hb => h b (List.mem_cons_of_mem a hb)
    rw [Outcome.firstOf]
    generalize check a = x at hhead ⊢
    -- What comes after the head matters only where the head is rejected.
    cases hhead with
    | accepted hhead => exact .accepted (hhead.mono fun m hm => by simp [Outcome.firstOf, hm])
    | rejected hhead =>
      -- The outcome is that of the other checks, one more reason standing in front of theirs.
      generalize Outcome.firstOf check as = rest at htail ⊢
      cases htail with
      | accepted htail =>
        refine .accepted ((hhead.and htail).mono ?_)
        rintro m ⟨⟨s, hs⟩, hm⟩
        simp [Outcome.firstOf, hs, hm]
      | rejected htail =>
        refine .rejected ((hhead.and htail).mono ?_)
        rintro m ⟨⟨s, hs⟩, ⟨ss, hss⟩⟩
        exact ⟨s :: ss, by simp [Outcome.firstOf, hs, hss]⟩
      | unsettled => exact .unsettled
    | unsettled => exact .unsettled

end MetBy

end Outcome

/-! ## Checks of parts -/

section

variable {check : Value → Verdict} {check' : Nat → Value → Verdict}

theorem withObject_metBy {check : Object → Outcome Reason Unit}
    {check' : Nat → Object → Outcome Reason Unit} (h : ∀ o, (check o).MetBy fun m => check' m o)
    (x : Value) : (withObject x check).MetBy fun m => withObject x (check' m) := by
  cases x with
  | object o => exact (h o).as _
  | _ => exact .refl _

theorem withElements_metBy {check : List Value → Outcome Reason Unit}
    {check' : Nat → List Value → Outcome Reason Unit}
    (h : ∀ xs, (check xs).MetBy fun m => check' m xs) (x : Value) :
    (withElements x check).MetBy fun m => withElements x (check' m) := by
  unfold withElements
  cases x.elements? with
  | none => exact .refl _
  | some xs => exact (h xs).as _

theorem checkProperty_metBy (h : ∀ y, (check y).MetBy fun m => check' m y) (o : Object)
    (key : PropertyKey) (options : PropertyOptions) :
    (checkProperty o key options check).MetBy fun m => checkProperty o key options (check' m) := by
  unfold checkProperty
  cases o.find? options.ownOnly key with
  | none => exact .refl _
  | some y => exact ((h y).behind _ _).as _

theorem checkEntry_metBy {checkKey : Value → Verdict} {checkKey' : Nat → Value → Verdict}
    (hkey : ∀ y, (checkKey y).MetBy fun m => checkKey' m y)
    (hvalue : ∀ y, (check y).MetBy fun m => check' m y) (o : Object) (key : PropertyKey) :
    (checkEntry o checkKey check key).MetBy fun m => checkEntry o (checkKey' m) (check' m) key :=
  ((hkey _).behind _ _).bind fun _ _ => ((hvalue _).behind _ _).as _

theorem checkElement_metBy {x : Value} (h : (check x).MetBy fun m => check' m x) (index : Nat) :
    (checkElement check x index).MetBy fun m => checkElement (check' m) x index :=
  (h.behind _ _).as _

end

/-! ## Runs -/

namespace Definitions

open Filter (atTop)
open Validator (HasType)

variable {Γ Δ : Types} {σ τ : String → Validator} {defs defs' : Definitions} {bound : Nat}
  {v w : Validator} {i o : ValueType} {x y : Value}

theorem run_not_metBy (h : (defs.run bound v x).MetBy fun m => defs'.run m w x) :
    (defs.run bound (.not v) x).MetBy fun m => defs'.run m (.not w) x := by
  simp only [run_not]
  generalize defs.run bound v x = a at h ⊢
  cases h with
  | accepted h =>
    exact .rejected (h.mono fun m (hm : defs'.run m w x = _) => ⟨_, by rw [hm]⟩)
  | rejected h =>
    refine .accepted (h.mono ?_)
    rintro m ⟨s, hs⟩
    have hrun : defs'.run m w x = .rejected s := hs
    rw [hrun]
  | unsettled => exact .unsettled

/-- What comes in the place of references decides what comes of the whole, and reasons do not
matter. -/
theorem run_metBy (hdefs : defs.Typed Δ Δ)
    (hσ : ∀ name i o, Γ name = some (i, o) → (σ name).HasType Δ i o)
    (hmet : ∀ name i o, Γ name = some (i, o) → ∀ x, i.holds x = true →
      (defs.run bound (σ name) x).MetBy fun m => defs'.run m (τ name) x)
    (h : v.HasType Γ i o) (hx : i.holds x = true) :
    (defs.run bound (v.subst (.ofReferences σ)) x).MetBy fun m =>
      defs'.run m (v.subst (.ofReferences τ)) x := by
  -- One case for each form: parts meet parts, and the outcome is built from theirs alike.
  induction h generalizing x with
  | leaf hl =>
    simp only [Validator.subst, Substitution.ofReferences, run_leaf]
    exact .refl _
  | asValue _ ih => exact ih hx
  | anyOf _ ih =>
    simp only [Validator.subst, Validator.substAll_eq_map, run_anyOf, Outcome.firstOf_map]
    exact (Outcome.MetBy.firstOf fun v hv => ih v hv hx).mapReason _ _
  | allOf _ ih =>
    simp only [Validator.subst, Validator.substAll_eq_map, run_allOf, Outcome.forEach_map]
    exact ((Outcome.MetBy.forEach fun v hv => ih v hv hx).behind _ _).as _
  | not _ _ ih =>
    simp only [Validator.subst]
    exact run_not_metBy (ih hx)
  | pipe hv _ ihv ihw =>
    simp only [Validator.subst, run_pipe]
    -- What the first validator gives is of the type that the second one takes.
    exact (ihv hx).bind fun y hy => ihw (hdefs.holds_output (hv.subst hσ) hx hy)
  | explained _ ih =>
    simp only [Validator.subst, run_explained]
    exact (ih hx).behind _ _
  | sealed _ ih =>
    simp only [Validator.subst, run_sealed]
    exact ih hx
  | optional _ ih =>
    simp only [Validator.subst, run_optional]
    split
    · exact .refl _
    · exact ih hx
  | nullable _ ih =>
    simp only [Validator.subst, run_nullable]
    split
    · exact .refl _
    · exact ih hx
  | reference h => exact hmet _ _ _ h x hx
  | property _ ih =>
    simp only [Validator.subst, run_property]
    -- Below an object every value is of the type that the part takes.
    exact withObject_metBy (fun o => checkProperty_metBy (fun y => ih rfl) o _ _) x
  | shape _ ih =>
    simp only [Validator.subst, Validator.substFields_eq_map, run_shape, Outcome.forEach_map]
    refine withObject_metBy (fun o => ?_) x
    -- The keys of the fields are those before, so surplus is refused alike.
    refine (Outcome.MetBy.forEach fun f hf => ?_).bind fun _ _ => ?_
    · exact checkProperty_metBy (fun y => ih f hf rfl) o _ _
    · simp only [List.map_map]
      exact .refl _
  | dictionary _ _ ihk ihv =>
    simp only [Validator.subst, run_dictionary]
    refine withObject_metBy (fun o => .forEach fun key _ => ?_) x
    exact checkEntry_metBy (fun y => ihk rfl) (fun y => ihv rfl) o key
  | arrayOf _ ih =>
    simp only [Validator.subst, run_arrayOf]
    refine withElements_metBy (fun xs => .forEach fun p _ => ?_) x
    exact checkElement_metBy (ih rfl) p.2
  | tuple _ ih =>
    simp only [Validator.subst, Validator.substAll_eq_map, run_tuple, List.length_map]
    refine withElements_metBy (fun xs => ?_) x
    split
    · simp only [List.zip_map_left, List.zipIdx_map, Outcome.forEach_map]
      refine .forEach fun p hp => checkElement_metBy (ih p.1.1 ?_ rfl) p.2
      exact (List.of_mem_zip (List.fst_mem_of_mem_zipIdx hp)).1
    · exact .refl _

/-- The same for one validator, under definitions that differ. -/
theorem run_metBy_of_refer (hdefs : defs.Typed Γ Γ)
    (hrefer : ∀ name i o, Γ name = some (i, o) → ∀ x, i.holds x = true →
      (defs.run bound (.reference name) x).MetBy fun m => defs'.run m (.reference name) x)
    (h : v.HasType Γ i o) (hx : i.holds x = true) :
    (defs.run bound v x).MetBy fun m => defs'.run m v x := by
  have hsame : v.subst (.ofReferences .reference) = v := Validator.subst_id v
  have hmet := run_metBy hdefs (fun _ _ _ => .reference) hrefer h hx
  rwa [hsame] at hmet

/-- Definitions that are the same for all names that may be referred to make no difference. -/
theorem run_metBy_of_lookup (hdefs : defs.Typed Γ Γ)
    (hlookup : ∀ name t, Γ name = some t → defs'.lookup name = defs.lookup name)
    (h : v.HasType Γ i o) (hx : i.holds x = true) :
    (defs.run bound v x).MetBy fun m => defs'.run m v x := by
  induction bound generalizing v i o x with
  | zero =>
    refine run_metBy_of_refer hdefs (fun name i o _ x _ => ?_) h hx
    rw [run_reference_zero]
    exact .unsettled
  | succ bound ih =>
    refine run_metBy_of_refer hdefs (fun name i o hname x hx => .of_succ ?_) h hx
    obtain ⟨w, hw, htype⟩ := hdefs name i o hname
    simp only [run_reference_succ, hlookup name _ hname, hw]
    exact ih htype hx

/-! ## Equivalence -/

/-- Two validators accept the same values of a type, with the same outputs, and reject the same. So
they come to an end on the same values. -/
def Equivalent (i : ValueType) (defs : Definitions) (v : Validator) (defs' : Definitions)
    (w : Validator) : Prop :=
  ∀ x, i.holds x = true →
    (∀ y, defs.Returns v x (.accepted y) ↔ defs'.Returns w x (.accepted y)) ∧
      (defs.Rejects v x ↔ defs'.Rejects w x)

theorem Equivalent.symm (h : Equivalent i defs v defs' w) : Equivalent i defs' w defs v :=
  fun x hx => ⟨fun y => ((h x hx).1 y).symm, (h x hx).2.symm⟩

theorem Equivalent.trans {defs'' : Definitions} {u : Validator}
    (h : Equivalent i defs v defs' w) (h' : Equivalent i defs' w defs'' u) :
    Equivalent i defs v defs'' u :=
  fun x hx => ⟨fun y => ((h x hx).1 y).trans ((h' x hx).1 y), (h x hx).2.trans (h' x hx).2⟩

theorem returns_of_metBy (h : ∀ bound, (defs.run bound v x).MetBy fun m => defs'.run m w x) :
    (∀ y, defs.Returns v x (.accepted y) → defs'.Returns w x (.accepted y)) ∧
      (defs.Rejects v x → defs'.Rejects w x) := by
  constructor
  · -- One bound is enough: from some other bound on the outcomes over there are the same.
    rintro y ⟨hs, bound, hrun⟩
    have hmet := h bound
    rw [hrun] at hmet
    cases hmet with
    | accepted hmet =>
      obtain ⟨m, hm⟩ := hmet.exists
      exact ⟨hs, m, hm⟩
  · rintro ⟨reason, -, bound, hrun⟩
    have hmet := h bound
    rw [hrun] at hmet
    cases hmet with
    | rejected hmet =>
      obtain ⟨m, s, hm⟩ := hmet.exists
      exact rejects_of_run hm

theorem equivalent_of_metBy
    (h : ∀ bound x, i.holds x = true → (defs.run bound v x).MetBy fun m => defs'.run m w x)
    (h' : ∀ bound x, i.holds x = true → (defs'.run bound w x).MetBy fun m => defs.run m v x) :
    Equivalent i defs v defs' w := by
  intro x hx
  obtain ⟨haccepts, hrejects⟩ := returns_of_metBy fun bound => h bound x hx
  obtain ⟨haccepts', hrejects'⟩ := returns_of_metBy fun bound => h' bound x hx
  exact ⟨fun y => ⟨haccepts y, haccepts' y⟩, hrejects, hrejects'⟩

theorem Equivalent.metBy (h : Equivalent i defs v defs' w) (hx : i.holds x = true) :
    (defs.run bound v x).MetBy fun m => defs'.run m w x := by
  obtain ⟨haccepts, hrejects⟩ := h x hx
  cases hrun : defs.run bound v x with
  | accepted y => exact .accepted ((haccepts y).1 (returns_of_run hrun (by simp))).eventually
  | rejected reason => exact .rejected (hrejects.1 (rejects_of_run hrun)).eventually
  | unsettled => exact .unsettled

end Definitions

/-! ## Contexts -/

/-- What comes in the place of references if a validator is plugged into a hole. -/
def filling (hole : String) (u : Validator) (name : String) : Validator :=
  if name = hole then u else .reference name

/-- The types of references with that of a hole. -/
def Types.withHole (Γ : Types) (hole : String) (i o : ValueType) : Types :=
  fun name => if name = hole then some (i, o) else Γ name

/-- The context with a validator plugged into its hole. -/
def Validator.plug (c : Validator) (hole : String) (u : Validator) : Validator :=
  c.subst (.ofReferences (filling hole u))

/-- The definitions with a validator plugged into their hole. -/
def Definitions.plug (defs : Definitions) (hole : String) (u : Validator) : Definitions :=
  defs.subst (.ofReferences (filling hole u))

namespace Definitions

open Validator (HasType)

variable {Γ Δ : Types} {defs : Definitions} {bound : Nat} {hole name : String}
  {c u v w : Validator} {i o i' o' : ValueType} {x : Value}

/-- A reference with a type leads to the hole, which is filled, or it stays as it is. -/
theorem withHole_cases {t : ValueType × ValueType}
    (hname : Δ.withHole hole i o name = some t) :
    (i, o) = t ∧ (∀ u, filling hole u name = u) ∨
      Δ name = some t ∧ ∀ u, filling hole u name = .reference name := by
  unfold Types.withHole at hname
  split at hname
  · next heq => exact .inl ⟨Option.some.inj hname, fun _ => if_pos heq⟩
  · next hne => exact .inr ⟨hname, fun _ => if_neg hne⟩

theorem filling_hasType (hu : u.HasType Δ i o) :
    ∀ name i' o', Δ.withHole hole i o name = some (i', o') →
      (filling hole u name).HasType Δ i' o' := by
  intro name i' o' hname
  rcases withHole_cases hname with ⟨htype, hfill⟩ | ⟨hname, hfill⟩
  · cases htype
    rwa [hfill]
  · rw [hfill]
    exact .reference hname

theorem lookup_plug (defs : Definitions) (hole : String) (u : Validator) (name : String) :
    (defs.plug hole u).lookup name = (defs.lookup name).map fun w => w.plug hole u :=
  lookup_subst _ defs name

theorem Typed.plug (hdefs : defs.Typed Γ (Δ.withHole hole i o)) (hu : u.HasType Δ i o) :
    (defs.plug hole u).Typed Γ Δ := by
  intro name i' o' hname
  obtain ⟨w, hw, htype⟩ := hdefs name i' o' hname
  exact ⟨w.plug hole u, by rw [lookup_plug, hw]; rfl, htype.subst (filling_hasType hu)⟩

/-- What does not refer to the hole stays the same. -/
theorem plug_eq_self (hhole : Γ hole = none) (hv : v.HasType Γ i o) : v.plug hole u = v := by
  refine HasType.subst_eq_self (fun name t hname => if_neg ?_) hv
  rintro rfl
  rw [hhole] at hname
  cases hname

variable (Γ) in
/-- What validators say under one set of definitions and a bound, they say under another set of
definitions as well. -/
def MetAt (defs defs' : Definitions) (bound : Nat) : Prop :=
  ∀ u i o x, u.HasType Γ i o → i.holds x = true →
    (defs.run bound u x).MetBy fun m => defs'.run m u x

/-- Under a bound two validators meet in every context if references meet, and if they meet by
themselves, supposing that all others do that do not refer to the hole. -/
theorem plug_metBy_of_refer (hdefs : (defs.plug hole v).Typed Δ Δ) (hv : v.HasType Δ i o)
    (hmet : MetAt Δ (defs.plug hole v) (defs.plug hole w) bound → ∀ x, i.holds x = true →
      ((defs.plug hole v).run bound v x).MetBy fun m => (defs.plug hole w).run m w x)
    (hrefer : ∀ name i o, Δ name = some (i, o) → ∀ x, i.holds x = true →
      ((defs.plug hole v).run bound (.reference name) x).MetBy fun m =>
        (defs.plug hole w).run m (.reference name) x)
    (hc : c.HasType (Δ.withHole hole i o) i' o') (hx : i'.holds x = true) :
    ((defs.plug hole v).run bound (c.plug hole v) x).MetBy fun m =>
      (defs.plug hole w).run m (c.plug hole w) x := by
  have hmetAt : MetAt Δ (defs.plug hole v) (defs.plug hole w) bound :=
    fun u i o x hu hx => run_metBy_of_refer hdefs hrefer hu hx
  refine run_metBy hdefs (filling_hasType hv) (fun name i' o' hname x hx => ?_) hc hx
  -- A reference is filled with the two validators, or it is left as it is in both.
  rcases withHole_cases hname with ⟨htype, hfill⟩ | ⟨hname, hfill⟩
  · cases htype
    simp only [hfill]
    exact hmet hmetAt x hx
  · simp only [hfill]
    exact hrefer name i' o' hname x hx

theorem plug_metBy (hdefs : defs.Typed Δ (Δ.withHole hole i o)) (hv : v.HasType Δ i o)
    (hmet : ∀ bound, MetAt Δ (defs.plug hole v) (defs.plug hole w) bound → ∀ x, i.holds x = true →
      ((defs.plug hole v).run bound v x).MetBy fun m => (defs.plug hole w).run m w x)
    (hc : c.HasType (Δ.withHole hole i o) i' o') (hx : i'.holds x = true) :
    ((defs.plug hole v).run bound (c.plug hole v) x).MetBy fun m =>
      (defs.plug hole w).run m (c.plug hole w) x := by
  -- A reference leads to a definition, which is a context itself, under a smaller bound.
  induction bound generalizing c i' o' x with
  | zero =>
    refine plug_metBy_of_refer (hdefs.plug hv) hv (hmet 0) (fun name i' o' _ x _ => ?_) hc hx
    rw [run_reference_zero]
    exact .unsettled
  | succ bound ih =>
    refine plug_metBy_of_refer (hdefs.plug hv) hv (hmet (bound + 1))
      (fun name i' o' hname x hx => .of_succ ?_) hc hx
    obtain ⟨u, hu, htype⟩ := hdefs name i' o' hname
    simp only [run_reference_succ, lookup_plug, hu, Option.map_some]
    exact ih htype hx

/-- Validators that meet by themselves, supposing that all others do that do not refer to the hole,
make equivalent ones if they are plugged into a context. -/
theorem equivalent_plug (hdefs : defs.Typed Δ (Δ.withHole hole i o)) (hv : v.HasType Δ i o)
    (hw : w.HasType Δ i o) (hc : c.HasType (Δ.withHole hole i o) i' o')
    (hmet : ∀ bound, MetAt Δ (defs.plug hole v) (defs.plug hole w) bound → ∀ x, i.holds x = true →
      ((defs.plug hole v).run bound v x).MetBy fun m => (defs.plug hole w).run m w x)
    (hmet' : ∀ bound, MetAt Δ (defs.plug hole w) (defs.plug hole v) bound → ∀ x, i.holds x = true →
      ((defs.plug hole w).run bound w x).MetBy fun m => (defs.plug hole v).run m v x) :
    Equivalent i' (defs.plug hole v) (c.plug hole v) (defs.plug hole w) (c.plug hole w) :=
  equivalent_of_metBy (fun _ _ hx => plug_metBy hdefs hv hmet hc hx)
    fun _ _ hx => plug_metBy hdefs hw hmet' hc hx

/-- Validators that do not refer to the hole do not depend on what is plugged into it. -/
theorem equivalent_plug_of_closed (hdefs : defs.Typed Γ Γ) (hhole : Γ hole = none)
    (hv : v.HasType Γ i o) (u : Validator) : Equivalent i defs v (defs.plug hole u) v := by
  -- Definitions with a type do not refer to the hole, so plugging leaves them as they are.
  have hlookup : ∀ name t, Γ name = some t →
      (defs.plug hole u).lookup name = defs.lookup name := by
    intro name t hname
    obtain ⟨w, hw, htype⟩ := hdefs name t.1 t.2 hname
    rw [lookup_plug, hw, Option.map_some, plug_eq_self hhole htype]
  have htyped : (defs.plug hole u).Typed Γ Γ := by
    intro name i o hname
    rw [hlookup name _ hname]
    exact hdefs name i o hname
  exact equivalent_of_metBy (fun _ _ hx => run_metBy_of_lookup hdefs hlookup hv hx)
    fun _ _ hx => run_metBy_of_lookup htyped (fun name t hname => (hlookup name t hname).symm) hv hx

theorem equivalent_plug_explained (hdefs : defs.Typed Δ (Δ.withHole hole i o))
    (hv : v.HasType Δ i o) (hc : c.HasType (Δ.withHole hole i o) i' o') (message : String) :
    Equivalent i' (defs.plug hole v) (c.plug hole v) (defs.plug hole (.explained message v))
      (c.plug hole (.explained message v)) := by
  refine equivalent_plug hdefs hv (.explained hv) hc ?_ ?_
  · intro bound hmet x hx
    simp only [run_explained]
    exact (hmet v i o x hv hx).behind_right message
  · intro bound hmet x hx
    rw [run_explained]
    exact (hmet v i o x hv hx).behind_left message

theorem equivalent_plug_sealed (hdefs : defs.Typed Δ (Δ.withHole hole i o))
    (hv : v.HasType Δ i o) (hc : c.HasType (Δ.withHole hole i o) i' o') (label : String) :
    Equivalent i' (defs.plug hole v) (c.plug hole v) (defs.plug hole (.sealed label v))
      (c.plug hole (.sealed label v)) := by
  refine equivalent_plug hdefs hv (.sealed hv) hc ?_ ?_
  · intro bound hmet x hx
    simp only [run_sealed]
    exact hmet v i o x hv hx
  · intro bound hmet x hx
    rw [run_sealed]
    exact hmet v i o x hv hx

theorem equivalent_plug_reference (hhole : Δ hole = none)
    (hdefs : defs.Typed Δ (Δ.withHole hole i o)) (hv : v.HasType Δ i o)
    (hc : c.HasType (Δ.withHole hole i o) i' o') (hname : Δ name = some (i, o))
    (hlookup : defs.lookup name = some v) :
    Equivalent i' (defs.plug hole v) (c.plug hole v) (defs.plug hole (.reference name))
      (c.plug hole (.reference name)) := by
  have hplugged : (defs.plug hole (.reference name)).lookup name = some v := by
    rw [lookup_plug, hlookup, Option.map_some, plug_eq_self hhole hv]
  refine equivalent_plug hdefs hv (.reference hname) hc ?_ ?_
  · intro bound hmet x hx
    refine .of_succ ?_
    simp only [run_reference_succ, hplugged]
    exact hmet v i o x hv hx
  · intro bound hmet x hx
    cases bound with
    | zero =>
      rw [run_reference_zero]
      exact .unsettled
    | succ bound =>
      -- The reference takes one from the bound, and under the whole bound the same is said.
      rw [run_reference_succ, hplugged]
      exact .of_below (run_below (Nat.le_succ bound) v x) (hmet v i o x hv hx)

/-- In a context that may be recursive, equivalent validators can be exchanged for one another, a
validator can be put behind a message or a label, and a definition can be referred to by its name.
All of this changes neither which values the whole accepts nor what it gives for them. -/
theorem equivalent_in_context (hhole : Δ hole = none) (hdefs : defs.Typed Δ (Δ.withHole hole i o))
    (hΓ : ∀ name t, Γ name = some t → Δ name = some t) (hclosed : defs.Typed Γ Γ)
    (hc : c.HasType (Δ.withHole hole i o) i' o') :
    (∀ v w, v.HasType Γ i o → w.HasType Γ i o → Equivalent i defs v defs w →
        Equivalent i' (defs.plug hole v) (c.plug hole v) (defs.plug hole w) (c.plug hole w)) ∧
      ∀ v, v.HasType Δ i o →
        (∀ message, Equivalent i' (defs.plug hole v) (c.plug hole v)
          (defs.plug hole (.explained message v)) (c.plug hole (.explained message v))) ∧
        (∀ label, Equivalent i' (defs.plug hole v) (c.plug hole v)
          (defs.plug hole (.sealed label v)) (c.plug hole (.sealed label v))) ∧
        (∀ name, Δ name = some (i, o) → defs.lookup name = some v →
          Equivalent i' (defs.plug hole v) (c.plug hole v)
            (defs.plug hole (.reference name)) (c.plug hole (.reference name))) := by
  have hout : Γ hole = none := by
    cases h : Γ hole with
    | none => rfl
    | some t => exact absurd (hhole.symm.trans (hΓ hole t h)) (by simp)
  refine ⟨fun v w hv hw h => ?_, fun v hv => ⟨?_, ?_, fun name hname hlookup => ?_⟩⟩
  · -- The two do not refer to the hole, so they are equivalent whatever is in it.
    have hfilled : Equivalent i (defs.plug hole v) v (defs.plug hole w) w :=
      (equivalent_plug_of_closed hclosed hout hv v).symm.trans
        (h.trans (equivalent_plug_of_closed hclosed hout hw w))
    exact equivalent_plug hdefs (hv.mono hΓ) (hw.mono hΓ) hc (fun _ _ _ hx => hfilled.metBy hx)
      fun _ _ _ hx => hfilled.symm.metBy hx
  · exact equivalent_plug_explained hdefs hv hc
  · exact equivalent_plug_sealed hdefs hv hc
  · exact equivalent_plug_reference hhole hdefs hv hc hname hlookup

/-- Chains of objects: null, or an object whose next one is what the hole takes. -/
def chains : Definitions :=
  [("Chain", .anyOf .tuple
    [.leaf .null, .checked (.property (.text "next") (.reference "Rest") {})])]

def chainTypes : Types := fun name => if name = "Chain" then some (.value, .value) else none

/-- A chain of one object. -/
def oneLink : Value :=
  .object (.mk (.made []) .ordinary [(.text "next", .null)] none none)

/-- Objects without an end that the hole takes, in front of a chain. -/
def unended : Validator :=
  .pipe (.not (.property (.text "end") (.reference "Rest") {}))
    (.property (.text "next") (.reference "Chain") {})

theorem hasType_rest :
    HasType (chainTypes.withHole "Rest" .value .value) (.reference "Rest") .value .value :=
  .reference (by simp [Types.withHole])

theorem chains_typed : chains.Typed chainTypes (chainTypes.withHole "Rest" .value .value) := by
  intro name i o hname
  simp only [chainTypes, Option.ite_none_right_eq_some, Option.some.injEq, Prod.mk.injEq] at hname
  obtain ⟨rfl, rfl, rfl⟩ := hname
  refine ⟨_, rfl, .anyOf ?_⟩
  simp only [List.forall_mem_cons]
  refine ⟨.leaf trivial, .asValue (.pipe (m := .object) ?_ (.property hasType_rest)), by simp⟩
  exact HasType.leaf (l := .ofType .object) trivial

/-- The negation gives the object back, so the check behind it can look at another property. -/
theorem unended_hasType :
    unended.HasType (chainTypes.withHole "Rest" .value .value) .object .object := by
  refine .pipe (m := .object) (.not (.refl .object) (.asValue (.property hasType_rest))) ?_
  exact .property (.reference (by simp [Types.withHole, chainTypes]))

/-- An object in front of a chain is one still if it is explained what is wrong with the rest. -/
theorem oneLink_explained :
    (chains.plug "Rest" (.reference "Chain")).Accepts (unended.plug "Rest" (.reference "Chain"))
        oneLink ∧
      (chains.plug "Rest" (.explained "The rest is no chain." (.reference "Chain"))).Accepts
        (unended.plug "Rest" (.explained "The rest is no chain." (.reference "Chain")))
        oneLink := by
  have hrun : (chains.plug "Rest" (.reference "Chain")).run 1
      (unended.plug "Rest" (.reference "Chain")) oneLink = .accepted oneLink := by rfl
  have hchain : HasType chainTypes (.reference "Chain") .value .value := .reference rfl
  have hhole : chainTypes "Rest" = none := by simp [chainTypes]
  obtain ⟨-, hinsert⟩ := equivalent_in_context (Γ := fun _ => none) hhole chains_typed (by simp)
    (fun _ _ _ h => by cases h) unended_hasType
  obtain ⟨hexplained, -, -⟩ := hinsert (.reference "Chain") hchain
  -- What the context returns with the reference, it returns with the explanation in its place.
  have hiff := (hexplained "The rest is no chain." oneLink rfl).1 oneLink
  have hreturns := returns_of_run hrun (by simp)
  exact ⟨⟨_, hreturns⟩, ⟨_, hiff.1 hreturns⟩⟩

end Definitions

end Narrowing
