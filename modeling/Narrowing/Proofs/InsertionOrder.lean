-- SUMMARY: Values built anew in another order of insertion, and verdicts on them.
import Narrowing.Proofs.Agreement
import Narrowing.Proofs.Documents
import Narrowing.Proofs.Guarded

/-!
# The order of insertion

An object can be built anew with its properties set in another order, as long as the last value
that each key was given stays the last. If this is done to objects at any depth of a value and to
those that a validator compares with, then the validator may look at own keys in another order. It
may come to another failure first, or come to an end on one of the two values alone. But it does
not accept one and reject the other (`Definitions.accepts_iff_of_reordered`).

It can miss the end only by recursion without a guard, and there the order does count
(`Definitions.order_decides`).
-/

namespace Narrowing

/-! ## Values built anew -/

/-- Of the settings of a key the last one counts. -/
def lastSetting? (calls : List (PropertyKey × Value)) (key : PropertyKey) : Option Value :=
  calls.reverse.lookup key

/-- Two kinds are the same, but for the elements of arrays, which are related. -/
inductive ObjectKind.Related (R : Value → Value → Prop) : ObjectKind → ObjectKind → Prop
  | refl (kind : ObjectKind) : Related R kind kind
  | array {xs ys : List Value} (h : List.Forall₂ R xs ys) : Related R (.array xs) (.array ys)

/-- An object built by setting its properties one after the other. -/
def Object.built (identity : Identity) (kind : ObjectKind) (calls : List (PropertyKey × Value))
    (prototype : Option Object) (classOf : Option Class) : Object :=
  (Object.mk identity kind [] prototype classOf).setProperties calls

/-- Two values are the same, or objects with one identity and one class that were built with
properties set in whatever order, the last value under each key being the same or itself built
anew. In this way their elements and prototypes may have been built anew as well. -/
inductive Value.Reordered : Value → Value → Prop
  | refl (x : Value) : Reordered x x
  | object {identity : Identity} {kind kind' : ObjectKind}
      {calls calls' : List (PropertyKey × Value)} {prototype prototype' : Option Object}
      {classOf : Option Class}
      (hkind : ObjectKind.Related Reordered kind kind')
      (hcalls : ∀ key, Option.Rel Reordered (lastSetting? calls key) (lastSetting? calls' key))
      (hprototype :
        Option.Rel (fun o p => Reordered (.object o) (.object p)) prototype prototype') :
      Reordered (.object (.built identity kind calls prototype classOf))
        (.object (.built identity kind' calls' prototype' classOf))

/-- Two leaves are the same, but for the values that they compare with, which may be built anew. -/
inductive Leaf.Reordered : Leaf → Leaf → Prop
  | refl (l : Leaf) : Reordered l l
  | equal {x y : Value} (h : x.Reordered y) : Reordered (.equal x) (.equal y)
  | oneOf {xs ys : List Value} (h : List.Forall₂ Value.Reordered xs ys) :
      Reordered (.oneOf xs) (.oneOf ys)
  | keyOf {o p : Object} {options : KeyOptions} (h : (Value.object o).Reordered (.object p)) :
      Reordered (.keyOf o options) (.keyOf p options)

/-- What two objects that were built in different orders have in common. -/
structure Object.Related (R : Value → Value → Prop) (o p : Object) : Prop where
  identity : o.identity = p.identity
  classOf : o.classOf = p.classOf
  kind : ObjectKind.Related R o.kind p.kind
  lookup (key : PropertyKey) : Option.Rel R (o.properties.lookup key) (p.properties.lookup key)
  prototype : Option.Rel (fun o p => R (.object o) (.object p)) o.prototype p.prototype

/-! ## Lists and objects that are related -/

theorem forall₂_any {α β : Type} {as : List α} {bs : List β} {f : α → Bool} {g : β → Bool}
    (h : List.Forall₂ (fun a b => f a = g b) as bs) : as.any f = bs.any g := by
  induction h with
  | nil => rfl
  | cons hab _ ih => rw [List.any_cons, List.any_cons, hab, ih]

theorem forall₂_findSome? {α β γ : Type} {R : γ → γ → Prop} {as : List α} {bs : List β}
    {f : α → Option γ} {g : β → Option γ}
    (h : List.Forall₂ (fun a b => Option.Rel R (f a) (g b)) as bs) :
    Option.Rel R (as.findSome? f) (bs.findSome? g) := by
  induction h with
  | nil => exact .none
  | @cons a b _ _ hab _ ih =>
    rw [List.findSome?_cons, List.findSome?_cons]
    generalize f a = x at hab ⊢
    generalize g b = y at hab ⊢
    cases hab with
    | none => exact ih
    | some hxy => exact .some hxy

namespace ObjectKind.Related

variable {R : Value → Value → Prop} {kind kind' : ObjectKind}

theorem indexCount (h : Related R kind kind') : kind.indexCount = kind'.indexCount := by
  cases h with
  | refl => rfl
  | array h => exact h.length_eq

theorem slot? (h : Related R kind kind') (hR : ∀ x, R x x) (key : PropertyKey) :
    Option.Rel R (kind.slot? key) (kind'.slot? key) := by
  cases h with
  | refl => exact rel_self hR _
  | array h => exact slot?_array_rel hR h key

end ObjectKind.Related

theorem Object.related_built {R : Value → Value → Prop} {i : Identity} {kind kind' : ObjectKind}
    {calls calls' : List (PropertyKey × Value)} {p p' : Option Object} {c : Option Class}
    (hkind : ObjectKind.Related R kind kind')
    (hcalls : ∀ key, Option.Rel R (lastSetting? calls key) (lastSetting? calls' key))
    (hprototype : Option.Rel (fun o p => R (.object o) (.object p)) p p') :
    Object.Related R (.built i kind calls p c) (.built i kind' calls' p' c) := by
  unfold built
  rw [setProperties_eq, setProperties_eq]
  refine ⟨rfl, rfl, hkind, fun key => ?_, hprototype⟩
  simpa [lookup_setEntries, lastSetting?] using hcalls key

namespace Value.Reordered

variable {x y : Value} {o p : Object} {key : PropertyKey}

theorem related (h : (Value.object o).Reordered (.object p)) : Object.Related Reordered o p := by
  cases h with
  | refl =>
    exact ⟨rfl, rfl, .refl _, fun _ => rel_self .refl _,
      rel_self (fun o => refl (.object o)) _⟩
  | object hkind hcalls hprototype => exact Object.related_built hkind hcalls hprototype

theorem object? (h : x.Reordered y) :
    Option.Rel (fun o p => Reordered (.object o) (.object p)) x.object? y.object? := by
  cases h with
  | refl => exact rel_self (fun o => refl (.object o)) _
  | object hkind hcalls hprototype => exact .some (.object hkind hcalls hprototype)

/-- A value that was built anew is the same or another object. -/
theorem eq_or_object (h : x.Reordered y) :
    x = y ∨ ∃ o p, x = .object o ∧ y = .object p ∧ (Value.object o).Reordered (.object p) := by
  cases h with
  | refl => exact .inl rfl
  | object hkind hcalls hprototype => exact .inr ⟨_, _, rfl, rfl, .object hkind hcalls hprototype⟩

theorem isUndefined (h : x.Reordered y) : x.isUndefined = y.isUndefined := by
  cases h <;> rfl

theorem isNull (h : x.Reordered y) : x.isNull = y.isNull := by
  cases h <;> rfl

theorem key? (h : x.Reordered y) : x.key? = y.key? := by
  cases h <;> rfl

theorem elements? (h : x.Reordered y) :
    Option.Rel (List.Forall₂ Reordered) x.elements? y.elements? := by
  rcases h.eq_or_object with rfl | ⟨o, p, rfl, rfl, h⟩
  · exact rel_self (fun _ => List.forall₂_same.2 fun x _ => .refl x) _
  · have hkind := h.related.kind
    rcases o with ⟨i, kind, ps, prototype, c⟩
    rcases p with ⟨j, kind', qs, prototype', d⟩
    cases hkind with
    | refl =>
      cases kind with
      | array xs => exact .some (List.forall₂_same.2 fun x _ => .refl x)
      | _ => exact .none
    | array helements => exact .some helements

theorem function? (h : x.Reordered y) : x.function?.isSome = y.function?.isSome := by
  rcases h.eq_or_object with rfl | ⟨o, p, rfl, rfl, h⟩
  · rfl
  · have hkind := h.related.kind
    rcases o with ⟨i, kind, ps, prototype, c⟩
    rcases p with ⟨j, kind', qs, prototype', d⟩
    cases hkind with
    | refl => cases kind <;> rfl
    | array _ => rfl

/-! ## Properties of values that were built anew -/

theorem mem_ownKeys_iff (h : (Value.object o).Reordered (.object p)) (key : PropertyKey) :
    key ∈ o.ownKeys ↔ key ∈ p.ownKeys := by
  rw [Object.mem_ownKeys_iff, Object.mem_ownKeys_iff, h.related.kind.indexCount]
  simp only [← isSome_lookup_iff, isSome_eq_of_rel (h.related.lookup key)]

theorem getOwn (h : (Value.object o).Reordered (.object p)) (key : PropertyKey) :
    Option.Rel Reordered (o.getOwn key) (p.getOwn key) :=
  Object.getOwn_rel (h.related.kind.slot? .refl key) (h.related.lookup key)

theorem chain (h : (Value.object o).Reordered (.object p)) :
    List.Forall₂ (fun o p => (Value.object o).Reordered (.object p)) o.chain p.chain := by
  -- The induction goes up the prototypes of the first object, and the second has as many.
  fun_induction Object.chain o generalizing p with
  | case1 i kind ps c =>
    have hprototype := h.related.prototype
    rcases p with ⟨j, kind', qs, prototype, d⟩
    cases hprototype
    rw [Object.chain]
    exact .cons h .nil
  | case2 i kind ps o c ih =>
    have hprototype := h.related.prototype
    rcases p with ⟨j, kind', qs, prototype, d⟩
    cases hprototype with
    | some hop =>
      rw [Object.chain]
      exact .cons h (ih hop)

theorem find? (h : (Value.object o).Reordered (.object p)) (ownOnly : Bool) (key : PropertyKey) :
    Option.Rel Reordered (o.find? ownOnly key) (p.find? ownOnly key) := by
  cases ownOnly with
  | true => exact h.getOwn key
  | false => exact forall₂_findSome? (h.chain.imp fun _ _ hop => hop.getOwn key)

theorem hasKey (h : (Value.object o).Reordered (.object p)) (ownOnly : Bool) (key : PropertyKey) :
    o.hasKey ownOnly key = p.hasKey ownOnly key := by
  rw [Object.hasKey_eq_isSome_find?, Object.hasKey_eq_isSome_find?]
  exact isSome_eq_of_rel (h.find? ownOnly key)

theorem instanceOf (h : (Value.object o).Reordered (.object p)) (c : Class) :
    o.instanceOf c = p.instanceOf c := by
  refine forall₂_any (h.chain.imp fun o p hop => ?_)
  rw [hop.related.classOf]

/-- Objects that were built anew are still told by their identity. -/
theorem strictEq {e e' : Value} (h : x.Reordered y) (he : e.Reordered e') :
    x.strictEq e = y.strictEq e' := by
  rcases h.eq_or_object with rfl | ⟨o, p, rfl, rfl, h⟩
  · rcases he.eq_or_object with rfl | ⟨q, r, rfl, rfl, he⟩
    · rfl
    · cases x with
      | object o => simp only [Value.strictEq, Object.sameAs, he.related.identity]
      | _ => rfl
  · rcases he.eq_or_object with rfl | ⟨q, r, rfl, rfl, he⟩
    · cases e with
      | object q => simp only [Value.strictEq, Object.sameAs, h.related.identity]
      | _ => rfl
    · simp only [Value.strictEq, Object.sameAs, h.related.identity, he.related.identity]

end Value.Reordered

theorem Value.reordered_similarity : Value.Similarity Value.Reordered where
  undefined := .refl _
  key _ := .refl _
  isUndefined h := h.isUndefined
  isNull h := h.isNull
  object? h := h.object?
  elements? h := h.elements?
  mem_ownKeys_iff h := h.mem_ownKeys_iff
  getOwn h := h.getOwn

/-! ## Leaves -/

namespace Leaf

open Outcome (Agrees)

variable {l l' : Leaf} {x y : Value}

theorem Reordered.isRule (h : l.Reordered l') : l.isRule = l'.isRule := by
  cases h <;> rfl

theorem judge_equal_agrees {e e' : Value} (he : e.Reordered e') (h : x.Reordered y) :
    Agrees Value.Reordered (judge (.equal e) x) (judge (.equal e') y) := by
  simp only [judge, h.strictEq he]
  exact .ensure h

theorem judge_oneOf_agrees {es es' : List Value} (hes : List.Forall₂ Value.Reordered es es')
    (h : x.Reordered y) : Agrees Value.Reordered (judge (.oneOf es) x) (judge (.oneOf es') y) := by
  have hany : (es.any fun e => e.strictEq x) = es'.any fun e => e.strictEq y :=
    forall₂_any (hes.imp fun e e' he => he.strictEq h)
  simp only [judge, hany]
  exact .ensure h

theorem judge_keyOf_agrees {o p : Object} {options : KeyOptions}
    (hop : (Value.object o).Reordered (.object p)) (h : x.Reordered y) :
    Agrees Value.Reordered (judge (.keyOf o options) x) (judge (.keyOf p options) y) := by
  simp only [judge, h.key?]
  cases y.key? with
  | none => exact .rejected
  | some key =>
    simp only [hop.hasKey]
    exact .ensure h

theorem judge_ofType_agrees {o p : Object} (h : (Value.object o).Reordered (.object p))
    (type : ValueType) :
    Agrees Value.Reordered (judge (.ofType type) (.object o))
      (judge (.ofType type) (.object p)) := by
  have hholds : type.holds (.object o) = type.holds (.object p) := by
    cases type with
    | array => exact isSome_eq_of_rel h.elements?
    | function => exact h.function?
    | _ => rfl
  simp only [judge, narrow?_object, hholds]
  cases type.holds (.object p) with
  | true => exact .accepted h
  | false => exact .rejected

/-- A leaf of the library and the one in its place agree on values that were built anew. -/
theorem Reordered.judge_agrees (hl : l.Reordered l') (hrule : l.isRule = false)
    (h : x.Reordered y) : Agrees Value.Reordered (l.judge x) (l'.judge y) := by
  cases hl with
  | equal he => exact judge_equal_agrees he h
  | oneOf hes => exact judge_oneOf_agrees hes h
  | keyOf hop => exact judge_keyOf_agrees hop h
  | refl =>
    -- The leaf is the same, so only two objects in different orders are to be compared.
    rcases h.eq_or_object with rfl | ⟨o, p, rfl, rfl, h⟩
    · exact .refl .refl _
    · cases l with
      | ofType type => exact judge_ofType_agrees h type
      | null | undefined | nullish => exact .rejected
      | toObject => exact .accepted h
      | equal e => exact judge_equal_agrees (.refl e) h
      | oneOf es => exact judge_oneOf_agrees (List.forall₂_same.2 fun e _ => .refl e) h
      | instanceOf c =>
        simp only [judge, Value.object?, Option.any_some, h.instanceOf c]
        exact .ensure h
      | keyOf q options => exact judge_keyOf_agrees (.refl _) h
      | rule r => cases hrule

end Leaf

/-! ## Validators built anew -/

section

variable {f : Leaf → Leaf} {defs : Definitions} {v : Validator}

theorem Definitions.Known.respects (hf : ∀ l : Leaf, l.Reordered (f l)) (h : defs.Known v) :
    v.Respects Value.Reordered f := by
  cases v with
  | leaf l => exact fun x y hxy => (hf l).judge_agrees h hxy
  | property key v options => exact fun o p hop => hop.find? options.ownOnly key
  | shape fields options => exact fun o p key hop => hop.find? options.ownOnly key
  | _ => trivial

theorem Definitions.Known.subst (hf : ∀ l : Leaf, l.Reordered (f l)) (h : defs.Known v) :
    (defs.subst (.ofLeaves f)).Known (v.subst (.ofLeaves f)) := by
  cases v with
  | leaf l => exact (hf l).isRule.symm.trans h
  | reference name =>
    obtain ⟨w, hw⟩ := h
    exact ⟨_, by rw [lookup_subst, hw]; rfl⟩
  | _ => trivial

theorem Definitions.Strict.subst (hf : ∀ l : Leaf, l.Reordered (f l)) (h : defs.Strict v) :
    (defs.subst (.ofLeaves f)).Strict (v.subst (.ofLeaves f)) := by
  cases v with
  | leaf l =>
    have hl := hf l
    simp only [Validator.subst, Substitution.ofLeaves]
    generalize f l = l' at hl ⊢
    cases hl with
    | refl => cases l <;> exact h
    | _ => trivial
  | reference name =>
    obtain ⟨w, hw⟩ := h
    exact ⟨_, by rw [lookup_subst, hw]; rfl⟩
  | _ => trivial

theorem Validator.Guarded.subst (h : v.Guarded) (f : Leaf → Leaf) :
    (v.subst (.ofLeaves f)).Guarded := by
  induction h with
  | container hv => exact .container (by rwa [isContainer_subst])
  | parts hv _ ih =>
    refine .parts (by rwa [isReference_subst]) ?_
    rw [parts_subst, List.forall_mem_map]
    exact ih

end

namespace Definitions

open Validator (Throughout Guarded)

variable {f : Leaf → Leaf} {defs : Definitions} {v : Validator} {x y : Value}

/-- A validator of the library and the one that was built anew with it do not differ on a value and
the one that was built anew, as far as they come to an end. They always do if there are no
references, or if the recursion is guarded. -/
theorem accepts_iff_of_reordered (hf : ∀ l : Leaf, l.Reordered (f l))
    (hdefs : defs.Each (Throughout defs.Known)) (hv : v.Throughout defs.Known)
    (h : x.Reordered y) :
    let defs' := defs.subst (.ofLeaves f)
    let v' := v.subst (.ofLeaves f)
    (defs.Settles v x → defs'.Settles v' y → (defs.Accepts v x ↔ defs'.Accepts v' y)) ∧
      (v.Throughout (fun u => u.isReference = false) → (defs.Accepts v x ↔ defs'.Accepts v' y)) ∧
      (defs.Each (fun w => w.Guarded ∧ w.Throughout defs.Strict) → v.Throughout defs.Strict →
        (defs.Accepts v x ↔ defs'.Accepts v' y)) := by
  intro defs' v'
  have hverdict : defs.Settles v x → defs'.Settles v' y →
      (defs.Accepts v x ↔ defs'.Accepts v' y) :=
    accepts_iff_of_similar Value.reordered_similarity
      (fun name w hw => (hdefs name w hw).mono fun _ hu => hu.respects hf)
      (hv.mono fun _ hu => hu.respects hf) h
  refine ⟨hverdict, fun hreference => ?_, fun hguarded hstrict => ?_⟩
  · have hplain : v.Throughout fun u => defs.Known u ∧ u.isReference = false := hv.and hreference
    have hplain' : v'.Throughout fun u => defs'.Known u ∧ u.isReference = false :=
      hplain.subst fun u hu => ⟨hu.1.subst hf, (Validator.isReference_subst f u).trans hu.2⟩
    exact hverdict (settles_of_throughout hplain x) (settles_of_throughout hplain' y)
  · -- Reordering the values inside leaves moves no reference, so guards stay guards.
    have hguarded' : defs'.Each fun w => w.Guarded ∧ w.Throughout defs'.Strict := by
      intro name w hw
      rw [lookup_subst] at hw
      obtain ⟨u, hu, rfl⟩ := Option.map_eq_some_iff.1 hw
      obtain ⟨hguard, hu⟩ := hguarded name u hu
      exact ⟨hguard.subst f, hu.subst fun _ h => h.subst hf⟩
    have hstrict' : v'.Throughout defs'.Strict := hstrict.subst fun _ hu => hu.subst hf
    exact hverdict (settles_of_guarded hguarded hstrict x) (settles_of_guarded hguarded' hstrict' y)

/-- An object with a number that was set first and a text that was set second. -/
def numberFirst : Value :=
  .object (.built (.made []) .ordinary [(.text "a", .number 0), (.text "b", .string "x")] none none)

/-- The same object with the text set first. -/
def textFirst : Value :=
  .object (.built (.made []) .ordinary [(.text "b", .string "x"), (.text "a", .number 0)] none none)

theorem numberFirst_reordered : numberFirst.Reordered textFirst := by
  refine .object (.refl _) (fun key => ?_) .none
  simp only [lastSetting?, List.reverse_cons, List.reverse_nil, List.nil_append,
    List.singleton_append, lookup_cons, List.lookup_nil]
  split
  · next hb => simp [hb, rel_self Value.Reordered.refl]
  · exact rel_self .refl _

/-- Objects whose properties are not all texts. -/
def notAllTexts : Validator := .not (.checked (.dictionary (.ofType .value) (.ofType .string)))

theorem notAllTexts_reordered :
    Accepts [] notAllTexts numberFirst ∧ numberFirst.Reordered textFirst ∧
      Accepts [] notAllTexts textFirst := by
  have hrun : run [] 0 notAllTexts numberFirst = .accepted numberFirst := by rfl
  have hknown : notAllTexts.Throughout (Known []) := by
    simp [notAllTexts, Validator.checked, Known, Leaf.isRule]
  have hreference : notAllTexts.Throughout fun u => u.isReference = false := by
    simp [notAllTexts, Validator.checked, Validator.isReference]
  have hdefs : Each [] (Throughout (Known [])) := fun _ _ h => by cases h
  obtain ⟨-, hiff, -⟩ :=
    accepts_iff_of_reordered (f := id) .refl hdefs hknown numberFirst_reordered
  have hsame : notAllTexts.subst (.ofLeaves id) = notAllTexts := Validator.subst_id _
  rw [hsame] at hiff
  exact ⟨accepts_of_run hrun, numberFirst_reordered, (hiff hreference).1 (accepts_of_run hrun)⟩

/-- The order of insertion counts where there is no guard: the dictionary comes to the number first
and rejects it, or to the text first and to no end. -/
theorem order_decides :
    endless.Each (Throughout endless.Known) ∧ notAllEndless.Throughout endless.Known ∧
      numberFirst.Reordered textFirst ∧ endless.Accepts notAllEndless numberFirst ∧
        ¬ endless.Accepts notAllEndless textFirst := by
  refine ⟨each_of_mem ?_, ?_, numberFirst_reordered, ?_, ?_⟩
  · simp [endless, Known]
  · simp [notAllEndless, endlessText, Validator.checked, Known, Leaf.isRule, endless]
  · have hrun : endless.run 0 notAllEndless numberFirst = .accepted numberFirst := by rfl
    exact accepts_of_run hrun
  · exact not_accepts_notAllEndless (s := "x") rfl rfl

end Definitions

end Narrowing
