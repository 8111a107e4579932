-- SUMMARY: Laws of strict equality, and runs in lockstep on values that are equal.
import Narrowing.Proofs.Agreement
import Narrowing.Proofs.Characters

/-!
# Strict equality and validators

Strict equality compares one thing of a value, and of a NaN nothing (`Value.compared?`). So it is
symmetric and transitive, and each value but a NaN is equal to itself.

Values that are equal are the same, or they are the two zeros. What validators of the library look
at does not tell the zeros apart, nor the objects that stand in for them (`Value.Indistinct`). So
they end in the same way on equal values (`Outcome.Lockstep`), with outputs that are equal or stand
in for equal values (`Value.EqualOrBoxed`).
-/

namespace Narrowing

/-! ## Equal numbers -/

namespace Binary64

variable {x y : Binary64}

theorem sameNumber_iff :
    x.sameNumber y = true ↔ ∃ place, x.rank = some place ∧ y.rank = some place := by
  unfold sameNumber
  split
  · next i j hi hj =>
    rw [beq_iff_eq]
    constructor
    · rintro rfl
      exact ⟨i, hi, hj⟩
    · rintro ⟨place, hx, hy⟩
      exact Option.some.inj ((hi.symm.trans hx).trans (hj.symm.trans hy).symm)
  · next h =>
    refine iff_of_false Bool.false_ne_true ?_
    rintro ⟨place, hx, hy⟩
    exact h _ _ hx hy

theorem rank_signedZero (negative : Bool) : (signedZero negative).rank = some 0 := by
  cases negative <;> simp [signedZero, rank]

theorem displayText_signedZero (negative : Bool) : (signedZero negative).displayText = "0" := by
  cases negative <;> rfl

section

variable {n m : Bool} {e f : Fin 2047} {a b : Fin 4503599627370496}

theorem rank_infinite_ne_finite : (infinite n).rank ≠ (finite m e a).rank := by
  have he := e.isLt
  have ha := a.isLt
  intro h
  simp only [rank, finiteCount, fractionCount, Option.some.injEq] at h
  cases n <;> cases m <;> simp at h <;> omega

/-- The place of a finite number tells its fields, and for all but the zeros its sign. -/
theorem eq_or_zeros_of_rank (h : (finite n e a).rank = (finite m f b).rank) :
    finite n e a = finite m f b ∨ finite n e a = signedZero n ∧ finite m f b = signedZero m := by
  have ha := a.isLt
  have hb := b.isLt
  simp only [rank, fractionCount, Option.some.injEq] at h
  have hfields : (n = m ∧ e.val = f.val ∧ a.val = b.val) ∨
      (e.val = 0 ∧ a.val = 0) ∧ f.val = 0 ∧ b.val = 0 := by
    cases n <;> cases m <;> simp at h ⊢ <;> omega
  have hzero {k : Bool} {e : Fin 2047} {a : Fin 4503599627370496} (he : e.val = 0)
      (ha : a.val = 0) : finite k e a = signedZero k := by
    rw [signedZero, Fin.ext (b := 0) he, Fin.ext (b := 0) ha]
  rcases hfields with ⟨rfl, he, ha⟩ | ⟨⟨he, ha⟩, hf, hb⟩
  · exact .inl (by rw [Fin.ext he, Fin.ext ha])
  · exact .inr ⟨hzero he ha, hzero hf hb⟩

end

/-- Numbers in one place are the same or both zeros. -/
theorem eq_or_zeros_of_sameNumber (h : x.sameNumber y = true) :
    x = y ∨ ∃ s t, x = signedZero s ∧ y = signedZero t := by
  obtain ⟨place, hx, hy⟩ := sameNumber_iff.1 h
  have hrank : x.rank = y.rank := hx.trans hy.symm
  cases x with
  | nan negative payload => cases hx
  | infinite n =>
    cases y with
    | nan negative payload => cases hy
    | infinite m =>
      cases n <;> cases m <;> simp [rank, finiteCount, fractionCount] at hrank ⊢
    | finite m f b => exact absurd hrank rank_infinite_ne_finite
  | finite n e a =>
    cases y with
    | nan negative payload => cases hy
    | infinite m => exact absurd hrank.symm rank_infinite_ne_finite
    | finite m f b => exact (eq_or_zeros_of_rank hrank).imp_right fun h => ⟨n, m, h⟩

end Binary64

/-! ## What is compared -/

namespace Value

/-- What strict equality compares of values. -/
inductive Compared where
  | undefined
  | null
  | number (place : Int)
  | scalar (scalar : Scalar)
  | object (identity : Identity)

/-- What is compared of a value. A NaN has no place among the numbers. -/
def compared? : Value → Option Compared
  | .undefined => some .undefined
  | .null => some .null
  | .scalar (.number x) => x.rank.map .number
  | .scalar s => some (.scalar s)
  | .object o => some (.object o.identity)

variable {x y z : Value}

theorem scalar_strictEq_iff {s t : Scalar} :
    (scalar s).strictEq (scalar t) = true ↔
      ∃ c, (scalar s).compared? = some c ∧ (scalar t).compared? = some c := by
  cases s <;> cases t <;> simp [strictEq, Scalar.strictEq, compared?, Binary64.sameNumber_iff] <;>
    exact eq_comm

theorem strictEq_iff_compared? :
    x.strictEq y = true ↔ ∃ c, x.compared? = some c ∧ y.compared? = some c := by
  cases x with
  | scalar s =>
    cases y with
    | scalar t => exact scalar_strictEq_iff
    | _ => cases s <;> simp [strictEq, compared?]
  | object o =>
    cases y with
    | scalar t => cases t <;> simp [strictEq, compared?]
    | object p =>
      -- Two objects are compared by their identities and nothing else.
      simp only [strictEq, Object.sameAs, compared?, beq_iff_eq, Option.some.injEq, exists_eq_left',
        Compared.object.injEq]
      exact eq_comm
    | _ => simp [strictEq, compared?]
  | undefined | null =>
    cases y with
    | scalar t => cases t <;> simp [strictEq, compared?]
    | _ => simp [strictEq, compared?]

theorem strictEq_symm (h : x.strictEq y = true) : y.strictEq x = true := by
  obtain ⟨c, hx, hy⟩ := strictEq_iff_compared?.1 h
  exact strictEq_iff_compared?.2 ⟨c, hy, hx⟩

theorem strictEq_comm (x y : Value) : x.strictEq y = y.strictEq x :=
  Bool.eq_iff_iff.2 ⟨strictEq_symm, strictEq_symm⟩

theorem strictEq_trans (h : x.strictEq y = true) (h' : y.strictEq z = true) :
    x.strictEq z = true := by
  obtain ⟨c, hx, hy⟩ := strictEq_iff_compared?.1 h
  obtain ⟨d, hy', hz⟩ := strictEq_iff_compared?.1 h'
  obtain rfl : c = d := Option.some.inj (hy.symm.trans hy')
  exact strictEq_iff_compared?.2 ⟨c, hx, hz⟩

theorem strictEq_self (h : x.strictEq y = true) : x.strictEq x = true :=
  strictEq_trans h (strictEq_symm h)

/-- Only a NaN is not equal to itself. -/
theorem strictEq_self_iff : x.strictEq x = true ↔ ∀ n, x = .number n → n.isNaN = false := by
  have hself : x.strictEq x = true ↔ ∃ c, x.compared? = some c := by
    simp only [strictEq_iff_compared?, and_self]
  rw [hself, ← Option.isSome_iff_exists]
  cases x with
  | scalar s =>
    cases s with
    | number n => simp [compared?, Option.isSome_iff_ne_none, Binary64.rank_eq_none_iff]
    | _ => simp [compared?]
  | _ => simp [compared?]

theorem zeros_strictEq (s t : Bool) :
    (number (.signedZero s)).strictEq (number (.signedZero t)) = true :=
  strictEq_iff_compared?.2 ⟨.number 0, by simp [compared?, Binary64.rank_signedZero]⟩

/-- Equal values are the same, or two zeros, or objects that are one. -/
theorem strictEq_cases (h : x.strictEq y = true) :
    x = y ∨ (∃ s t, x = .number (.signedZero s) ∧ y = .number (.signedZero t)) ∨
      ∃ o p, x = .object o ∧ y = .object p ∧ o.sameAs p = true := by
  cases x with
  | scalar s =>
    cases y with
    | scalar t =>
      simp only [strictEq] at h
      unfold Scalar.strictEq at h
      split at h
      · next m n =>
        -- Numbers are the only scalars that may be equal without being the same.
        rcases Binary64.eq_or_zeros_of_sameNumber h with rfl | ⟨s, t, rfl, rfl⟩
        · exact .inl rfl
        · exact .inr (.inl ⟨s, t, rfl, rfl⟩)
      · cases h
      · rw [eq_of_beq h]
        exact .inl rfl
    | _ => cases h
  | object o =>
    cases y with
    | object p => exact .inr (.inr ⟨o, p, rfl, rfl, h⟩)
    | _ => cases h
  | undefined | null => cases y <;> first | exact .inl rfl | cases h

end Value

/-! ## Outcomes in lockstep -/

namespace Outcome

variable {ε δ α β γ : Type} {R : α → α → Prop} {S : β → β → Prop} {x y : Outcome ε α}

/-- Two checks end in the same way: both accept, with outputs that are related, or both reject with
one reason, or both are unsettled. -/
inductive Lockstep (R : α → α → Prop) : Outcome ε α → Outcome ε α → Prop
  | accepted {a b : α} (h : R a b) : Lockstep R (.accepted a) (.accepted b)
  | rejected {reason : ε} : Lockstep R (.rejected reason) (.rejected reason)
  | unsettled : Lockstep R .unsettled .unsettled

namespace Lockstep

theorem bind {f g : α → Outcome ε β} (h : Lockstep R x y)
    (hf : ∀ a b, R a b → Lockstep S (f a) (g b)) : Lockstep S (x.bind f) (y.bind g) := by
  cases h with
  | accepted hab => exact hf _ _ hab
  | rejected => exact .rejected
  | unsettled => exact .unsettled

theorem mapReason (f : ε → δ) (h : Lockstep R x y) :
    Lockstep R (x.mapReason f) (y.mapReason f) := by
  cases h with
  | accepted hab => exact .accepted hab
  | rejected => exact .rejected
  | unsettled => exact .unsettled

theorem imp {R' : α → α → Prop} (h : Lockstep R x y)
    (hR : ∀ a b, x = .accepted a → R a b → R' a b) : Lockstep R' x y := by
  cases h with
  | accepted hab => exact .accepted (hR _ _ rfl hab)
  | rejected => exact .rejected
  | unsettled => exact .unsettled

/-- But for their outputs the two outcomes are the same. -/
theorem as_eq (c : β) (h : Lockstep R x y) : x.as c = y.as c := by
  cases h <;> rfl

theorem unsettled_iff (h : Lockstep R x y) : x = .unsettled ↔ y = .unsettled := by
  cases h <;> simp

/-- One outcome with related outputs in the place of its own. -/
theorem as {a b : α} (x : Outcome ε γ) (hab : R a b) : Lockstep R (x.as a) (x.as b) := by
  cases x with
  | accepted c => exact .accepted hab
  | rejected reason => exact .rejected
  | unsettled => exact .unsettled

theorem ensure {a b : α} (condition : Bool) (reason : ε) (hab : R a b) :
    Lockstep R (.ensure condition reason a) (.ensure condition reason b) := by
  cases condition with
  | true => exact .accepted hab
  | false => exact .rejected

theorem ofOption {a b : Option α} (reason : ε) (h : Option.Rel R a b) :
    Lockstep R (.ofOption reason a) (.ofOption reason b) := by
  cases h with
  | some hab => exact .accepted hab
  | none => exact .rejected

theorem firstOf {ν : Type} {check check' : ν → Outcome ε α} {vs : List ν}
    (h : ∀ v ∈ vs, Lockstep R (check v) (check' v)) :
    Lockstep R (Outcome.firstOf check vs) (Outcome.firstOf check' vs) := by
  induction vs with
  | nil => exact .rejected
  | cons v vs ih =>
    have hhead := h v List.mem_cons_self
    have htail := ih fun u hu => h u (List.mem_cons_of_mem v hu)
    unfold Outcome.firstOf
    generalize check v = x at hhead ⊢
    generalize check' v = y at hhead ⊢
    cases hhead with
    | accepted hab => exact .accepted hab
    | rejected => exact htail.mapReason _
    | unsettled => exact .unsettled

end Lockstep

end Outcome

/-! ## Values that are not told apart -/

theorem ObjectKind.slot?_wrapper_number (n : Binary64) (key : PropertyKey) :
    (wrapper (.number n)).slot? key = none := by
  rw [Option.eq_none_iff_forall_ne_some]
  intro x hx
  obtain ⟨text, htext, -⟩ := slot?_wrapper hx
  cases htext

namespace Value

/-- Two values are the same, or two zeros, or the objects that stand in for these. -/
inductive Indistinct : Value → Value → Prop
  | refl (x : Value) : Indistinct x x
  | zeros (s t : Bool) : Indistinct (.number (.signedZero s)) (.number (.signedZero t))
  | boxedZeros (s t : Bool) :
      Indistinct (.object (number (.signedZero s)).toObject)
        (.object (number (.signedZero t)).toObject)

/-- A value is no object that is made on the way, so it can be compared with others. -/
def Held : Value → Prop
  | .object o => ∃ path, o.identity = .made path
  | .undefined | .null | .scalar _ => True

namespace Indistinct

variable {x y e : Value}

theorem isUndefined (h : x.Indistinct y) : x.isUndefined = y.isUndefined := by
  cases h <;> rfl

theorem isNull (h : x.Indistinct y) : x.isNull = y.isNull := by
  cases h <;> rfl

theorem key? (h : x.Indistinct y) : x.key? = y.key? := by
  cases h <;> rfl

theorem elements? (h : x.Indistinct y) : x.elements? = y.elements? := by
  cases h <;> rfl

theorem depth (h : x.Indistinct y) : x.depth = y.depth := by
  cases h with
  | refl => rfl
  | zeros s t => rfl
  | boxedZeros s t => simp [Value.toObject, Object.ofKind, Object.depth]

theorem toObject (h : x.Indistinct y) :
    Indistinct (.object x.toObject) (.object y.toObject) := by
  cases h with
  | refl => exact .refl _
  | zeros s t => exact .boxedZeros s t
  | boxedZeros s t => exact .boxedZeros s t

theorem narrow? (h : x.Indistinct y) (type : ValueType) :
    Option.Rel Indistinct (type.narrow? x) (type.narrow? y) := by
  cases h with
  | refl => exact rel_self .refl _
  | zeros s t =>
    cases type with
    | value | number => exact .some (.zeros s t)
    | key =>
      -- As keys the zeros are one text.
      simp only [ValueType.narrow?, toPropertyKey?, PropertyKey.ofNumber,
        Binary64.displayText_signedZero]
      exact .some (.refl _)
    | _ => exact .none
  | boxedZeros s t =>
    cases type with
    | value | object => exact .some (.boxedZeros s t)
    | _ => exact .none

/-- Nobody has an object that was made on the way to compare it with. -/
theorem strictEq (h : x.Indistinct y) (he : e.Held) : x.strictEq e = y.strictEq e := by
  cases h with
  | refl => rfl
  | zeros s t =>
    refine Bool.eq_iff_iff.2 ⟨fun h => ?_, fun h => ?_⟩
    · exact strictEq_trans (zeros_strictEq t s) h
    · exact strictEq_trans (zeros_strictEq s t) h
  | boxedZeros s t =>
    cases e with
    | object o =>
      obtain ⟨path, hpath⟩ := he
      simp [Value.strictEq, Object.sameAs, hpath, Value.toObject, Object.ofKind]
    | _ => rfl

/-- Objects that are not told apart have the same properties and are of the same classes. -/
theorem object? (h : x.Indistinct y) :
    Option.Rel (fun o p => o.SameProperties p ∧ ∀ c, o.instanceOf c = p.instanceOf c)
      x.object? y.object? := by
  cases h with
  | refl => exact rel_self (fun o => ⟨⟨rfl, fun _ => rfl, rfl⟩, fun _ => rfl⟩) _
  | zeros s t => exact .none
  | boxedZeros s t =>
    refine .some ⟨⟨?_, fun key => ?_, rfl⟩, fun c => ?_⟩
    · simp [Value.toObject, ObjectKind.indexCount]
    · simp [Value.toObject, ObjectKind.slot?_wrapper_number]
    · simp [Value.toObject, Object.ofKind, Object.instanceOf, Object.chain]

end Indistinct

end Value

/-! ## Validators -/

open Outcome (Lockstep)
open Value (Indistinct)

/-- A validator is no check from outside the library, and no comparison with an object that is made
on the way. -/
def Validator.Proper : Validator → Prop
  | .leaf (.rule _) => False
  | .leaf (.equal expected) => expected.Held
  | .leaf (.oneOf allowed) => ∀ e ∈ allowed, e.Held
  | _ => True

section

variable {x y : Value}

theorem Leaf.judge_lockstep {l : Leaf} (hl : Validator.Proper (.leaf l)) (h : x.Indistinct y) :
    Lockstep Indistinct (l.judge x) (l.judge y) := by
  cases l with
  | ofType type => exact .ofOption _ (h.narrow? type)
  | null =>
    simp only [judge, h.isNull]
    exact .ensure _ _ h
  | undefined =>
    simp only [judge, h.isUndefined]
    exact .ensure _ _ h
  | nullish =>
    simp only [judge, Value.isNullish, h.isNull, h.isUndefined]
    exact .ensure _ _ h
  | toObject => exact .accepted h.toObject
  | equal expected =>
    simp only [judge, h.strictEq hl]
    exact .ensure _ _ h
  | oneOf allowed =>
    -- Each allowed value is held by someone, so it is equal to both or to neither.
    have hany : (allowed.any fun e => e.strictEq x) = allowed.any fun e => e.strictEq y := by
      rw [Bool.eq_iff_iff, List.any_eq_true, List.any_eq_true]
      refine exists_congr fun e => and_congr_right fun he => ?_
      rw [Value.strictEq_comm e x, Value.strictEq_comm e y, h.strictEq (hl e he)]
    simp only [judge, hany]
    exact .ensure _ _ h
  | instanceOf c =>
    have hany : (x.object?.any fun o => o.instanceOf c) =
        y.object?.any fun o => o.instanceOf c := by
      -- The two are objects with the same classes above them, or no objects.
      have hobject := h.object?
      generalize x.object? = a at hobject ⊢
      generalize y.object? = b at hobject ⊢
      cases hobject with
      | none => rfl
      | some hop => exact hop.2 c
    simp only [judge, hany]
    exact .ensure _ _ h
  | keyOf o options =>
    simp only [judge, h.key?]
    split
    · exact .ensure _ _ h
    · exact .rejected
  | rule r => exact hl.elim

/-- A check that looks at nothing but the properties of an object ends in the same way. -/
theorem withObject_lockstep {check check' : Object → Outcome Reason Unit} (h : x.Indistinct y)
    (hcheck : ∀ o p, o.SameProperties p → check o = check' p) :
    Lockstep Indistinct (withObject x check) (withObject y check') := by
  have hobject := h.object?
  cases x with
  | object o =>
    cases y with
    | object p =>
      cases hobject with
      | some hop =>
        simp only [withObject, hcheck o p hop.1]
        exact .as _ h
    | _ => cases hobject
  | _ =>
    cases y with
    | object p => cases hobject
    | _ => exact .rejected

theorem withElements_lockstep (check : List Value → Outcome Reason Unit) (h : x.Indistinct y) :
    Lockstep Indistinct (withElements x check) (withElements y check) := by
  simp only [withElements, h.elements?]
  split
  · exact .as _ h
  · exact .rejected

end

namespace Definitions

open Validator (Throughout Proper)

variable {defs : Definitions} {bound : Nat} {v : Validator} {x y : Value}

/-- Under a bound a validator goes in lockstep if references do. -/
theorem run_lockstep_of_refer
    (hrefer : ∀ name x y, x.Indistinct y → Lockstep Indistinct
      (defs.run bound (.reference name) x) (defs.run bound (.reference name) y))
    (hv : v.Throughout Proper) (h : x.Indistinct y) :
    Lockstep Indistinct (defs.run bound v x) (defs.run bound v y) := by
  induction v using Validator.induction generalizing x y with
  | leaf l =>
    rw [run_leaf, run_leaf]
    exact Leaf.judge_lockstep hv.here h
  | anyOf form vs ih =>
    rw [run_anyOf, run_anyOf]
    exact (Lockstep.firstOf fun v hmem => ih v hmem (hv.inside v hmem) h).mapReason _
  | allOf form vs ih =>
    -- The branches end in the same way, which is all that a conjunction takes from them.
    have hbranches : Outcome.forEach (fun v => defs.run bound v x) vs =
        Outcome.forEach (fun v => defs.run bound v y) vs :=
      Outcome.forEach_congr fun v hmem => (ih v hmem (hv.inside v hmem) h).as_eq ()
    rw [run_allOf, run_allOf, hbranches]
    exact .as _ h
  | not v ih =>
    have hinner := ih (hv.inside v List.mem_cons_self) h
    rw [run_not, run_not]
    generalize defs.run bound v x = a at hinner ⊢
    generalize defs.run bound v y = b at hinner ⊢
    cases hinner with
    | accepted _ => exact .rejected
    | rejected => exact .accepted h
    | unsettled => exact .unsettled
  | pipe v w ihv ihw =>
    rw [run_pipe, run_pipe]
    -- The outputs of the first validators are not told apart either.
    have hfirst := ihv (hv.inside v List.mem_cons_self) h
    exact hfirst.bind fun a b hab => ihw (hv.inside w (by simp [Validator.parts])) hab
  | explained message v ih =>
    rw [run_explained, run_explained]
    exact (ih (hv.inside v List.mem_cons_self) h).mapReason _
  | sealed label v ih =>
    rw [run_sealed, run_sealed]
    exact ih (hv.inside v List.mem_cons_self) h
  | optional v ih =>
    rw [run_optional, run_optional, h.isUndefined]
    split
    · exact .accepted h
    · exact ih (hv.inside v List.mem_cons_self) h
  | nullable v ih =>
    rw [run_nullable, run_nullable, h.isNull]
    split
    · exact .accepted h
    · exact ih (hv.inside v List.mem_cons_self) h
  | reference name => exact hrefer name x y h
  -- What is inside objects or arrays that are not told apart is the same.
  | property key v options _ =>
    rw [run_property, run_property]
    exact withObject_lockstep h fun o p hop => hop.checkProperty key options _
  | shape fields options _ =>
    rw [run_shape, run_shape]
    exact withObject_lockstep h fun o p hop => by simp only [hop.checkProperty, hop.checkExtra]
  | dictionary k v _ _ =>
    rw [run_dictionary, run_dictionary]
    refine withObject_lockstep h fun o p hop => ?_
    rw [hop.ownKeys]
    exact Outcome.forEach_congr fun key _ => congrArg _ (hop.checkEntry ..)
  | arrayOf v _ =>
    rw [run_arrayOf, run_arrayOf]
    exact withElements_lockstep _ h
  | tuple vs _ =>
    rw [run_tuple, run_tuple]
    exact withElements_lockstep _ h

theorem run_lockstep (hdefs : defs.Each (Throughout Proper)) (hv : v.Throughout Proper)
    (h : x.Indistinct y) : Lockstep Indistinct (defs.run bound v x) (defs.run bound v y) := by
  induction bound generalizing v x y with
  | zero =>
    refine run_lockstep_of_refer (fun name x y _ => ?_) hv h
    rw [run_reference_zero, run_reference_zero]
    exact .unsettled
  | succ bound ih =>
    refine run_lockstep_of_refer (fun name x y hxy => ?_) hv h
    -- Both runs unfold the same definition, on values that are not told apart.
    rw [run_reference_succ, run_reference_succ]
    cases hw : defs.lookup name with
    | none => exact .unsettled
    | some w => exact ih (hdefs name w hw) hxy

end Definitions

/-! ## Equal values -/

namespace Value

variable {x y : Value}

/-- Equal values, or the objects that stand in for equal values without properties. -/
inductive EqualOrBoxed : Value → Value → Prop
  | equal {x y : Value} (hx : x.Held) (h : x.strictEq y = true) : EqualOrBoxed x y
  | boxed {x y : Value} (hx : x.isPrimitive = true) (h : x.strictEq y = true) :
      EqualOrBoxed (.object x.toObject) (.object y.toObject)

/-- Equal values are not told apart, objects being the same if they are one. -/
theorem indistinct_of_strictEq (h : x.strictEq y = true)
    (hone : ∀ o p, x = .object o → y = .object p → o.sameAs p = true → o = p) :
    x.Indistinct y := by
  rcases strictEq_cases h with rfl | ⟨s, t, rfl, rfl⟩ | ⟨o, p, rfl, rfl, hop⟩
  · exact .refl _
  · exact .zeros s t
  · rw [hone o p rfl rfl hop]
    exact .refl _

/-- What is not told apart from a value is equal to it, if anything is. -/
theorem Indistinct.equalOrBoxed {z : Value} (h : x.Indistinct y) (hx : x.EqualOrBoxed z) :
    x.EqualOrBoxed y := by
  cases h with
  | refl =>
    cases hx with
    | equal hx hxz => exact .equal hx (strictEq_self hxz)
    | boxed hx hxz => exact .boxed hx (strictEq_self hxz)
  | zeros s t => exact .equal trivial (zeros_strictEq s t)
  | boxedZeros s t => exact .boxed rfl (zeros_strictEq s t)

/-- The object that stands in for a value without properties is made on the way. -/
theorem EqualOrBoxed.strictEq (h : x.EqualOrBoxed y) (hx : x.Held) : x.strictEq y = true := by
  cases h with
  | equal _ h => exact h
  | @boxed x _ hprimitive _ =>
    obtain ⟨path, hpath⟩ := hx
    cases x with
    | object o => cases hprimitive
    | _ => cases hpath

end Value

theorem Leaf.isRule_eq_false_of_proper {l : Leaf} (hl : Validator.Proper (.leaf l)) :
    l.isRule = false := by
  cases l with
  | rule r => exact hl.elim
  | _ => rfl

/-- What a leaf gives has an equal or stands in for one, if what it takes does. -/
theorem Leaf.exists_equalOrBoxed {l : Leaf} {x y : Value} (hl : Validator.Proper (.leaf l))
    (hx : ∃ z, x.EqualOrBoxed z) (h : l.judge x = .accepted y) : ∃ z, y.EqualOrBoxed z := by
  -- A leaf gives what it takes, or a number as a key, or an object in the place of a value.
  rcases output_cases (isRule_eq_false_of_proper hl) h with rfl | ⟨n, rfl, rfl⟩ | ⟨rfl, rfl⟩
  · exact hx
  · exact ⟨_, .equal trivial (Value.strictEq_self_iff.2 (by simp))⟩
  · obtain ⟨z, hz⟩ := hx
    cases hz with
    | equal hx hxz =>
      cases hprimitive : x.isPrimitive with
      | true => exact ⟨_, .boxed hprimitive hxz⟩
      | false =>
        cases x with
        | object o => exact ⟨_, .equal hx hxz⟩
        | _ => cases hprimitive
    | boxed hprimitive hpq =>
      -- An object is given back as it is, this one as well.
      have hboxed := Value.EqualOrBoxed.boxed hprimitive hpq
      exact ⟨_, hboxed⟩

namespace Definitions

open Validator (Throughout Proper)

variable {defs : Definitions} {bound : Nat} {v : Validator} {a b : Value}

/-- Under each bound a validator ends in the same way on equal values. -/
theorem run_equalOrBoxed (hdefs : defs.Each (Throughout Proper)) (hv : v.Throughout Proper)
    (ha : a.Held) (hab : a.strictEq b = true) (hindistinct : a.Indistinct b) :
    Lockstep Value.EqualOrBoxed (defs.run bound v a) (defs.run bound v b) := by
  -- The output of the one run has an equal, and that of the other is not told apart from it.
  have hleaves : defs.LeavesKeep (fun x => ∃ z, x.EqualOrBoxed z) v :=
    leavesKeep_of_throughout hdefs hv fun l hl _ _ => Leaf.exists_equalOrBoxed hl
  apply (run_lockstep hdefs hv hindistinct).imp
  intro y z hy hyz
  obtain ⟨w, hw⟩ := output_keeps hleaves ⟨b, .equal ha hab⟩ hy
  exact hyz.equalOrBoxed hw

/-- Where nothing turns the output into an object, it is the value of someone. -/
theorem held_of_run (hdefs : defs.Each (Throughout Proper)) (hv : v.Throughout Proper)
    (hposition : ¬ defs.OutputPosition (.leaf .toObject) v) (ha : a.Held) {y : Value}
    (h : defs.run bound v a = .accepted y) : y.Held := by
  have hleaves : defs.LeavesKeep Value.Held v := by
    intro l hl x y hx hjudge
    have hproper : Proper (.leaf l) := hl.throughout hdefs hv
    rcases Leaf.output_cases (Leaf.isRule_eq_false_of_proper hproper) hjudge with
      rfl | ⟨n, -, rfl⟩ | ⟨rfl, -⟩
    · exact hx
    · trivial
    · exact absurd hl hposition
  exact output_keeps hleaves ha h

variable (defs) in
/-- A validator ends in the same way on two values, with outputs that are related: within the
library's own bound, and in what it returns. -/
structure EndsAlike (v : Validator) (R : Value → Value → Prop) (a b : Value) : Prop where
  validate : Lockstep R (defs.validate v a) (defs.validate v b)
  returns (verdict : Verdict) (h : defs.Returns v a verdict) :
    ∃ verdict', defs.Returns v b verdict' ∧ Lockstep R verdict verdict'
  settles : defs.Settles v a ↔ defs.Settles v b

section

variable {R : Value → Value → Prop}
  (hrun : ∀ bound, Lockstep R (defs.run bound v a) (defs.run bound v b))
include hrun

theorem validate_lockstep (hdepth : a.depth = b.depth) :
    Lockstep R (defs.validate v a) (defs.validate v b) := by
  have hfirst := hrun firstBound
  have hlast := hrun (defs.unfoldings a)
  -- Values of the same depth are measured to the same bound.
  have hbound : defs.unfoldings b = defs.unfoldings a := by rw [unfoldings, unfoldings, hdepth]
  unfold Definitions.validate
  rw [hbound]
  generalize defs.run firstBound v a = x at hfirst ⊢
  generalize defs.run firstBound v b = y at hfirst ⊢
  cases hfirst with
  | accepted h => exact .accepted h
  | rejected => exact .rejected
  | unsettled => exact hlast

/-- Runs in lockstep under each bound end in the same way. -/
theorem endsAlike_of_run (hdepth : a.depth = b.depth) : defs.EndsAlike v R a b where
  validate := validate_lockstep hrun hdepth
  returns := by
    rintro _ ⟨hs, bound, rfl⟩
    exact ⟨_, returns_of_run rfl fun hb => hs ((hrun bound).unsettled_iff.2 hb), hrun bound⟩
  settles := by
    constructor
    · intro h
      obtain ⟨bound, ha⟩ := h.eventually.exists
      exact settles_of_run fun hb => ha ((hrun bound).unsettled_iff.2 hb)
    · intro h
      obtain ⟨bound, hb⟩ := h.eventually.exists
      exact settles_of_run fun ha => hb ((hrun bound).unsettled_iff.1 ha)

end

/-- Strict equality is symmetric and transitive, and each value but a NaN is equal to itself. A
validator of the library ends in the same way on values that are equal, objects being one object if
they are equal: it rejects both with one reason, or it accepts both with outputs that are equal, or
with the objects that stand in for equal values without properties. The outputs are equal if nothing
turns them into objects. -/
theorem strictEq_respected :
    (∀ x y : Value, x.strictEq y = y.strictEq x) ∧
    (∀ x y z : Value, x.strictEq y = true → y.strictEq z = true → x.strictEq z = true) ∧
    (∀ x : Value, x.strictEq x = true ↔ ∀ n, x = .number n → n.isNaN = false) ∧
    ∀ (defs : Definitions) (v : Validator) (a b : Value),
      defs.Each (Throughout Proper) → v.Throughout Proper → a.Held → a.strictEq b = true →
      (∀ o p, a = .object o → b = .object p → o.sameAs p = true → o = p) →
        defs.EndsAlike v Value.EqualOrBoxed a b ∧
        (¬ defs.OutputPosition (.leaf .toObject) v →
          defs.EndsAlike v (fun y z => y.strictEq z = true) a b) := by
  refine ⟨Value.strictEq_comm, fun _ _ _ => Value.strictEq_trans,
    fun _ => Value.strictEq_self_iff, ?_⟩
  intro defs v a b hdefs hv ha hab hone
  have hindistinct : a.Indistinct b := Value.indistinct_of_strictEq hab hone
  have hrun (bound : Nat) :
      Lockstep Value.EqualOrBoxed (defs.run bound v a) (defs.run bound v b) :=
    run_equalOrBoxed hdefs hv ha hab hindistinct
  refine ⟨endsAlike_of_run hrun hindistinct.depth, fun hposition => ?_⟩
  apply endsAlike_of_run _ hindistinct.depth
  intro bound
  apply (hrun bound).imp
  intro y z hy hyz
  exact hyz.strictEq (held_of_run hdefs hv hposition ha hy)

/-- One text, or a value that turns into an object with nothing but strings. -/
def noneOrStrings : Validator :=
  .anyOf .tuple
    [.leaf (.equal (.string "none")), .coerced (.dictionary (.ofType .value) (.ofType .string))]

theorem zeros_respected :
    ∃ y z, validate [] noneOrStrings (.number 0) = .accepted y ∧
      validate [] noneOrStrings (.number (.signedZero true)) = .accepted z ∧
      y.EqualOrBoxed z := by
  have hy : validate [] noneOrStrings (.number 0) =
      .accepted (.object (Value.number 0).toObject) := by rfl
  have hz : validate [] noneOrStrings (.number (.signedZero true)) =
      .accepted (.object (Value.number (.signedZero true)).toObject) := by rfl
  have hproper : noneOrStrings.Throughout Proper := by
    simp [noneOrStrings, Validator.coerced, Proper, Value.Held]
  obtain ⟨-, -, -, hrespected⟩ := strictEq_respected
  obtain ⟨halike, -⟩ := hrespected [] noneOrStrings (.number 0) (.number (.signedZero true))
    (fun _ _ h => by cases h) hproper trivial (Value.zeros_strictEq false true)
    (fun _ _ h => by cases h)
  have hlockstep := halike.validate
  rw [hy, hz] at hlockstep
  cases hlockstep with
  | accepted h => exact ⟨_, _, hy, hz, h⟩

end Definitions

end Narrowing
