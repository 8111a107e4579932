-- SUMMARY: Inversion lemmas for the checks of objects, properties, entries, elements, and extra keys.
import Mathlib.Logic.Unique
import Narrowing.Proofs.Outcome
import Narrowing.Validator.Run

/-!
# Checks of the parts of objects

What comes of the checks that containers put together: of an object, of its properties, of its own
keys with the values under them, and of the elements of an array.
-/

namespace Narrowing

variable {o : Object} {x y : Value} {key : PropertyKey} {options : PropertyOptions}

/-! ## Objects and arrays -/

theorem withObject_eq_accepted_iff {check : Object → Outcome Reason Unit} :
    withObject x check = .accepted y ↔ ∃ o, x = .object o ∧ check o = .accepted () ∧ x = y := by
  cases x <;> simp [withObject, Unique.exists_iff]

theorem withObject_eq_rejected_iff {check : Object → Outcome Reason Unit} {reason : Reason} :
    withObject x check = .rejected reason ↔
      x.isObject = false ∧ (Complaint.notOfType .object).reason = reason ∨
        ∃ o, x = .object o ∧ check o = .rejected reason := by
  cases x <;> simp [withObject, Value.isObject, Value.object?]

theorem withObject_eq_unsettled_iff {check : Object → Outcome Reason Unit} :
    withObject x check = .unsettled ↔ ∃ o, x = .object o ∧ check o = .unsettled := by
  cases x <;> simp [withObject]

theorem withElements_eq_accepted_iff {check : List Value → Outcome Reason Unit} :
    withElements x check = .accepted y ↔
      ∃ elements, x.elements? = some elements ∧ check elements = .accepted () ∧ x = y := by
  cases h : x.elements? <;> simp [withElements, h, Unique.exists_iff]

theorem withElements_eq_rejected_iff {check : List Value → Outcome Reason Unit}
    {reason : Reason} :
    withElements x check = .rejected reason ↔
      x.elements? = none ∧ (Complaint.notOfType .array).reason = reason ∨
        ∃ elements, x.elements? = some elements ∧ check elements = .rejected reason := by
  cases h : x.elements? <;> simp [withElements, h]

theorem withElements_eq_unsettled_iff {check : List Value → Outcome Reason Unit} :
    withElements x check = .unsettled ↔
      ∃ elements, x.elements? = some elements ∧ check elements = .unsettled := by
  cases h : x.elements? <;> simp [withElements, h]

/-! ## Properties, entries and elements -/

theorem checkProperty_of_find? (hx : o.find? options.ownOnly key = some x)
    (check : Value → Verdict) : checkProperty o key options check =
      ((check x).behind (Complaint.invalidProperty key).text).as () := by
  unfold checkProperty
  rw [hx]

theorem checkProperty_of_missing (h : o.find? options.ownOnly key = none)
    (check : Value → Verdict) : checkProperty o key options check =
      .ensure options.mayBeMissing (Complaint.missingProperty key).reason () := by
  unfold checkProperty
  rw [h]

variable {check checkKey checkValue : Value → Verdict}

theorem checkProperty_eq_accepted_iff :
    checkProperty o key options check = .accepted () ↔
      (∃ x, o.find? options.ownOnly key = some x ∧ ∃ y, check x = .accepted y) ∨
        o.find? options.ownOnly key = none ∧ options.mayBeMissing = true := by
  cases h : o.find? options.ownOnly key <;> simp [checkProperty, h]

theorem checkProperty_eq_rejected_iff {reason : Reason} :
    checkProperty o key options check = .rejected reason ↔
      (∃ y r, o.find? options.ownOnly key = some y ∧ check y = .rejected r ∧
        .because (Complaint.invalidProperty key).text r = reason) ∨
      o.find? options.ownOnly key = none ∧ options.mayBeMissing = false ∧
        (Complaint.missingProperty key).reason = reason := by
  cases h : o.find? options.ownOnly key <;> simp [checkProperty, h]

theorem checkProperty_eq_unsettled_iff :
    checkProperty o key options check = .unsettled ↔
      ∃ y, o.find? options.ownOnly key = some y ∧ check y = .unsettled := by
  cases h : o.find? options.ownOnly key <;> simp [checkProperty, h]

theorem checkEntry_eq_accepted_iff :
    checkEntry o checkKey checkValue key = .accepted () ↔
      (∃ y, checkKey key.toValue = .accepted y) ∧
        ∃ y, checkValue ((o.getOwn key).getD .undefined) = .accepted y := by
  simp [checkEntry]

theorem checkEntry_eq_rejected_iff {reason : Reason} :
    checkEntry o checkKey checkValue key = .rejected reason ↔
      (∃ r, checkKey key.toValue = .rejected r ∧
        .because (Complaint.invalidKey key).text r = reason) ∨
      (∃ z, checkKey key.toValue = .accepted z) ∧
        ∃ r, checkValue ((o.getOwn key).getD .undefined) = .rejected r ∧
          .because (Complaint.invalidProperty key).text r = reason := by
  simp [checkEntry]

theorem checkEntry_eq_unsettled_iff :
    checkEntry o checkKey checkValue key = .unsettled ↔
      checkKey key.toValue = .unsettled ∨
        (∃ z, checkKey key.toValue = .accepted z) ∧
          checkValue ((o.getOwn key).getD .undefined) = .unsettled := by
  simp [checkEntry]

theorem checkElement_eq_accepted_iff {index : Nat} :
    checkElement check x index = .accepted () ↔ ∃ z, check x = .accepted z := by
  simp [checkElement]

theorem checkElement_eq_rejected_iff {index : Nat} {reason : Reason} :
    checkElement check x index = .rejected reason ↔
      ∃ r, check x = .rejected r ∧ .because (Complaint.invalidElement index).text r = reason := by
  simp [checkElement]

theorem checkElement_eq_unsettled_iff {index : Nat} :
    checkElement check x index = .unsettled ↔ check x = .unsettled := by
  simp [checkElement]

/-! ## Extra keys -/

/-- The own keys of an object that are none of the given ones. -/
def extraKeys (o : Object) (defined : List PropertyKey) : List PropertyKey :=
  o.ownKeys.filter fun key => !defined.contains key

namespace ExtraReport

/-- The report on extra keys as a whole. -/
def standing (extra : List PropertyKey) : ExtraReport where
  named := (extra.take Complaint.namedExtraKeys).map Complaint.quotedKey
  others := extra.length - Complaint.namedExtraKeys

/-- One more key goes among the named ones as long as there is room, and is counted after that. -/
theorem add_standing (extra : List PropertyKey) (key : PropertyKey) :
    (standing extra).add key = standing (extra ++ [key]) := by
  unfold add
  by_cases hroom : extra.length < Complaint.namedExtraKeys
  · have hnamed : extra.take Complaint.namedExtraKeys = extra :=
      List.take_of_length_le (Nat.le_of_lt hroom)
    have hnext : (extra ++ [key]).take Complaint.namedExtraKeys = extra ++ [key] :=
      List.take_of_length_le (Nat.le_trans (Nat.le_of_eq List.length_append) hroom)
    have hothers : extra.length - Complaint.namedExtraKeys =
        extra.length + 1 - Complaint.namedExtraKeys := by omega
    simp [standing, hnamed, hnext, hroom, hothers]
  · have hfull : Complaint.namedExtraKeys ≤ extra.length := Nat.le_of_not_lt hroom
    have hnext : (extra ++ [key]).take Complaint.namedExtraKeys =
        extra.take Complaint.namedExtraKeys := List.take_append_of_le_length hfull
    have hothers : extra.length + 1 - Complaint.namedExtraKeys =
        extra.length - Complaint.namedExtraKeys + 1 := by omega
    simp [standing, hnext, hothers, Nat.min_eq_left hfull]

/-- Going through more keys, with a report that stands for the extra ones so far. -/
theorem foldl_standing (keys defined extra : List PropertyKey) :
    keys.foldl (fun report key => if defined.contains key then report else report.add key)
      (standing extra) = standing (extra ++ keys.filter fun key => !defined.contains key) := by
  induction keys generalizing extra with
  | nil => simp
  | cons key rest ih =>
    rw [List.foldl_cons]
    cases hdefined : defined.contains key with
    | true =>
      rw [if_pos rfl, ih, List.filter_cons_of_neg]
      simp only [hdefined, Bool.not_true, Bool.false_eq_true, not_false_eq_true]
    | false =>
      rw [if_neg Bool.false_ne_true, add_standing, ih, List.filter_cons_of_pos, List.append_assoc]
      · rfl
      · simp only [hdefined, Bool.not_false]

end ExtraReport

/-- The check finds all extra keys and complains of them if there are any. -/
theorem checkExtra_eq (o : Object) (defined : List PropertyKey) :
    checkExtra o defined =
      .ensure (extraKeys o defined).isEmpty (Complaint.extraKeys (extraKeys o defined)).reason ()
      := by
  have hreport : ExtraReport.ofKeys o.ownKeys defined =
      .standing (extraKeys o defined) := ExtraReport.foldl_standing o.ownKeys defined []
  have hnamed : (ExtraReport.standing (extraKeys o defined)).named.isEmpty =
      (extraKeys o defined).isEmpty := by
    cases extraKeys o defined <;> rfl
  unfold checkExtra
  rw [hreport]
  exact congrArg (fun none => Outcome.ensure none _ ()) hnamed

theorem checkExtra_eq_accepted_iff {defined : List PropertyKey} :
    checkExtra o defined = .accepted () ↔ ∀ key ∈ o.ownKeys, key ∈ defined := by
  simp [checkExtra_eq, extraKeys]

theorem checkExtra_eq_rejected_iff {defined : List PropertyKey} {reason : Reason} :
    checkExtra o defined = .rejected reason ↔
      (∃ key ∈ o.ownKeys, key ∉ defined) ∧
        reason = (Complaint.extraKeys (extraKeys o defined)).reason := by
  rw [checkExtra_eq]
  simp [extraKeys, eq_comm (a := reason)]

/-! ## Checks under two bounds -/

theorem withObject_below {check check' : Object → Outcome Reason Unit}
    (h : ∀ o, (check o).Below (check' o)) : (withObject x check).Below (withObject x check') := by
  cases x with
  | object o => exact (h o).as _
  | undefined | null | scalar _ => exact Outcome.Below.refl _

theorem withElements_below {check check' : List Value → Outcome Reason Unit}
    (h : ∀ elements, (check elements).Below (check' elements)) :
    (withElements x check).Below (withElements x check') := by
  unfold withElements
  cases x.elements? with
  | some elements => exact (h elements).as _
  | none => exact Outcome.Below.refl _

variable {check' checkKey' checkValue' : Value → Verdict}

theorem checkProperty_below (h : ∀ y, (check y).Below (check' y)) :
    (checkProperty o key options check).Below (checkProperty o key options check') := by
  unfold checkProperty
  cases o.find? options.ownOnly key with
  | some y => exact ((h y).behind _).as _
  | none => exact Outcome.Below.refl _

theorem checkEntry_below (hk : ∀ y, (checkKey y).Below (checkKey' y))
    (hv : ∀ y, (checkValue y).Below (checkValue' y)) :
    (checkEntry o checkKey checkValue key).Below (checkEntry o checkKey' checkValue' key) :=
  ((hk _).behind _).bind fun _ => ((hv _).behind _).as _

theorem checkElement_below {index : Nat} (h : ∀ y, (check y).Below (check' y)) :
    (checkElement check x index).Below (checkElement check' x index) :=
  ((h x).behind _).as _

end Narrowing
