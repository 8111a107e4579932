-- SUMMARY: Inversion lemmas for outcomes and loops, and the order of outcomes by how far they are settled.
import Mathlib.Data.List.Forall2
import Narrowing.Outcome

/-!
# Checks in a row

What is known of an outcome that was put together from others. The two loops are the one that ends
at the first check that does not accept (`Outcome.forEach`) and the one that ends at the first that
does not reject (`Outcome.firstOf`): each says which check decided it.

`Outcome.Below` compares what comes of one check under two bounds: the second outcome is the first
one, unless the first is unsettled.
-/

namespace Narrowing

namespace Outcome

variable {ε ε' α β γ : Type}

/-! ## Outcomes put together -/

@[simp] theorem bind_eq_accepted_iff {x : Outcome ε α} {f : α → Outcome ε β} {b : β} :
    x.bind f = .accepted b ↔ ∃ a, x = .accepted a ∧ f a = .accepted b := by
  cases x <;> simp

@[simp] theorem bind_eq_rejected_iff {x : Outcome ε α} {f : α → Outcome ε β} {reason : ε} :
    x.bind f = .rejected reason ↔
      x = .rejected reason ∨ ∃ a, x = .accepted a ∧ f a = .rejected reason := by
  cases x <;> simp

@[simp] theorem bind_eq_unsettled_iff {x : Outcome ε α} {f : α → Outcome ε β} :
    x.bind f = .unsettled ↔ x = .unsettled ∨ ∃ a, x = .accepted a ∧ f a = .unsettled := by
  cases x <;> simp

@[simp] theorem mapReason_eq_accepted_iff {x : Outcome ε α} {f : ε → ε'} {a : α} :
    x.mapReason f = .accepted a ↔ x = .accepted a := by
  cases x <;> simp

@[simp] theorem mapReason_eq_rejected_iff {x : Outcome ε α} {f : ε → ε'} {reason : ε'} :
    x.mapReason f = .rejected reason ↔ ∃ r, x = .rejected r ∧ f r = reason := by
  cases x <;> simp

@[simp] theorem mapReason_eq_unsettled_iff {x : Outcome ε α} {f : ε → ε'} :
    x.mapReason f = .unsettled ↔ x = .unsettled := by
  cases x <;> simp

@[simp] theorem behind_eq_accepted_iff {x : Outcome Reason α} {text : String} {a : α} :
    x.behind text = .accepted a ↔ x = .accepted a :=
  mapReason_eq_accepted_iff

@[simp] theorem behind_eq_rejected_iff {x : Outcome Reason α} {text : String} {reason : Reason} :
    x.behind text = .rejected reason ↔ ∃ r, x = .rejected r ∧ .because text r = reason :=
  mapReason_eq_rejected_iff

@[simp] theorem behind_eq_unsettled_iff {x : Outcome Reason α} {text : String} :
    x.behind text = .unsettled ↔ x = .unsettled :=
  mapReason_eq_unsettled_iff

@[simp] theorem as_eq_accepted_iff {x : Outcome ε α} {output b : β} :
    x.as output = .accepted b ↔ (∃ a, x = .accepted a) ∧ output = b := by
  cases x <;> simp [as]

@[simp] theorem as_eq_rejected_iff {x : Outcome ε α} {output : β} {reason : ε} :
    x.as output = .rejected reason ↔ x = .rejected reason := by
  cases x <;> simp [as]

@[simp] theorem as_eq_unsettled_iff {x : Outcome ε α} {output : β} :
    x.as output = .unsettled ↔ x = .unsettled := by
  cases x <;> simp [as]

@[simp] theorem ensure_eq_accepted_iff {condition : Bool} {reason : ε} {output a : α} :
    ensure condition reason output = .accepted a ↔ condition = true ∧ output = a := by
  cases condition <;> simp [ensure]

@[simp] theorem ensure_eq_rejected_iff {condition : Bool} {reason r : ε} {output : α} :
    ensure condition reason output = .rejected r ↔ condition = false ∧ reason = r := by
  cases condition <;> simp [ensure]

@[simp] theorem ensure_ne_unsettled {condition : Bool} {reason : ε} {output : α} :
    ensure condition reason output ≠ .unsettled := by
  cases condition <;> simp [ensure]

@[simp] theorem ofOption_eq_accepted_iff {reason : ε} {x : Option α} {a : α} :
    ofOption reason x = .accepted a ↔ x = some a := by
  cases x <;> simp [ofOption]

@[simp] theorem ofOption_ne_unsettled {reason : ε} {x : Option α} :
    ofOption reason x ≠ .unsettled := by
  cases x <;> simp [ofOption]

/-! ## The loop that ends at the first check that does not accept -/

theorem forEach_append (check : α → Outcome ε β) (as bs : List α) :
    forEach check (as ++ bs) = (forEach check as).bind fun _ => forEach check bs := by
  induction as with
  | nil => rfl
  | cons a rest ih => simp only [List.cons_append, forEach_cons, ih, bind_assoc]

theorem forEach_map {γ : Type} (check : α → Outcome ε β) (f : γ → α) (cs : List γ) :
    forEach check (cs.map f) = forEach (fun c => check (f c)) cs := by
  induction cs with
  | nil => rfl
  | cons c rest ih => simp only [List.map_cons, forEach_cons, ih]

/-- The loop drops the outputs of its checks. -/
theorem forEach_as {γ : Type} (check : α → Outcome ε β) (output : γ) (as : List α) :
    forEach (fun a => (check a).as output) as = forEach check as := by
  induction as with
  | nil => rfl
  | cons a rest ih =>
    rw [forEach_cons, forEach_cons, ih]
    cases check a <;> rfl

theorem forEach_eq_accepted_iff {check : α → Outcome ε β} {as : List α} {u : Unit} :
    forEach check as = .accepted u ↔ ∀ a ∈ as, ∃ b, check a = .accepted b := by
  induction as with
  | nil => simp
  | cons a rest ih => simp [ih]

/-- A loop that does not accept was ended by one check, all before it having accepted. -/
theorem forEach_eq_iff {check : α → Outcome ε β} {as : List α} {outcome : Outcome ε Unit}
    (h : outcome.isAccepted = false) :
    forEach check as = outcome ↔
      ∃ before a after, as = before ++ a :: after ∧
        (∀ c ∈ before, ∃ b, check c = .accepted b) ∧ (check a).as () = outcome := by
  constructor
  · intro hloop
    induction as with
    | nil => rw [← hloop] at h; cases h
    | cons a rest ih =>
      -- An accepted head is passed over, and any other ends the loop here.
      rw [forEach_cons] at hloop
      cases ha : check a with
      | accepted b =>
        rw [ha, bind_accepted] at hloop
        obtain ⟨before, c, after, rfl, hbefore, hc⟩ := ih hloop
        refine ⟨a :: before, c, after, rfl, ?_, hc⟩
        simpa [ha] using hbefore
      | rejected reason => exact ⟨[], a, rest, rfl, by simp, by simpa [ha, as] using hloop⟩
      | unsettled => exact ⟨[], a, rest, rfl, by simp, by simpa [ha, as] using hloop⟩
  · intro hstop
    obtain ⟨before, a, after, rfl, hbefore, ha⟩ := hstop
    -- The loop over the checks before the one that ends it comes to nothing.
    have hpassed : forEach check before = .accepted () := forEach_eq_accepted_iff.2 hbefore
    rw [forEach_append, hpassed, bind_accepted, forEach_cons]
    cases hc : check a with
    | accepted b =>
      rw [hc] at ha
      rw [← ha] at h
      cases h
    | rejected reason => simpa [hc, as] using ha
    | unsettled => simpa [hc, as] using ha

theorem forEach_eq_rejected_iff {check : α → Outcome ε β} {as : List α} {reason : ε} :
    forEach check as = .rejected reason ↔
      ∃ before a after, as = before ++ a :: after ∧
        (∀ c ∈ before, ∃ b, check c = .accepted b) ∧ check a = .rejected reason := by
  have hstop : (rejected reason : Outcome ε Unit).isAccepted = false := rfl
  simp only [forEach_eq_iff hstop, as_eq_rejected_iff]

theorem forEach_eq_unsettled_iff {check : α → Outcome ε β} {as : List α} :
    forEach check as = .unsettled ↔
      ∃ before a after, as = before ++ a :: after ∧
        (∀ c ∈ before, ∃ b, check c = .accepted b) ∧ check a = .unsettled := by
  have hstop : (unsettled : Outcome ε Unit).isAccepted = false := rfl
  simp only [forEach_eq_iff hstop, as_eq_unsettled_iff]

/-- One check that is unsettled, and none before it that rejects, leave the loop unsettled. -/
theorem forEach_unsettled {check : α → Outcome ε β} {before after : List α} {a : α}
    (hbefore : ∀ c ∈ before, ∀ reason, check c ≠ .rejected reason) (ha : check a = .unsettled) :
    forEach check (before ++ a :: after) = .unsettled := by
  induction before with
  | nil => simp [ha]
  | cons c rest ih =>
    have htail := ih fun d hd => hbefore d (List.mem_cons_of_mem c hd)
    have hhead := hbefore c List.mem_cons_self
    cases hc : check c with
    | accepted b => simpa [hc] using htail
    | rejected reason => exact absurd hc (hhead reason)
    | unsettled => simp [hc]

/-! ## The loop that ends at the first check that does not reject -/

/-- The output of the first check that accepts, or the reasons of all of them. -/
def firstOf (check : α → Outcome ε β) : List α → Outcome (List ε) β
  | [] => .rejected []
  | a :: rest =>
      match check a with
      | .accepted b => .accepted b
      | .rejected reason => (firstOf check rest).mapReason (reason :: ·)
      | .unsettled => .unsettled

@[simp] theorem firstOf_nil (check : α → Outcome ε β) : firstOf check [] = .rejected [] := rfl

theorem firstOf_map {γ : Type} (check : α → Outcome ε β) (f : γ → α) (cs : List γ) :
    firstOf check (cs.map f) = firstOf (fun c => check (f c)) cs := by
  induction cs with
  | nil => rfl
  | cons c rest ih => simp only [List.map_cons, firstOf, ih]

theorem firstOf_eq_accepted_iff {check : α → Outcome ε β} {as : List α} {b : β} :
    firstOf check as = .accepted b ↔
      ∃ before a after, as = before ++ a :: after ∧
        (∀ c ∈ before, ∃ reason, check c = .rejected reason) ∧ check a = .accepted b := by
  constructor
  · intro hloop
    induction as with
    | nil => cases hloop
    | cons a rest ih =>
      cases ha : check a with
      | accepted c => exact ⟨[], a, rest, rfl, by simp, by simpa [firstOf, ha] using hloop⟩
      | rejected reason =>
        simp only [firstOf, ha, mapReason_eq_accepted_iff] at hloop
        obtain ⟨before, c, after, rfl, hbefore, hc⟩ := ih hloop
        -- The head is rejected, and joins those that stand before the accepted one.
        refine ⟨a :: before, c, after, rfl, ?_, hc⟩
        simpa [ha] using hbefore
      | unsettled => simp [firstOf, ha] at hloop
  · intro hstop
    obtain ⟨before, a, after, rfl, hbefore, ha⟩ := hstop
    induction before with
    | nil => simp [firstOf, ha]
    | cons c rest ih =>
      obtain ⟨reason, hc⟩ := hbefore c List.mem_cons_self
      have htail := ih fun d hd => hbefore d (List.mem_cons_of_mem c hd)
      simpa [firstOf, hc] using htail

/-- All checks reject if the loop does, and their reasons are the loop's. -/
theorem firstOf_eq_rejected_iff {check : α → Outcome ε β} {as : List α} {reasons : List ε} :
    firstOf check as = .rejected reasons ↔
      List.Forall₂ (fun a reason => check a = .rejected reason) as reasons := by
  induction as generalizing reasons with
  | nil => simp [eq_comm]
  | cons a rest ih =>
    cases ha : check a with
    | accepted b => simp [firstOf, ha, List.forall₂_cons_left_iff]
    | rejected reason => simp [firstOf, ha, ih, List.forall₂_cons_left_iff, eq_comm]
    | unsettled => simp [firstOf, ha, List.forall₂_cons_left_iff]

/-- One check that is unsettled, and none before it that accepts, leave the loop unsettled. -/
theorem firstOf_unsettled {check : α → Outcome ε β} {before after : List α} {a : α}
    (hbefore : ∀ c ∈ before, ∀ b, check c ≠ .accepted b) (ha : check a = .unsettled) :
    firstOf check (before ++ a :: after) = .unsettled := by
  induction before with
  | nil => simp [firstOf, ha]
  | cons c rest ih =>
    have htail := ih fun d hd => hbefore d (List.mem_cons_of_mem c hd)
    have hhead := hbefore c List.mem_cons_self
    cases hc : check c with
    | accepted b => exact absurd hc (hhead b)
    | rejected reason => simpa [firstOf, hc] using htail
    | unsettled => simp [firstOf, hc]

theorem firstOf_eq_unsettled_iff {check : α → Outcome ε β} {as : List α} :
    firstOf check as = .unsettled ↔
      ∃ before a after, as = before ++ a :: after ∧
        (∀ c ∈ before, ∃ reason, check c = .rejected reason) ∧ check a = .unsettled := by
  constructor
  · intro hloop
    induction as with
    | nil => cases hloop
    | cons a rest ih =>
      cases ha : check a with
      | accepted c => simp [firstOf, ha] at hloop
      | rejected reason =>
        simp only [firstOf, ha, mapReason_eq_unsettled_iff] at hloop
        obtain ⟨before, c, after, rfl, hbefore, hc⟩ := ih hloop
        refine ⟨a :: before, c, after, rfl, ?_, hc⟩
        simpa [ha] using hbefore
      | unsettled => exact ⟨[], a, rest, rfl, by simp, ha⟩
  · intro hstop
    obtain ⟨before, a, after, rfl, hbefore, ha⟩ := hstop
    apply firstOf_unsettled _ ha
    intro c hc b hb
    -- A check that rejects does not accept as well.
    obtain ⟨reason, hr⟩ := hbefore c hc
    rw [hb] at hr
    cases hr

/-! ## One check under two bounds -/

/-- The second outcome is the first one, unless the first one is unsettled. -/
def Below (x y : Outcome ε α) : Prop :=
  x ≠ .unsettled → y = x

theorem Below.refl (x : Outcome ε α) : x.Below x := fun _ => rfl

theorem unsettled_below (x : Outcome ε α) : unsettled.Below x := fun h => absurd rfl h

theorem Below.bind {x y : Outcome ε α} {f g : α → Outcome ε β} (h : x.Below y)
    (hf : ∀ a, (f a).Below (g a)) : (x.bind f).Below (y.bind g) := by
  cases x with
  | accepted a =>
    rw [h (by simp)]
    exact hf a
  | rejected reason =>
    rw [h (by simp)]
    exact Below.refl _
  | unsettled => exact unsettled_below _

theorem Below.mapReason {x y : Outcome ε α} (f : ε → ε') (h : x.Below y) :
    (x.mapReason f).Below (y.mapReason f) := by
  intro hx
  rw [h (by simpa using hx)]

theorem Below.behind {x y : Outcome Reason α} (text : String) (h : x.Below y) :
    (x.behind text).Below (y.behind text) :=
  h.mapReason _

theorem Below.as {x y : Outcome ε α} (output : β) (h : x.Below y) :
    (x.as output).Below (y.as output) := by
  intro hx
  rw [h (by simpa using hx)]

theorem Below.forEach {check check' : α → Outcome ε β} {as : List α}
    (h : ∀ a ∈ as, (check a).Below (check' a)) : (forEach check as).Below (forEach check' as) := by
  induction as with
  | nil => exact Below.refl _
  | cons a rest ih =>
    have htail := ih fun c hc => h c (List.mem_cons_of_mem a hc)
    exact (h a List.mem_cons_self).bind fun _ => htail

theorem Below.firstOf {check check' : α → Outcome ε β} {as : List α}
    (h : ∀ a ∈ as, (check a).Below (check' a)) : (firstOf check as).Below (firstOf check' as) := by
  induction as with
  | nil => exact Below.refl _
  | cons a rest ih =>
    have htail := ih fun c hc => h c (List.mem_cons_of_mem a hc)
    have hhead := h a List.mem_cons_self
    cases ha : check a with
    | accepted b => simpa [Outcome.firstOf, ha, hhead (by simp [ha])] using Below.refl _
    | rejected reason =>
      simpa [Outcome.firstOf, ha, hhead (by simp [ha])] using htail.mapReason _
    | unsettled => simpa [Outcome.firstOf, ha] using unsettled_below _

end Outcome

end Narrowing
