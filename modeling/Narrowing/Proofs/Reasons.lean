-- SUMMARY: The grammar of the reasons that validators give, and where each list of reasons comes from.
import Narrowing.Proofs.Calls
import Narrowing.Proofs.Connectives
import Narrowing.Proofs.Equivariance

/-!
# The shape of reasons

The reasons that validators give are of a special form (`Reason.Formed`): several reasons never
stand by themselves, nor directly among others, but behind a message. So every reason that is
reached through `Reason.causes` has a message, and each step goes down one level.

The form comes from how reasons are put together (`Definitions.Explains`): a validator complains,
passes a reason on, puts a message in front of one, or gives the reasons of all branches of a
disjunction. The last of these is the only way to several reasons.
-/

namespace Narrowing

/-! ## Reasons and what is behind them -/

namespace Reason

/-- A message, by itself or in front of one reason or of several, these being of the same form. -/
inductive Formed : Reason → Prop
  | message (text : String) : Formed (.message text)
  | because (text : String) {cause : Reason} (h : Formed cause) : Formed (.because text cause)
  | several (text : String) {reasons : List Reason} (h : ∀ r ∈ reasons, Formed r) :
      Formed (.because text (.several reasons))

/-- One reason is another one or is reached from it through the reasons directly below. -/
inductive Descends : Reason → Reason → Prop
  | here {r : Reason} : Descends r r
  | down {r s t : Reason} (hs : s ∈ r.causes) (ht : Descends s t) : Descends r t

/-- Somewhere inside a reason another one stands. -/
inductive Contains : Reason → Reason → Prop
  | here {r : Reason} : Contains r r
  | behind {text : String} {cause t : Reason} (h : Contains cause t) :
      Contains (.because text cause) t
  | among {reasons : List Reason} {r t : Reason} (hr : r ∈ reasons) (h : Contains r t) :
      Contains (.several reasons) t

variable {r s : Reason} {text : String}

theorem outlineAll_eq_flatMap (depth : Nat) (reasons : List Reason) :
    outlineAll depth reasons = reasons.flatMap (outline depth) := by
  induction reasons with
  | nil => rw [outlineAll, List.flatMap_nil]
  | cons r reasons ih => rw [outlineAll, List.flatMap_cons, ih]

theorem mem_flattenAll_iff {reasons : List Reason} :
    s ∈ flattenAll reasons ↔ ∃ r ∈ reasons, s ∈ r.flatten := by
  induction reasons with
  | nil => simp [flattenAll]
  | cons r reasons ih => simp [flattenAll, ih]

namespace Formed

/-- What is behind a message and of this form is no list, so it is the one cause. -/
theorem causes_because (text : String) (h : r.Formed) :
    (Reason.because text r).causes = [r] := by
  cases h <;> rfl

theorem causes (h : r.Formed) : ∀ s ∈ r.causes, s.Formed := by
  cases h with
  | message text => simp [Reason.causes]
  | because text h => simpa [causes_because text h] using h
  | several text h => exact h

theorem descends (h : r.Formed) (hs : r.Descends s) : s.Formed := by
  induction hs with
  | here => exact h
  | down hs _ ih => exact ih (h.causes _ hs)

/-- The outline of a reason is its message and, one level below, the outlines of its causes. -/
theorem exists_outline (h : r.Formed) :
    ∃ text, r.message? = some text ∧
      ∀ depth, r.outline depth = (depth, text) :: r.causes.flatMap (outline (depth + 1)) := by
  cases h with
  | message text => exact ⟨text, rfl, fun depth => by simp [outline, Reason.causes]⟩
  | several text h =>
    refine ⟨text, rfl, fun depth => ?_⟩
    rw [outline, outline, outlineAll_eq_flatMap, Reason.causes]
  | because text h =>
    refine ⟨text, rfl, fun depth => ?_⟩
    rw [causes_because text h, outline, List.flatMap_singleton]

end Formed

/-! ### Leaves -/

/-- A message with nothing behind it is among the messages of a reason. -/
def HasLeaf (r : Reason) : Prop :=
  ∃ text, .message text ∈ r.flatten

theorem HasLeaf.leafMessages_ne_nil (h : r.HasLeaf) : r.leafMessages ≠ [] := by
  obtain ⟨text, htext⟩ := h
  have hmem : text ∈ r.leafMessages := by
    rw [leafMessages, List.mem_filterMap]
    exact ⟨.message text, List.mem_filter.2 ⟨htext, rfl⟩, rfl⟩
  exact List.ne_nil_of_mem hmem

theorem HasLeaf.message (text : String) : (Reason.message text).HasLeaf :=
  ⟨text, by simp [flatten]⟩

theorem HasLeaf.because (text : String) (h : r.HasLeaf) : (Reason.because text r).HasLeaf := by
  obtain ⟨leaf, hleaf⟩ := h
  refine ⟨leaf, ?_⟩
  rw [flatten]
  exact List.mem_cons_of_mem _ hleaf

theorem HasLeaf.several {reasons : List Reason} (hr : r ∈ reasons) (h : r.HasLeaf) :
    (Reason.several reasons).HasLeaf := by
  obtain ⟨leaf, hleaf⟩ := h
  refine ⟨leaf, ?_⟩
  rw [flatten, mem_flattenAll_iff]
  exact ⟨r, hr, hleaf⟩

end Reason

/-! ## How reasons are put together -/

/-- A leaf of the library gives no reason but its own complaint. -/
theorem Leaf.judge_eq_rejected {l : Leaf} {x : Value} {reason : Reason} (hl : l.isRule = false)
    (h : l.judge x = .rejected reason) : ∃ complaint : Complaint, reason = complaint.reason := by
  cases l with
  | ofType type =>
    cases hx : type.narrow? x <;> simp [judge, hx, Outcome.ofOption] at h
    exact ⟨_, h.symm⟩
  | toObject => cases h
  | keyOf o options =>
    simp only [judge] at h
    split at h
    · exact ⟨_, (Outcome.ensure_eq_rejected_iff.1 h).2.symm⟩
    · cases h
      exact ⟨_, rfl⟩
  | rule r => cases hl
  | null | undefined | nullish | equal _ | oneOf _ | instanceOf _ =>
    exact ⟨_, (Outcome.ensure_eq_rejected_iff.1 h).2.symm⟩

/-- In two lists of one length each member of the second has one of the first in its place. -/
theorem exists_mem_zip_of_mem {α β : Type} {as : List α} {bs : List β} {b : β}
    (hlength : bs.length = as.length) (hb : b ∈ bs) : ∃ a, (a, b) ∈ as.zip bs := by
  rw [← List.map_snd_zip (le_of_eq hlength), List.mem_map] at hb
  obtain ⟨⟨a, c⟩, hmem, rfl⟩ := hb
  exact ⟨a, hmem⟩

namespace Definitions

open Validator (Throughout NoRule)

variable {defs : Definitions} {bound : Nat} {v w k : Validator} {x y : Value} {reason : Reason}

variable (defs) in
/-- Running a validator on a value comes to running another one. -/
inductive Reaches (u : Validator) (z : Value) : Validator → Value → Prop
  | here : Reaches u z u z
  | call {v w : Validator} {x y : Value} (hcall : defs.Calls v x w y) (h : Reaches u z w y) :
      Reaches u z v x
  | unfold {name : String} {w : Validator} {x : Value} (hw : defs.lookup name = some w)
      (h : Reaches u z w x) : Reaches u z (.reference name) x

variable (defs) in
/-- A reason for which a validator rejects a value, as it is put together from complaints and from
the reasons that the validators give that are called. -/
inductive Explains : Validator → Value → Reason → Prop
  | complaint {v : Validator} {x : Value} (complaint : Complaint) : Explains v x complaint.reason
  | passed {v w : Validator} {x y : Value} {reason : Reason} (hcall : defs.Calls v x w y)
      (h : Explains w y reason) : Explains v x reason
  | behind {v w : Validator} {x y : Value} {cause : Reason} (text : String)
      (hcall : defs.Calls v x w y) (h : Explains w y cause) : Explains v x (.because text cause)
  | branches {form : Form} {vs : List Validator} {x : Value} {reasons : List Reason}
      (hreturns : defs.Returns (.anyOf form vs) x
        (.rejected (.aggregate Complaint.noneSatisfied.text reasons)))
      (hlength : reasons.length = vs.length)
      (hcalls : ∀ v ∈ vs, defs.Calls (.anyOf form vs) x v x)
      (h : ∀ p ∈ vs.zip reasons, Explains p.1 x p.2) :
      Explains (.anyOf form vs) x (.aggregate Complaint.noneSatisfied.text reasons)
  | definition {name : String} {w : Validator} {x : Value} {reason : Reason}
      (hw : defs.lookup name = some w) (h : Explains w x reason) :
      Explains (.reference name) x reason

/-! ### Validators with branches and parts, supposing that what they call is explained -/

section

variable {form : Form} {vs : List Validator}

theorem explains_of_anyOf
    (hpart : ∀ {w y cause}, defs.Calls (.anyOf form vs) x w y →
      defs.run bound w y = .rejected cause → defs.Explains w y cause)
    (h : defs.run bound (.anyOf form vs) x = .rejected reason) :
    defs.Explains (.anyOf form vs) x reason := by
  have hreturns := returns_of_run h (by simp)
  simp only [run_anyOf, Outcome.mapReason_eq_rejected_iff, Outcome.firstOf_eq_rejected_iff] at h
  obtain ⟨reasons, hall, rfl⟩ := h
  obtain ⟨hlength, hzip⟩ := List.forall₂_iff_zip.1 hall
  -- All branches reject, so each of them is called.
  have hcalls : ∀ v ∈ vs, defs.Calls (.anyOf form vs) x v x := by
    intro v hv
    obtain ⟨before, after, rfl⟩ := List.append_of_mem hv
    refine .anyOf fun u hu => ?_
    have hmem : u ∈ before ++ v :: after := List.mem_append_left _ hu
    exact rejects_of_anyOf ⟨_, hreturns⟩ hmem
  refine .branches hreturns hlength.symm hcalls fun p hp => ?_
  exact hpart (hcalls p.1 (List.of_mem_zip hp).1) (hzip hp)

theorem explains_of_allOf
    (hpart : ∀ {w y cause}, defs.Calls (.allOf form vs) x w y →
      defs.run bound w y = .rejected cause → defs.Explains w y cause)
    (h : defs.run bound (.allOf form vs) x = .rejected reason) :
    defs.Explains (.allOf form vs) x reason := by
  simp only [run_allOf, Outcome.as_eq_rejected_iff, Outcome.behind_eq_rejected_iff,
    Outcome.forEach_eq_rejected_iff] at h
  obtain ⟨cause, ⟨before, v, after, rfl, hbefore, hv⟩, rfl⟩ := h
  have hcall : defs.Calls (.allOf form (before ++ v :: after)) x v x := by
    refine .allOf fun u hu => ?_
    obtain ⟨y, hu⟩ := hbefore u hu
    exact accepts_of_run hu
  exact .behind _ hcall (hpart hcall hv)

theorem explains_of_property {key : PropertyKey} {options : PropertyOptions}
    (hpart : ∀ {w y cause}, defs.Calls (.property key v options) x w y →
      defs.run bound w y = .rejected cause → defs.Explains w y cause)
    (h : defs.run bound (.property key v options) x = .rejected reason) :
    defs.Explains (.property key v options) x reason := by
  -- No object, a property with its own reason, or a property that is missing.
  rw [run_property, withObject_eq_rejected_iff] at h
  obtain ⟨-, rfl⟩ | ⟨o, rfl, h⟩ := h
  · exact .complaint _
  · obtain ⟨y, cause, hy, hv, rfl⟩ | ⟨-, -, rfl⟩ := checkProperty_eq_rejected_iff.1 h
    · exact .behind _ (.property hy) (hpart (.property hy) hv)
    · exact .complaint _

theorem explains_of_shape {fields : List (Field Validator)} {options : ShapeOptions}
    (hpart : ∀ {w y cause}, defs.Calls (.shape fields options) x w y →
      defs.run bound w y = .rejected cause → defs.Explains w y cause)
    (h : defs.run bound (.shape fields options) x = .rejected reason) :
    defs.Explains (.shape fields options) x reason := by
  -- No object, then the first field that is not accepted, then extra keys.
  rw [run_shape, withObject_eq_rejected_iff] at h
  obtain ⟨-, rfl⟩ | ⟨o, rfl, h⟩ := h
  · exact .complaint _
  obtain hfields | ⟨-, -, hextra⟩ := Outcome.bind_eq_rejected_iff.1 h
  · obtain ⟨before, f, after, rfl, hbefore, hf⟩ := Outcome.forEach_eq_rejected_iff.1 hfields
    have hpass : ∀ g ∈ before, defs.FieldPasses o options g := fieldPasses_of_run hbefore
    obtain ⟨y, cause, hy, hv, rfl⟩ | ⟨-, -, rfl⟩ := checkProperty_eq_rejected_iff.1 hf
    · exact .behind _ (.field hpass hy) (hpart (.field hpass hy) hv)
    · exact .complaint _
  · split at hextra
    · cases hextra
    · obtain ⟨-, rfl⟩ := checkExtra_eq_rejected_iff.1 hextra
      exact .complaint _

theorem explains_of_dictionary
    (hpart : ∀ {w y cause}, defs.Calls (.dictionary k v) x w y →
      defs.run bound w y = .rejected cause → defs.Explains w y cause)
    (h : defs.run bound (.dictionary k v) x = .rejected reason) :
    defs.Explains (.dictionary k v) x reason := by
  rw [run_dictionary, withObject_eq_rejected_iff] at h
  obtain ⟨-, rfl⟩ | ⟨o, rfl, h⟩ := h
  · exact .complaint _
  obtain ⟨before, key, after, hkeys, hbefore, hentry⟩ := Outcome.forEach_eq_rejected_iff.1 h
  -- The entries before the one that is rejected were looked at and accepted.
  have hpass : ∀ key ∈ before, defs.EntryPasses o k v key := entryPasses_of_run hbefore
  obtain ⟨cause, hk, rfl⟩ | ⟨⟨z, hz⟩, cause, hv, rfl⟩ := checkEntry_eq_rejected_iff.1 hentry
  · exact .behind _ (.key hkeys hpass) (hpart (.key hkeys hpass) hk)
  · have hcall := Calls.entry hkeys hpass (accepts_of_run hz)
    exact .behind _ hcall (hpart hcall hv)

theorem explains_of_arrayOf
    (hpart : ∀ {w y cause}, defs.Calls (.arrayOf v) x w y →
      defs.run bound w y = .rejected cause → defs.Explains w y cause)
    (h : defs.run bound (.arrayOf v) x = .rejected reason) :
    defs.Explains (.arrayOf v) x reason := by
  rw [run_arrayOf, withElements_eq_rejected_iff] at h
  obtain ⟨-, rfl⟩ | ⟨elements, hx, h⟩ := h
  · exact .complaint _
  obtain ⟨before, p, after, hsplit, hbefore, hp⟩ := Outcome.forEach_eq_rejected_iff.1 h
  obtain ⟨cause, hv, rfl⟩ := checkElement_eq_rejected_iff.1 hp
  have hcall : defs.Calls (.arrayOf v) x v p.1 := .element_of_run hx hsplit hbefore
  exact .behind _ hcall (hpart hcall hv)

theorem explains_of_tuple
    (hpart : ∀ {w y cause}, defs.Calls (.tuple vs) x w y →
      defs.run bound w y = .rejected cause → defs.Explains w y cause)
    (h : defs.run bound (.tuple vs) x = .rejected reason) :
    defs.Explains (.tuple vs) x reason := by
  rw [run_tuple, withElements_eq_rejected_iff] at h
  obtain ⟨-, rfl⟩ | ⟨elements, hx, h⟩ := h
  · exact .complaint _
  split at h
  · next hlength =>
    obtain ⟨before, p, after, hsplit, hbefore, hp⟩ := Outcome.forEach_eq_rejected_iff.1 h
    obtain ⟨cause, hv, rfl⟩ := checkElement_eq_rejected_iff.1 hp
    have hcall : defs.Calls (.tuple vs) x p.1.1 p.1.2 :=
      .position_of_run hx hlength hsplit hbefore
    exact .behind _ hcall (hpart hcall hv)
  · cases h
    exact .complaint _

end

/-! ### All validators -/

/-- Under a bound a rejection is explained if those of references are. -/
theorem explains_of_refer
    (hrefer : ∀ name x reason, defs.run bound (.reference name) x = .rejected reason →
      defs.Explains (.reference name) x reason)
    (hv : v.Throughout NoRule) (h : defs.run bound v x = .rejected reason) :
    defs.Explains v x reason := by
  induction v using Validator.partsInduction generalizing x reason with
  | step v ih =>
    -- A call goes to a part, whose rejections are explained by induction.
    have hpart : ∀ {w y cause}, defs.Calls v x w y → defs.run bound w y = .rejected cause →
        defs.Explains w y cause :=
      fun hcall hrun => ih _ hcall.mem_parts (hv.inside _ hcall.mem_parts) hrun
    cases v with
    | leaf l =>
      rw [run_leaf] at h
      obtain ⟨complaint, rfl⟩ := Leaf.judge_eq_rejected hv.here h
      exact .complaint _
    | anyOf form vs => exact explains_of_anyOf hpart h
    | allOf form vs => exact explains_of_allOf hpart h
    | not v =>
      obtain ⟨-, rfl⟩ := run_not_eq_rejected_iff.1 h
      exact .complaint _
    | pipe v w =>
      rw [run_pipe] at h
      -- A reason comes from one of the two stages and is passed on as it is.
      obtain hfirst | ⟨y, hy, hsecond⟩ := Outcome.bind_eq_rejected_iff.1 h
      · exact .passed .first (hpart .first hfirst)
      · have hcall : defs.Calls (.pipe v w) x w y := .second (returns_of_run hy (by simp))
        exact .passed hcall (hpart hcall hsecond)
    | explained message v =>
      rw [run_explained, Outcome.behind_eq_rejected_iff] at h
      obtain ⟨cause, hcause, rfl⟩ := h
      exact .behind _ .explained (hpart .explained hcause)
    | sealed label v =>
      rw [run_sealed] at h
      exact .passed .sealed (hpart .sealed h)
    | optional v =>
      rw [run_optional] at h
      split at h
      · cases h
      · next hx =>
        have hcall : defs.Calls (.optional v) x v x := .optional (by simpa using hx)
        exact .passed hcall (hpart hcall h)
    | nullable v =>
      rw [run_nullable] at h
      split at h
      · cases h
      · next hx =>
        have hcall : defs.Calls (.nullable v) x v x := .nullable (by simpa using hx)
        exact .passed hcall (hpart hcall h)
    | reference name => exact hrefer name x reason h
    | property key v options => exact explains_of_property hpart h
    | shape fields options => exact explains_of_shape hpart h
    | dictionary k v => exact explains_of_dictionary hpart h
    | arrayOf v => exact explains_of_arrayOf hpart h
    | tuple vs => exact explains_of_tuple hpart h

theorem explains_of_run (hdefs : defs.Each (Throughout NoRule)) (hv : v.Throughout NoRule)
    (h : defs.run bound v x = .rejected reason) : defs.Explains v x reason := by
  induction bound generalizing v x reason with
  | zero =>
    refine explains_of_refer (fun name x reason h => ?_) hv h
    rw [run_reference_zero] at h
    cases h
  | succ bound ih =>
    refine explains_of_refer (fun name x reason h => ?_) hv h
    -- A reference is explained by the definition that it stands for.
    rw [run_reference_succ] at h
    cases hw : defs.lookup name with
    | none => simp [hw] at h
    | some w =>
      rw [hw] at h
      exact .definition hw (ih (hdefs name w hw) h)

/-! ## What follows for reasons -/

namespace Explains

theorem formed (h : defs.Explains v x reason) : reason.Formed := by
  induction h with
  | complaint complaint => exact .message _
  | passed _ _ ih => exact ih
  | behind text _ _ ih => exact .because text ih
  | branches _ hlength _ _ ih =>
    refine .several _ fun r hr => ?_
    obtain ⟨v, hmem⟩ := exists_mem_zip_of_mem hlength hr
    exact ih (v, r) hmem
  | definition _ _ ih => exact ih

/-- Several reasons inside a reason are those of the branches of a disjunction that was run. -/
theorem exists_anyOf {reasons : List Reason} (h : defs.Explains v x reason)
    (hreasons : reason.Contains (.several reasons)) :
    ∃ form vs y, defs.Reaches (.anyOf form vs) y v x ∧
      defs.Returns (.anyOf form vs) y
        (.rejected (.aggregate Complaint.noneSatisfied.text reasons)) ∧
      reasons.length = vs.length := by
  induction h with
  -- A message by itself has no reasons inside.
  | complaint complaint => cases hreasons
  | passed hcall _ ih =>
    obtain ⟨form, vs, y, hreaches, hrest⟩ := ih hreasons
    exact ⟨form, vs, y, .call hcall hreaches, hrest⟩
  | behind text hcall _ ih =>
    -- The message in front is not what is looked for, so it is inside the cause.
    cases hreasons with
    | behind hreasons =>
      obtain ⟨form, vs, y, hreaches, hrest⟩ := ih hreasons
      exact ⟨form, vs, y, .call hcall hreaches, hrest⟩
  | @branches form vs x _ hreturns hlength hcalls _ ih =>
    cases hreasons with
    | behind hreasons =>
      cases hreasons with
      | here => exact ⟨form, vs, x, .here, hreturns, hlength⟩
      | among hr hreasons =>
        obtain ⟨v, hmem⟩ := exists_mem_zip_of_mem hlength hr
        obtain ⟨form, vs, y, hreaches, hrest⟩ := ih _ hmem hreasons
        exact ⟨form, vs, y, .call (hcalls v (List.of_mem_zip hmem).1) hreaches, hrest⟩
  | definition hw _ ih =>
    obtain ⟨form, vs, y, hreaches, hrest⟩ := ih hreasons
    exact ⟨form, vs, y, .unfold hw hreaches, hrest⟩

end Explains

end Definitions

/-- A validator is no disjunction without branches. -/
def Validator.Branched : Validator → Prop
  | .anyOf _ vs => vs ≠ []
  | _ => True

namespace Definitions

open Validator (Throughout NoRule Branched)

variable {defs : Definitions} {v : Validator} {x : Value} {reason : Reason}

theorem Explains.hasLeaf (h : defs.Explains v x reason) (hdefs : defs.Each (Throughout Branched))
    (hv : v.Throughout Branched) : reason.HasLeaf := by
  induction h with
  | complaint complaint => exact .message _
  | passed hcall _ ih => exact ih (hv.inside _ hcall.mem_parts)
  | behind text hcall _ ih => exact (ih (hv.inside _ hcall.mem_parts)).because text
  | @branches form vs x reasons _ hlength hcalls _ ih =>
    -- The first branch has a reason, since there is one.
    obtain ⟨r, hr⟩ : ∃ r, r ∈ reasons := by
      refine List.exists_mem_of_ne_nil reasons fun hnil => ?_
      exact hv.here (List.eq_nil_of_length_eq_zero (by rw [← hlength, hnil]; rfl))
    obtain ⟨v, hmem⟩ := exists_mem_zip_of_mem hlength hr
    have hleaf : r.HasLeaf := ih (v, r) hmem (hv.inside v (List.of_mem_zip hmem).1)
    exact (Reason.HasLeaf.several hr hleaf).because _
  | definition hw _ ih => exact ih (hdefs _ _ hw)

/-- What a validator of the library gives as its reason is a message, in front of which others may
stand, or the reasons of all branches of a disjunction behind one. Each reason that is reached
through the causes has a message and is one level above its own causes. Where there are several
reasons, the run came to a disjunction that rejected with them, one for each of its branches. If no
disjunction is without branches, some message has nothing behind it. -/
theorem rejection_formed (hdefs : defs.Each (Throughout NoRule)) (hv : v.Throughout NoRule)
    (h : defs.Returns v x (.rejected reason)) :
    reason.Formed ∧
      (∀ s, reason.Descends s → ∃ text, s.message? = some text ∧
        ∀ depth, s.outline depth =
          (depth, text) :: s.causes.flatMap (Reason.outline (depth + 1))) ∧
      (∀ reasons, reason.Contains (.several reasons) →
        ∃ form vs y, defs.Reaches (.anyOf form vs) y v x ∧
          defs.Returns (.anyOf form vs) y
            (.rejected (.aggregate Complaint.noneSatisfied.text reasons)) ∧
          reasons.length = vs.length) ∧
      (defs.Each (Throughout Branched) → v.Throughout Branched → reason.leafMessages ≠ []) := by
  obtain ⟨-, bound, hrun⟩ := h
  have hexplains : defs.Explains v x reason := explains_of_run hdefs hv hrun
  refine ⟨hexplains.formed, fun s hs => (hexplains.formed.descends hs).exists_outline,
    fun reasons hreasons => hexplains.exists_anyOf hreasons, fun hdefs hv => ?_⟩
  exact (hexplains.hasLeaf hdefs hv).leafMessages_ne_nil

/-- Numbers and objects whose own values are null, one disjunction inside another. -/
def numberOrNulls : Validator :=
  .explained "No number and no nulls."
    (.anyOf .tuple
      [.ofType .number, .checked (.dictionary (.ofType .string) (.anyOf .list [.leaf .null]))])

/-- An object with a value that is not null. -/
def flagged : Value :=
  .object (.mk (.made []) .ordinary [(.text "flag", .boolean true)] none none)

/-- Why it is refused: the first branch of two, and the only branch below the second. -/
def flaggedReason : Reason :=
  .because "No number and no nulls."
    (.aggregate Complaint.noneSatisfied.text
      [(Complaint.notOfType .number).reason,
        .because (Complaint.invalidProperty (.text "flag")).text
          (.aggregate Complaint.noneSatisfied.text [Complaint.notNull.reason])])

theorem flaggedReason_formed :
    Returns [] numberOrNulls flagged (.rejected flaggedReason) ∧ flaggedReason.Formed ∧
      flaggedReason.leafMessages ≠ [] := by
  have hrun : run [] 0 numberOrNulls flagged = .rejected flaggedReason := by rfl
  have hreturns := returns_of_run hrun (by simp)
  have hrule : numberOrNulls.Throughout NoRule := by
    simp [numberOrNulls, Validator.checked, NoRule, Leaf.isRule]
  have hbranched : numberOrNulls.Throughout Branched := by
    simp [numberOrNulls, Validator.checked, Branched]
  obtain ⟨hformed, -, -, hleaves⟩ := rejection_formed (fun _ _ h => by cases h) hrule hreturns
  exact ⟨hreturns, hformed, hleaves (fun _ _ h => by cases h) hbranched⟩

end Definitions

end Narrowing
