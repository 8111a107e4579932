-- SUMMARY: The first refusal of a dictionary, and its dependence on own keys and values alone.
import Narrowing.Proofs.Characters

/-!
# Dictionaries

A dictionary goes through the own keys of an object in their order, each key before the value under
it, and stops at the first that is rejected (`Definitions.dictionary_first_refusal`). It looks at
nothing else of the object, so it cannot tell objects apart that have the same own keys and the same
values under them.
-/

namespace Narrowing

namespace Complaint

/-- What is put around the text of a key. -/
theorem quotedKey_append (opening closing : String) (key : PropertyKey) :
    opening ++ quotedKey key ++ closing =
      (opening ++ "\"") ++ key.display ++ ("\"" ++ closing) := by
  unfold quotedKey
  simp only [String.append_assoc]

theorem text_invalidKey (key : PropertyKey) :
    (invalidKey key).text = "The key \"" ++ key.display ++ "\" is invalid." :=
  quotedKey_append "The key " " is invalid." key

theorem text_invalidProperty (key : PropertyKey) :
    (invalidProperty key).text = "The property \"" ++ key.display ++ "\" is invalid." :=
  quotedKey_append "The property " " is invalid." key

end Complaint

namespace Definitions

/-! ## Entries -/

section

variable (defs : Definitions) (k v : Validator) (o : Object) (key : PropertyKey)

/-- An own key of an object is accepted, and so is the value under it. -/
def TakesEntry : Prop :=
  defs.Accepts k key.toValue ∧ ∃ x, o.getOwn key = some x ∧ defs.Accepts v x

/-- An own key of an object is rejected, or it is accepted and the value under it is rejected. A
message in front of the reason tells which of the two. -/
inductive RefusesEntry : Reason → Prop
  | key {cause : Reason} (hkey : defs.Returns k key.toValue (.rejected cause)) :
      RefusesEntry (.because ("The key \"" ++ key.display ++ "\" is invalid.") cause)
  | value {x : Value} {cause : Reason} (hkey : defs.Accepts k key.toValue)
      (hx : o.getOwn key = some x) (hvalue : defs.Returns v x (.rejected cause)) :
      RefusesEntry (.because ("The property \"" ++ key.display ++ "\" is invalid.") cause)

end

variable {defs : Definitions} {k v : Validator} {o : Object} {key : PropertyKey} {reason : Reason}

/-- Where an entry is refused, its check is rejected under all bounds from some one upwards. -/
theorem RefusesEntry.eventually (h : defs.RefusesEntry k v o key reason) :
    ∀ᶠ bound in Filter.atTop,
      checkEntry o (defs.run bound k) (defs.run bound v) key = .rejected reason := by
  simp only [checkEntry_eq_rejected_iff, Complaint.text_invalidKey, Complaint.text_invalidProperty]
  cases h with
  | key hkey =>
    apply hkey.eventually.mono
    intro bound hrun
    exact .inl ⟨_, hrun, rfl⟩
  | value hkey hx hvalue =>
    apply (hkey.eventually.and hvalue.eventually).mono
    rintro bound ⟨hrun, hvalue⟩
    refine .inr ⟨hrun, _, ?_, rfl⟩
    rwa [hx, Option.getD_some]

section

variable (h : o.Indexed) (hmem : key ∈ o.ownKeys)
include h hmem

theorem entryPasses_iff_takesEntry :
    defs.EntryPasses o k v key ↔ defs.TakesEntry k v o key := by
  obtain ⟨x, hx⟩ := h.exists_getOwn hmem
  unfold TakesEntry
  simp [entryPasses_iff, hx]

theorem refusesEntry_of_run {bound : Nat}
    (hrun : checkEntry o (defs.run bound k) (defs.run bound v) key = .rejected reason) :
    defs.RefusesEntry k v o key reason := by
  obtain ⟨x, hx⟩ := h.exists_getOwn hmem
  rw [checkEntry_eq_rejected_iff, Complaint.text_invalidKey, Complaint.text_invalidProperty,
    hx] at hrun
  rcases hrun with ⟨cause, hkey, rfl⟩ | ⟨⟨y, hkey⟩, cause, hvalue, rfl⟩
  · exact .key (returns_of_run hkey (by simp))
  · exact .value (accepts_of_run hkey) hx (returns_of_run hvalue (by simp))

end

/-! ## Verdicts -/

theorem run_dictionary_object (bound : Nat) :
    defs.run bound (.dictionary k v) (.object o) =
      (Outcome.forEach (checkEntry o (defs.run bound k) (defs.run bound v)) o.ownKeys).as
        (.object o) := by
  rw [run_dictionary]
  rfl

theorem returns_dictionary_accepted_iff {y : Value} (h : o.Indexed) :
    defs.Returns (.dictionary k v) (.object o) (.accepted y) ↔
      y = .object o ∧ ∀ key ∈ o.ownKeys, defs.TakesEntry k v o key := by
  have hentries : defs.Accepts (.dictionary k v) (.object o) ↔
      ∀ key ∈ o.ownKeys, defs.TakesEntry k v o key := by
    rw [accepts_dictionary_iff]
    apply forall₂_congr
    intro key hmem
    exact entryPasses_iff_takesEntry h hmem
  have houtput {y : Value} (hy : defs.Returns (.dictionary k v) (.object o) (.accepted y)) :
      y = .object o := by
    obtain ⟨-, bound, hrun⟩ := hy
    rw [run_dictionary_object, Outcome.as_eq_accepted_iff] at hrun
    exact hrun.2.symm
  constructor
  · intro hy
    exact ⟨houtput hy, hentries.1 ⟨y, hy⟩⟩
  · rintro ⟨rfl, htakes⟩
    obtain ⟨y, hy⟩ := hentries.2 htakes
    rwa [houtput hy] at hy

/-- The reason of a dictionary is the one of the first entry that it refuses. -/
theorem returns_dictionary_rejected_iff (h : o.Indexed) :
    defs.Returns (.dictionary k v) (.object o) (.rejected reason) ↔
      ∃ before key after, o.ownKeys = before ++ key :: after ∧
        (∀ c ∈ before, defs.TakesEntry k v o c) ∧ defs.RefusesEntry k v o key reason := by
  constructor
  · rintro ⟨-, bound, hrun⟩
    rw [run_dictionary_object, Outcome.as_eq_rejected_iff, Outcome.forEach_eq_rejected_iff] at hrun
    obtain ⟨before, key, after, heq, hbefore, hkey⟩ := hrun
    refine ⟨before, key, after, heq, ?_, ?_⟩
    · intro c hc
      have hmem : c ∈ o.ownKeys := heq ▸ List.mem_append_left _ hc
      exact (entryPasses_iff_takesEntry h hmem).1 (entryPasses_of_run hbefore c hc)
    · have hmem : key ∈ o.ownKeys := heq ▸ List.mem_append_right _ List.mem_cons_self
      exact refusesEntry_of_run h hmem hkey
  · rintro ⟨before, key, after, heq, hbefore, hkey⟩
    -- One bound that is enough for the entries before, and for the one that is refused.
    have hpasses : ∀ᶠ bound in Filter.atTop, ∀ c ∈ before,
        checkEntry o (defs.run bound k) (defs.run bound v) c = .accepted () := by
      apply eventually_forall_mem
      intro c hc
      have hmem : c ∈ o.ownKeys := heq ▸ List.mem_append_left _ hc
      exact ((entryPasses_iff_takesEntry h hmem).2 (hbefore c hc)).eventually
    obtain ⟨bound, hpasses, hrefused⟩ := (hpasses.and hkey.eventually).exists
    have hrun : defs.run bound (.dictionary k v) (.object o) = .rejected reason := by
      rw [run_dictionary_object, Outcome.as_eq_rejected_iff, Outcome.forEach_eq_rejected_iff]
      exact ⟨before, key, after, heq, fun c hc => ⟨(), hpasses c hc⟩, hrefused⟩
    exact returns_of_run hrun (by simp)

/-- A dictionary comes to an end where its validators do, on each own key and the value under it. -/
theorem settles_dictionary (h : o.Indexed)
    (hsettles : ∀ key ∈ o.ownKeys, defs.Settles k key.toValue ∧
      ∀ x, o.getOwn key = some x → defs.Settles v x) :
    defs.Settles (.dictionary k v) (.object o) := by
  have hentries : ∀ᶠ bound in Filter.atTop, ∀ key ∈ o.ownKeys,
      checkEntry o (defs.run bound k) (defs.run bound v) key ≠ .unsettled := by
    -- Each entry has a bound of its own, and the entries are finitely many.
    apply eventually_forall_mem
    intro key hmem
    obtain ⟨x, hx⟩ := h.exists_getOwn hmem
    obtain ⟨hk, hv⟩ := hsettles key hmem
    apply (hk.eventually.and (hv x hx).eventually).mono
    rintro bound ⟨hkrun, hvrun⟩ hunsettled
    rw [checkEntry_eq_unsettled_iff, hx] at hunsettled
    rcases hunsettled with hunsettled | ⟨-, hunsettled⟩
    · exact hkrun hunsettled
    · exact hvrun hunsettled
  obtain ⟨bound, hentries⟩ := hentries.exists
  apply settles_iff_run.2
  refine ⟨bound, ?_⟩
  intro hrun
  rw [run_dictionary_object, Outcome.as_eq_unsettled_iff,
    Outcome.forEach_eq_unsettled_iff] at hrun
  obtain ⟨before, key, after, heq, -, hkey⟩ := hrun
  exact hentries key (heq ▸ List.mem_append_right _ List.mem_cons_self) hkey

/-- A dictionary accepts an object, and gives it, if and only if it takes the entry of each own key.
It rejects the object if and only if there is a first entry that it refuses, with the reason of that
entry. Objects with the same own keys and the same values under them get the same verdict. -/
theorem dictionary_first_refusal (defs : Definitions) (k v : Validator) (o : Object)
    (hcount : o.kind.indexCount ≤ PropertyKey.indexLimit) :
    (∀ y, defs.Returns (.dictionary k v) (.object o) (.accepted y) ↔
      y = .object o ∧ ∀ key ∈ o.ownKeys, defs.TakesEntry k v o key) ∧
    (∀ reason, defs.Returns (.dictionary k v) (.object o) (.rejected reason) ↔
      ∃ before key after, o.ownKeys = before ++ key :: after ∧
        (∀ c ∈ before, defs.TakesEntry k v o c) ∧ defs.RefusesEntry k v o key reason) ∧
    ((∀ key ∈ o.ownKeys, defs.Settles k key.toValue ∧
        ∀ x, o.getOwn key = some x → defs.Settles v x) →
      defs.Settles (.dictionary k v) (.object o)) ∧
    ∀ p : Object, p.ownKeys = o.ownKeys → (∀ key ∈ o.ownKeys, p.getOwn key = o.getOwn key) →
      defs.SameVerdict (.dictionary k v) (.object p) (.dictionary k v) (.object o) := by
  have h : o.Indexed := Object.indexed_of_indexCount_le hcount
  refine ⟨fun y => returns_dictionary_accepted_iff h,
    fun reason => returns_dictionary_rejected_iff h, settles_dictionary h, fun p hown hvalues => ?_⟩
  apply sameVerdict_of_run
  intro bound
  exact run_dictionary_as_of_entries hown (by rwa [hown]) bound k v

/-- An array of a string and of something else. -/
def stringThenNull : Object :=
  .ofKind (.made [0]) (.array [.string "a", .null])

/-- An object of a class with the same entries, which inherits the length of the array. -/
def stringThenNullEntries : Object :=
  .mk (.made [1]) .ordinary [(.text "0", .string "a"), (.text "1", .null)] (some stringThenNull)
    (some (.root 0 "Entries"))

theorem stringThenNull_refused :
    let d := Validator.dictionary (.ofType .value) (.ofType .string)
    let verdict : Verdict := .rejected
      (.because "The property \"1\" is invalid." (.message "The value is not a string."))
    stringThenNull.kind.indexCount ≤ PropertyKey.indexLimit ∧
      Returns [] d (.object stringThenNull) verdict ∧
      Returns [] d (.object stringThenNullEntries) verdict := by
  intro d verdict
  have hcount : stringThenNull.kind.indexCount ≤ PropertyKey.indexLimit := by decide
  obtain ⟨-, hrejected, -, hsame⟩ :=
    dictionary_first_refusal [] (.ofType .value) (.ofType .string) stringThenNull hcount
  have hfirst : TakesEntry [] (.ofType .value) (.ofType .string) stringThenNull (.text "0") :=
    ⟨accepts_ofType_value _, .string "a", rfl, accepts_leaf_iff.2 ⟨_, rfl⟩⟩
  have hnull : Returns [] (.ofType .string) .null
      (.rejected (.message "The value is not a string.")) :=
    ⟨by simp, 0, rfl⟩
  have harray : Returns [] d (.object stringThenNull) verdict := by
    refine (hrejected _).2 ⟨[.text "0"], .text "1", [], rfl, ?_, ?_⟩
    · simpa using hfirst
    · exact .value (accepts_ofType_value _) rfl hnull
  -- The array and the object have the same two keys, with the same values.
  have hentries : ∀ key ∈ stringThenNull.ownKeys,
      stringThenNullEntries.getOwn key = stringThenNull.getOwn key := by
    intro key hmem
    have hmem : key ∈ [PropertyKey.text "0", PropertyKey.text "1"] := hmem
    simp only [List.mem_cons, List.not_mem_nil, or_false] at hmem
    rcases hmem with rfl | rfl <;> rfl
  exact ⟨hcount, harray, ((hsame stringThenNullEntries rfl hentries).rejected_iff _).2 harray⟩

end Definitions

end Narrowing
