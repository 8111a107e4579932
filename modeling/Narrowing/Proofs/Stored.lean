-- SUMMARY: Values stored as documents and read back, and verdicts on them.
import Narrowing.Proofs.Agreement
import Narrowing.Proofs.Documents
import Narrowing.Proofs.Guarded

/-!
# Stored values

A value that is made of null, truth values, finite numbers, strings, arrays and ordinary objects
with text keys can be put into a document and read back (`Value.Storable`). What comes back is
alike: prototypes, classes and identities are lost and the keys are put into order, but no validator
that is plain throughout accepts the one and rejects the other (`Definitions.accepts_stored_iff`).

It may come to an end on what was read back and to none on the original, by recursion without a
guard, because the keys were not in order there (`Definitions.storage_decides`).
-/

namespace Narrowing

/-! ## Objects that are alike -/

namespace Value.Alike

variable {i j : Identity} {p q : Option Object} {c d : Option Class}

theorem of_elements {xs ys : List Value} (h : List.Forall₂ Alike xs ys) :
    Alike (.object (.mk i (.array xs) [] p c)) (.object (.mk j (.array ys) [] q d)) := by
  refine .object (.some h) rfl (fun key => ?_) fun key => ?_
  · rw [Object.mem_ownKeys_iff, Object.mem_ownKeys_iff]
    simp only [Object.kind_mk, ObjectKind.indexCount, h.length_eq, Object.properties_mk]
  · exact Object.getOwn_rel (ObjectKind.slot?_array_rel .refl h key) .none

theorem of_entries {ps qs : List (PropertyKey × Value)}
    (h : ∀ key, Option.Rel Alike (ps.lookup key) (qs.lookup key)) :
    Alike (.object (.mk i .ordinary ps p c)) (.object (.mk j .ordinary qs q d)) := by
  refine .object .none rfl (fun key => ?_) fun key => ?_
  · rw [Object.mem_ownKeys_iff, Object.mem_ownKeys_iff]
    simp only [Object.kind_mk, ObjectKind.indexCount, Object.properties_mk, ← isSome_lookup_iff,
      isSome_eq_of_rel (h key)]
  · simpa only [Object.getOwn, Object.kind_mk, Object.properties_mk,
      ObjectKind.slot?_ordinary] using h key

end Value.Alike

/-! ## Values that can be stored -/

/-- A value is made of null, truth values, finite numbers, strings, arrays without properties of
their own and ordinary objects with text keys. -/
inductive Value.Storable : Value → Prop
  | null : Storable .null
  | boolean (b : Bool) : Storable (.boolean b)
  | number (negative : Bool) (exponent : Fin 2047) (fraction : Fin 4503599627370496) :
      Storable (.number (.finite negative exponent fraction))
  | string (s : String) : Storable (.string s)
  | array {i : Identity} {xs : List Value} {p : Option Object} {c : Option Class}
      (hxs : ∀ x ∈ xs, Storable x) : Storable (.object (.mk i (.array xs) [] p c))
  | ordinary {i : Identity} {entries : List (PropertyKey × Value)} {p : Option Object}
      {c : Option Class} (hkeys : ∀ entry ∈ entries, entry.1.isSymbol = false)
      (hvalues : ∀ entry ∈ entries, Storable entry.2) :
      Storable (.object (.mk i .ordinary entries p c))

variable {x : Value}

/-- A value comes back from its document as one that is alike. -/
def Value.ComesBack (x : Value) : Prop :=
  ∃ d, x.toCanonicalJson? = .ok d ∧ ∀ path, x.Alike (.ofJson path d)

theorem comesBack_array {i : Identity} {xs : List Value} {p : Option Object} {c : Option Class}
    (h : ∀ x ∈ xs, x.ComesBack) : (Value.object (.mk i (.array xs) [] p c)).ComesBack := by
  -- The items are the same for every path, since only identities depend on it.
  have hitems : ∃ items, Json.canonicalItems? (elementsToJson xs) = .ok items ∧
      ∀ path place, List.Forall₂ Value.Alike xs (elementsOfJson path place items) := by
    induction xs with
    | nil => exact ⟨[], by rw [elementsToJson, Json.canonicalItems?], fun _ _ => .nil⟩
    | cons x xs ih =>
      obtain ⟨d, hd, halike⟩ := h x List.mem_cons_self
      obtain ⟨items, hitems, hall⟩ := ih fun x hx => h x (List.mem_cons_of_mem _ hx)
      refine ⟨d :: items, ?_, fun path place => ?_⟩
      · rw [Value.toCanonicalJson?] at hd
        simp only [elementsToJson, Json.canonicalItems?, hd, hitems]
      · rw [elementsOfJson]
        exact .cons (halike _) (hall path (place + 1))
  obtain ⟨items, hitems, hall⟩ := hitems
  refine ⟨.array items, ?_, fun path => ?_⟩
  · simp only [Value.toCanonicalJson?, Value.toJson, Object.toJson, Json.canonical?, hitems,
      Except.map]
  · rw [Value.ofJson]
    exact .of_elements (hall path 0)

theorem comesBack_ordinary {i : Identity} {entries : List (PropertyKey × Value)}
    {p : Option Object} {c : Option Class}
    (hkeys : ∀ entry ∈ entries, entry.1.isSymbol = false)
    (hvalues : ∀ entry ∈ entries, entry.2.ComesBack) :
    (Value.object (.mk i .ordinary entries p c)).ComesBack := by
  have hlookup : ∀ key x, entries.lookup key = some x → x.ComesBack :=
    fun key x hx => hvalues (key, x) (mem_of_lookup hx)
  -- The document has a member for every entry and no other.
  obtain ⟨members, hcanonical, hnames, hmembers⟩ := exists_canonicalMembers fun key x hx =>
    (hlookup key x hx).imp fun _ hd => hd.1
  refine ⟨.object members, ?_, fun path => ?_⟩
  · simpa only [Value.toCanonicalJson?, Value.toJson, Object.toJson] using hcanonical
  · obtain ⟨stored, hobject, hstored, hfound⟩ := exists_ofJson_object path members
    -- What is read back has entries under the same keys, in the order of the document.
    have hsame : ∀ key, key ∈ stored.map Prod.fst ↔ key ∈ entries.map Prod.fst := by
      intro key
      rw [hstored]
      constructor
      · rintro ⟨name, hname, rfl⟩
        exact (hnames name).1 hname
      · intro hkey
        cases key with
        | text name => exact ⟨name, (hnames name).2 hkey, rfl⟩
        | symbol s =>
          obtain ⟨x, hx⟩ := Option.isSome_iff_exists.1 (isSome_lookup_iff.2 hkey)
          cases hkeys (.symbol s, x) (mem_of_lookup hx)
    rw [hobject]
    refine .of_entries fun key => ?_
    cases hy : stored.lookup key with
    | some y =>
      -- The value comes from a member, which comes from the entry under the same key.
      obtain ⟨name, d, place, rfl, hmem, rfl⟩ := hfound key y hy
      obtain ⟨x, hx, hd⟩ := hmembers name d hmem
      obtain ⟨d', hd', halike⟩ := hlookup (.text name) x hx
      rw [hd] at hd'
      cases hd'
      rw [hx]
      exact .some (halike _)
    | none =>
      have hmissing : (entries.lookup key).isSome ≠ true := by
        rw [Ne, isSome_lookup_iff, ← hsame, ← isSome_lookup_iff, hy]
        exact Bool.false_ne_true
      rw [Option.not_isSome_iff_eq_none.1 hmissing]
      exact .none

theorem Value.Storable.comesBack (h : x.Storable) : x.ComesBack := by
  -- A primitive value is its own document, and comes back as it was.
  induction h with
  | null => exact ⟨.null, rfl, fun _ => by rw [Value.ofJson]; exact .refl _⟩
  | boolean b => exact ⟨.bool b, rfl, fun _ => by rw [Value.ofJson]; exact .refl _⟩
  | number negative exponent fraction =>
    exact ⟨.float _, rfl, fun _ => by rw [Value.ofJson]; exact .refl _⟩
  | string s => exact ⟨.string s, rfl, fun _ => by rw [Value.ofJson]; exact .refl _⟩
  | array _ ih => exact comesBack_array ih
  | ordinary hkeys _ ih => exact comesBack_ordinary hkeys ih

/-! ## Verdicts on stored values -/

namespace Definitions

open Validator (Throughout Plain Guarded)

theorem known_of_plain {defs : Definitions} {v : Validator} (hv : v.Plain)
    (hreference : v.isReference = false) : defs.Known v := by
  cases v with
  | leaf l => cases l <;> first | rfl | exact hv.elim
  | reference name => cases hreference
  | _ => trivial

/-- A value that can be stored has a document, and what is read back from it is accepted by the same
validators, as far as they come to an end on both. They always do if there are no references, or if
the recursion is guarded; otherwise they may end on one of the two alone, because the own keys are
looked at in another order. -/
theorem accepts_stored_iff (hx : x.Storable) :
    ∃ d, x.toCanonicalJson? = .ok d ∧
      ∀ (path : List Nat) (defs : Definitions) (v : Validator),
        defs.Each (Throughout Plain) → v.Throughout Plain →
          let stored := Value.ofJson path d
          (defs.Settles v x → defs.Settles v stored → (defs.Accepts v x ↔ defs.Accepts v stored)) ∧
          (v.Throughout (fun u => u.isReference = false) →
            (defs.Accepts v x ↔ defs.Accepts v stored)) ∧
          (defs.Each (fun w => w.Guarded ∧ w.Throughout defs.Strict) → v.Throughout defs.Strict →
            (defs.Accepts v x ↔ defs.Accepts v stored)) := by
  obtain ⟨d, hd, halike⟩ := hx.comesBack
  refine ⟨d, hd, fun path defs v hdefs hv => ?_⟩
  have hverdict := accepts_iff_of_alike hdefs hv (halike path)
  refine ⟨hverdict, fun hreference => ?_, fun hguarded hstrict => ?_⟩
  · -- Without references, and below guards, both runs end.
    have hknown : v.Throughout fun u => defs.Known u ∧ u.isReference = false :=
      (hv.and hreference).mono fun _ hu => ⟨known_of_plain hu.1 hu.2, hu.2⟩
    exact hverdict (settles_of_throughout hknown x) (settles_of_throughout hknown _)
  · exact hverdict (settles_of_guarded hguarded hstrict x) (settles_of_guarded hguarded hstrict _)

/-- Objects with a name and a row of numbers, some of which may be null. -/
def namedRows : Validator :=
  .checked (.shape
    [⟨.text "name", false, .ofType .string⟩,
      ⟨.text "row", false, .checkedArray (.arrayOf (.nullable (.ofType .number)))⟩]
    { allowExtra := false })

/-- Such an object, with the keys not in order, a prototype and a class. -/
def namedRow : Value :=
  .object (.mk (.made []) .ordinary
    [(.text "row", .object (.ofKind (.made [0]) (.array [.number 0, .null]))),
      (.text "name", .string "x")]
    (some (.ofKind (.made [1]) .ordinary)) (some (.root 0 "Row")))

theorem namedRow_storable : namedRow.Storable := by
  refine .ordinary (by simp [PropertyKey.isSymbol]) ?_
  simp only [List.forall_mem_cons]
  refine ⟨.array ?_, .string "x", by simp⟩
  simp only [List.forall_mem_cons]
  exact ⟨.number .., .null, by simp⟩

theorem namedRow_stored :
    namedRow.Storable ∧ ∃ d, namedRow.toCanonicalJson? = .ok d ∧
      ∀ path, Accepts [] namedRows (.ofJson path d) := by
  refine ⟨namedRow_storable, ?_⟩
  obtain ⟨d, hd, hstored⟩ := accepts_stored_iff namedRow_storable
  refine ⟨d, hd, fun path => ?_⟩
  have hplain : namedRows.Throughout Plain := by
    simp [namedRows, Validator.checked, Validator.checkedArray, Plain]
  have hreference : namedRows.Throughout fun u => u.isReference = false := by
    simp [namedRows, Validator.checked, Validator.checkedArray, Validator.isReference]
  have hrun : run [] 0 namedRows namedRow = .accepted namedRow := by rfl
  obtain ⟨-, hiff, -⟩ := hstored path [] namedRows (fun _ _ h => by cases h) hplain
  exact (hiff hreference).1 (accepts_of_run hrun)

/-- An object with a text that was set first and a number that was set second. -/
def textThenNumber : Value :=
  .object (.mk (.made []) .ordinary [(.text "b", .string "x"), (.text "a", .number 0)] none none)

theorem textThenNumber_storable : textThenNumber.Storable := by
  refine .ordinary (by simp [PropertyKey.isSymbol]) ?_
  simp only [List.forall_mem_cons]
  exact ⟨.string "x", .number .., by simp⟩

/-- Storing counts where there is no guard: the number comes first in the document and is rejected,
so what was read back is accepted, but on the original the text comes first and there is no end. -/
theorem storage_decides :
    textThenNumber.Storable ∧ endless.Each (Throughout Plain) ∧ notAllEndless.Throughout Plain ∧
      ∃ d, textThenNumber.toCanonicalJson? = .ok d ∧
        (∀ path, endless.Accepts notAllEndless (.ofJson path d)) ∧
          ¬ endless.Accepts notAllEndless textThenNumber := by
  refine ⟨textThenNumber_storable, each_of_mem ?_, ?_, ?_⟩
  · simp [endless, Plain]
  · simp [notAllEndless, endlessText, Validator.checked, Plain]
  · refine ⟨.object [("a", .float 0), ("b", .string "x")], by rfl, fun path => ?_, ?_⟩
    · -- The number is first in the document, and is rejected before any reference is met.
      exact accepts_of_run (rfl : endless.run 0 _ _ = _)
    · exact not_accepts_notAllEndless (s := "x") rfl rfl

end Definitions

end Narrowing
