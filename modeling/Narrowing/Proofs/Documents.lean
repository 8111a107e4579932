-- SUMMARY: Entries of objects as members of documents and back: sorting, last settings, and lookups.
import Narrowing.Proofs.OwnKeys

/-!
# Objects and documents

What becomes of the entries of an object on the way to a document and back. Entries are told from
one another by their keys alone: a document sorts its members by key (`Json.sortMembers`), and an
object that is made of members keeps the last one under each key (`Object.lookup_setEntries`).
-/

namespace Narrowing

/-! ## Members in order -/

namespace Json

variable {α : Type} {key name : String} {item : α} {member : String × α}
  {members : List (String × α)}

theorem mem_of_mem_insertMember (h : member ∈ insertMember key item members) :
    member = (key, item) ∨ member ∈ members := by
  induction members with
  | nil => simpa [insertMember] using h
  | cons m rest ih =>
    rw [insertMember] at h
    split at h
    · exact .inr h
    · split at h
      · exact List.mem_cons.1 h
      · rcases List.mem_cons.1 h with rfl | h
        · exact .inr List.mem_cons_self
        · exact (ih h).imp_right (List.mem_cons_of_mem m)

theorem mem_keys_insertMember :
    name ∈ (insertMember key item members).map Prod.fst ↔
      name = key ∨ name ∈ members.map Prod.fst := by
  induction members with
  | nil => simp [insertMember]
  | cons m rest ih =>
    rw [insertMember]
    split
    · next heq => simp [heq]
    · split
      · simp
      · rw [List.map_cons, List.mem_cons, ih, List.map_cons, List.mem_cons]
        exact or_left_comm

theorem mem_of_mem_sortMembers (h : member ∈ sortMembers members) : member ∈ members := by
  induction members with
  | nil => exact h
  | cons m rest ih =>
    rcases mem_of_mem_insertMember h with rfl | h
    · exact List.mem_cons_self
    · exact List.mem_cons_of_mem m (ih h)

theorem mem_keys_sortMembers :
    name ∈ (sortMembers members).map Prod.fst ↔ name ∈ members.map Prod.fst := by
  induction members with
  | nil => exact Iff.rfl
  | cons m rest ih =>
    have hsort : sortMembers (m :: rest) = insertMember m.1 m.2 (sortMembers rest) := rfl
    rw [hsort, mem_keys_insertMember, ih, List.map_cons, List.mem_cons]

/-! ## Canonical forms -/

theorem canonicalMembers?_eq_ok {members : List (String × Json)}
    (h : ∀ m ∈ members, ∃ e, m.2.canonical? = .ok e) :
    ∃ forms, canonicalMembers? members = .ok forms ∧ forms.map Prod.fst = members.map Prod.fst ∧
      ∀ form ∈ forms, ∃ d, (form.1, d) ∈ members ∧ d.canonical? = .ok form.2 := by
  induction members with
  | nil => exact ⟨[], by rw [canonicalMembers?], rfl, by simp⟩
  | cons m rest ih =>
    obtain ⟨name, d⟩ := m
    obtain ⟨e, he⟩ := h (name, d) List.mem_cons_self
    obtain ⟨forms, hforms, hkeys, hall⟩ := ih fun m hm => h m (List.mem_cons_of_mem _ hm)
    refine ⟨(name, e) :: forms, by simp only [canonicalMembers?, he, hforms], by simp [hkeys], ?_⟩
    intro form hform
    rcases List.mem_cons.1 hform with rfl | hform
    · exact ⟨d, List.mem_cons_self, he⟩
    · obtain ⟨d', hd', he'⟩ := hall form hform
      exact ⟨d', List.mem_cons_of_mem _ hd', he'⟩

end Json

/-! ## Documents of objects -/

theorem mem_textMembers_iff {α : Type} {entries : List (PropertyKey × α)} {name : String}
    {item : α} :
    (name, item) ∈ textMembers entries ↔ entries.lookup (.text name) = some item := by
  rw [textMembers, List.mem_filterMap]
  constructor
  · rintro ⟨key, -, h⟩
    cases key with
    | symbol s => cases h
    | text other =>
      cases hlookup : entries.lookup (.text other) with
      | none => simp [PropertyKey.text?, hlookup] at h
      | some found =>
        simp only [PropertyKey.text?, hlookup, Option.some.injEq, Prod.mk.injEq] at h
        obtain ⟨rfl, rfl⟩ := h
        exact hlookup
  · intro h
    refine ⟨.text name, ?_, by simp [PropertyKey.text?, h]⟩
    have hkey : .text name ∈ entries.map Prod.fst := by
      rw [← isSome_lookup_iff, h, Option.isSome_some]
    exact Object.mem_textKeys_iff.2 (.inr ⟨hkey, rfl⟩)

theorem mem_keys_textMembers_iff {α : Type} {entries : List (PropertyKey × α)} {name : String} :
    name ∈ (textMembers entries).map Prod.fst ↔ .text name ∈ entries.map Prod.fst := by
  rw [← isSome_lookup_iff, Option.isSome_iff_exists]
  simp [mem_textMembers_iff]

/-- The canonical document of a table has the text keys of the table, each with the canonical
document of the value under it. -/
theorem exists_canonicalMembers {entries : List (PropertyKey × Value)}
    (h : ∀ key x, entries.lookup key = some x → ∃ e, x.toCanonicalJson? = .ok e) :
    ∃ members, (Json.object (textMembers (entriesToJson entries))).canonical? =
        .ok (.object members) ∧
      (∀ name, name ∈ members.map Prod.fst ↔ .text name ∈ entries.map Prod.fst) ∧
      ∀ name e, (name, e) ∈ members →
        ∃ x, entries.lookup (.text name) = some x ∧ x.toCanonicalJson? = .ok e := by
  have hvalue : ∀ name d, (name, d) ∈ textMembers (entriesToJson entries) →
      ∃ x, entries.lookup (.text name) = some x ∧ d = x.toJson := by
    intro name d hmem
    rw [mem_textMembers_iff, lookup_entriesToJson, Option.map_eq_some_iff] at hmem
    obtain ⟨x, hx, hjson⟩ := hmem
    exact ⟨x, hx, hjson.symm⟩
  obtain ⟨forms, hforms, hkeys, hall⟩ := Json.canonicalMembers?_eq_ok fun m hm => by
    obtain ⟨x, hx, hjson⟩ := hvalue m.1 m.2 hm
    rw [hjson]
    exact h (.text m.1) x hx
  refine ⟨Json.sortMembers forms, by rw [Json.canonical?, hforms]; rfl, ?_, ?_⟩
  · intro name
    rw [Json.mem_keys_sortMembers, hkeys, mem_keys_textMembers_iff, map_fst_entriesToJson]
  · intro name e hmem
    obtain ⟨d, hd, he⟩ := hall (name, e) (Json.mem_of_mem_sortMembers hmem)
    obtain ⟨x, hx, rfl⟩ := hvalue name d hd
    exact ⟨x, hx, he⟩

/-! ## Objects from documents -/

theorem lookup_cons {α : Type} (entry : PropertyKey × α) (entries : List (PropertyKey × α))
    (key : PropertyKey) :
    (entry :: entries).lookup key = if key = entry.1 then some entry.2 else entries.lookup key := by
  rw [List.lookup_cons]
  split
  · next h => rw [if_pos (beq_iff_eq.1 h)]
  · next h => rw [if_neg (beq_eq_false_iff_ne.1 h)]

namespace Object

/-- The table after setting entries one after the other. -/
def setEntries (properties entries : List (PropertyKey × Value)) : List (PropertyKey × Value) :=
  entries.foldl (fun properties (key, x) => setEntry key x properties) properties

theorem setProperties_eq (o : Object) (entries : List (PropertyKey × Value)) :
    o.setProperties entries =
      .mk o.identity o.kind (setEntries o.properties entries) o.prototype o.classOf := by
  induction entries generalizing o with
  | nil => rcases o with ⟨i, kind, properties, prototype, c⟩; rfl
  | cons entry rest ih => exact ih (o.setProperty entry.1 entry.2)

theorem lookup_setEntry (key k : PropertyKey) (x : Value)
    (properties : List (PropertyKey × Value)) :
    (setEntry key x properties).lookup k = if k = key then some x else properties.lookup k := by
  induction properties with
  | nil => rw [setEntry, lookup_cons]
  | cons entry rest ih =>
    rw [setEntry]
    split
    · next heq =>
      rw [lookup_cons, lookup_cons, heq]
      split <;> rfl
    · next hne =>
      rw [lookup_cons, lookup_cons, ih]
      split
      · next heq => rw [if_neg (heq ▸ hne)]
      · rfl

/-- Of the entries under a key the last one counts. -/
theorem lookup_setEntries (properties entries : List (PropertyKey × Value)) (key : PropertyKey) :
    (setEntries properties entries).lookup key = (entries.reverse ++ properties).lookup key := by
  induction entries generalizing properties with
  | nil => rfl
  | cons entry rest ih =>
    have hstep : setEntries properties (entry :: rest) =
        setEntries (setEntry entry.1 entry.2 properties) rest := rfl
    rw [hstep, ih, List.lookup_append, lookup_setEntry, List.reverse_cons, List.append_assoc,
      List.lookup_append, List.singleton_append, lookup_cons]

end Object

theorem map_fst_entriesOfJson (path : List Nat) (place : Nat) (members : List (String × Json)) :
    (entriesOfJson path place members).map Prod.fst =
      (members.map Prod.fst).map PropertyKey.text := by
  induction members generalizing place with
  | nil => rfl
  | cons m rest ih => simp only [entriesOfJson, List.map_cons, ih]

theorem exists_of_mem_entriesOfJson {path : List Nat} {place : Nat}
    {members : List (String × Json)} {key : PropertyKey} {y : Value}
    (h : (key, y) ∈ entriesOfJson path place members) :
    ∃ name d place, key = .text name ∧ (name, d) ∈ members ∧ y = .ofJson (place :: path) d := by
  induction members generalizing place with
  | nil => cases h
  | cons m rest ih =>
    rw [entriesOfJson] at h
    rcases List.mem_cons.1 h with heq | h
    · cases heq
      exact ⟨m.1, m.2, place, rfl, List.mem_cons_self, rfl⟩
    · obtain ⟨name, d, place', hkey, hmem, hy⟩ := ih h
      exact ⟨name, d, place', hkey, List.mem_cons_of_mem m hmem, hy⟩

/-- The object that a document describes has the keys of its members, and under each the value that
one of the members under this key describes. -/
theorem exists_ofJson_object (path : List Nat) (members : List (String × Json)) :
    ∃ entries, Value.ofJson path (.object members) =
        .object (.mk (.made path) .ordinary entries none none) ∧
      (∀ key, key ∈ entries.map Prod.fst ↔ ∃ name ∈ members.map Prod.fst, key = .text name) ∧
      ∀ key y, entries.lookup key = some y →
        ∃ name d place, key = .text name ∧ (name, d) ∈ members ∧
          y = .ofJson (place :: path) d := by
  refine ⟨Object.setEntries [] (entriesOfJson path 0 members), ?_, ?_, ?_⟩
  · rw [Value.ofJson, Object.setProperties_eq]
    rfl
  · intro key
    rw [← isSome_lookup_iff, Object.lookup_setEntries, List.append_nil, isSome_lookup_iff,
      List.map_reverse, List.mem_reverse, map_fst_entriesOfJson, List.mem_map]
    simp only [eq_comm]
  · intro key y hy
    rw [Object.lookup_setEntries, List.append_nil] at hy
    exact exists_of_mem_entriesOfJson (List.mem_reverse.1 (mem_of_lookup hy))

end Narrowing
