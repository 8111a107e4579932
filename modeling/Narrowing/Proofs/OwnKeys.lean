-- SUMMARY: Enumeration against lookup: which enumerated keys exist, and what dictionaries make of the others.
import Mathlib.Data.List.Forall2
import Narrowing.Proofs.Containers
import Narrowing.Proofs.Indices
import Narrowing.Value.Json

/-!
# Own keys

The own keys of an object are counted off for its indices and listed for its table
(`Object.mem_ownKeys_iff`). Looking them up goes the other way, from the text of a key to an index.
The two agree up to the limit of indices. An object with more elements or characters than that has
own keys under which nothing is found (`Object.ownKeys_exist_iff`).
-/

namespace Narrowing

/-! ## Slots under index keys -/

namespace ObjectKind

variable {kind : ObjectKind} {i : Nat}

theorem isSome_indexed?_iff : (kind.indexed? i).isSome = true ↔ i < kind.indexCount := by
  cases kind with
  | array elements => simp [indexed?, indexCount]
  | ordinary | function _ _ => simp [indexed?, indexCount]
  | wrapper s => cases s <;> simp [indexed?, indexCount]

/-- Nothing comes with a kind by name under an index key. -/
theorem named?_ofIndex (kind : ObjectKind) (i : Nat) :
    kind.named? (String.ofList (Nat.toDigits 10 i)) = none := by
  have hlength : "length" ≠ String.ofList (Nat.toDigits 10 i) :=
    PropertyKey.ne_ofIndex_of_mem (c := 'l') (by decide) rfl i
  have hname : "name" ≠ String.ofList (Nat.toDigits 10 i) :=
    PropertyKey.ne_ofIndex_of_mem (c := 'n') (by decide) rfl i
  cases kind with
  | ordinary => rfl
  | array elements => simp [named?, hlength.symm]
  | function title arity => simp [named?, hlength.symm, hname.symm]
  | wrapper s => cases s <;> simp [named?, hlength.symm]

theorem slot?_ofIndex (kind : ObjectKind) (i : Nat) :
    kind.slot? (.ofIndex i) = if i < PropertyKey.indexLimit then kind.indexed? i else none := by
  have hindex := PropertyKey.arrayIndex?_ofIndex i
  rw [PropertyKey.ofIndex] at hindex ⊢
  simp only [slot?, named?_ofIndex, hindex]
  split <;> rfl

end ObjectKind

/-! ## Tables -/

section

variable {α : Type} {entries : List (PropertyKey × α)} {key : PropertyKey} {x : α}

theorem isSome_lookup_iff : (entries.lookup key).isSome = true ↔ key ∈ entries.map Prod.fst := by
  rw [List.lookup_isSome_iff]
  simp only [beq_iff_eq, List.mem_map, eq_comm (a := key)]

theorem mem_of_lookup (h : entries.lookup key = some x) : (key, x) ∈ entries := by
  obtain ⟨before, after, rfl, -⟩ := List.lookup_eq_some_iff.1 h
  exact List.mem_append_cons_self

end

namespace Object

variable {o : Object} {key : PropertyKey} {keys : List PropertyKey} {i j bound : Nat}

theorem hasOwn_of_mem_keys (h : key ∈ o.properties.map Prod.fst) : o.hasOwn key = true := by
  rw [hasOwn_eq_isSome_getOwn, getOwn]
  split
  · rfl
  · exact isSome_lookup_iff.2 h

theorem hasOwn_ofIndex_iff :
    o.hasOwn (.ofIndex i) = true ↔
      (i < PropertyKey.indexLimit ∧ i < o.kind.indexCount) ∨
        PropertyKey.ofIndex i ∈ o.properties.map Prod.fst := by
  rw [hasOwn, Bool.or_eq_true, ObjectKind.slot?_ofIndex]
  refine or_congr ?_ (by simp)
  split
  · next hlt => rw [ObjectKind.isSome_indexed?_iff, and_iff_right hlt]
  · next hlt => simp [hlt]

/-! ## Enumeration -/

theorem mem_insertAscending {l : List Nat} : j ∈ insertAscending i l ↔ j = i ∨ j ∈ l := by
  induction l with
  | nil => simp [insertAscending]
  | cons k rest ih =>
    rw [insertAscending]
    split
    · simp
    · split
      · next h => simp [h]
      · simp only [List.mem_cons, ih]
        exact or_left_comm

theorem mem_indicesOf_iff :
    i ∈ indicesOf bound keys ↔ i < bound ∨ ∃ key ∈ keys, key.arrayIndex? = some i := by
  rw [indicesOf, ← List.mem_filterMap]
  induction keys.filterMap PropertyKey.arrayIndex? with
  | nil => simp
  | cons j rest ih =>
    rw [List.foldr_cons, mem_insertAscending, ih, List.mem_cons]
    exact or_left_comm

/-- The indices below a bound and the text keys among others, in the order of enumeration. -/
def textKeys (bound : Nat) (keys : List PropertyKey) : List PropertyKey :=
  (indicesOf bound keys).map PropertyKey.ofIndex ++ keys.filter isPlainText

theorem mem_textKeys_iff :
    key ∈ textKeys bound keys ↔
      (∃ i < bound, key = .ofIndex i) ∨ key ∈ keys ∧ key.isSymbol = false := by
  simp only [textKeys, List.mem_append, List.mem_map, List.mem_filter, mem_indicesOf_iff]
  constructor
  · rintro (⟨i, hlt | ⟨k, hk, hindex⟩, rfl⟩ | ⟨hkey, hplain⟩)
    · exact .inl ⟨i, hlt, rfl⟩
    · -- A key that is read as an index is the one that is written for it.
      obtain ⟨rfl, -⟩ := PropertyKey.arrayIndex?_eq_some_iff.1 hindex
      exact .inr ⟨hk, rfl⟩
    · cases key with
      | text name => exact .inr ⟨hkey, rfl⟩
      | symbol s => cases hplain
  · rintro (⟨i, hlt, rfl⟩ | ⟨hkey, htext⟩)
    · exact .inl ⟨i, .inl hlt, rfl⟩
    · cases hindex : key.arrayIndex? with
      | some i =>
        obtain ⟨rfl, -⟩ := PropertyKey.arrayIndex?_eq_some_iff.1 hindex
        exact .inl ⟨i, .inr ⟨_, hkey, hindex⟩, rfl⟩
      | none =>
        cases key with
        | text name => exact .inr ⟨hkey, by simp [isPlainText, PropertyKey.text?, hindex]⟩
        | symbol s => cases htext

theorem ownKeys_eq (o : Object) :
    o.ownKeys = textKeys o.kind.indexCount (o.properties.map Prod.fst) ++
      (o.properties.map Prod.fst).filter PropertyKey.isSymbol :=
  (List.append_assoc ..).symm

/-- The own keys are the indices that come with the object and the keys of its table. -/
theorem mem_ownKeys_iff :
    key ∈ o.ownKeys ↔
      (∃ i < o.kind.indexCount, key = .ofIndex i) ∨ key ∈ o.properties.map Prod.fst := by
  rw [ownKeys_eq, List.mem_append, mem_textKeys_iff, List.mem_filter, or_assoc, ← and_or_left]
  cases key.isSymbol <;> simp

/-- What is enumerated of the texts does not take in the symbols. -/
theorem filter_ownKeys (o : Object) :
    (o.ownKeys.filter fun key => !key.isSymbol) =
      textKeys o.kind.indexCount (o.properties.map Prod.fst) := by
  rw [ownKeys_eq, List.filter_append, List.filter_filter]
  have htext : ∀ key ∈ textKeys o.kind.indexCount (o.properties.map Prod.fst),
      (!key.isSymbol) = true := by
    intro key hkey
    rcases mem_textKeys_iff.1 hkey with ⟨i, -, rfl⟩ | ⟨-, htext⟩
    · rfl
    · simp [htext]
  simp [List.filter_eq_self.2 htext]

/-! ## Keys under which something is found -/

/-- The indices that come with an object keep to the limit, or are in its table as well. -/
def Indexed (o : Object) : Prop :=
  ∀ i, PropertyKey.indexLimit ≤ i → i < o.kind.indexCount →
    PropertyKey.ofIndex i ∈ o.properties.map Prod.fst

theorem indexed_of_indexCount_le (h : o.kind.indexCount ≤ PropertyKey.indexLimit) : o.Indexed := by
  intro i hlimit hcount
  omega

theorem indexed_iff_hasOwn : o.Indexed ↔ ∀ key ∈ o.ownKeys, o.hasOwn key = true := by
  constructor
  · intro h key hkey
    rcases mem_ownKeys_iff.1 hkey with ⟨i, hi, rfl⟩ | hkey
    · rw [hasOwn_ofIndex_iff]
      rcases Nat.lt_or_ge i PropertyKey.indexLimit with hlt | hge
      · exact .inl ⟨hlt, hi⟩
      · exact .inr (h i hge hi)
    · exact hasOwn_of_mem_keys hkey
  · intro h i hlimit hi
    have hown := h (.ofIndex i) (mem_ownKeys_iff.2 (.inl ⟨i, hi, rfl⟩))
    exact (hasOwn_ofIndex_iff.1 hown).resolve_left (by omega)

theorem Indexed.exists_getOwn (h : o.Indexed) (hkey : key ∈ o.ownKeys) :
    ∃ x, o.getOwn key = some x := by
  rw [← Option.isSome_iff_exists, ← hasOwn_eq_isSome_getOwn]
  exact indexed_iff_hasOwn.1 h key hkey

end Object

/-! ## Members of documents -/

theorem forall₂_filterMap {α β : Type} {f : α → Option β} {r : α → β → Prop} {as : List α}
    (h : ∀ a ∈ as, ∃ b, f a = some b ∧ r a b) : List.Forall₂ r as (as.filterMap f) := by
  induction as with
  | nil => exact .nil
  | cons a rest ih =>
    obtain ⟨b, hb, hr⟩ := h a List.mem_cons_self
    rw [List.filterMap_cons_some hb]
    exact .cons hr (ih fun c hc => h c (List.mem_cons_of_mem a hc))

theorem map_fst_entriesToJson (entries : List (PropertyKey × Value)) :
    (entriesToJson entries).map Prod.fst = entries.map Prod.fst := by
  induction entries with
  | nil => rfl
  | cons entry rest ih => simp only [entriesToJson, List.map_cons, ih]

theorem lookup_entriesToJson (entries : List (PropertyKey × Value)) (key : PropertyKey) :
    (entriesToJson entries).lookup key = (entries.lookup key).map Value.toJson := by
  induction entries with
  | nil => rfl
  | cons entry rest ih =>
    obtain ⟨k, x⟩ := entry
    simp only [entriesToJson, List.lookup_cons]
    split
    · rfl
    · exact ih

/-- The members made of a table are its text keys, each with what is found under it. -/
theorem textMembers_forall₂ {α : Type} (entries : List (PropertyKey × α)) :
    List.Forall₂ (fun key member => key = .text member.1 ∧ entries.lookup key = some member.2)
      (Object.textKeys 0 (entries.map Prod.fst)) (textMembers entries) := by
  refine forall₂_filterMap ?_
  intro key hkey
  obtain ⟨hkey, htext⟩ : key ∈ entries.map Prod.fst ∧ key.isSymbol = false := by
    simpa using Object.mem_textKeys_iff.1 hkey
  obtain ⟨item, hitem⟩ := Option.isSome_iff_exists.1 (isSome_lookup_iff.2 hkey)
  cases key with
  | text name => exact ⟨(name, item), by simp [PropertyKey.text?, hitem], rfl, hitem⟩
  | symbol s => cases htext

/-- An ordinary object shows its text keys, each with the document of its own value. -/
theorem Object.toJson_of_ordinary {o : Object} (h : o.kind = .ordinary) :
    ∃ members, o.toJson = .object members ∧
      List.Forall₂ (fun key member => key = .text member.1 ∧
          ∃ x, o.getOwn key = some x ∧ member.2 = x.toJson)
        (o.ownKeys.filter fun key => !key.isSymbol) members := by
  rcases o with ⟨i, kind, properties, prototype, c⟩
  rw [kind_mk] at h
  subst h
  refine ⟨textMembers (entriesToJson properties), by rw [toJson], ?_⟩
  rw [filter_ownKeys]
  have hmembers := textMembers_forall₂ (entriesToJson properties)
  rw [map_fst_entriesToJson] at hmembers
  refine hmembers.imp ?_
  intro key member hmember
  obtain ⟨hkey, hitem⟩ := hmember
  rw [lookup_entriesToJson, Option.map_eq_some_iff] at hitem
  obtain ⟨x, hx, hjson⟩ := hitem
  refine ⟨hkey, x, ?_, hjson.symm⟩
  simp [getOwn, hx]

/-! ## Dictionaries of own keys -/

/-- Objects whose own keys are all own keys of another one. -/
def Validator.keysAmong (o : Object) : Validator :=
  .dictionary (.checkedKey (.leaf (.keyOf o {}))) (.ofType .value)

namespace Definitions

variable {defs : Definitions} {x : Value}

theorem accepts_ofType_value (x : Value) : defs.Accepts (.ofType .value) x :=
  accepts_leaf_iff.2 ⟨x, by simp [Leaf.judge, ValueType.narrow?, ValueType.holds]⟩

theorem accepts_keyOf_iff {o : Object} {options : KeyOptions} {key : PropertyKey} :
    defs.Accepts (.checkedKey (.leaf (.keyOf o options))) key.toValue ↔
      o.hasKey options.ownOnly key = true := by
  have hrun (bound : Nat) :
      defs.run bound (.checkedKey (.leaf (.keyOf o options))) key.toValue =
        .ensure (o.hasKey options.ownOnly key) (Complaint.notKey key).reason key.toValue := by
    simp [Validator.checkedKey, Validator.ofType, Leaf.judge, ValueType.narrow?,
      Outcome.ofOption]
  exact accepts_iff_of_ensure hrun

theorem accepts_keysAmong_iff {o p : Object} :
    defs.Accepts (.keysAmong o) (.object p) ↔ ∀ key ∈ p.ownKeys, o.hasOwn key = true := by
  simp only [Validator.keysAmong, accepts_dictionary_iff, entryPasses_iff, accepts_keyOf_iff,
    accepts_ofType_value, and_true, Object.hasKey, if_true]

end Definitions

/-! ## Enumeration and lookup -/

/-- Own keys are found again if the indices of the object keep to the limit, and only then or if the
indices beyond it were put into the table. Then each has a value, and the object passes for one
whose keys are among its own. The keys that an ordinary object shows in a document are always
found. -/
theorem Object.ownKeys_exist_iff (o : Object) (defs : Definitions) :
    (o.kind.indexCount ≤ PropertyKey.indexLimit → o.Indexed) ∧
      (o.Indexed ↔ ∀ key ∈ o.ownKeys, o.hasOwn key = true ∧ ∃ x, o.getOwn key = some x) ∧
      (o.Indexed ↔ defs.Accepts (.keysAmong o) (.object o)) ∧
      (o.kind = .ordinary → ∃ members, o.toJson = .object members ∧
        List.Forall₂ (fun key member => key = .text member.1 ∧
            ∃ x, o.getOwn key = some x ∧ member.2 = x.toJson)
          (o.ownKeys.filter fun key => !key.isSymbol) members) := by
  refine ⟨indexed_of_indexCount_le, ⟨fun h => ?_, fun h => ?_⟩, ?_, toJson_of_ordinary⟩
  · exact fun key hkey => ⟨indexed_iff_hasOwn.1 h key hkey, h.exists_getOwn hkey⟩
  · exact indexed_iff_hasOwn.2 fun key hkey => (h key hkey).1
  · rw [indexed_iff_hasOwn, Definitions.accepts_keysAmong_iff]

/-! ## An object with one index too many -/

namespace Object

variable {length i : Nat}

/-- The object in the place of a text of the given length. -/
def ofLength (length : Nat) : Object :=
  (Value.string (String.ofList (List.replicate length 'a'))).toObject

theorem indexCount_ofLength (length : Nat) : (ofLength length).kind.indexCount = length := by
  simp [ofLength, Value.toObject, ofKind, ObjectKind.indexCount]

theorem mem_ownKeys_ofLength (h : i < length) : .ofIndex i ∈ (ofLength length).ownKeys := by
  rw [mem_ownKeys_iff, indexCount_ofLength]
  exact .inl ⟨i, h, rfl⟩

theorem hasOwn_ofLength_indexLimit (length : Nat) :
    (ofLength length).hasOwn (.ofIndex PropertyKey.indexLimit) = false := by
  rw [Bool.eq_false_iff, Ne, hasOwn_ofIndex_iff]
  rintro (⟨hlt, -⟩ | htable)
  · exact Nat.lt_irrefl _ hlt
  · cases htable

theorem getOwn_ofLength_indexLimit (length : Nat) :
    (ofLength length).getOwn (.ofIndex PropertyKey.indexLimit) = none := by
  have hown := hasOwn_ofLength_indexLimit length
  rwa [hasOwn_eq_isSome_getOwn, Option.isSome_eq_false_iff, Option.isNone_iff_eq_none] at hown

theorem exists_scalar_of_getOwn_ofLength {key : PropertyKey} {x : Value}
    (h : (ofLength length).getOwn key = some x) : ∃ s, x = .scalar s := by
  rw [ofLength, Value.toObject, getOwn_ofKind] at h
  rcases ObjectKind.slot?_cases h with hscalar | ⟨elements, hkind, -⟩
  · exact hscalar
  · cases hkind

/-- The limit is the last own key of a text with one character more than there are indices, but
nothing is found under it. -/
theorem ownKeys_not_exist :
    let o := ofLength (PropertyKey.indexLimit + 1)
    let key := PropertyKey.ofIndex PropertyKey.indexLimit
    key ∈ o.ownKeys ∧ o.hasOwn key = false ∧ o.getOwn key = none ∧
      ¬ Definitions.Accepts [] (.keysAmong o) (.object o) := by
  intro o key
  have hkey : key ∈ o.ownKeys := mem_ownKeys_ofLength (Nat.lt_succ_self _)
  have hown : o.hasOwn key = false := hasOwn_ofLength_indexLimit _
  refine ⟨hkey, hown, getOwn_ofLength_indexLimit _, ?_⟩
  rw [Definitions.accepts_keysAmong_iff]
  intro h
  rw [h key hkey] at hown
  cases hown

end Object

end Narrowing
