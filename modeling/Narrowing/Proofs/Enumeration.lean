-- SUMMARY: Own keys and lookups of objects built by a sequence of settings, slots included.
import Narrowing.Proofs.InsertionOrder

/-!
# Slots over a table

An object that was built by setting properties has its slots, and under any other key what the key
was last set to. Its table keeps the keys in the order in which they were first set. The own keys
are all indices in ascending order, those of slots among those of the table, then the other texts
of the table and then its symbols (`Object.built_own_properties`).

Named slots are left out, as long as no property was set under the same name
(`Object.slotName_enumerated_iff`).
-/

namespace Narrowing

/-! ## The order of first settings -/

theorem eraseDups_concat (keys : List PropertyKey) (key : PropertyKey) :
    (keys ++ [key]).eraseDups =
      if key ∈ keys then keys.eraseDups else keys.eraseDups ++ [key] := by
  rw [List.eraseDups_append]
  by_cases h : key ∈ keys <;> simp [List.removeAll, List.eraseDups_cons, h]

/-- The keys that are set, in the order in which each is set first. -/
def firstSettings (calls : List (PropertyKey × Value)) : List PropertyKey :=
  (calls.map Prod.fst).eraseDups

theorem mem_firstSettings {calls : List (PropertyKey × Value)} {key : PropertyKey} :
    key ∈ firstSettings calls ↔ key ∈ calls.map Prod.fst :=
  List.mem_eraseDups

theorem firstSettings_concat (calls : List (PropertyKey × Value)) (call : PropertyKey × Value) :
    firstSettings (calls ++ [call]) =
      if call.1 ∈ firstSettings calls then firstSettings calls
      else firstSettings calls ++ [call.1] := by
  simp only [mem_firstSettings]
  unfold firstSettings
  rw [List.map_append]
  exact eraseDups_concat (calls.map Prod.fst) call.1

theorem nodup_firstSettings (calls : List (PropertyKey × Value)) : (firstSettings calls).Nodup := by
  induction calls using List.reverseRecOn with
  | nil => exact .nil
  | append_singleton calls call ih =>
    rw [firstSettings_concat]
    split
    · exact ih
    · next hnew =>
      apply List.nodup_append.2
      refine ⟨ih, List.nodup_singleton _, ?_⟩
      intro key hkey other hother
      cases List.mem_singleton.1 hother
      rintro rfl
      exact hnew hkey

namespace Object

variable {identity : Identity} {kind : ObjectKind} {calls : List (PropertyKey × Value)}
  {prototype : Option Object} {classOf : Option Class} {key : PropertyKey}

/-- Setting a key leaves the keys of a table as they are, but for a new one at the end. -/
theorem map_fst_setEntry (key : PropertyKey) (x : Value) (properties : List (PropertyKey × Value)) :
    (setEntry key x properties).map Prod.fst =
      if key ∈ properties.map Prod.fst then properties.map Prod.fst
      else properties.map Prod.fst ++ [key] := by
  induction properties with
  | nil => rfl
  | cons entry rest ih =>
    unfold setEntry
    by_cases hkey : entry.1 = key
    · simp [hkey]
    · have hne : key ≠ entry.1 := fun h => hkey h.symm
      rw [if_neg hkey, List.map_cons, ih]
      by_cases hrest : key ∈ rest.map Prod.fst
      · have hmem : key ∈ entry.1 :: rest.map Prod.fst := List.mem_cons_of_mem _ hrest
        rw [if_pos hrest, List.map_cons, if_pos hmem]
      · have hmem : key ∉ entry.1 :: rest.map Prod.fst := by simp [hne, hrest]
        rw [if_neg hrest, List.map_cons, if_neg hmem, List.cons_append]

theorem map_fst_setEntries (calls : List (PropertyKey × Value)) :
    (setEntries [] calls).map Prod.fst = firstSettings calls := by
  induction calls using List.reverseRecOn with
  | nil => rfl
  | append_singleton calls call ih =>
    have hstep : setEntries [] (calls ++ [call]) = setEntry call.1 call.2 (setEntries [] calls) :=
      List.foldl_append ..
    rw [hstep, map_fst_setEntry, ih, firstSettings_concat]

/-! ## Objects built by settings -/

@[simp] theorem kind_built : (built identity kind calls prototype classOf).kind = kind := by
  unfold built
  rw [setProperties_eq, kind_mk, kind_mk]

@[simp] theorem map_fst_properties_built :
    (built identity kind calls prototype classOf).properties.map Prod.fst =
      firstSettings calls := by
  unfold built
  rw [setProperties_eq, properties_mk, properties_mk, map_fst_setEntries]

theorem getOwn_built (key : PropertyKey) :
    (built identity kind calls prototype classOf).getOwn key =
      (kind.slot? key).or (lastSetting? calls key) := by
  unfold built getOwn lastSetting?
  rw [setProperties_eq]
  cases h : kind.slot? key <;> simp [h, lookup_setEntries]

/-! ## Ascending indices -/

theorem pairwise_insertAscending {i : Nat} {l : List Nat} (h : l.Pairwise (· < ·)) :
    (insertAscending i l).Pairwise (· < ·) := by
  induction h with
  | nil => exact List.pairwise_singleton ..
  | @cons j rest hj hrest ih =>
    unfold insertAscending
    -- The new index comes before `j`, is `j` itself, or comes somewhere behind.
    split
    · next hlt =>
      apply List.pairwise_cons.2
      refine ⟨?_, .cons hj hrest⟩
      intro k hk
      rcases List.mem_cons.1 hk with rfl | hk
      · exact hlt
      · exact Nat.lt_trans hlt (hj k hk)
    · next hge =>
      split
      · exact .cons hj hrest
      · next hne =>
        refine .cons ?_ ih
        intro k hk
        rcases mem_insertAscending.1 hk with rfl | hk
        · omega
        · exact hj k hk

theorem pairwise_indicesOf (bound : Nat) (keys : List PropertyKey) :
    (indicesOf bound keys).Pairwise (· < ·) := by
  unfold indicesOf
  induction keys.filterMap PropertyKey.arrayIndex? with
  | nil => exact List.pairwise_lt_range
  | cons j rest ih => exact pairwise_insertAscending ih

/-- The own keys of an object without indices beyond the limit differ from each other, if those of
its table do. -/
theorem nodup_ownKeys {o : Object} (hcount : o.kind.indexCount ≤ PropertyKey.indexLimit)
    (htable : (o.properties.map Prod.fst).Nodup) : o.ownKeys.Nodup := by
  have hindices : (indicesOf o.kind.indexCount (o.properties.map Prod.fst)).Nodup :=
    (pairwise_indicesOf ..).imp Nat.ne_of_lt
  -- Every index listed is below the limit, so its key is no plain text.
  have hlimit : ∀ i ∈ indicesOf o.kind.indexCount (o.properties.map Prod.fst),
      (PropertyKey.ofIndex i).arrayIndex? = some i := by
    intro i hi
    rcases mem_indicesOf_iff.1 hi with hlt | ⟨key, -, hkey⟩
    · exact PropertyKey.arrayIndex?_eq_some_iff.2 ⟨rfl, Nat.lt_of_lt_of_le hlt hcount⟩
    · obtain ⟨rfl, -⟩ := PropertyKey.arrayIndex?_eq_some_iff.1 hkey
      exact hkey
  unfold ownKeys
  apply List.nodup_append.2
  refine ⟨hindices.map PropertyKey.ofIndex_injective, ?_, ?_⟩
  · apply List.nodup_append.2
    refine ⟨htable.filter _, htable.filter _, ?_⟩
    -- A text is no symbol.
    rintro key htext _ hsymbol rfl
    have htext := (List.mem_filter.1 htext).2
    have hsymbol := (List.mem_filter.1 hsymbol).2
    cases key with
    | text name => cases hsymbol
    | symbol s => cases htext
  · rintro _ hindex key hother rfl
    obtain ⟨i, hi, rfl⟩ := List.mem_map.1 hindex
    rcases List.mem_append.1 hother with htext | hsymbol
    · have htext := (List.mem_filter.1 htext).2
      simp [isPlainText, hlimit i hi] at htext
    · cases (List.mem_filter.1 hsymbol).2

end Object

/-! ## Keys of slots -/

namespace ObjectKind

variable {kind : ObjectKind} {key : PropertyKey}

/-- The names under which values other than those under index keys come with a kind. -/
def slotNames : ObjectKind → List String
  | .array _ | .wrapper (.string _) => ["length"]
  | .function _ _ => ["name", "length"]
  | .ordinary | .wrapper _ => []

theorem isSome_named?_iff {name : String} :
    (kind.named? name).isSome = true ↔ name ∈ kind.slotNames := by
  cases kind with
  | ordinary => simp [named?, slotNames]
  | array elements => simp [named?, slotNames]
  | function title arity =>
    unfold named? slotNames
    by_cases hname : name = "name" <;> simp [hname]
  | wrapper s => cases s <;> simp [named?, slotNames]

theorem eq_of_mem_slotNames {name : String} (h : name ∈ kind.slotNames) :
    name = "length" ∨ name = "name" := by
  cases kind with
  | ordinary => cases h
  | array elements => exact .inl (List.mem_singleton.1 h)
  | function title arity => simpa [slotNames, or_comm] using h
  | wrapper s =>
    cases s with
    | string s => exact .inl (List.mem_singleton.1 h)
    | _ => cases h

theorem slot?_text (kind : ObjectKind) (name : String) :
    kind.slot? (.text name) =
      (kind.named? name).or ((PropertyKey.text name).arrayIndex?.bind kind.indexed?) := by
  cases h : kind.named? name <;> simp [slot?, h]

/-- What comes with a kind comes under its names and under index keys. -/
theorem isSome_slot?_iff :
    (kind.slot? key).isSome = true ↔
      (∃ name ∈ kind.slotNames, key = .text name) ∨
        ∃ i, i < PropertyKey.indexLimit ∧ i < kind.indexCount ∧ key = .ofIndex i := by
  constructor
  · intro h
    cases key with
    | symbol s => cases h
    | text name =>
      rw [slot?_text, Option.isSome_or, Bool.or_eq_true] at h
      rcases h with hnamed | hindexed
      · exact .inl ⟨name, isSome_named?_iff.1 hnamed, rfl⟩
      · obtain ⟨x, hx⟩ := Option.isSome_iff_exists.1 hindexed
        obtain ⟨i, hindex, hx⟩ := Option.bind_eq_some_iff.1 hx
        obtain ⟨hkey, hlimit⟩ := PropertyKey.arrayIndex?_eq_some_iff.1 hindex
        have hsome : (kind.indexed? i).isSome = true := by rw [hx]; rfl
        exact .inr ⟨i, hlimit, isSome_indexed?_iff.1 hsome, hkey⟩
  · rintro (⟨name, hname, rfl⟩ | ⟨i, hlimit, hcount, rfl⟩)
    · rw [slot?_text, Option.isSome_or, isSome_named?_iff.2 hname, Bool.true_or]
    · rw [slot?_ofIndex, if_pos hlimit]
      exact isSome_indexed?_iff.2 hcount

end ObjectKind

namespace Object

variable {identity : Identity} {kind : ObjectKind} {calls : List (PropertyKey × Value)}
  {prototype : Option Object} {classOf : Option Class} {key : PropertyKey} {name : String}

theorem ofIndex_ne_slotName (i : Nat) :
    PropertyKey.ofIndex i ≠ .text "length" ∧ PropertyKey.ofIndex i ≠ .text "name" := by
  constructor
  · intro h
    exact PropertyKey.ne_ofIndex_of_mem (c := 'l') (by decide) rfl i (PropertyKey.text.inj h).symm
  · intro h
    exact PropertyKey.ne_ofIndex_of_mem (c := 'n') (by decide) rfl i (PropertyKey.text.inj h).symm

theorem mem_ownKeys_built_iff :
    key ∈ (built identity kind calls prototype classOf).ownKeys ↔
      (∃ i < kind.indexCount, key = .ofIndex i) ∨ key ∈ calls.map Prod.fst := by
  rw [mem_ownKeys_iff, kind_built, map_fst_properties_built, mem_firstSettings]

theorem hasOwn_iff {o : Object} :
    o.hasOwn key = true ↔ (o.kind.slot? key).isSome = true ∨ key ∈ o.properties.map Prod.fst := by
  unfold hasOwn
  simp

theorem hasOwn_built_iff :
    (built identity kind calls prototype classOf).hasOwn key = true ↔
      (kind.slot? key).isSome = true ∨ key ∈ calls.map Prod.fst := by
  rw [hasOwn_iff, kind_built, map_fst_properties_built, mem_firstSettings]

theorem mem_indices_built_iff (hcount : kind.indexCount ≤ PropertyKey.indexLimit) {i : Nat} :
    i ∈ indicesOf kind.indexCount (firstSettings calls) ↔
      i < PropertyKey.indexLimit ∧
        ((kind.slot? (.ofIndex i)).isSome = true ∨ .ofIndex i ∈ calls.map Prod.fst) := by
  rw [mem_indicesOf_iff, ← mem_firstSettings]
  constructor
  · rintro (hlt | ⟨key, hkey, hindex⟩)
    · have hlimit := Nat.lt_of_lt_of_le hlt hcount
      exact ⟨hlimit, .inl (ObjectKind.isSome_slot?_iff.2 (.inr ⟨i, hlimit, hlt, rfl⟩))⟩
    · obtain ⟨rfl, hlimit⟩ := PropertyKey.arrayIndex?_eq_some_iff.1 hindex
      exact ⟨hlimit, .inr hkey⟩
  · rintro ⟨hlimit, hslot | hset⟩
    · rw [ObjectKind.slot?_ofIndex, if_pos hlimit] at hslot
      exact .inl (ObjectKind.isSome_indexed?_iff.1 hslot)
    · exact .inr ⟨_, hset, PropertyKey.arrayIndex?_eq_some_iff.2 ⟨rfl, hlimit⟩⟩

/-- What is own is enumerated, but for a named slot that nothing was set under. -/
theorem mem_ownKeys_built_iff_hasOwn (hcount : kind.indexCount ≤ PropertyKey.indexLimit) :
    key ∈ (built identity kind calls prototype classOf).ownKeys ↔
      (built identity kind calls prototype classOf).hasOwn key = true ∧
        (key ∈ calls.map Prod.fst ∨ key ≠ .text "length" ∧ key ≠ .text "name") := by
  rw [mem_ownKeys_built_iff, hasOwn_built_iff]
  constructor
  · rintro (⟨i, hi, rfl⟩ | hset)
    · have hlimit := Nat.lt_of_lt_of_le hi hcount
      have hslot := ObjectKind.isSome_slot?_iff.2 (.inr ⟨i, hlimit, hi, rfl⟩)
      exact ⟨.inl hslot, .inr (ofIndex_ne_slotName i)⟩
    · exact ⟨.inr hset, .inl hset⟩
  · rintro ⟨hslot | hset, hshown⟩
    · rcases ObjectKind.isSome_slot?_iff.1 hslot with ⟨name, hmem, rfl⟩ | ⟨i, -, hi, rfl⟩
      · -- A named slot is called one of the two names, so something was set under it.
        refine .inr (hshown.resolve_right ?_)
        rintro ⟨hlength, hname⟩
        rcases ObjectKind.eq_of_mem_slotNames hmem with rfl | rfl
        · exact hlength rfl
        · exact hname rfl
      · exact .inl ⟨i, hi, rfl⟩
    · exact .inr hset

/-! ## Objects as slots over a table -/

/-- An object that is built by setting properties, with no indices beyond the limit, has its slots
and under any other key what the key was last set to. It is enumerated without repetitions: all
indices of slots and of set keys in ascending order, then the other texts that were set, then the
symbols, both in the order in which they were first set. Only a named slot that nothing was set
under is own without being enumerated. -/
theorem built_own_properties (identity : Identity) (kind : ObjectKind)
    (calls : List (PropertyKey × Value)) (prototype : Option Object) (classOf : Option Class)
    (hcount : kind.indexCount ≤ PropertyKey.indexLimit) :
    let o := built identity kind calls prototype classOf
    (∀ key, o.getOwn key = (kind.slot? key).or (lastSetting? calls key)) ∧
      o.ownKeys.Nodup ∧
      (∃ indices : List Nat, indices.Pairwise (· < ·) ∧
        (∀ i, i ∈ indices ↔ i < PropertyKey.indexLimit ∧
          ((kind.slot? (.ofIndex i)).isSome = true ∨ .ofIndex i ∈ calls.map Prod.fst)) ∧
        o.ownKeys = indices.map PropertyKey.ofIndex ++
          ((firstSettings calls).filter isPlainText ++
            (firstSettings calls).filter PropertyKey.isSymbol)) ∧
      ∀ key, key ∈ o.ownKeys ↔
        o.hasOwn key = true ∧
          (key ∈ calls.map Prod.fst ∨ key ≠ .text "length" ∧ key ≠ .text "name") := by
  intro o
  have hkeys : o.properties.map Prod.fst = firstSettings calls := map_fst_properties_built
  have hkind : o.kind.indexCount ≤ PropertyKey.indexLimit := by simpa [o] using hcount
  refine ⟨getOwn_built, ?_, ?_, fun key => mem_ownKeys_built_iff_hasOwn hcount⟩
  · apply nodup_ownKeys hkind
    rw [hkeys]
    exact nodup_firstSettings calls
  · refine ⟨indicesOf kind.indexCount (firstSettings calls), pairwise_indicesOf ..,
      fun i => mem_indices_built_iff hcount, ?_⟩
    unfold ownKeys
    simp only [hkeys, o, kind_built]

/-- Keys of all sorts, one of them set twice and one a slot of an array of two elements. -/
def mixedCalls : List (PropertyKey × Value) :=
  [(.text "b", .null), (.symbol ⟨0, none⟩, .null), (.text "07", .null), (.text "10", .null),
    (.text "1", .undefined), (.text "b", .string "last"), (.text "length", .null),
    (.text "2", .null)]

theorem mixedCalls_own_properties :
    let kind := ObjectKind.array [.null, .string "one"]
    let o := built (.made []) kind mixedCalls none none
    kind.indexCount ≤ PropertyKey.indexLimit ∧
      o.getOwn (.text "1") = some (.string "one") ∧ o.getOwn (.text "b") = some (.string "last") ∧
      o.ownKeys.Nodup ∧
      ∃ indices : List Nat, indices.Pairwise (· < ·) ∧ 1 ∈ indices ∧ 10 ∈ indices ∧ 7 ∉ indices ∧
        o.ownKeys = indices.map PropertyKey.ofIndex ++
          [.text "b", .text "07", .text "length", .symbol ⟨0, none⟩] := by
  intro kind o
  have hcount : kind.indexCount ≤ PropertyKey.indexLimit := by decide
  obtain ⟨hget, hnodup, ⟨indices, hascending, hmem, hkeys⟩, -⟩ :=
    built_own_properties (.made []) kind mixedCalls none none hcount
  refine ⟨hcount, (hget _).trans rfl, (hget _).trans rfl, hnodup, indices, hascending, ?_⟩
  simp only [hmem]
  exact ⟨by decide, by decide, by decide, hkeys⟩

-- An index in the table goes among those of the slots; a zero in front of a digit makes no index.
example :
    (built (.made []) (.array [.null, .null])
      [(.text "07", .null), (.text "10", .null), (.text "1", .null), (.text "2", .null)]
      none none).ownKeys =
      [.text "0", .text "1", .text "2", .text "10", .text "07"] := by
  rfl

end Object

/-! ## Named slots -/

/-- Objects whose own keys are all others than a name. -/
def Validator.keysBut (name : String) : Validator :=
  .dictionary (.not (.leaf (.equal (.string name)))) (.ofType .value)

namespace Definitions

variable {defs : Definitions} {x : Value} {o : Object} {name : String}

theorem rejects_equal_iff {expected : Value} :
    defs.Rejects (.leaf (.equal expected)) x ↔ x.strictEq expected = false := by
  simp [Rejects, returns_leaf_iff, Leaf.judge]

theorem accepts_keysBut_iff :
    defs.Accepts (.keysBut name) (.object o) ↔ .text name ∉ o.ownKeys := by
  have hname (key : PropertyKey) :
      key.toValue.strictEq (.string name) = false ↔ key ≠ .text name := by
    cases key <;> simp [PropertyKey.toValue, Value.strictEq, Scalar.strictEq]
  unfold Validator.keysBut
  simp only [accepts_dictionary_iff, entryPasses_iff, accepts_not_iff, rejects_equal_iff, hname,
    accepts_ofType_value, and_true]
  constructor
  · intro h hmem
    exact h _ hmem rfl
  · rintro h key hkey rfl
    exact h hkey

end Definitions

namespace Object

/-- A named slot has its value whatever is set under its name. It is enumerated if and only if
something is: then a dictionary comes to it, and a closed shape counts it among the extra keys. -/
theorem slotName_enumerated_iff (defs : Definitions) {kind : ObjectKind} {name : String}
    (hname : name ∈ kind.slotNames) (identity : Identity) (calls : List (PropertyKey × Value))
    (prototype : Option Object) (classOf : Option Class) :
    let o := built identity kind calls prototype classOf
    o.getOwn (.text name) = kind.named? name ∧
      (.text name ∈ o.ownKeys ↔ .text name ∈ calls.map Prod.fst) ∧
      (defs.Accepts (.keysBut name) (.object o) ↔ .text name ∉ calls.map Prod.fst) ∧
      ∀ defined, .text name ∈ extraKeys o defined ↔
        .text name ∈ calls.map Prod.fst ∧ .text name ∉ defined := by
  intro o
  have hown : .text name ∈ o.ownKeys ↔ .text name ∈ calls.map Prod.fst := by
    rw [mem_ownKeys_built_iff]
    refine or_iff_right ?_
    -- A name that comes with a kind is no index.
    rintro ⟨i, -, hindex⟩
    rcases ObjectKind.eq_of_mem_slotNames hname with rfl | rfl
    · exact (ofIndex_ne_slotName i).1 hindex.symm
    · exact (ofIndex_ne_slotName i).2 hindex.symm
  refine ⟨?_, hown, ?_, fun defined => ?_⟩
  · obtain ⟨x, hx⟩ := Option.isSome_iff_exists.1 (ObjectKind.isSome_named?_iff.2 hname)
    rw [getOwn_built, ObjectKind.slot?_text, hx]
    rfl
  · rw [Definitions.accepts_keysBut_iff, hown]
  · unfold extraKeys
    rw [List.mem_filter, hown]
    simp

/-- A function for which its name was set, but not its length. -/
theorem nameSet_enumerated :
    let kind := ObjectKind.function "f" 2
    let o := built (.made []) kind [(.text "name", .null)] none none
    "length" ∈ kind.slotNames ∧ "name" ∈ kind.slotNames ∧
      o.getOwn (.text "name") = some (.string "f") ∧
      .text "length" ∉ o.ownKeys ∧ .text "name" ∈ o.ownKeys := by
  intro kind o
  have hlength : "length" ∈ kind.slotNames := by simp [kind, ObjectKind.slotNames]
  have hname : "name" ∈ kind.slotNames := by simp [kind, ObjectKind.slotNames]
  obtain ⟨-, hunset, -⟩ :=
    slotName_enumerated_iff [] hlength (.made []) [(.text "name", .null)] none none
  obtain ⟨hget, hset, -⟩ :=
    slotName_enumerated_iff [] hname (.made []) [(.text "name", .null)] none none
  exact ⟨hlength, hname, hget, fun h => by simpa using hunset.1 h, hset.2 (by simp)⟩

/-- The length of an array is enumerated once a property was set under its name. A dictionary then
comes to it, and a closed shape tells it as unexpected. -/
theorem lengthSet_enumerated :
    let o := built (.made []) (.array [.null]) [(.text "length", .string "x")] none none
    .text "length" ∈ o.ownKeys ∧ ¬ Definitions.Accepts [] (.keysBut "length") (.object o) ∧
      Definitions.Returns [] (.shape [⟨.text "0", false, .ofType .value⟩] ⟨true, false, false⟩)
        (.object o) (.rejected (Complaint.extraKeys [.text "length"]).reason) := by
  intro o
  have hown : .text "length" ∈ o.ownKeys := mem_ownKeys_built_iff.2 (.inr (by simp))
  refine ⟨hown, ?_, by simp, 0, by rfl⟩
  rw [Definitions.accepts_keysBut_iff]
  exact fun h => h hown

end Object

end Narrowing
