-- SUMMARY: Parts that validators look at, the depth of values, and the agreement of presence and lookup.
import Narrowing.Object

/-!
# Values inside values

What a value hands to the validators of its parts: the values of its properties, its own keys with
the values under them, and its elements (`Value.Yields`). All of these are nested less deeply than
the value, the inherited ones as well (`Value.Yields.depth_lt`).

A key is there exactly if a value is found under it (`Object.hasKey_eq_isSome_find?`).
-/

namespace Narrowing

/-- Looking into a value gives another one. -/
inductive Value.Yields : Value → Value → Prop
  | property {o : Object} {ownOnly : Bool} {key : PropertyKey} {y : Value}
      (hy : o.find? ownOnly key = some y) : Yields (.object o) y
  | key {o : Object} {key : PropertyKey} (hkey : key ∈ o.ownKeys) : Yields (.object o) key.toValue
  | entry {o : Object} {key : PropertyKey} (hkey : key ∈ o.ownKeys) :
      Yields (.object o) ((o.getOwn key).getD .undefined)
  | element {x y : Value} {elements : List Value} (hx : x.elements? = some elements)
      (hy : y ∈ elements) : Yields x y

/-! ## Presence -/

namespace Object

theorem hasOwn_eq_isSome_getOwn (o : Object) (key : PropertyKey) :
    o.hasOwn key = (o.getOwn key).isSome := by
  rw [Bool.eq_iff_iff, hasOwn, getOwn, Bool.or_eq_true]
  cases o.kind.slot? key with
  | some x => simp
  | none => simp

theorem has_eq_isSome_get (o : Object) (key : PropertyKey) :
    o.has key = (o.get key).isSome := by
  rw [Bool.eq_iff_iff, has, get, List.any_eq_true, List.findSome?_isSome_iff]
  simp only [hasOwn_eq_isSome_getOwn]

theorem hasKey_eq_isSome_find? (o : Object) (ownOnly : Bool) (key : PropertyKey) :
    o.hasKey ownOnly key = (o.find? ownOnly key).isSome := by
  cases ownOnly with
  | true => exact hasOwn_eq_isSome_getOwn o key
  | false => exact has_eq_isSome_get o key

theorem chain_eq (o : Object) : o.chain = o :: (o.prototype.map chain).getD [] := by
  rcases o with ⟨i, kind, ps, _ | prototype, c⟩ <;> simp [chain]

end Object

/-! ## Depth -/

@[simp] theorem Value.depth_object (o : Object) : (Value.object o).depth = o.depth := by
  simp only [Value.depth]

@[simp] theorem Value.depth_scalar (s : Scalar) : (Value.scalar s).depth = 0 := by
  simp only [Value.depth]

@[simp] theorem Value.depth_undefined : Value.undefined.depth = 0 := by
  simp only [Value.depth]

@[simp] theorem PropertyKey.depth_toValue (key : PropertyKey) : key.toValue.depth = 0 := by
  cases key <;> simp [toValue]

theorem depth_le_depthOfElements {x : Value} {elements : List Value} (h : x ∈ elements) :
    x.depth ≤ depthOfElements elements := by
  induction elements with
  | nil => cases h
  | cons y rest ih =>
    rw [depthOfElements]
    rcases List.mem_cons.1 h with rfl | h
    · exact Nat.le_max_left ..
    · exact Nat.le_trans (ih h) (Nat.le_max_right ..)

theorem depth_le_depthOfEntries {key : PropertyKey} {x : Value}
    {entries : List (PropertyKey × Value)} (h : entries.lookup key = some x) :
    x.depth ≤ depthOfEntries entries := by
  induction entries with
  | nil => cases h
  | cons entry rest ih =>
    rw [depthOfEntries]
    rw [List.lookup_cons] at h
    split at h
    · cases h
      exact Nat.le_max_left ..
    · exact Nat.le_trans (ih h) (Nat.le_max_right ..)

namespace ObjectKind

variable {kind : ObjectKind} {x : Value}

theorem named?_eq_scalar {name : String} (h : kind.named? name = some x) : ∃ s, x = .scalar s := by
  cases kind with
  | ordinary => cases h
  | array elements =>
    simp only [named?, Option.ite_none_right_eq_some, Option.some.injEq] at h
    exact ⟨_, h.2.symm⟩
  | function title arity =>
    simp only [named?] at h
    split at h
    · cases h
      exact ⟨_, rfl⟩
    · simp only [Option.ite_none_right_eq_some, Option.some.injEq] at h
      exact ⟨_, h.2.symm⟩
  | wrapper s =>
    cases s with
    | string text =>
      simp only [named?, Option.ite_none_right_eq_some, Option.some.injEq] at h
      exact ⟨_, h.2.symm⟩
    | _ => cases h

theorem indexed?_cases {index : Nat} (h : kind.indexed? index = some x) :
    (∃ s, x = .scalar s) ∨ ∃ elements, kind = .array elements ∧ x ∈ elements := by
  cases kind with
  | ordinary => cases h
  | array elements => exact .inr ⟨elements, rfl, List.mem_of_getElem? h⟩
  | function title arity => cases h
  | wrapper s =>
    cases s with
    | string text =>
      obtain ⟨c, -, rfl⟩ := Option.map_eq_some_iff.1 h
      exact .inl ⟨_, rfl⟩
    | _ => cases h

/-- What comes with a kind under a key is a scalar or an element. -/
theorem slot?_cases {key : PropertyKey} (h : kind.slot? key = some x) :
    (∃ s, x = .scalar s) ∨ ∃ elements, kind = .array elements ∧ x ∈ elements := by
  cases key with
  | symbol name => cases h
  | text name =>
    simp only [slot?] at h
    split at h
    · next y hnamed =>
      cases h
      exact .inl (named?_eq_scalar hnamed)
    · obtain ⟨index, -, hindexed⟩ := Option.bind_eq_some_iff.1 h
      exact indexed?_cases hindexed

end ObjectKind

namespace Object

variable {o p : Object} {key : PropertyKey} {x : Value}

theorem depth_pos (o : Object) : 0 < o.depth := by
  rcases o with ⟨i, _ | _ | _ | _, ps, prototype, c⟩ <;> simp only [depth] <;> omega

theorem depth_lt_of_mem_elements {elements : List Value} (h : o.kind = .array elements)
    (hx : x ∈ elements) : x.depth < o.depth := by
  rcases o with ⟨i, kind, ps, prototype, c⟩
  rw [kind_mk] at h
  subst h
  have := depth_le_depthOfElements hx
  simp only [depth]
  omega

theorem depth_lt_of_lookup (h : o.properties.lookup key = some x) : x.depth < o.depth := by
  rcases o with ⟨i, kind, ps, prototype, c⟩
  have := depth_le_depthOfEntries h
  cases kind <;> simp only [depth, properties_mk] at this ⊢ <;> omega

theorem depth_prototype_lt (h : o.prototype = some p) : p.depth < o.depth := by
  rcases o with ⟨i, kind, ps, prototype, c⟩
  rw [prototype_mk] at h
  subst h
  cases kind <;> simp only [depth, depthOfPrototype] <;> omega

theorem depth_lt_of_getOwn (h : o.getOwn key = some x) : x.depth < o.depth := by
  rw [getOwn] at h
  split at h
  · next y hslot =>
    cases h
    -- A slot hides what is in the table under its key.
    rcases ObjectKind.slot?_cases hslot with ⟨s, rfl⟩ | ⟨elements, hkind, hx⟩
    · simpa using o.depth_pos
    · exact depth_lt_of_mem_elements hkind hx
  · exact depth_lt_of_lookup h

theorem depth_le_of_mem_chain (h : p ∈ o.chain) : p.depth ≤ o.depth := by
  fun_induction chain o with
  | case1 i k ps c =>
    rw [List.mem_singleton] at h
    exact Nat.le_of_eq (congrArg depth h)
  | case2 i k ps prototype c ih =>
    rcases List.mem_cons.1 h with rfl | h
    · exact Nat.le_refl _
    · have hlt : prototype.depth < (mk i k ps (some prototype) c).depth := depth_prototype_lt rfl
      exact Nat.le_trans (ih h) (Nat.le_of_lt hlt)

theorem depth_lt_of_find? {ownOnly : Bool} (h : o.find? ownOnly key = some x) :
    x.depth < o.depth := by
  cases ownOnly with
  | true => exact depth_lt_of_getOwn h
  | false =>
    -- The property is an own one of a prototype, which is nested no more deeply.
    obtain ⟨p, hp, hx⟩ := List.exists_of_findSome?_eq_some h
    exact Nat.lt_of_lt_of_le (depth_lt_of_getOwn hx) (depth_le_of_mem_chain hp)

end Object

theorem Value.elements?_eq_some_iff {x : Value} {elements : List Value} :
    x.elements? = some elements ↔ ∃ o, x = .object o ∧ o.kind = .array elements := by
  constructor
  · intro h
    match x, h with
    | .object (.mk i (.array _) ps prototype c), h =>
      cases h
      exact ⟨_, rfl, rfl⟩
  · rintro ⟨⟨i, kind, ps, prototype, c⟩, rfl, rfl⟩
    rfl

theorem Value.Yields.eq_object {x y : Value} (h : x.Yields y) : ∃ o, x = .object o := by
  cases h with
  | property | key | entry => exact ⟨_, rfl⟩
  | element hx _ =>
    obtain ⟨o, rfl, -⟩ := Value.elements?_eq_some_iff.1 hx
    exact ⟨o, rfl⟩

theorem Value.Yields.not_isPrimitive {x y : Value} (h : x.Yields y) : x.isPrimitive ≠ true := by
  obtain ⟨o, rfl⟩ := h.eq_object
  simp [isPrimitive, isObject, object?]

/-- What a value yields is nested less deeply than the value. -/
theorem Value.Yields.depth_lt {x y : Value} (h : x.Yields y) : y.depth < x.depth := by
  cases h with
  | property hy => simpa using Object.depth_lt_of_find? hy
  | @key o key _ => simpa using o.depth_pos
  | @entry o key _ =>
    cases hy : o.getOwn key with
    | none => simpa using o.depth_pos
    | some y => simpa using Object.depth_lt_of_getOwn hy
  | element hx hy =>
    obtain ⟨o, rfl, hkind⟩ := Value.elements?_eq_some_iff.1 hx
    simpa using Object.depth_lt_of_mem_elements hkind hy

/-! ## Objects that stand in for values -/

namespace Object

variable {identity : Identity} {kind : ObjectKind}

@[simp] theorem getOwn_ofKind (key : PropertyKey) :
    (ofKind identity kind).getOwn key = kind.slot? key := by
  cases h : kind.slot? key <;> simp [ofKind, getOwn, h]

@[simp] theorem find?_ofKind (ownOnly : Bool) (key : PropertyKey) :
    (ofKind identity kind).find? ownOnly key = kind.slot? key := by
  cases ownOnly with
  | true => exact getOwn_ofKind key
  | false =>
    have hget : (ofKind identity kind).getOwn key = kind.slot? key := getOwn_ofKind key
    simp only [ofKind] at hget
    cases h : kind.slot? key <;> simp [find?, get, ofKind, chain, hget, h]

@[simp] theorem ownKeys_ofKind :
    (ofKind identity kind).ownKeys = (List.range kind.indexCount).map PropertyKey.ofIndex := by
  simp [ofKind, ownKeys, indicesOf]

end Object

@[simp] theorem ObjectKind.slot?_ordinary (key : PropertyKey) : ordinary.slot? key = none := by
  cases key <;> simp [slot?, named?, indexed?]

/-- What comes with a text: numbers, its characters and the keys of the characters. -/
inductive Value.CutFrom (text : String) : Value → Prop
  | undefined : CutFrom text .undefined
  | number (n : Binary64) : CutFrom text (.number n)
  | character {c : Char} (hc : c ∈ text.toList) : CutFrom text (.string (.singleton c))
  | index {i : Nat} (hi : i < text.toList.length) : CutFrom text (PropertyKey.ofIndex i).toValue

/-- The object that stands in for a scalar has properties if the scalar is a string. -/
theorem ObjectKind.slot?_wrapper {s : Scalar} {key : PropertyKey} {x : Value}
    (h : (wrapper s).slot? key = some x) : ∃ text, s = .string text ∧ x.CutFrom text := by
  cases key with
  | symbol name => cases h
  | text name =>
    cases s with
    | string text =>
      refine ⟨text, rfl, ?_⟩
      simp only [slot?, named?] at h
      -- The slots of a boxed string are its length and its characters.
      by_cases hname : name = "length"
      · simp only [hname, if_true, Option.some.injEq] at h
        exact h ▸ .number _
      · simp only [hname, if_false] at h
        obtain ⟨index, -, hindexed⟩ := Option.bind_eq_some_iff.1 h
        obtain ⟨c, hc, rfl⟩ := Option.map_eq_some_iff.1 hindexed
        exact .character (List.mem_of_getElem? hc)
    | _ =>
      obtain ⟨index, -, hindexed⟩ := Option.bind_eq_some_iff.1 h
      cases hindexed

theorem ObjectKind.lt_indexCount_wrapper {s : Scalar} {i : Nat}
    (h : i < (wrapper s).indexCount) : ∃ text, s = .string text ∧ i < text.toList.length := by
  cases s with
  | string text => exact ⟨text, rfl, h⟩
  | _ => cases h

namespace Value

variable {x y : Value} {key : PropertyKey}

theorem cutFrom_of_find? {ownOnly : Bool} (hx : x.isPrimitive = true)
    (h : x.toObject.find? ownOnly key = some y) : ∃ text, x = .string text ∧ y.CutFrom text := by
  cases x with
  | undefined | null => simp [toObject] at h
  | scalar s =>
    rw [toObject, Object.find?_ofKind] at h
    obtain ⟨text, rfl, hcut⟩ := ObjectKind.slot?_wrapper h
    exact ⟨text, rfl, hcut⟩
  | object o => cases hx

theorem cutFrom_of_mem_ownKeys (hx : x.isPrimitive = true) (h : key ∈ x.toObject.ownKeys) :
    ∃ text, x = .string text ∧ key.toValue.CutFrom text := by
  cases x with
  | undefined | null => simp [toObject, ObjectKind.indexCount] at h
  | scalar s =>
    rw [toObject, Object.ownKeys_ofKind] at h
    obtain ⟨i, hi, rfl⟩ := List.mem_map.1 h
    obtain ⟨text, rfl, hlt⟩ := ObjectKind.lt_indexCount_wrapper (List.mem_range.1 hi)
    exact ⟨text, rfl, .index hlt⟩
  | object o => cases hx

theorem elements?_toObject (hx : x.isPrimitive = true) :
    (Value.object x.toObject).elements? = none := by
  cases x with
  | object o => cases hx
  | _ => rfl

/-- The object that stands in for a value yields something if the value is a string. -/
theorem Yields.of_toObject (hx : x.isPrimitive = true) (h : (Value.object x.toObject).Yields y) :
    ∃ text, x = .string text ∧ y.CutFrom text := by
  generalize hboxed : Value.object x.toObject = boxed at h
  cases h with
  | property hy =>
    cases hboxed
    exact cutFrom_of_find? hx hy
  | key hkey =>
    cases hboxed
    exact cutFrom_of_mem_ownKeys hx hkey
  | @entry o key hkey =>
    cases hboxed
    -- A key with nothing under it counts as having undefined there.
    cases hy : x.toObject.getOwn key with
    | none =>
      obtain ⟨text, rfl, -⟩ := cutFrom_of_mem_ownKeys hx hkey
      exact ⟨text, rfl, .undefined⟩
    | some y =>
      have hfind : x.toObject.find? true key = some y := hy
      exact cutFrom_of_find? hx hfind
  | element helements _ =>
    cases hboxed
    rw [elements?_toObject hx] at helements
    cases helements

end Value

end Narrowing
