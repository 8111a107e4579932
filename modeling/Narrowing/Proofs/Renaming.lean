-- SUMMARY: Renamings of identities on keys, values, and objects, and what they preserve.
import Mathlib.Data.List.Basic
import Narrowing.Complaint
import Narrowing.Proofs.Value

/-!
# Renaming

Objects, symbols and classes can be given new identities, different ones for different ones, with
all of their contents kept (`Renaming`). What can be seen of a value stays the same or is renamed
with it: its views, its properties in their order, its texts, and which of its parts are one and
the same. The object that stands in for a value is renamed with the value.
-/

namespace Narrowing

/-- New identities for objects, symbols and classes, different ones for different ones. -/
structure Renaming where
  paths : List Nat → List Nat
  symbols : Nat → Nat
  classes : Nat → Nat
  paths_injective : Function.Injective paths
  symbols_injective : Function.Injective symbols
  classes_injective : Function.Injective classes

variable (ρ : Renaming)

/-! ## Symbols, classes and keys -/

/-- The symbol with a new identity. -/
def Symbol.rename (s : Symbol) : Symbol where
  id := ρ.symbols s.id
  description := s.description

/-- The class with a new identity, and those above it with theirs. -/
def Class.rename : Class → Class
  | .root id name => .root (ρ.classes id) name
  | .derived id name parent => .derived (ρ.classes id) name parent.rename

/-- The key with a new identity if it is a symbol. -/
def PropertyKey.rename : PropertyKey → PropertyKey
  | .text name => .text name
  | .symbol s => .symbol (s.rename ρ)

theorem Symbol.rename_injective : Function.Injective (Symbol.rename ρ) := by
  rintro ⟨i, d⟩ ⟨j, e⟩ h
  simp only [rename, mk.injEq] at h ⊢
  exact ⟨ρ.symbols_injective h.1, h.2⟩

@[simp] theorem Symbol.text_rename (s : Symbol) : (s.rename ρ).text = s.text := rfl

namespace Class

theorem rename_injective : Function.Injective (rename ρ) := by
  intro c d h
  induction c generalizing d with
  | root i name =>
    cases d with
    | root j name' =>
      simp only [rename, root.injEq] at h ⊢
      exact ⟨ρ.classes_injective h.1, h.2⟩
    | derived j name' parent => cases h
  | derived i name parent ih =>
    cases d with
    | root j name' => cases h
    | derived j name' parent' =>
      simp only [rename, derived.injEq] at h ⊢
      exact ⟨ρ.classes_injective h.1, h.2.1, ih h.2.2⟩

@[simp] theorem name_rename (c : Class) : (c.rename ρ).name = c.name := by
  cases c <;> rfl

theorem lineage_rename (c : Class) : (c.rename ρ).lineage = c.lineage.map (rename ρ) := by
  induction c with
  | root i name => rfl
  | derived i name parent ih => rw [rename, lineage, ih, lineage, List.map_cons, rename]

/-- Classes are above one another as they were. -/
theorem isSubclassOf_rename (c d : Class) :
    (c.rename ρ).isSubclassOf (d.rename ρ) = c.isSubclassOf d := by
  rw [Bool.eq_iff_iff, isSubclassOf, isSubclassOf, lineage_rename, List.contains_iff_mem,
    List.contains_iff_mem, List.mem_map_of_injective (rename_injective ρ)]

end Class

namespace PropertyKey

theorem rename_injective : Function.Injective (rename ρ) := by
  intro k l h
  cases k with
  | text name =>
    cases l with
    | text name' => exact h
    | symbol s => cases h
  | symbol s =>
    cases l with
    | text name => cases h
    | symbol t =>
      simp only [rename, symbol.injEq] at h ⊢
      exact Symbol.rename_injective ρ h

@[simp] theorem rename_ofIndex (i : Nat) : (ofIndex i).rename ρ = ofIndex i := rfl

@[simp] theorem arrayIndex?_rename (key : PropertyKey) :
    (key.rename ρ).arrayIndex? = key.arrayIndex? := by
  cases key <;> rfl

@[simp] theorem isSymbol_rename (key : PropertyKey) : (key.rename ρ).isSymbol = key.isSymbol := by
  cases key <;> rfl

@[simp] theorem display_rename (key : PropertyKey) : (key.rename ρ).display = key.display := by
  cases key <;> rfl

end PropertyKey

@[simp] theorem Object.isPlainText_rename (key : PropertyKey) :
    isPlainText (key.rename ρ) = isPlainText key := by
  cases key <;> rfl

/-! ## Values -/

/-- The scalar with a new identity if it is a symbol. -/
def Scalar.rename : Scalar → Scalar
  | .symbol s => .symbol (s.rename ρ)
  | s => s

/-- The new identity in the place of an old one. Objects that stand in for the same value before do
so afterwards. -/
def Identity.rename : Identity → Identity
  | .made path => .made (ρ.paths path)
  | .wrapping s => .wrapping (s.rename ρ)
  | .blank => .blank

mutual

/-- The value with new identities throughout. -/
def Value.rename : Value → Value
  | .undefined => .undefined
  | .null => .null
  | .scalar s => .scalar (s.rename ρ)
  | .object o => .object o.rename

/-- The kind with new identities throughout. -/
def ObjectKind.rename : ObjectKind → ObjectKind
  | .ordinary => .ordinary
  | .array elements => .array (renameElements elements)
  | .function name arity => .function name arity
  | .wrapper s => .wrapper (s.rename ρ)

/-- The object with new identities throughout. -/
def Object.rename : Object → Object
  | .mk identity kind properties prototype classOf =>
      .mk (identity.rename ρ) kind.rename (renameEntries properties) (renamePrototype prototype)
        (classOf.map (Class.rename ρ))

/-- The elements with new identities throughout. -/
def renameElements : List Value → List Value
  | [] => []
  | x :: xs => x.rename :: renameElements xs

/-- The entries with new identities throughout. -/
def renameEntries : List (PropertyKey × Value) → List (PropertyKey × Value)
  | [] => []
  | (key, x) :: rest => (key.rename ρ, x.rename) :: renameEntries rest

/-- The prototype with new identities throughout, if there is one. -/
def renamePrototype : Option Object → Option Object
  | none => none
  | some o => some o.rename

end

/-- The entry with new identities throughout. -/
def renameEntry (entry : PropertyKey × Value) : PropertyKey × Value :=
  (entry.1.rename ρ, entry.2.rename ρ)

@[simp] theorem renameElements_eq_map (xs : List Value) :
    renameElements ρ xs = xs.map (Value.rename ρ) := by
  induction xs with
  | nil => rfl
  | cons x xs ih => rw [renameElements, ih, List.map_cons]

@[simp] theorem renameEntries_eq_map (entries : List (PropertyKey × Value)) :
    renameEntries ρ entries = entries.map (renameEntry ρ) := by
  induction entries with
  | nil => rfl
  | cons entry rest ih => rw [renameEntries, ih, List.map_cons, renameEntry]

@[simp] theorem renamePrototype_eq_map (prototype : Option Object) :
    renamePrototype ρ prototype = prototype.map (Object.rename ρ) := by
  cases prototype <;> rfl

theorem Scalar.rename_injective : Function.Injective (Scalar.rename ρ) := by
  intro s t h
  cases s with
  | symbol s =>
    cases t with
    | symbol t =>
      simp only [rename, symbol.injEq] at h ⊢
      exact Symbol.rename_injective ρ h
    | _ => cases h
  | _ =>
    cases t with
    | symbol t => cases h
    | _ => exact h

theorem Identity.rename_injective : Function.Injective (Identity.rename ρ) := by
  intro i j h
  -- A renaming keeps the kind of an identity, and on each kind it is injective.
  cases i with
  | made path =>
    cases j with
    | made path' =>
      simp only [rename, made.injEq] at h ⊢
      exact ρ.paths_injective h
    | _ => cases h
  | wrapping s =>
    cases j with
    | wrapping t =>
      simp only [rename, wrapping.injEq] at h ⊢
      exact Scalar.rename_injective ρ h
    | _ => cases h
  | blank =>
    cases j with
    | blank => rfl
    | _ => cases h

namespace Object

@[simp] theorem identity_rename (o : Object) :
    (o.rename ρ).identity = o.identity.rename ρ := by
  cases o; simp [rename]

@[simp] theorem kind_rename (o : Object) : (o.rename ρ).kind = o.kind.rename ρ := by
  cases o; simp [rename]

@[simp] theorem properties_rename (o : Object) :
    (o.rename ρ).properties = o.properties.map (renameEntry ρ) := by
  cases o; simp [rename]

@[simp] theorem classOf_rename (o : Object) :
    (o.rename ρ).classOf = o.classOf.map (Class.rename ρ) := by
  cases o; simp [rename]

/-- Objects are one if they were one. -/
theorem sameAs_rename (o p : Object) : (o.rename ρ).sameAs (p.rename ρ) = o.sameAs p := by
  rw [Bool.eq_iff_iff, sameAs, sameAs, beq_iff_eq, beq_iff_eq, identity_rename, identity_rename,
    (Identity.rename_injective ρ).eq_iff]

end Object

/-! ## Equality and views -/

theorem Scalar.strictEq_rename (s t : Scalar) :
    (s.rename ρ).strictEq (t.rename ρ) = s.strictEq t := by
  have hbeq : (s.rename ρ == t.rename ρ) = (s == t) := by
    rw [Bool.eq_iff_iff, beq_iff_eq, beq_iff_eq, (Scalar.rename_injective ρ).eq_iff]
  cases s with
  | number x => cases t <;> rfl
  | _ => exact hbeq

namespace Value

/-- Values are strictly equal if they were. -/
theorem strictEq_rename (x y : Value) : (x.rename ρ).strictEq (y.rename ρ) = x.strictEq y := by
  cases x with
  | scalar s =>
    cases y with
    | scalar t => exact Scalar.strictEq_rename ρ s t
    | _ => rfl
  | object o =>
    cases y with
    | object p => exact Object.sameAs_rename ρ o p
    | _ => rfl
  | _ => cases y <;> rfl

@[simp] theorem rename_object (o : Object) : (object o).rename ρ = .object (o.rename ρ) := rfl

@[simp] theorem isUndefined_rename (x : Value) : (x.rename ρ).isUndefined = x.isUndefined := by
  cases x <;> rfl

@[simp] theorem isNull_rename (x : Value) : (x.rename ρ).isNull = x.isNull := by
  cases x <;> rfl

@[simp] theorem isNullish_rename (x : Value) : (x.rename ρ).isNullish = x.isNullish := by
  cases x <;> rfl

theorem object?_rename (x : Value) : (x.rename ρ).object? = x.object?.map (Object.rename ρ) := by
  cases x <;> rfl

theorem key?_rename (x : Value) : (x.rename ρ).key? = x.key?.map (PropertyKey.rename ρ) := by
  cases x with
  | scalar s => cases s <;> rfl
  | _ => rfl

theorem toPropertyKey?_rename (x : Value) :
    (x.rename ρ).toPropertyKey? = x.toPropertyKey?.map (PropertyKey.rename ρ) := by
  cases x with
  | scalar s => cases s <;> rfl
  | _ => rfl

theorem elements?_rename (x : Value) :
    (x.rename ρ).elements? = x.elements?.map (List.map (rename ρ)) := by
  cases x with
  | object o =>
    rcases o with ⟨i, kind, ps, prototype, c⟩
    cases kind with
    | array xs => simp [Object.rename, ObjectKind.rename, elements?]
    | _ => rfl
  | _ => rfl

/-- The object that stands in for a value is renamed with the value. -/
theorem toObject_rename (x : Value) : (x.rename ρ).toObject = x.toObject.rename ρ := by
  cases x <;> rfl

end Value

theorem PropertyKey.toValue_rename (key : PropertyKey) :
    (key.rename ρ).toValue = key.toValue.rename ρ := by
  cases key <;> rfl

theorem ValueType.holds_rename (type : ValueType) (x : Value) :
    type.holds (x.rename ρ) = type.holds x := by
  cases x with
  | undefined | null => rfl
  | scalar s => cases s <;> cases type <;> rfl
  | object o =>
    rcases o with ⟨i, kind, ps, prototype, c⟩
    cases kind <;> cases type <;> rfl

theorem ValueType.narrow?_rename (type : ValueType) (x : Value) :
    type.narrow? (x.rename ρ) = (type.narrow? x).map (Value.rename ρ) := by
  cases type with
  | key =>
    simp only [narrow?, Value.toPropertyKey?_rename, Option.map_map, Function.comp_def,
      PropertyKey.toValue_rename]
  | _ =>
    simp only [narrow?, holds_rename]
    split <;> rfl

/-! ## Properties -/

theorem lookup_map_renameEntry (entries : List (PropertyKey × Value)) (key : PropertyKey) :
    (entries.map (renameEntry ρ)).lookup (key.rename ρ) =
      (entries.lookup key).map (Value.rename ρ) := by
  induction entries with
  | nil => rfl
  | cons entry rest ih =>
    have hbeq : (key.rename ρ == entry.1.rename ρ) = (key == entry.1) := by
      rw [Bool.eq_iff_iff, beq_iff_eq, beq_iff_eq, (PropertyKey.rename_injective ρ).eq_iff]
    rw [List.map_cons, renameEntry, List.lookup_cons, List.lookup_cons, hbeq]
    split
    · rfl
    · exact ih

namespace ObjectKind

theorem indexCount_rename (kind : ObjectKind) : (kind.rename ρ).indexCount = kind.indexCount := by
  cases kind with
  | array xs => simp [rename, indexCount]
  | wrapper s => cases s <;> rfl
  | _ => rfl

theorem indexed?_rename (kind : ObjectKind) (i : Nat) :
    (kind.rename ρ).indexed? i = (kind.indexed? i).map (Value.rename ρ) := by
  cases kind with
  | array xs => simp [rename, indexed?]
  | wrapper s =>
    cases s with
    | string text => simp [rename, Scalar.rename, indexed?, Function.comp_def, Value.rename]
    | _ => rfl
  | _ => rfl

theorem named?_rename (kind : ObjectKind) (name : String) :
    (kind.rename ρ).named? name = (kind.named? name).map (Value.rename ρ) := by
  cases kind with
  | ordinary => rfl
  | array xs =>
    simp only [rename, renameElements_eq_map, named?, List.length_map]
    split <;> rfl
  | function title arity =>
    simp only [rename, named?]
    split
    · rfl
    · split <;> rfl
  | wrapper s =>
    cases s with
    | string text =>
      simp only [rename, Scalar.rename, named?]
      split <;> rfl
    | _ => rfl

theorem slot?_rename (kind : ObjectKind) (key : PropertyKey) :
    (kind.rename ρ).slot? (key.rename ρ) = (kind.slot? key).map (Value.rename ρ) := by
  cases key with
  | symbol s => rfl
  | text name =>
    simp only [PropertyKey.rename, slot?, named?_rename]
    cases kind.named? name with
    | some x => rfl
    | none =>
      cases (PropertyKey.text name).arrayIndex? with
      | none => rfl
      | some i => exact indexed?_rename ρ kind i

end ObjectKind

namespace Object

theorem getOwn_rename (o : Object) (key : PropertyKey) :
    (o.rename ρ).getOwn (key.rename ρ) = (o.getOwn key).map (Value.rename ρ) := by
  unfold getOwn
  rw [kind_rename, ObjectKind.slot?_rename, properties_rename, lookup_map_renameEntry]
  cases o.kind.slot? key <;> rfl

/-- Own keys are renamed in their order. -/
theorem ownKeys_rename (o : Object) :
    (o.rename ρ).ownKeys = o.ownKeys.map (PropertyKey.rename ρ) := by
  have hkeys : (o.rename ρ).properties.map Prod.fst =
      (o.properties.map Prod.fst).map (PropertyKey.rename ρ) := by
    simp [Function.comp_def, renameEntry]
  have hindices : indicesOf (o.rename ρ).kind.indexCount ((o.rename ρ).properties.map Prod.fst) =
      indicesOf o.kind.indexCount (o.properties.map Prod.fst) := by
    simp only [indicesOf, hkeys, kind_rename, ObjectKind.indexCount_rename, List.filterMap_map,
      Function.comp_def, PropertyKey.arrayIndex?_rename]
  simp only [ownKeys]
  rw [hindices, hkeys]
  simp only [List.filter_map, Function.comp_def, List.map_append, List.map_map,
    isPlainText_rename, PropertyKey.isSymbol_rename, PropertyKey.rename_ofIndex]

theorem chain_rename (o : Object) : (o.rename ρ).chain = o.chain.map (rename ρ) := by
  fun_induction chain o with
  | case1 i kind ps c => simp [rename, chain]
  | case2 i kind ps prototype c ih => simpa [rename, chain] using ih

theorem get_rename (o : Object) (key : PropertyKey) :
    (o.rename ρ).get (key.rename ρ) = (o.get key).map (Value.rename ρ) := by
  simp only [get, chain_rename, List.findSome?_map, Function.comp_def, getOwn_rename,
    List.map_findSome?]

theorem find?_rename (o : Object) (ownOnly : Bool) (key : PropertyKey) :
    (o.rename ρ).find? ownOnly (key.rename ρ) = (o.find? ownOnly key).map (Value.rename ρ) := by
  cases ownOnly with
  | true => exact getOwn_rename ρ o key
  | false => exact get_rename ρ o key

theorem hasKey_rename (o : Object) (ownOnly : Bool) (key : PropertyKey) :
    (o.rename ρ).hasKey ownOnly (key.rename ρ) = o.hasKey ownOnly key := by
  rw [hasKey_eq_isSome_find?, hasKey_eq_isSome_find?, find?_rename, Option.isSome_map]

theorem instanceOf_rename (o : Object) (c : Class) :
    (o.rename ρ).instanceOf (c.rename ρ) = o.instanceOf c := by
  simp only [instanceOf, chain_rename, List.any_map, Function.comp_def, classOf_rename,
    Option.any_map, Class.isSubclassOf_rename]

end Object

/-! ## Texts -/

@[simp] theorem Scalar.display_rename (s : Scalar) : (s.rename ρ).display = s.display := by
  cases s <;> rfl

@[simp] theorem Scalar.wrapperName_rename (s : Scalar) :
    (s.rename ρ).wrapperName = s.wrapperName := by
  cases s <;> rfl

/-- No text shows an identity. -/
@[simp] theorem Value.display_rename (x : Value) : (x.rename ρ).display = x.display := by
  cases x with
  | undefined | null => rfl
  | scalar s => exact Scalar.display_rename ρ s
  | object o =>
    rcases o with ⟨i, kind, ps, prototype, c⟩
    cases kind <;> simp [Value.display, Object.display, Object.tag, Object.rename,
      ObjectKind.rename, Function.comp_def]

namespace Complaint

/-- The complaint with new identities throughout. -/
def rename : Complaint → Complaint
  | .notEqual expected => .notEqual (expected.rename ρ)
  | .notAllowed allowed => .notAllowed (allowed.map (Value.rename ρ))
  | .notInstance c => .notInstance (c.rename ρ)
  | .notKey key => .notKey (key.rename ρ)
  | .missingProperty key => .missingProperty (key.rename ρ)
  | .invalidProperty key => .invalidProperty (key.rename ρ)
  | .invalidKey key => .invalidKey (key.rename ρ)
  | .extraKeys keys => .extraKeys (keys.map (PropertyKey.rename ρ))
  | c => c

@[simp] theorem quotedKey_rename (key : PropertyKey) :
    quotedKey (key.rename ρ) = quotedKey key := by
  rw [quotedKey, PropertyKey.display_rename, quotedKey]

/-- The wording of a complaint does not show identities. -/
theorem text_rename (c : Complaint) : (c.rename ρ).text = c.text := by
  -- A complaint shows values, classes and keys by texts that a renaming keeps.
  cases c with
  | notEqual x =>
    exact congrArg (fun shown => "The value is not equal to " ++ shown ++ ".")
      (Value.display_rename ρ x)
  | notAllowed xs =>
    have hshown : (xs.map (Value.rename ρ)).map Value.display = xs.map Value.display := by
      simp only [List.map_map, Function.comp_def, Value.display_rename]
    exact congrArg (fun shown => "The value is not one of the allowed values: " ++
      ", ".intercalate shown ++ ".") hshown
  | notInstance c =>
    exact congrArg (fun shown => "The value is not an instance of " ++ shown ++ ".")
      (Class.name_rename ρ c)
  | notKey key =>
    exact congrArg (fun shown => "The key " ++ shown ++ " is not a property of the object.")
      (quotedKey_rename ρ key)
  | missingProperty key =>
    exact congrArg (fun shown => "The property " ++ shown ++ " is missing.")
      (quotedKey_rename ρ key)
  | invalidProperty key =>
    exact congrArg (fun shown => "The property " ++ shown ++ " is invalid.")
      (quotedKey_rename ρ key)
  | invalidKey key =>
    exact congrArg (fun shown => "The key " ++ shown ++ " is invalid.") (quotedKey_rename ρ key)
  | extraKeys keys =>
    have hshown : ((keys.map (PropertyKey.rename ρ)).take namedExtraKeys).map quotedKey =
        (keys.take namedExtraKeys).map quotedKey := by
      simp only [← List.map_take, List.map_map, Function.comp_def, quotedKey_rename]
    -- As many keys are named, and as many are left over.
    have hrest : (keys.map (PropertyKey.rename ρ)).length - namedExtraKeys =
        keys.length - namedExtraKeys := by
      rw [List.length_map]
    exact congrArg₂ extraKeysText hshown hrest
  | _ => rfl

theorem reason_rename (c : Complaint) : (c.rename ρ).reason = c.reason :=
  congrArg Reason.message (text_rename ρ c)

end Complaint

/-! ## Depth -/

mutual

theorem Value.depth_rename : (x : Value) → (x.rename ρ).depth = x.depth
  | .undefined | .null | .scalar _ => by simp only [Value.rename, Value.depth]
  | .object o => by simpa only [Value.rename, Value.depth] using o.depth_rename

theorem Object.depth_rename : (o : Object) → (o.rename ρ).depth = o.depth
  | .mk i (.array xs) ps prototype c => by
      have hxs := depthOfElements_rename xs
      have hps := depthOfEntries_rename ps
      have hprototype := depthOfPrototype_rename prototype
      simp only [Object.rename, ObjectKind.rename, Object.depth, hxs, hps, hprototype]
  | .mk i .ordinary ps prototype c | .mk i (.function _ _) ps prototype c
  | .mk i (.wrapper _) ps prototype c => by
      have hps := depthOfEntries_rename ps
      have hprototype := depthOfPrototype_rename prototype
      simp only [Object.rename, ObjectKind.rename, Object.depth, hps, hprototype]

theorem depthOfElements_rename : (xs : List Value) →
    depthOfElements (renameElements ρ xs) = depthOfElements xs
  | [] => rfl
  | x :: xs => by
      have hx := x.depth_rename
      have hxs := depthOfElements_rename xs
      simp only [renameElements, depthOfElements, hx, hxs]

theorem depthOfEntries_rename : (entries : List (PropertyKey × Value)) →
    depthOfEntries (renameEntries ρ entries) = depthOfEntries entries
  | [] => rfl
  | (key, x) :: rest => by
      have hx := x.depth_rename
      have hrest := depthOfEntries_rename rest
      simp only [renameEntries, depthOfEntries, hx, hrest]

theorem depthOfPrototype_rename : (prototype : Option Object) →
    depthOfPrototype (renamePrototype ρ prototype) = depthOfPrototype prototype
  | none => rfl
  | some o => by
      have ho := o.depth_rename
      simp only [renamePrototype, depthOfPrototype, ho]

end

end Narrowing
