-- SUMMARY: The part of a value that its document shows, and when there is a document.
import Narrowing.Proofs.RoundTrip

/-!
# What documents show

A document shows less than there is of a value. `Value.erase` leaves out what is not shown, at every
depth: prototypes, classes, properties under symbols, and all properties of objects that are not
ordinary. It puts a wrapped scalar in the place of its wrapper, and null in the place of what has no
form of its own in a document.

A value and what is left of it have one document, or none. There is none only if a big integer is
left that does not fit a machine word (`Value.document_of_visible`).
-/

namespace Narrowing

/-! ## Leaving out what is not shown -/

/-- A scalar as a document shows it. -/
def Scalar.erase : Scalar → Value
  | .number (.finite negative exponent fraction) => .number (.finite negative exponent fraction)
  | .number (.infinite _) | .number (.nan _ _) | .symbol _ => .null
  | .boolean b => .boolean b
  | .bigint i => .bigint i
  | .string s => .string s

mutual

/-- A value without what is not shown of it. -/
def Value.erase : Value → Value
  | .undefined | .null => .null
  | .scalar s => s.erase
  | .object o => o.erase

/-- What is left of an object. -/
def Object.erase : Object → Value
  | .mk identity .ordinary properties _ _ =>
      .object (.mk identity .ordinary (eraseEntries properties) none none)
  | .mk identity (.array elements) _ _ _ => .object (.ofKind identity (.array (eraseAll elements)))
  | .mk _ (.function _ _) _ _ _ => .null
  | .mk _ (.wrapper s) _ _ _ => s.erase

/-- What is left of the members of a list. -/
def eraseAll : List Value → List Value
  | [] => []
  | v :: vs => v.erase :: eraseAll vs

/-- What is left of the entries of a table. -/
def eraseEntries : List (PropertyKey × Value) → List (PropertyKey × Value)
  | [] => []
  | (.text name, v) :: rest => (.text name, v.erase) :: eraseEntries rest
  | (.symbol _, _) :: rest => eraseEntries rest

end

/-- A value of which a document shows everything but the identities of its objects. -/
inductive Value.Visible : Value → Prop
  | null : Visible .null
  | boolean (b : Bool) : Visible (.boolean b)
  | number (negative : Bool) (exponent : Fin 2047) (fraction : Fin 4503599627370496) :
      Visible (.number (.finite negative exponent fraction))
  | bigint (i : Int) : Visible (.bigint i)
  | string (s : String) : Visible (.string s)
  | array (identity : Identity) {xs : List Value} (hxs : ∀ x ∈ xs, Visible x) :
      Visible (.object (.ofKind identity (.array xs)))
  | ordinary (identity : Identity) {entries : List (PropertyKey × Value)}
      (hkeys : ∀ entry ∈ entries, entry.1.isSymbol = false)
      (hvalues : ∀ entry ∈ entries, Visible entry.2) :
      Visible (.object (.mk identity .ordinary entries none none))

/-- A big integer occurs in a value: as it is, wrapped, in an element, in a property or in a
prototype. -/
inductive Value.Occurs (i : Int) : Value → Prop
  | here : Occurs i (.bigint i)
  | wrapped {o : Object} (h : o.wrapped? = some (.bigint i)) : Occurs i (.object o)
  | element {x y : Value} {elements : List Value} (hx : x.elements? = some elements)
      (hy : y ∈ elements) (h : Occurs i y) : Occurs i x
  | property {o : Object} {key : PropertyKey} {y : Value} (hy : o.properties.lookup key = some y)
      (h : Occurs i y) : Occurs i (.object o)
  | prototype {o p : Object} (hp : o.prototype = some p) (h : Occurs i (.object p)) :
      Occurs i (.object o)

variable {i : Int} {identity : Identity} {xs : List Value}
  {entries : List (PropertyKey × Value)} {key : PropertyKey} {name : String} {x y : Value}

/-! ## Entries -/

theorem lookup_eraseEntries_symbol (entries : List (PropertyKey × Value)) (s : Symbol) :
    (eraseEntries entries).lookup (.symbol s) = none := by
  induction entries with
  | nil => rfl
  | cons entry rest ih =>
    obtain ⟨key, v⟩ := entry
    cases key with
    | symbol t => simpa [eraseEntries] using ih
    | text name => simpa [eraseEntries, lookup_cons] using ih

theorem lookup_eraseEntries_text (entries : List (PropertyKey × Value)) (name : String) :
    (eraseEntries entries).lookup (.text name) = (entries.lookup (.text name)).map Value.erase := by
  induction entries with
  | nil => rfl
  | cons entry rest ih =>
    obtain ⟨key, v⟩ := entry
    cases key with
    | symbol t => simpa [eraseEntries, lookup_cons] using ih
    | text other =>
      simp only [eraseEntries, lookup_cons, ih]
      split <;> rfl

/-- What is found among what is left was found under a text key before. -/
theorem lookup_eraseEntries_eq_some_iff :
    (eraseEntries entries).lookup key = some y ↔
      ∃ name x, key = .text name ∧ entries.lookup (.text name) = some x ∧ x.erase = y := by
  cases key with
  | symbol s => simp [lookup_eraseEntries_symbol]
  | text name => simp [lookup_eraseEntries_text]

theorem lookup_filter_text {α : Type} (entries : List (PropertyKey × α)) (name : String) :
    (entries.filter fun entry => !entry.1.isSymbol).lookup (.text name) =
      entries.lookup (.text name) := by
  induction entries with
  | nil => rfl
  | cons entry rest ih =>
    obtain ⟨key, item⟩ := entry
    cases hkey : key.isSymbol with
    | true =>
      have hne : PropertyKey.text name ≠ key := by
        rintro rfl
        cases hkey
      simp [hkey, lookup_cons, hne, ih]
    | false => simp [hkey, lookup_cons, ih]

theorem textKeys_filter (bound : Nat) (keys : List PropertyKey) :
    Object.textKeys bound (keys.filter fun key => !key.isSymbol) = Object.textKeys bound keys := by
  have hindices : (keys.filter fun key => !key.isSymbol).filterMap PropertyKey.arrayIndex? =
      keys.filterMap PropertyKey.arrayIndex? := by
    rw [List.filterMap_filter]
    apply List.filterMap_congr
    intro key _
    cases key <;> rfl
  have hplain : (keys.filter fun key => !key.isSymbol).filter Object.isPlainText =
      keys.filter Object.isPlainText := by
    rw [List.filter_filter]
    apply List.filter_congr
    intro key _
    cases key <;> simp [Object.isPlainText, PropertyKey.isSymbol, PropertyKey.text?]
  simp only [Object.textKeys, Object.indicesOf, hindices, hplain]

/-- The members made of a table do not take in its symbols. -/
theorem textMembers_filter {α : Type} (entries : List (PropertyKey × α)) :
    textMembers (entries.filter fun entry => !entry.1.isSymbol) = textMembers entries := by
  have hkeys : (entries.filter fun entry => !entry.1.isSymbol).map Prod.fst =
      (entries.map Prod.fst).filter fun key => !key.isSymbol := by
    rw [List.filter_map]
    rfl
  have hordered := textKeys_filter 0 (entries.map Prod.fst)
  unfold Object.textKeys at hordered
  simp only [textMembers, hkeys, hordered]
  apply List.filterMap_congr
  intro key _
  cases key with
  | symbol s => rfl
  | text name => rw [lookup_filter_text]

/-! ## Documents -/

theorem Scalar.toJson_erase (s : Scalar) : s.erase.toJson = s.toJson := by
  cases s with
  | number n => cases n <;> rfl
  | _ => rfl

mutual

theorem Value.toJson_erase (v : Value) : v.erase.toJson = v.toJson := by
  match v with
  | .undefined | .null => rfl
  | .scalar s => exact s.toJson_erase
  | .object o => exact o.toJson_erase

theorem Object.toJson_erase (o : Object) : o.erase.toJson = o.toJson := by
  match o with
  | .mk _ .ordinary properties _ _ =>
    simp only [Object.erase, Value.toJson, Object.toJson, entriesToJson_erase, textMembers_filter]
  | .mk _ (.array elements) _ _ _ =>
    simp only [Object.erase, Object.ofKind, Value.toJson, Object.toJson, elementsToJson_erase]
  | .mk _ (.function _ _) _ _ _ => rfl
  | .mk _ (.wrapper s) _ _ _ => exact s.toJson_erase

theorem elementsToJson_erase (vs : List Value) :
    elementsToJson (eraseAll vs) = elementsToJson vs := by
  match vs with
  | [] => rfl
  | v :: vs => simp only [eraseAll, elementsToJson, v.toJson_erase, elementsToJson_erase vs]

theorem entriesToJson_erase (entries : List (PropertyKey × Value)) :
    entriesToJson (eraseEntries entries) =
      (entriesToJson entries).filter fun entry => !entry.1.isSymbol := by
  match entries with
  | [] => rfl
  | (.text name, v) :: rest =>
    simp [eraseEntries, entriesToJson, PropertyKey.isSymbol, v.toJson_erase,
      entriesToJson_erase rest]
  | (.symbol s, v) :: rest =>
    simp [eraseEntries, entriesToJson, PropertyKey.isSymbol, entriesToJson_erase rest]

end

/-! ## Values that have documents -/

/-- A value has a document. -/
def Value.Serializes (v : Value) : Prop :=
  ∃ d, v.toCanonicalJson? = .ok d

namespace Json

theorem exists_canonicalItems_iff {items : List Json} :
    (∃ es, canonicalItems? items = .ok es) ↔ ∀ d ∈ items, ∃ e, d.canonical? = .ok e := by
  induction items with
  | nil => simp [canonicalItems?]
  | cons d ds ih =>
    rw [List.forall_mem_cons, ← ih]
    cases hd : d.canonical? <;> cases hds : canonicalItems? ds <;> simp [canonicalItems?, hd, hds]

theorem exists_canonicalMembers_iff {members : List (String × Json)} :
    (∃ es, canonicalMembers? members = .ok es) ↔ ∀ m ∈ members, ∃ e, m.2.canonical? = .ok e := by
  induction members with
  | nil => simp [canonicalMembers?]
  | cons m ms ih =>
    obtain ⟨name, d⟩ := m
    rw [List.forall_mem_cons, ← ih]
    cases hd : d.canonical? <;> cases hms : canonicalMembers? ms <;>
      simp [canonicalMembers?, hd, hms]

theorem exists_map_eq_ok_iff {ε α β : Type} {f : α → β} {r : Except ε α} :
    (∃ b, r.map f = .ok b) ↔ ∃ a, r = .ok a := by
  cases r <;> simp [Except.map]

end Json

namespace Value

theorem serializes_array_iff {properties : List (PropertyKey × Value)} {p : Option Object}
    {c : Option Class} :
    (object (.mk identity (.array xs) properties p c)).Serializes ↔ ∀ x ∈ xs, x.Serializes := by
  have hitems : elementsToJson xs = xs.map toJson := by
    induction xs with
    | nil => rfl
    | cons x xs ih => rw [elementsToJson, ih, List.map_cons]
  simp only [Serializes, toCanonicalJson?, toJson, Object.toJson, Json.canonical?,
    Json.exists_map_eq_ok_iff, Json.exists_canonicalItems_iff, hitems, List.forall_mem_map]

theorem serializes_ordinary_iff {p : Option Object} {c : Option Class} :
    (object (.mk identity .ordinary entries p c)).Serializes ↔
      ∀ name x, entries.lookup (.text name) = some x → x.Serializes := by
  simp only [Serializes, toCanonicalJson?, toJson, Object.toJson, Json.canonical?,
    Json.exists_map_eq_ok_iff, Json.exists_canonicalMembers_iff, Prod.forall, mem_textMembers_iff,
    lookup_entriesToJson, Option.map_eq_some_iff, forall_exists_index, and_imp,
    forall_apply_eq_imp_iff₂]

/-! ### Where a big integer is left -/

theorem not_occurs_null : ¬ Occurs i .null := by
  intro h
  cases h with
  | element hx => cases hx

theorem occurs_scalar_iff {s : Scalar} : Occurs i (.scalar s) ↔ s = .bigint i := by
  constructor
  · intro h
    cases h with
    | here => rfl
    | element hx => cases hx
  · rintro rfl
    exact .here

theorem occurs_ofKind_array_iff :
    Occurs i (.object (.ofKind identity (.array xs))) ↔ ∃ x ∈ xs, Occurs i x := by
  constructor
  · intro h
    cases h with
    | wrapped h => cases h
    | element hx hy h =>
      cases hx
      exact ⟨_, hy, h⟩
    | property hy => cases hy
    | prototype hp => cases hp
  · rintro ⟨x, hx, h⟩
    exact .element rfl hx h

theorem occurs_ordinary_iff :
    Occurs i (.object (.mk identity .ordinary entries none none)) ↔
      ∃ key x, entries.lookup key = some x ∧ Occurs i x := by
  constructor
  · intro h
    cases h with
    | wrapped h => cases h
    | element hx => cases hx
    | property hy h => exact ⟨_, _, hy, h⟩
    | prototype hp => cases hp
  · rintro ⟨key, x, hx, h⟩
    exact .property hx h

end Value

theorem eraseAll_eq_map (xs : List Value) : eraseAll xs = xs.map Value.erase := by
  induction xs with
  | nil => rfl
  | cons x xs ih => rw [eraseAll, ih, List.map_cons]

theorem Scalar.serializes_iff (s : Scalar) :
    (Value.scalar s).Serializes ↔ ∀ i, s.erase.Occurs i → Json.fitsWord i = true := by
  cases s with
  | bigint i =>
    simp only [erase, Value.occurs_scalar_iff, bigint.injEq, forall_eq']
    cases h : Json.fitsWord i <;>
      simp [Value.Serializes, Value.toCanonicalJson?, Value.toJson, toJson, Json.canonical?, h]
  | boolean b => exact iff_of_true ⟨_, rfl⟩ fun i h => by cases Value.occurs_scalar_iff.1 h
  | string t => exact iff_of_true ⟨_, rfl⟩ fun i h => by cases Value.occurs_scalar_iff.1 h
  | symbol t => exact iff_of_true ⟨_, rfl⟩ fun i h => absurd h Value.not_occurs_null
  | number n =>
    cases n with
    | finite negative exponent fraction =>
      exact iff_of_true ⟨_, rfl⟩ fun i h => by cases Value.occurs_scalar_iff.1 h
    | infinite negative => exact iff_of_true ⟨_, rfl⟩ fun i h => absurd h Value.not_occurs_null
    | nan negative payload => exact iff_of_true ⟨_, rfl⟩ fun i h => absurd h Value.not_occurs_null

mutual

theorem Value.serializes_iff (v : Value) :
    v.Serializes ↔ ∀ i, v.erase.Occurs i → Json.fitsWord i = true := by
  match v with
  | .undefined | .null =>
    refine iff_of_true ⟨.null, rfl⟩ fun i h => absurd h Value.not_occurs_null
  | .scalar s => exact s.serializes_iff
  | .object o => exact o.serializes_iff

theorem Object.serializes_iff (o : Object) :
    (Value.object o).Serializes ↔ ∀ i, o.erase.Occurs i → Json.fitsWord i = true := by
  -- Down the kinds of objects, and through `serializes_iff_of_mem` down the value itself.
  match o with
  | .mk _ .ordinary properties _ _ =>
    have hentries := serializes_iff_of_mem_entries properties
    rw [Value.serializes_ordinary_iff, Object.erase]
    simp only [Value.occurs_ordinary_iff, lookup_eraseEntries_eq_some_iff]
    constructor
    · rintro h i ⟨_, _, ⟨name, x, rfl, hx, rfl⟩, hi⟩
      exact (hentries _ (mem_of_lookup hx)).1 (h name x hx) i hi
    · intro h name x hx
      refine (hentries _ (mem_of_lookup hx)).2 fun i hi => ?_
      exact h i ⟨_, _, ⟨name, x, rfl, hx, rfl⟩, hi⟩
  | .mk _ (.array elements) _ _ _ =>
    have helements := serializes_iff_of_mem elements
    rw [Value.serializes_array_iff, Object.erase, eraseAll_eq_map]
    simp only [Value.occurs_ofKind_array_iff, List.mem_map]
    constructor
    · rintro h i ⟨_, ⟨x, hx, rfl⟩, hi⟩
      exact (helements x hx).1 (h x hx) i hi
    · intro h x hx
      refine (helements x hx).2 fun i hi => ?_
      exact h i ⟨_, ⟨x, hx, rfl⟩, hi⟩
  | .mk _ (.function _ _) _ _ _ =>
    exact iff_of_true ⟨.null, rfl⟩ fun i h => absurd h Value.not_occurs_null
  | .mk _ (.wrapper s) _ _ _ => exact s.serializes_iff

theorem serializes_iff_of_mem (vs : List Value) :
    ∀ v ∈ vs, v.Serializes ↔ ∀ i, v.erase.Occurs i → Json.fitsWord i = true := by
  match vs with
  | [] => simp
  | v :: vs => exact List.forall_mem_cons.2 ⟨v.serializes_iff, serializes_iff_of_mem vs⟩

theorem serializes_iff_of_mem_entries (entries : List (PropertyKey × Value)) :
    ∀ entry ∈ entries,
      entry.2.Serializes ↔ ∀ i, entry.2.erase.Occurs i → Json.fitsWord i = true := by
  match entries with
  | [] => simp
  | (key, v) :: rest =>
    exact List.forall_mem_cons.2 ⟨v.serializes_iff, serializes_iff_of_mem_entries rest⟩

end

/-! ## What is left is shown -/

theorem Scalar.visible_erase (s : Scalar) : s.erase.Visible := by
  cases s with
  | boolean b => exact .boolean b
  | bigint i => exact .bigint i
  | string t => exact .string t
  | symbol t => exact .null
  | number n =>
    cases n with
    | finite negative exponent fraction => exact .number negative exponent fraction
    | infinite negative => exact .null
    | nan negative payload => exact .null

theorem isSymbol_of_mem_eraseEntries (entries : List (PropertyKey × Value)) :
    ∀ entry ∈ eraseEntries entries, entry.1.isSymbol = false := by
  induction entries with
  | nil => exact fun _ h => by cases h
  | cons entry rest ih =>
    obtain ⟨key, v⟩ := entry
    cases key with
    | text name => exact List.forall_mem_cons.2 ⟨rfl, ih⟩
    | symbol s => exact ih

mutual

theorem Value.visible_erase (v : Value) : v.erase.Visible := by
  match v with
  | .undefined | .null => exact .null
  | .scalar s => exact s.visible_erase
  | .object o => exact o.visible_erase

theorem Object.visible_erase (o : Object) : o.erase.Visible := by
  match o with
  | .mk identity .ordinary properties _ _ =>
    exact .ordinary identity (isSymbol_of_mem_eraseEntries properties)
      (visible_of_mem_eraseEntries properties)
  | .mk identity (.array elements) _ _ _ => exact .array identity (visible_of_mem_eraseAll elements)
  | .mk _ (.function _ _) _ _ _ => exact .null
  | .mk _ (.wrapper s) _ _ _ => exact s.visible_erase

theorem visible_of_mem_eraseAll (vs : List Value) : ∀ v ∈ eraseAll vs, v.Visible := by
  match vs with
  | [] => exact fun _ h => by cases h
  | v :: vs => exact List.forall_mem_cons.2 ⟨v.visible_erase, visible_of_mem_eraseAll vs⟩

theorem visible_of_mem_eraseEntries (entries : List (PropertyKey × Value)) :
    ∀ entry ∈ eraseEntries entries, entry.2.Visible := by
  match entries with
  | [] => exact fun _ h => by cases h
  | (.text name, v) :: rest =>
    exact List.forall_mem_cons.2 ⟨v.visible_erase, visible_of_mem_eraseEntries rest⟩
  | (.symbol s, v) :: rest => exact visible_of_mem_eraseEntries rest

end

/-! ## Documents of what is left -/

theorem Value.exists_error_iff (v : Value) :
    (∃ fault, v.toCanonicalJson? = .error fault) ↔ ¬ v.Serializes := by
  unfold Serializes
  cases v.toCanonicalJson? with
  | ok d => simp
  | error fault => exact iff_of_true ⟨fault, rfl⟩ (by simp)

/-- What is left of a value when all is taken off that is not shown has the document of the value.
If the value has none, a big integer is left that fits no machine word. -/
theorem Value.document_of_visible (v : Value) :
    v.erase.Visible ∧ v.toCanonicalJson? = v.erase.toCanonicalJson? ∧
      ((∃ fault, v.toCanonicalJson? = .error fault) ↔
        ∃ i, v.erase.Occurs i ∧ (i < -9223372036854775808 ∨ 18446744073709551615 < i)) := by
  refine ⟨v.visible_erase, ?_, ?_⟩
  · unfold toCanonicalJson?
    rw [v.toJson_erase]
  · have hfits (i : Int) : Json.fitsWord i = true ↔
        ¬(i < -9223372036854775808 ∨ 18446744073709551615 < i) := by
      rw [Json.fitsWord, decide_eq_true_eq]
      omega
    rw [v.exists_error_iff, v.serializes_iff]
    simp only [hfits, not_forall, not_not, exists_prop]

-- A big integer under a symbol or beside the elements of an array is not in the way.
example :
    let hidden : List (PropertyKey × Value) :=
      [(.symbol ⟨0, none⟩, .bigint 18446744073709551616), (.text "a", .null)]
    let list : Value := .object (.mk (.made [0]) (.array [.bigint 1])
      [(.text "b", .bigint 18446744073709551616)] none none)
    (Value.object (.mk (.made []) .ordinary (hidden ++ [(.text "list", list)]) none none))
      |>.toCanonicalJson? = .ok (.object [("a", .null), ("list", .array [.integer 1])]) := by
  rfl

end Narrowing
