-- SUMMARY: Documents read as values and written again, up to the rounding of integers.
import Mathlib.Data.List.Sort
import Mathlib.Data.String.Basic
import Narrowing.Binary64.Rounding
import Narrowing.Proofs.Documents

/-!
# Documents read and written

A document that is read as a value and put down again is the same document, but for its integers,
which come back as the numbers that the value has in their place (`Json.roundTrip_iff`).
Keys come back as they were, whatever they spell. Documents are compared by their canonical forms,
so the order of members does not count.
-/

namespace Narrowing

/-! ## Integers of a machine word -/

namespace Binary64

theorem roundHalfEven_le (num den : Nat) : roundHalfEven num den ≤ num / den + 1 := by
  simp only [roundHalfEven]
  split <;> omega

/-- At a power that leaves 53 bits or one more, the rounded quotient of an integer has no more than
one bit beyond. -/
theorem roundAt_le {n : Nat} {q : Int} (h : (n.log2 : Int) ≤ q + 53) :
    roundAt n 1 q ≤ Nat.pow 2 54 := by
  have hlog : n < 2 ^ (n.log2 + 1) := Nat.lt_log2_self
  refine (roundHalfEven_le _ _).trans (Nat.succ_le_of_lt ?_)
  rw [one_mul]
  refine (Nat.div_lt_iff_lt_mul (Nat.pow_pos (by decide))).2 ?_
  calc n * Nat.pow 2 (-q).toNat
      < 2 ^ (n.log2 + 1) * 2 ^ (-q).toNat :=
        Nat.mul_lt_mul_of_pos_right hlog (Nat.pow_pos (by decide))
    _ = 2 ^ (n.log2 + 1 + (-q).toNat) := (Nat.pow_add ..).symm
    _ ≤ 2 ^ (54 + q.toNat) := Nat.pow_le_pow_right (by decide) (by omega)
    _ = Nat.pow 2 54 * Nat.pow 2 q.toNat := Nat.pow_add ..

theorem roundingScale_bounds (n : Nat) :
    (n.log2 : Int) ≤ roundingScale n 1 + 53 ∧ roundingScale n 1 ≤ n.log2 := by
  have hone : Nat.log2 1 = 0 := by decide
  simp only [roundingScale, hone]
  split <;> omega

theorem ofMagnitude_of_lt {magnitude : Nat} (h : magnitude < finiteCount) (negative : Bool) :
    ∃ exponent fraction, ofMagnitude negative magnitude = .finite negative exponent fraction := by
  have hexponent : magnitude / fractionCount < 2047 := (Nat.div_lt_iff_lt_mul (by decide)).2 h
  exact ⟨_, _, dif_pos hexponent⟩

/-- An integer of far more than 64 bits is still a finite number. -/
theorem ofInt_finite {i : Int} (h : i.natAbs.log2 ≤ 900) :
    ∃ negative exponent fraction, ofInt i = .finite negative exponent fraction := by
  simp only [ofInt, ofRatio]
  split
  · exact ⟨_, 0, 0, rfl⟩
  · obtain ⟨hlow, hhigh⟩ := roundingScale_bounds i.natAbs
    have hround := roundAt_le hlow
    refine ⟨_, ofMagnitude_of_lt ?_ _⟩
    simp only [finiteCount, fractionCount, Nat.pow_eq] at hround ⊢
    omega

end Binary64

/-! ## Documents with floating numbers -/

namespace Json

/-- A document as programs hold it: each key of an object once, integers of a machine word and
finite numbers. -/
inductive WellFormed : Json → Prop
  | null : WellFormed .null
  | bool (b : Bool) : WellFormed (.bool b)
  | integer {i : Int} (h : fitsWord i = true) : WellFormed (.integer i)
  | float (negative : Bool) (exponent : Fin 2047) (fraction : Fin 4503599627370496) :
      WellFormed (.float (.finite negative exponent fraction))
  | string (s : String) : WellFormed (.string s)
  | array {items : List Json} (hitems : ∀ d ∈ items, WellFormed d) : WellFormed (.array items)
  | object {members : List (String × Json)} (hkeys : (members.map Prod.fst).Nodup)
      (hmembers : ∀ member ∈ members, WellFormed member.2) : WellFormed (.object members)

mutual

/-- The document with the nearest number in the place of each integer. -/
def floated : Json → Json
  | .integer i => .float (.ofInt i)
  | .array items => .array (floatedItems items)
  | .object members => .object (floatedMembers members)
  | .null => .null
  | .bool b => .bool b
  | .float x => .float x
  | .string s => .string s

/-- The items with numbers in the place of integers. -/
def floatedItems : List Json → List Json
  | [] => []
  | d :: ds => d.floated :: floatedItems ds

/-- The members with numbers in the place of integers. -/
def floatedMembers : List (String × Json) → List (String × Json)
  | [] => []
  | (name, d) :: ds => (name, d.floated) :: floatedMembers ds

end

theorem floatedMembers_eq_map (members : List (String × Json)) :
    floatedMembers members = members.map fun member => (member.1, member.2.floated) := by
  induction members with
  | nil => rfl
  | cons member rest ih => rw [floatedMembers, ih, List.map_cons]

theorem natAbs_log2_of_fitsWord {i : Int} (h : fitsWord i = true) : i.natAbs.log2 ≤ 900 := by
  have hword : i.natAbs < 2 ^ 64 := by
    simp only [fitsWord, decide_eq_true_eq] at h
    omega
  rcases Nat.eq_zero_or_pos i.natAbs with hzero | hpos
  · simp [hzero]
  · have hlog : i.natAbs.log2 < 64 := (Nat.log2_lt hpos.ne').2 hword
    omega

/-! ## Members as a map -/

/-- Each key stands for one item. -/
def Functional {α : Type} (members : List (String × α)) : Prop :=
  ∀ m ∈ members, ∀ n ∈ members, m.1 = n.1 → m = n

section

variable {α : Type} {members members' : List (String × α)} {key : String} {item : α}
  {m : String × α}

theorem functional_of_nodup (h : (members.map Prod.fst).Nodup) : Functional members :=
  fun _ hm _ hn heq => List.inj_on_of_nodup_map h hm hn heq

theorem pairwise_insertMember (h : members.Pairwise fun m n => m.1 < n.1) :
    (insertMember key item members).Pairwise fun m n => m.1 < n.1 := by
  induction members with
  | nil => simp [insertMember]
  | cons m rest ih =>
    obtain ⟨hhead, hrest⟩ := List.pairwise_cons.1 h
    rw [insertMember]
    split
    · exact h
    · next hne =>
      split
      · next hlt =>
        -- The new member comes first, and is less than the first one by the test.
        refine List.pairwise_cons.2 ⟨?_, h⟩
        intro n hn
        rcases List.mem_cons.1 hn with rfl | hn
        · exact hlt
        · exact lt_trans hlt (hhead n hn)
      · next hge =>
        -- The first member stays, and what is inserted behind it is greater.
        refine List.pairwise_cons.2 ⟨?_, ih hrest⟩
        intro n hn
        rcases mem_of_mem_insertMember hn with rfl | hn
        · exact lt_of_le_of_ne (not_lt.1 hge) (Ne.symm hne)
        · exact hhead n hn

/-- Sorted members are in ascending order of their keys. -/
theorem pairwise_sortMembers (members : List (String × α)) :
    (sortMembers members).Pairwise fun m n => m.1 < n.1 := by
  induction members with
  | nil => exact List.Pairwise.nil
  | cons m rest ih => exact pairwise_insertMember ih

/-- Sorting loses no member if each key stands for one item. -/
theorem mem_sortMembers_iff (h : Functional members) : m ∈ sortMembers members ↔ m ∈ members := by
  refine ⟨mem_of_mem_sortMembers, fun hm => ?_⟩
  have hkey : m.1 ∈ (sortMembers members).map Prod.fst :=
    mem_keys_sortMembers.2 (List.mem_map_of_mem hm)
  obtain ⟨n, hn, hkey⟩ := List.mem_map.1 hkey
  rwa [← h n (mem_of_mem_sortMembers hn) m hm hkey]

/-- Members that make up the same map are sorted into the same list. -/
theorem sortMembers_eq_of_mem_iff (h : Functional members)
    (hmem : ∀ m, m ∈ members ↔ m ∈ members') : sortMembers members = sortMembers members' := by
  have h' : Functional members' :=
    fun m hm n hn => h m ((hmem m).2 hm) n ((hmem n).2 hn)
  -- Lists in ascending order are the same if they have the same members.
  have hirrefl : Std.Irrefl fun m n : String × α => m.1 < n.1 := ⟨fun m => lt_irrefl m.1⟩
  have hantisymm : Std.Antisymm fun m n : String × α => m.1 < n.1 :=
    ⟨fun _ _ hlt hgt => absurd hgt (lt_asymm hlt)⟩
  refine (pairwise_sortMembers members).eq_of_mem_iff (pairwise_sortMembers members') fun m => ?_
  rw [mem_sortMembers_iff h, mem_sortMembers_iff h', hmem]

end

/-- Members with canonical forms make up the map of these forms. -/
theorem exists_canonicalMembers {members : List (String × Json)} (hfunctional : Functional members)
    (h : ∀ m ∈ members, ∃ e, m.2.canonical? = .ok e) :
    ∃ forms, canonicalMembers? members = .ok forms ∧ Functional forms ∧
      ∀ name e, (name, e) ∈ forms ↔ ∃ d, (name, d) ∈ members ∧ d.canonical? = .ok e := by
  obtain ⟨forms, hforms, hkeys, hall⟩ := canonicalMembers?_eq_ok h
  have hmem : ∀ name e, (name, e) ∈ forms ↔ ∃ d, (name, d) ∈ members ∧ d.canonical? = .ok e := by
    intro name e
    refine ⟨hall (name, e), ?_⟩
    rintro ⟨d, hd, he⟩
    -- There is a form under the key, and it is the form of the one document under it.
    have hkey : name ∈ forms.map Prod.fst := hkeys ▸ List.mem_map_of_mem (f := Prod.fst) hd
    obtain ⟨⟨name', e'⟩, hform, rfl⟩ := List.mem_map.1 hkey
    obtain ⟨d', hd', he'⟩ := hall _ hform
    cases hfunctional _ hd _ hd' rfl
    rw [he'] at he
    cases he
    exact hform
  refine ⟨forms, hforms, ?_, hmem⟩
  rintro ⟨name, e⟩ hm ⟨name', e'⟩ hn rfl
  obtain ⟨d, hd, he⟩ := (hmem _ _).1 hm
  obtain ⟨d', hd', he'⟩ := (hmem _ _).1 hn
  cases hfunctional _ hd _ hd' rfl
  rw [he] at he'
  cases he'
  rfl

/-! ## Reading and writing -/

/-- What a document becomes when it is read and written: the form that it has itself with numbers
in the place of integers. -/
def ReturnsAs (d e : Json) : Prop :=
  d.floated.canonical? = .ok e ∧ ∀ path, (Value.ofJson path d).toCanonicalJson? = .ok e

theorem returnsAs_integer {i : Int} (h : fitsWord i = true) :
    (integer i).ReturnsAs (.float (.ofInt i)) := by
  obtain ⟨negative, exponent, fraction, hfinite⟩ :=
    Binary64.ofInt_finite (natAbs_log2_of_fitsWord h)
  refine ⟨by rw [floated, canonical?], fun path => ?_⟩
  rw [Value.ofJson, Value.toCanonicalJson?, Value.toJson, Scalar.toJson, hfinite, Binary64.toJson,
    canonical?]

theorem exists_returnsAs_array {items : List Json} (h : ∀ d ∈ items, ∃ e, d.ReturnsAs e) :
    ∃ e, (array items).ReturnsAs e := by
  -- Elements are read and written one by one, each at a place of its own.
  have hitems : ∃ es, canonicalItems? (floatedItems items) = .ok es ∧
      ∀ path place,
        canonicalItems? (elementsToJson (elementsOfJson path place items)) = .ok es := by
    induction items with
    | nil => exact ⟨[], by rw [floatedItems, canonicalItems?],
        fun _ _ => by rw [elementsOfJson, elementsToJson, canonicalItems?]⟩
    | cons d ds ih =>
      obtain ⟨e, hfloated, hread⟩ := h d List.mem_cons_self
      obtain ⟨es, hrest, hreadRest⟩ := ih fun d hd => h d (List.mem_cons_of_mem _ hd)
      refine ⟨e :: es, by simp only [floatedItems, canonicalItems?, hfloated, hrest], ?_⟩
      intro path place
      have hhead : (Value.ofJson (place :: path) d).toJson.canonical? = .ok e := hread _
      simp only [elementsOfJson, elementsToJson, canonicalItems?, hhead, hreadRest]
  obtain ⟨es, hfloated, hread⟩ := hitems
  refine ⟨.array es, by simp only [floated, canonical?, hfloated, Except.map], fun path => ?_⟩
  simp only [Value.ofJson, Value.toCanonicalJson?, Value.toJson, Object.ofKind, Object.toJson,
    canonical?, hread, Except.map]

theorem mem_floatedMembers_iff {members : List (String × Json)} {name : String} {e : Json} :
    (name, e) ∈ floatedMembers members ↔ ∃ d, (name, d) ∈ members ∧ e = d.floated := by
  rw [floatedMembers_eq_map, List.mem_map]
  constructor
  · rintro ⟨m, hm, heq⟩
    cases heq
    exact ⟨m.2, hm, rfl⟩
  · rintro ⟨d, hd, rfl⟩
    exact ⟨(name, d), hd, rfl⟩

theorem Functional.floatedMembers {members : List (String × Json)} (h : Functional members) :
    Functional (floatedMembers members) := by
  rintro ⟨name, d⟩ hm ⟨name', d'⟩ hn rfl
  obtain ⟨e, he, rfl⟩ := mem_floatedMembers_iff.1 hm
  obtain ⟨e', he', rfl⟩ := mem_floatedMembers_iff.1 hn
  cases h _ he _ he' rfl
  rfl

theorem functional_textMembers {α : Type} (entries : List (PropertyKey × α)) :
    Functional (textMembers entries) := by
  rintro ⟨name, item⟩ hm ⟨name', item'⟩ hn rfl
  rw [mem_textMembers_iff] at hm hn
  rw [hm] at hn
  cases hn
  rfl

/-- The object that is made of members has under each key what is made of the member. -/
theorem exists_ofJson_of_functional {members : List (String × Json)} (h : Functional members)
    (path : List Nat) :
    ∃ entries, Value.ofJson path (.object members) =
        .object (.mk (.made path) .ordinary entries none none) ∧
      (∀ name d, (name, d) ∈ members →
        ∃ place, entries.lookup (.text name) = some (.ofJson (place :: path) d)) ∧
      ∀ name y, entries.lookup (.text name) = some y →
        ∃ d place, (name, d) ∈ members ∧ y = .ofJson (place :: path) d := by
  obtain ⟨entries, hobject, hkeys, hfound⟩ := exists_ofJson_object path members
  have hback : ∀ name y, entries.lookup (.text name) = some y →
      ∃ d place, (name, d) ∈ members ∧ y = .ofJson (place :: path) d := by
    intro name y hy
    obtain ⟨name', d, place, heq, hd, rfl⟩ := hfound _ y hy
    cases heq
    exact ⟨d, place, hd, rfl⟩
  refine ⟨entries, hobject, fun name d hd => ?_, hback⟩
  have hkey : PropertyKey.text name ∈ entries.map Prod.fst :=
    (hkeys _).2 ⟨name, List.mem_map_of_mem (f := Prod.fst) hd, rfl⟩
  obtain ⟨y, hy⟩ := Option.isSome_iff_exists.1 (isSome_lookup_iff.2 hkey)
  obtain ⟨d', place, hd', rfl⟩ := hback name y hy
  cases h _ hd _ hd' rfl
  exact ⟨place, hy⟩

theorem exists_returnsAs_object {members : List (String × Json)} (hfunctional : Functional members)
    (h : ∀ m ∈ members, ∃ e, m.2.ReturnsAs e) : ∃ e, (object members).ReturnsAs e := by
  -- First the form of the document with numbers in the place of integers.
  obtain ⟨forms, hforms, hfunctional', hmem⟩ :=
    exists_canonicalMembers hfunctional.floatedMembers fun m hm => by
      obtain ⟨d, hd, heq⟩ := mem_floatedMembers_iff.1 hm
      exact (h _ hd).imp fun _ he => heq ▸ he.1
  refine ⟨.object (sortMembers forms), by simp only [floated, canonical?, hforms, Except.map],
    fun path => ?_⟩
  -- Then what is read from the document, and the members that this is written as.
  obtain ⟨entries, hobject, hstored, hfound⟩ := exists_ofJson_of_functional hfunctional path
  have htext : ∀ name t, (name, t) ∈ textMembers (entriesToJson entries) ↔
      ∃ y, entries.lookup (.text name) = some y ∧ y.toJson = t := by
    intro name t
    rw [mem_textMembers_iff, lookup_entriesToJson, Option.map_eq_some_iff]
  obtain ⟨forms', hforms', -, hmem'⟩ :=
    exists_canonicalMembers (functional_textMembers (entriesToJson entries)) fun m hm => by
      obtain ⟨y, hy, heq⟩ := (htext m.1 m.2).1 hm
      obtain ⟨d, place, hd, rfl⟩ := hfound _ y hy
      exact (h _ hd).imp fun _ he => heq ▸ he.2 _
  have hsame : sortMembers forms = sortMembers forms' := by
    refine sortMembers_eq_of_mem_iff hfunctional' ?_
    rintro ⟨name, e⟩
    rw [hmem, hmem']
    -- A member and what is read from it and written again have one canonical form.
    constructor
    · rintro ⟨d', hd', he⟩
      obtain ⟨d, hd, rfl⟩ := mem_floatedMembers_iff.1 hd'
      obtain ⟨e', hfloated, hread⟩ := h _ hd
      cases he.symm.trans hfloated
      obtain ⟨place, hy⟩ := hstored name d hd
      exact ⟨_, (htext _ _).2 ⟨_, hy, rfl⟩, hread _⟩
    · rintro ⟨t, ht, he⟩
      obtain ⟨y, hy, rfl⟩ := (htext _ _).1 ht
      obtain ⟨d, place, hd, rfl⟩ := hfound _ y hy
      obtain ⟨e', hfloated, hread⟩ := h _ hd
      cases he.symm.trans (hread _)
      exact ⟨_, mem_floatedMembers_iff.2 ⟨d, hd, rfl⟩, hfloated⟩
  simp only [hobject, Value.toCanonicalJson?, Value.toJson, Object.toJson, canonical?, hforms',
    Except.map, hsame]

theorem WellFormed.exists_returnsAs {d : Json} (h : d.WellFormed) : ∃ e, d.ReturnsAs e := by
  induction h with
  | null => exact ⟨.null, rfl, fun _ => by rw [Value.ofJson]; rfl⟩
  | bool b => exact ⟨.bool b, rfl, fun _ => by rw [Value.ofJson]; rfl⟩
  | integer h => exact ⟨_, returnsAs_integer h⟩
  | float negative exponent fraction => exact ⟨.float _, rfl, fun _ => by rw [Value.ofJson]; rfl⟩
  | string s => exact ⟨.string s, rfl, fun _ => by rw [Value.ofJson]; rfl⟩
  | array _ ih => exact exists_returnsAs_array ih
  | object hkeys _ ih => exact exists_returnsAs_object (functional_of_nodup hkeys) ih

/-! ## Documents without integers -/

theorem canonicalItems?_eq_ok_iff {items es : List Json} :
    canonicalItems? items = .ok es ↔ List.Forall₂ (fun d e => d.canonical? = .ok e) items es := by
  induction items generalizing es with
  | nil => simp [canonicalItems?, eq_comm]
  | cons d ds ih =>
    rw [List.forall₂_cons_left_iff]
    simp only [← ih]
    cases hd : d.canonical? <;> cases hds : canonicalItems? ds <;>
      simp [canonicalItems?, hd, hds, eq_comm]

theorem exists_canonicalItems {items : List Json} (h : ∀ d ∈ items, ∃ e, d.canonical? = .ok e) :
    ∃ es, canonicalItems? items = .ok es := by
  simp only [canonicalItems?_eq_ok_iff]
  induction items with
  | nil => exact ⟨[], .nil⟩
  | cons d ds ih =>
    obtain ⟨e, he⟩ := h d List.mem_cons_self
    obtain ⟨es, hes⟩ := ih fun d hd => h d (List.mem_cons_of_mem _ hd)
    exact ⟨e :: es, .cons he hes⟩

theorem WellFormed.exists_canonical {d : Json} (h : d.WellFormed) : ∃ e, d.canonical? = .ok e := by
  induction h with
  | null => exact ⟨_, rfl⟩
  | bool b => exact ⟨_, rfl⟩
  | @integer i h => exact ⟨.integer i, by rw [canonical?, if_pos h]⟩
  | float negative exponent fraction => exact ⟨_, rfl⟩
  | string s => exact ⟨_, rfl⟩
  | array _ ih =>
    obtain ⟨es, hes⟩ := exists_canonicalItems ih
    exact ⟨.array es, by simp only [canonical?, hes, Except.map]⟩
  | object _ _ ih =>
    obtain ⟨forms, hforms, -⟩ := canonicalMembers?_eq_ok ih
    exact ⟨.object (sortMembers forms), by simp only [canonical?, hforms, Except.map]⟩

theorem floatedItems_eq {items es : List Json}
    (h : ∀ d ∈ items, ∀ e, d.canonical? = .ok e → d.floated.canonical? = .ok e → d.floated = d)
    (hitems : canonicalItems? items = .ok es)
    (hfloated : canonicalItems? (floatedItems items) = .ok es) : floatedItems items = items := by
  rw [canonicalItems?_eq_ok_iff] at hitems hfloated
  induction hitems with
  | nil => rfl
  | @cons d e ds es hd _ ih =>
    rw [floatedItems, List.forall₂_cons] at hfloated
    rw [floatedItems, h d List.mem_cons_self e hd hfloated.1,
      ih (fun d hd => h d (List.mem_cons_of_mem _ hd)) hfloated.2]

/-- A document has the form that it gets when it is read and written only if it has no integers. -/
theorem WellFormed.floated_eq {d e : Json} (h : d.WellFormed) (hd : d.canonical? = .ok e)
    (hfloated : d.floated.canonical? = .ok e) : d.floated = d := by
  induction h generalizing e with
  | null | bool _ | float _ _ _ | string _ => rfl
  | integer h =>
    -- An integer has itself for a form, and a number another one.
    rw [canonical?, if_pos h] at hd
    cases hd
    cases hfloated
  | @array items hitems ih =>
    rw [floated, canonical?] at hfloated
    rw [canonical?] at hd
    obtain ⟨es, hes⟩ := exists_canonicalItems fun d hd => (hitems d hd).exists_canonical
    rw [hes] at hd
    cases hd
    -- The forms of all items are the same, so each item is what it becomes.
    cases hes' : canonicalItems? (floatedItems items) with
    | error fault => rw [hes'] at hfloated; cases hfloated
    | ok es' =>
      rw [hes'] at hfloated
      cases hfloated
      rw [floated, floatedItems_eq (fun d hd e => ih d hd) hes hes']
  | @object members hkeys hmembers ih =>
    have hfunctional := functional_of_nodup hkeys
    obtain ⟨forms, hforms, hformsFunctional, hmem⟩ := exists_canonicalMembers hfunctional
      fun m hm => (hmembers m hm).exists_canonical
    obtain ⟨forms', hforms', hformsFunctional', hmem'⟩ :=
      exists_canonicalMembers hfunctional.floatedMembers fun m hm => by
        obtain ⟨d, hd, heq⟩ := mem_floatedMembers_iff.1 hm
        exact (hmembers _ hd).exists_returnsAs.imp fun _ he => heq ▸ he.1
    simp only [floated, canonical?, hforms, hforms', Except.map, Except.ok.injEq] at hd hfloated
    -- Members are compared after sorting, which loses none since keys do not repeat.
    have hsorted : sortMembers forms = sortMembers forms' := by simpa [← hd] using hfloated.symm
    rw [floated, floatedMembers_eq_map]
    congr 1
    refine (List.map_congr_left ?_).trans (List.map_id _)
    rintro ⟨name, d⟩ hm
    -- The one form under the key of a member is the form of both.
    obtain ⟨e, he⟩ := (hmembers _ hm).exists_canonical
    have hform : (name, e) ∈ forms' := by
      rw [← mem_sortMembers_iff hformsFunctional', ← hsorted, mem_sortMembers_iff hformsFunctional]
      exact (hmem _ _).2 ⟨d, hm, he⟩
    obtain ⟨d', hd', he'⟩ := (hmem' _ _).1 hform
    obtain ⟨d'', hm', rfl⟩ := mem_floatedMembers_iff.1 hd'
    cases hfunctional _ hm _ hm' rfl
    exact Prod.ext rfl (ih _ hm he he')

/-! ## The round trip -/

/-- A document that is read and written comes back with the nearest number in the place of each
integer, whatever its keys and however it is nested. So it comes back as it was if and only if it
has no integers. -/
theorem roundTrip_iff {d : Json} (h : d.WellFormed) (path : List Nat) :
    ∃ e, (Value.ofJson path d).toCanonicalJson? = .ok e ∧ d.floated.canonical? = .ok e ∧
      (d.canonical? = .ok e ↔ d.floated = d) := by
  obtain ⟨e, hfloated, hread⟩ := h.exists_returnsAs
  refine ⟨e, hread path, hfloated, fun hd => h.floated_eq hd hfloated, fun heq => ?_⟩
  rwa [heq] at hfloated

/-- A document with keys that look alike or are empty, one of them an index. -/
def alikeKeys : Json :=
  .object [("1", .integer 7), ("01", .array [.float (.signedZero true), .object [("", .null)]]),
    ("", .bool true), ("length", .string "1")]

theorem alikeKeys_wellFormed : alikeKeys.WellFormed := by
  have hinner : WellFormed (.object [("", .null)]) :=
    .object (by simp) (by simpa using WellFormed.null)
  have hrow : WellFormed (.array [.float (.signedZero true), .object [("", .null)]]) :=
    .array (by simpa using ⟨.float true 0 0, hinner⟩)
  exact .object (by decide) (by simpa using ⟨.integer (by decide), hrow, .bool true, .string "1"⟩)

theorem alikeKeys_roundTrip : alikeKeys.WellFormed ∧
    ∃ e, (Value.ofJson [] alikeKeys).toCanonicalJson? = .ok e ∧
      alikeKeys.floated.canonical? = .ok e ∧ alikeKeys.canonical? ≠ .ok e := by
  obtain ⟨e, hread, hfloated, hiff⟩ := roundTrip_iff alikeKeys_wellFormed []
  refine ⟨alikeKeys_wellFormed, e, hread, hfloated, fun hsame => ?_⟩
  have heq := hiff.1 hsame
  simp [alikeKeys, floated, floatedMembers] at heq

end Json

end Narrowing
