-- SUMMARY: Runs on primitive values stay within finitely many values, with the termination criterion that follows.
import Mathlib.Data.Finite.Prod
import Mathlib.Data.Finite.Sum
import Mathlib.Data.Set.Finite.List
import Mathlib.Data.Set.Finite.Range
import Narrowing.Proofs.Calls

/-!
# Runs on primitive values

What comes of a primitive value by looking into the objects that stand in for it and by turning
numbers into keys stays among finitely many values (`Value.Within`). So recursion on a primitive
value ends, unless it comes back to a definition with a value that it was already run on
(`Definitions.settles_iff_nodup`).
-/

namespace Narrowing

/-! ## Finite types -/

theorem finite_char : Finite Char :=
  Finite.of_injective (fun c => c.val.toFin) fun _ _ h => Char.ext (UInt32.toFin_inj.1 h)

/-- The sign and the fields of a number, by kinds of numbers. -/
def Binary64.fields : Binary64 →
    (Bool × Fin 4503599627370495) ⊕ Bool ⊕ (Bool × Fin 2047 × Fin 4503599627370496)
  | .nan negative payload => .inl (negative, payload)
  | .infinite negative => .inr (.inl negative)
  | .finite negative exponent fraction => .inr (.inr (negative, exponent, fraction))

theorem finite_binary64 : Finite Binary64 := by
  apply Finite.of_injective Binary64.fields
  intro x y h
  cases x <;> cases y <;> simp_all [Binary64.fields]

theorem finite_short_texts (most : Nat) : {s : String | s.toList.length ≤ most}.Finite := by
  have := finite_char
  exact (List.finite_length_le Char most).preimage fun _ _ _ _ h => String.toList_inj.1 h

/-- The displayed texts of numbers have a greatest length. -/
theorem exists_displayText_length_le :
    ∃ most, ∀ n : Binary64, n.displayText.toList.length ≤ most := by
  have := finite_binary64
  obtain ⟨most, hmost⟩ :=
    (Set.finite_range fun n : Binary64 => n.displayText.toList.length).bddAbove
  exact ⟨most, fun n => hmost ⟨n, rfl⟩⟩

theorem length_ofIndex_le (i : Nat) :
    (String.ofList (Nat.toDigits 10 i)).toList.length ≤ i + 1 := by
  rw [String.toList_ofList, Nat.length_toDigits_le_iff (by decide) (Nat.succ_pos i)]
  exact Nat.lt_of_lt_of_le (Nat.lt_succ_self i) (Nat.le_of_lt (Nat.lt_pow_self (by decide)))

/-! ## Values that come of a primitive one -/

/-- A value is primitive, and a bound is kept to by its text and by the texts of numbers. -/
structure Value.Bounded (origin : Value) (most : Nat) : Prop where
  isPrimitive : origin.isPrimitive = true
  length_le : ∀ s, origin = .string s → s.toList.length ≤ most
  display_le : ∀ n : Binary64, n.displayText.toList.length ≤ most

/-- The primitive values that may come of a primitive one, texts being no longer than a bound. -/
inductive Value.Short (origin : Value) (most : Nat) : Value → Prop
  | origin : Short origin most origin
  | undefined : Short origin most .undefined
  | number (n : Binary64) : Short origin most (.number n)
  | text {s : String} (hs : s.toList.length ≤ most) : Short origin most (.string s)

/-- The values that may come of a primitive one: primitive values and the objects that stand in for
them. -/
inductive Value.Within (origin : Value) (most : Nat) : Value → Prop
  | short {x : Value} (hx : Value.Short origin most x) : Within origin most x
  | boxed {x : Value} (hx : Value.Short origin most x) : Within origin most (.object x.toObject)

namespace Value

variable {origin x y : Value} {most : Nat}

theorem finite_short (origin : Value) (most : Nat) : {x | Short origin most x}.Finite := by
  have := finite_binary64
  have hfinite : ({origin, .undefined} ∪ Set.range Value.number ∪
      Value.string '' {s | s.toList.length ≤ most}).Finite :=
    ((Set.toFinite _).union (Set.finite_range _)).union ((finite_short_texts most).image _)
  apply hfinite.subset
  intro x hx
  cases hx with
  | origin => simp
  | undefined => simp
  | number n => simp
  | text hs => exact .inr ⟨_, hs, rfl⟩

theorem finite_within (origin : Value) (most : Nat) : {x | Within origin most x}.Finite := by
  have hshort := finite_short origin most
  apply (hshort.union (hshort.image fun x => .object x.toObject)).subset
  intro x hx
  cases hx with
  | short hx => exact .inl hx
  | boxed hx => exact .inr ⟨_, hx, rfl⟩

theorem exists_bounded (hx : x.isPrimitive = true) : ∃ most, x.Bounded most := by
  obtain ⟨most, hmost⟩ := exists_displayText_length_le
  -- The greater of the two lengths does for both.
  let own : Nat := x.string?.elim 0 fun s => s.toList.length
  refine ⟨max most own, hx, ?_, ?_⟩
  · intro s hs
    subst hs
    exact Nat.le_max_right most own
  · intro n
    exact Nat.le_trans (hmost n) (Nat.le_max_left most own)

theorem Short.isPrimitive (hbound : origin.Bounded most) (hx : Short origin most x) :
    x.isPrimitive = true := by
  cases hx with
  | origin => exact hbound.isPrimitive
  | _ => rfl

theorem Short.length_le {s : String} (hbound : origin.Bounded most)
    (h : Short origin most (.string s)) : s.toList.length ≤ most := by
  generalize hx : Value.string s = x at h
  cases h with
  | origin => exact hbound.length_le s hx.symm
  | text hs =>
    cases hx
    exact hs
  | _ => cases hx

theorem CutFrom.short {text : String} (h : x.CutFrom text) (hlength : text.toList.length ≤ most) :
    Short origin most x := by
  cases h with
  | undefined => exact .undefined
  | number n => exact .number n
  | character hc =>
    -- A text with a character in it is not empty, so the bound leaves room for the character.
    refine .text ?_
    have hpos := List.length_pos_of_mem hc
    simp only [String.toList_singleton, List.length_singleton]
    omega
  | @index i hi => exact .text (Nat.le_trans (length_ofIndex_le i) (Nat.le_trans hi hlength))

/-- Looking into a value leads to no others. -/
theorem Within.yields (hbound : origin.Bounded most) (hx : Within origin most x)
    (h : x.Yields y) : Within origin most y := by
  cases hx with
  | short hx => exact absurd (hx.isPrimitive hbound) h.not_isPrimitive
  | boxed hx =>
    obtain ⟨text, rfl, hcut⟩ := h.of_toObject (hx.isPrimitive hbound)
    exact .short (hcut.short (hx.length_le hbound))

/-- Narrowing a value leads to no others. -/
theorem Within.judge {l : Leaf} (hbound : origin.Bounded most) (hl : l.isRule = false)
    (hx : Within origin most x) (h : l.judge x = .accepted y) : Within origin most y := by
  rcases Leaf.output_cases hl h with rfl | ⟨n, rfl, rfl⟩ | ⟨-, rfl⟩
  · exact hx
  · exact .short (.text (hbound.display_le n))
  · -- An object stands in for itself.
    cases hx with
    | short hx => exact .boxed hx
    | @boxed x hx => exact @boxed origin most x hx

end Value

namespace Definitions

variable {defs : Definitions} {v : Validator} {origin x : Value} {most : Nat}
  {trace : List (String × Value)}

/-- On a call path from a primitive value there are only the values that may come of it. -/
theorem CallPath.within (hdefs : defs.Each (Validator.Throughout defs.Known))
    (hv : v.Throughout defs.Known) (hbound : origin.Bounded most) (hx : origin.Within most x)
    (h : defs.CallPath v x trace) :
    ∀ entry ∈ trace, entry.1 ∈ defs.map Prod.fst ∧ origin.Within most entry.2 := by
  induction h with
  | done => simp
  | @call v w x y trace hcall _ ih =>
    refine ih (hv.inside w hcall.mem_parts) ?_
    cases hcontainer : v.isContainer with
    | true => exact hx.yields hbound (hcall.yields hcontainer)
    | false =>
      exact hcall.keeps hcontainer hdefs hv (fun l hl _ _ => Value.Within.judge hbound hl) hx
  | @unfold name w x trace hw _ ih =>
    refine List.forall_mem_cons.2 ⟨⟨?_, hx⟩, ih (hdefs name w hw) hx⟩
    obtain ⟨before, after, rfl, -⟩ := List.lookup_eq_some_iff.1 hw
    simp

/-- On a primitive value a validator comes to an end if and only if no call path comes back to a
definition with the same value. -/
theorem settles_iff_nodup (hdefs : defs.Each (Validator.Throughout defs.Known))
    (hv : v.Throughout defs.Known) (hx : x.isPrimitive = true) :
    defs.Settles v x ↔ ∀ trace, defs.CallPath v x trace → trace.Nodup := by
  constructor
  · intro h trace hpath
    exact hpath.nodup_of_settles h
  · intro hnodup
    obtain ⟨most, hbound⟩ := Value.exists_bounded hx
    have hfinite : ({name | name ∈ defs.map Prod.fst} ×ˢ {y | x.Within most y}).Finite :=
      (List.finite_toSet _).prod (Value.finite_within x most)
    -- A trace without repetitions is no longer than there are entries to choose from.
    rw [settles_iff_bounded hdefs hv]
    refine ⟨hfinite.toFinset.toList.length, ?_⟩
    intro trace hpath
    apply (hnodup trace hpath).length_le_of_subset
    intro entry hentry
    have hmem := hpath.within hdefs hv hbound (.short .origin) entry hentry
    simpa using hmem

end Definitions

end Narrowing
