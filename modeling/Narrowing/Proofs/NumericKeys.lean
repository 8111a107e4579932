-- SUMMARY: Numbers that name elements of an array, and the layout of whole numbers.
import Narrowing.Proofs.Arrays
import Narrowing.Proofs.Numerals

/-!
# Numbers as keys of arrays

A number names an element of an array if and only if it is the index of one
(`Definitions.keyOf_number_iff`). For this the text of a number has to be the numeral of an index
for exactly the numbers that are whole and not negative (`PropertyKey.ofNumber_eq_ofIndex_iff`).

The numeral of an index lies between the midpoints around one number only, which is the index.
The other way round, the search for the shortest decimal of a whole number ends at a whole decimal,
whose zeros the positional notation writes out.
-/

namespace Narrowing

/-! ## Whole numbers -/

namespace Binary64

variable {negative : Bool} {e : Fin 2047} {a : Fin 4503599627370496} {i : ℕ}

/-- The whole number that a magnitude is, if it is one. -/
def wholeMagnitude? (exponent : Fin 2047) (fraction : Fin 4503599627370496) : Option ℕ :=
  if 0 ≤ scale exponent then
    some (significand exponent fraction * Nat.pow 2 (scale exponent).toNat)
  else if significand exponent fraction % Nat.pow 2 (-scale exponent).toNat = 0 then
    some (significand exponent fraction / Nat.pow 2 (-scale exponent).toNat)
  else none

theorem wholeMagnitude?_eq_some_iff : wholeMagnitude? e a = some i ↔ magnitude e a = i := by
  unfold wholeMagnitude? magnitude
  split
  · next he =>
    -- A magnitude with a scale of no less than zero is whole.
    have hpow : (2 : ℚ) ^ scale e = ((2 ^ (scale e).toNat : ℕ) : ℚ) := by
      push_cast
      exact (pow_toNat_of_nonneg he).symm
    rw [hpow, ← Nat.cast_mul, Nat.cast_inj, Option.some.injEq, Nat.pow_eq]
  · next he =>
    -- Otherwise it is a quotient, which is whole if nothing remains.
    have hpow : (2 : ℚ) ^ scale e = ((2 ^ (-scale e).toNat : ℕ) : ℚ)⁻¹ := by
      push_cast
      rw [pow_neg_toNat (by omega), inv_inv]
    have hpos : 0 < 2 ^ (-scale e).toNat := Nat.two_pow_pos _
    rw [hpow, ← div_eq_mul_inv, div_eq_iff (by exact_mod_cast hpos.ne'), ← Nat.cast_mul,
      Nat.cast_inj, Nat.pow_eq]
    constructor
    · intro h
      split at h
      · next hdvd =>
        cases h
        exact (Nat.div_mul_cancel (Nat.dvd_of_mod_eq_zero hdvd)).symm
      · cases h
    · intro h
      rw [h, if_pos (Nat.mul_mod_left _ _), Nat.mul_div_cancel _ hpos]

theorem integral?_finite : (finite negative e a).integral? =
    (wholeMagnitude? e a).map fun n : ℕ => if negative then -(n : ℤ) else n := by
  change ((wholeMagnitude? e a).bind fun n => some (n : ℤ)).map _ = _
  cases wholeMagnitude? e a <;> rfl

/-- A number is whole and not negative if its magnitude is and it has no sign, or is zero. -/
theorem integral?_finite_eq_natCast_iff : (finite negative e a).integral? = some (i : ℤ) ↔
    magnitude e a = i ∧ (negative = true → i = 0) := by
  rw [integral?_finite, Option.map_eq_some_iff]
  constructor
  · rintro ⟨n, hn, hi⟩
    -- With a sign the number is not positive, so it is zero.
    obtain rfl : n = i := by
      split at hi <;> omega
    refine ⟨wholeMagnitude?_eq_some_iff.1 hn, ?_⟩
    rintro rfl
    simpa using hi
  · rintro ⟨hn, hzero⟩
    refine ⟨i, wholeMagnitude?_eq_some_iff.2 hn, ?_⟩
    split
    · next hnegative => simp [hzero hnegative]
    · rfl

/-- Both zeros are the whole number zero. -/
theorem integral?_signedZero (negative : Bool) :
    (signedZero negative).integral? = some ((0 : ℕ) : ℤ) := by
  have hmagnitude : magnitude 0 0 = (0 : ℕ) := by
    rw [Nat.cast_zero]
    exact magnitude_eq_zero_iff.2 rfl
  exact integral?_finite_eq_natCast_iff.2 ⟨hmagnitude, fun _ => rfl⟩

end Binary64

/-! ## Their texts -/

namespace Decimal

theorem read?_toDigits (i : ℕ) : read? (Nat.toDigits 10 i) = some ⟨i, 0⟩ := by
  rw [read?_whole Nat.toDigits_ne_nil fun _ => Json.isDigit_of_mem_toDigits,
    Nat.ofDigitChars_ten_toDigits]

/-- A whole decimal that is not too great is written out. -/
theorem decimalText_of_nonneg {d : Decimal} (hexponent : 0 ≤ d.exponent) (hpos : 0 < d.digits)
    (hlt : d.digits * 10 ^ d.exponent.toNat < 10 ^ 21) :
    NumberLayout.display.decimalText d = Nat.toDigits 10 (d.digits * 10 ^ d.exponent.toNat) := by
  have hzeros : (List.replicate d.exponent.toNat '0').all Char.isDigit = true := by simp
  have hdigits := PropertyKey.toDigits_append_of_pos hpos hzeros
  rw [Nat.ofDigitChars_replicate_zero, Nat.mul_comm] at hdigits
  -- There are 21 digits at most, which the positional notation has room for.
  have hlength : (Nat.toDigits 10 d.digits).length + d.exponent.toNat ≤ 21 := by
    have h := (Nat.length_toDigits_le_iff (by decide) (by decide)).2 hlt
    rwa [← hdigits, List.length_append, List.length_replicate] at h
  have hsome : 0 < (Nat.toDigits 10 d.digits).length := Nat.length_toDigits_pos
  rw [← hdigits]
  simp only [NumberLayout.decimalText, NumberLayout.display]
  rw [if_pos (by omega), NumberLayout.positionalText, if_neg (by omega), if_pos (by omega)]
  simp only [List.append_nil]
  congr 2
  omega

end Decimal

namespace Binary64

variable {e : Fin 2047} {a : Fin 4503599627370496} {i : ℕ}

theorem magnitudeText_eq_toDigits_iff (hi : i < 2 ^ 53) :
    magnitudeText e a = Nat.toDigits 10 i ↔ magnitude e a = i := by
  constructor
  · intro h
    -- The numeral is read as the whole number, so this one rounds to the magnitude.
    obtain ⟨d, hread, hrounds⟩ := exists_read?_magnitudeText e a
    rw [h, Decimal.read?_toDigits] at hread
    cases hread
    have hvalue : (⟨i, 0⟩ : Decimal).value = i := by simp [Decimal.value]
    rw [hvalue] at hrounds
    exact (roundsTo_natCast_iff hi).1 hrounds
  · intro h
    unfold magnitudeText
    split
    · next hzero =>
      rw [magnitude_eq_zero_iff.2 hzero, eq_comm, Nat.cast_eq_zero] at h
      rw [h, Nat.toDigits_zero]
    · next hzero =>
      -- The search ends at a whole decimal, whose zeros are written out.
      obtain ⟨hexponent, hdigits⟩ := shortestDecimal_of_magnitude hzero hi h true
      have hpos : 0 < (shortestDecimal true e a).digits := by
        refine Nat.pos_of_ne_zero fun hnone => hzero ?_
        rw [hnone, Nat.zero_mul] at hdigits
        rwa [← hdigits, Nat.cast_zero, magnitude_eq_zero_iff] at h
      rw [Decimal.decimalText_of_nonneg hexponent hpos (by omega), hdigits]

end Binary64

/-- A number names an index if and only if it is that whole number. -/
theorem PropertyKey.ofNumber_eq_ofIndex_iff {x : Binary64} {i : ℕ} (hi : i < 2 ^ 53) :
    ofNumber x = ofIndex i ↔ x.integral? = some (i : ℤ) := by
  have htext : ofNumber x = ofIndex i ↔ x.showsSign = false ∧ x.unsignedText = Nat.toDigits 10 i := by
    have hchars : ofNumber x = ofIndex i ↔
        NumberLayout.display.chars x = NumberLayout.signText false ++ Nat.toDigits 10 i := by
      rw [ofNumber, ofIndex, text.injEq]
      exact ⟨fun h => String.ofList_injective h, congrArg String.ofList⟩
    rw [hchars, Binary64.chars_display]
    exact NumberLayout.signText_append_inj x.head?_unsignedText_ne
      (NumberLayout.head?_toDigits_ne i)
  -- The text of a number that is not finite is no numeral.
  have hread (h : x.unsignedText = Nat.toDigits 10 i) : ∃ n e a, x = .finite n e a := by
    rw [← Binary64.isSome_read?_unsignedText_iff, h, Decimal.read?_toDigits]
    rfl
  rw [htext]
  cases x with
  | nan negative payload =>
    refine iff_of_false ?_ (by simp [Binary64.integral?])
    rintro ⟨-, h⟩
    simpa using hread h
  | infinite negative =>
    refine iff_of_false ?_ (by simp [Binary64.integral?])
    rintro ⟨-, h⟩
    simpa using hread h
  | finite negative e a =>
    rw [Binary64.integral?_finite_eq_natCast_iff, ← Binary64.magnitudeText_eq_toDigits_iff hi,
      and_comm]
    refine and_congr_right fun h => ?_
    have hmagnitude := (Binary64.magnitudeText_eq_toDigits_iff hi).1 h
    -- A sign is shown unless the magnitude is zero, which is when the index is.
    have hzero : i = 0 ↔ Binary64.significand e a = 0 := by
      rw [← Binary64.magnitude_eq_zero_iff, hmagnitude, Nat.cast_eq_zero]
    rw [hzero]
    cases negative <;> simp [Binary64.showsSign]

/-! ## Keys of arrays -/

/-- No number is displayed as the name of the length of an array. -/
theorem Binary64.displayText_ne_length (x : Binary64) : x.displayText ≠ "length" := by
  intro h
  have hchars : NumberLayout.display.chars x = "length".toList := by
    rw [← h]
    exact String.toList_ofList.symm
  -- The text begins with a sign, a digit, or the letter of a special number.
  obtain ⟨c, rest, htext, hc⟩ := x.exists_head_unsignedText
  rw [chars_display, htext] at hchars
  cases hsign : x.showsSign with
  | true =>
    rw [hsign] at hchars
    exact absurd (List.cons.inj hchars).1 (by decide)
  | false =>
    rw [hsign] at hchars
    obtain rfl : c = 'l' := (List.cons.inj hchars).1
    exact absurd hc (by decide)

/-- What comes with an array under a number are its elements. -/
theorem ObjectKind.slot?_array_ofNumber (elements : List Value) (x : Binary64) :
    (array elements).slot? (.ofNumber x) =
      (PropertyKey.ofNumber x).arrayIndex?.bind fun i => elements[i]? := by
  have hnamed : (array elements).named? x.displayText = none :=
    if_neg x.displayText_ne_length
  simp only [PropertyKey.ofNumber, slot?, hnamed]
  rfl

namespace Object

variable {o : Object} {elements : List Value} {x : Binary64}

/-- The own properties of a bare array that numbers name are its elements. -/
theorem getOwn_ofNumber_eq_some_iff (hkind : o.kind = .array elements) (hbare : o.properties = [])
    {y : Value} : o.getOwn (.ofNumber x) = some y ↔
      ∃ i < PropertyKey.indexLimit, x.integral? = some (i : ℤ) ∧ elements[i]? = some y := by
  have hslot : o.getOwn (.ofNumber x) = o.kind.slot? (.ofNumber x) := by
    unfold getOwn
    rw [hbare]
    cases o.kind.slot? (.ofNumber x) <;> rfl
  rw [hslot, hkind, ObjectKind.slot?_array_ofNumber, Option.bind_eq_some_iff]
  refine exists_congr fun i => ?_
  rw [PropertyKey.arrayIndex?_eq_some_iff, and_comm (a := _ = _), and_assoc]
  refine and_congr_right fun hi => ?_
  have hexact : i < 2 ^ 53 := Nat.lt_trans hi (by decide)
  rw [PropertyKey.ofNumber_eq_ofIndex_iff hexact]

theorem hasOwn_ofNumber_iff (hkind : o.kind = .array elements) (hbare : o.properties = [])
    (hlength : elements.length ≤ PropertyKey.indexLimit) :
    o.hasOwn (.ofNumber x) = true ↔ ∃ i < elements.length, x.integral? = some (i : ℤ) := by
  rw [hasOwn_eq_isSome_getOwn, Option.isSome_iff_exists]
  simp only [getOwn_ofNumber_eq_some_iff hkind hbare]
  constructor
  · rintro ⟨y, i, -, hx, hy⟩
    exact ⟨i, (List.getElem?_eq_some_iff.1 hy).1, hx⟩
  · rintro ⟨i, hi, hx⟩
    exact ⟨elements[i], i, Nat.lt_of_lt_of_le hi hlength, hx, List.getElem?_eq_getElem hi⟩

end Object

namespace Definitions

variable {defs : Definitions} {o : Object} {elements : List Value} {x : Binary64} {y : Value}

theorem returns_keyOf_number_iff : defs.Returns (.checkedKey (.leaf (.keyOf o {}))) (.number x)
    (.accepted y) ↔ o.hasOwn (.ofNumber x) = true ∧ y = (PropertyKey.ofNumber x).toValue := by
  have hrun (bound : ℕ) : defs.run bound (.checkedKey (.leaf (.keyOf o {}))) (.number x) =
      .ensure (o.hasOwn (.ofNumber x)) (Complaint.notKey (.ofNumber x)).reason
        (PropertyKey.ofNumber x).toValue := by
    simp [Validator.checkedKey, Validator.ofType, Leaf.judge, ValueType.narrow?, Outcome.ofOption,
      Value.toPropertyKey?, Object.hasKey]
  constructor
  · rintro ⟨-, bound, h⟩
    rw [hrun, Outcome.ensure_eq_accepted_iff] at h
    exact ⟨h.1, h.2.symm⟩
  · rintro ⟨h, rfl⟩
    refine ⟨by simp, 0, ?_⟩
    rw [hrun, Outcome.ensure_eq_accepted_iff]
    exact ⟨h, rfl⟩

/-- A number is accepted as a key of an array if and only if it is the index of an element. The
key is the one of the index, and the element is found under it. -/
theorem keyOf_number_iff (hkind : o.kind = .array elements) (hbare : o.properties = [])
    (hlength : elements.length ≤ PropertyKey.indexLimit) (defs : Definitions) (x : Binary64) :
    (defs.Accepts (.checkedKey (.leaf (.keyOf o {}))) (.number x) ↔
      ∃ i < elements.length, x.integral? = some (i : ℤ)) ∧
    ∀ y, defs.Returns (.checkedKey (.leaf (.keyOf o {}))) (.number x) (.accepted y) →
      ∃ i < elements.length, x.integral? = some (i : ℤ) ∧ y = (PropertyKey.ofIndex i).toValue ∧
        o.getOwn (.ofIndex i) = elements[i]? := by
  have hown := Object.hasOwn_ofNumber_iff hkind hbare hlength (x := x)
  constructor
  · rw [← hown]
    constructor
    · rintro ⟨y, hreturns⟩
      exact (returns_keyOf_number_iff.1 hreturns).1
    · intro h
      exact ⟨_, returns_keyOf_number_iff.2 ⟨h, rfl⟩⟩
  · intro y hreturns
    obtain ⟨hpresent, rfl⟩ := returns_keyOf_number_iff.1 hreturns
    obtain ⟨i, hi, hx⟩ := hown.1 hpresent
    have hlimit : i < PropertyKey.indexLimit := Nat.lt_of_lt_of_le hi hlength
    -- The number has the key of its index, since indices are exact as numbers.
    have hkey : PropertyKey.ofNumber x = .ofIndex i :=
      (PropertyKey.ofNumber_eq_ofIndex_iff (Nat.lt_trans hlimit (by decide))).2 hx
    have helement : elements[i]? = some elements[i] := List.getElem?_eq_getElem hi
    refine ⟨i, hi, hx, by rw [hkey], ?_⟩
    rw [helement]
    exact Object.getOwn_element hkind helement hlimit

/-- The array `["first"]`. -/
def singleItem : Object :=
  .ofKind (.made []) (.array [.string "first"])

theorem negativeZero_keyOf_singleItem :
    singleItem.kind = .array [.string "first"] ∧ singleItem.properties = [] ∧
      1 ≤ PropertyKey.indexLimit ∧
      Definitions.Accepts [] (.checkedKey (.leaf (.keyOf singleItem {})))
        (.number (.signedZero true)) := by
  have hlength : [Value.string "first"].length ≤ PropertyKey.indexLimit := by decide
  have hzero := Binary64.integral?_signedZero true
  exact ⟨rfl, rfl, hlength, (keyOf_number_iff rfl rfl hlength [] _).1.2 ⟨0, by decide, hzero⟩⟩

end Definitions

end Narrowing
