-- SUMMARY: Index keys and the indices read back from them, below the limit and beyond.
import Mathlib.Data.List.Basic
import Narrowing.PropertyKey

/-!
# Indices

An index is the key of exactly one number below the limit, and the number is read back from the key
that it is written as (`PropertyKey.arrayIndex?_eq_some_iff`). From the limit on, a number is still
written as a key, but the key is a text like any other.
-/

namespace Narrowing

namespace PropertyKey

/-! ## Numerals -/

/-- A digit is the character for its distance from zero. -/
theorem digitChar_of_isDigit {c : Char} (h : c.isDigit = true) :
    Nat.digitChar (c.toNat - '0'.toNat) = c ∧ c.toNat - '0'.toNat < 10 := by
  have hbounds : 48 ≤ c.toNat ∧ c.toNat ≤ 57 := by
    simpa [Char.isDigit, UInt32.le_iff_toNat_le] using h
  have hzero : '0'.toNat = 48 := rfl
  have hlt : c.toNat - '0'.toNat < 10 := by omega
  refine ⟨Char.toNat_inj.1 ?_, hlt⟩
  rw [Nat.toNat_digitChar_of_lt_ten hlt]
  omega

/-- Digits behind the numeral of a positive number make the numeral of what they add up to. -/
theorem toDigits_append_of_pos {n : Nat} {digits : List Char} (hn : 0 < n)
    (h : digits.all Char.isDigit = true) :
    Nat.toDigits 10 n ++ digits = Nat.toDigits 10 (Nat.ofDigitChars 10 digits n) := by
  induction digits generalizing n with
  | nil => simp
  | cons c rest ih =>
    simp only [List.all_cons, Bool.and_eq_true] at h
    obtain ⟨hchar, hlt⟩ := digitChar_of_isDigit h.1
    have hnext : Nat.toDigits 10 n ++ [c] = Nat.toDigits 10 (10 * n + (c.toNat - '0'.toNat)) := by
      rw [← Nat.toDigits_append_toDigits (by decide) hn hlt, Nat.toDigits_of_lt_base hlt, hchar]
    calc
      Nat.toDigits 10 n ++ c :: rest = (Nat.toDigits 10 n ++ [c]) ++ rest := by simp
      _ = Nat.toDigits 10 (10 * n + (c.toNat - '0'.toNat)) ++ rest := by rw [hnext]
      _ = Nat.toDigits 10 (Nat.ofDigitChars 10 (c :: rest) n) := by
        rw [ih (by omega) h.2, Nat.ofDigitChars_cons]

/-- Digits without a zero in front of others are the numeral of what they add up to. -/
theorem toDigits_ofDigitChars {digits : List Char} (hne : digits ≠ [])
    (hdigits : digits.all Char.isDigit = true)
    (hzero : digits.head? = some '0' → digits.length = 1) :
    Nat.toDigits 10 (Nat.ofDigitChars 10 digits 0) = digits := by
  cases digits with
  | nil => exact absurd rfl hne
  | cons c rest =>
    simp only [List.all_cons, Bool.and_eq_true] at hdigits
    obtain ⟨hchar, hlt⟩ := digitChar_of_isDigit hdigits.1
    rw [Nat.ofDigitChars_cons, Nat.mul_zero, Nat.zero_add]
    by_cases hc : c = '0'
    · -- A zero stands alone.
      obtain rfl : rest = [] := by simpa [hc] using hzero
      rw [Nat.ofDigitChars_nil, Nat.toDigits_of_lt_base hlt, hchar]
    · have hpos : 0 < c.toNat - '0'.toNat := by
        refine Nat.pos_of_ne_zero fun h => hc ?_
        rw [h] at hchar
        exact hchar.symm
      rw [← toDigits_append_of_pos hpos hdigits.2, Nat.toDigits_of_lt_base hlt, hchar]
      rfl

/-- Only the numeral of zero starts with a zero. -/
theorem eq_zero_of_head?_toDigits {n : Nat} (h : (Nat.toDigits 10 n).head? = some '0') :
    n = 0 := by
  induction n using Nat.strongRecOn with
  | ind n ih =>
    rw [Nat.toDigits_eq_if (by decide)] at h
    split at h
    · next hn =>
      have hchar : Nat.digitChar n = '0' := by simpa using h
      have hvalue := Nat.toNat_digitChar_of_lt_ten hn
      rw [hchar] at hvalue
      have hzero : '0'.toNat = 48 := rfl
      omega
    · next hn =>
      -- The digits in front would be the numeral of a smaller number, hence of zero.
      rw [List.head?_append_of_ne_nil _ Nat.toDigits_ne_nil] at h
      have := ih (n / 10) (by omega) h
      omega

/-! ## Indices and their keys -/

theorem ofIndex_injective : Function.Injective ofIndex := by
  intro i j h
  have hdigits : Nat.toDigits 10 i = Nat.toDigits 10 j :=
    String.ofList_injective (text.inj h)
  rw [← Nat.ofDigitChars_ten_toDigits (n := i), hdigits, Nat.ofDigitChars_ten_toDigits]

/-- The name of an index has only digits. -/
theorem ne_ofIndex_of_mem {name : String} {c : Char} (hc : c ∈ name.toList)
    (hdigit : c.isDigit = false) (i : Nat) : name ≠ String.ofList (Nat.toDigits 10 i) := by
  rintro rfl
  rw [String.toList_ofList] at hc
  have := Nat.isDigit_of_mem_toDigits (by decide) (by decide) hc
  rw [hdigit] at this
  cases this

theorem indexOfDigits?_eq_some_iff {digits : List Char} {i : Nat} :
    indexOfDigits? digits = some i ↔ digits = Nat.toDigits 10 i ∧ i < indexLimit := by
  simp only [indexOfDigits?, Option.ite_none_right_eq_some, Option.some.injEq]
  constructor
  · rintro ⟨⟨hne, hdigits, hzero, hlt⟩, rfl⟩
    exact ⟨(toDigits_ofDigitChars hne hdigits hzero).symm, hlt⟩
  · rintro ⟨rfl, hlt⟩
    refine ⟨⟨Nat.toDigits_ne_nil, ?_, ?_, ?_⟩, Nat.ofDigitChars_ten_toDigits⟩
    · rw [List.all_eq_true]
      exact fun c hc => Nat.isDigit_of_mem_toDigits (by decide) (by decide) hc
    · intro hhead
      rw [eq_zero_of_head?_toDigits hhead]
      rfl
    · rwa [Nat.ofDigitChars_ten_toDigits]

/-- An index is read back from the key that it is written as, and from no other. -/
theorem arrayIndex?_eq_some_iff {key : PropertyKey} {i : Nat} :
    key.arrayIndex? = some i ↔ key = ofIndex i ∧ i < indexLimit := by
  cases key with
  | symbol s => simp [ofIndex]
  | text name =>
    rw [arrayIndex?, indexOfDigits?_eq_some_iff, ofIndex, text.injEq, ← String.toList_inj,
      String.toList_ofList]

theorem arrayIndex?_ofIndex (i : Nat) :
    (ofIndex i).arrayIndex? = if i < indexLimit then some i else none := by
  split
  · next hlt => exact arrayIndex?_eq_some_iff.2 ⟨rfl, hlt⟩
  · next hlt =>
    rw [Option.eq_none_iff_forall_ne_some]
    intro j hj
    obtain ⟨hkey, hj⟩ := arrayIndex?_eq_some_iff.1 hj
    exact hlt (ofIndex_injective hkey ▸ hj)

end PropertyKey

end Narrowing
