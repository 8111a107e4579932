-- SUMMARY: Canonical decimal numerals as the texts of indices, and reading them in a 32-bit word.
import Narrowing.Proofs.Indices

/-!
# Numerals of indices

The texts that are read as indices are the decimal numerals of the numbers below the limit
(`PropertyKey.arrayIndex?_inverts_ofIndex`). Numerals are told apart from other texts without the
reader (`PropertyKey.Numeral`): they grow digit by digit, and nothing is put behind the one of zero.

The limit is the greatest number in a word of 32 bits. Digits that are read in such a word either
have their full value or are not read at all (`PropertyKey.readWord?_eq_some_iff`), so an index can
be read in one (`PropertyKey.indexOfDigits?_eq_wordIndex?`).
-/

namespace Narrowing

namespace PropertyKey

/-! ## Decimal numerals -/

/-- The decimal numerals of numbers: a digit, or the numeral of a positive number and one more
digit. -/
inductive Numeral : List Char → Nat → Prop
  | digit {c : Char} (hc : c.isDigit = true) : Numeral [c] (c.toNat - '0'.toNat)
  | concat {digits : List Char} {n : Nat} {c : Char} (h : Numeral digits n) (hn : 0 < n)
      (hc : c.isDigit = true) : Numeral (digits ++ [c]) (10 * n + (c.toNat - '0'.toNat))

variable {digits : List Char} {name : String} {i n : Nat}

theorem Numeral.eq_toDigits (h : Numeral digits n) : digits = Nat.toDigits 10 n := by
  induction h with
  | digit hc =>
    obtain ⟨hchar, hlt⟩ := digitChar_of_isDigit hc
    rw [Nat.toDigits_of_lt_base hlt, hchar]
  | concat _ hn hc ih =>
    obtain ⟨hchar, hlt⟩ := digitChar_of_isDigit hc
    rw [← Nat.toDigits_append_toDigits (by decide) hn hlt, Nat.toDigits_of_lt_base hlt, hchar, ih]

theorem toNat_digitChar_sub (h : n < 10) : (Nat.digitChar n).toNat - '0'.toNat = n := by
  have hzero : '0'.toNat = 48 := rfl
  rw [Nat.toNat_digitChar_of_lt_ten h]
  omega

theorem numeral_toDigits (n : Nat) : Numeral (Nat.toDigits 10 n) n := by
  induction n using Nat.strongRecOn with
  | ind n ih =>
    rw [Nat.toDigits_eq_if (by decide)]
    split
    · next hlt =>
      have hdigit : (Nat.digitChar n).isDigit = true := by simp [hlt]
      have h := Numeral.digit hdigit
      rwa [toNat_digitChar_sub hlt] at h
    · next hge =>
      have hlast : n % 10 < 10 := Nat.mod_lt n (by decide)
      have hdigit : (Nat.digitChar (n % 10)).isDigit = true := by simp [hlast]
      have h := (ih (n / 10) (by omega)).concat (by omega) hdigit
      rwa [toNat_digitChar_sub hlast, Nat.div_add_mod] at h

/-- Each number has one numeral. -/
theorem numeral_iff : Numeral digits n ↔ digits = Nat.toDigits 10 n := by
  constructor
  · exact Numeral.eq_toDigits
  · rintro rfl
    exact numeral_toDigits n

/-- Digits are a numeral if there are any, and no zero in front of others. -/
theorem exists_numeral_iff :
    (∃ n, Numeral digits n) ↔
      digits ≠ [] ∧ (∀ c ∈ digits, c.isDigit = true) ∧ ∀ c rest, digits ≠ '0' :: c :: rest := by
  constructor
  · rintro ⟨n, h⟩
    obtain rfl := h.eq_toDigits
    refine ⟨Nat.toDigits_ne_nil, fun c hc => ?_, fun c rest hzero => ?_⟩
    · exact Nat.isDigit_of_mem_toDigits (by decide) (by decide) hc
    · -- A numeral with a zero in front is that of zero, which has one digit.
      obtain rfl : n = 0 := eq_zero_of_head?_toDigits (by rw [hzero]; rfl)
      cases hzero
  · rintro ⟨hne, hdigits, hzero⟩
    refine ⟨Nat.ofDigitChars 10 digits 0, numeral_iff.2 ?_⟩
    refine (toDigits_ofDigitChars hne (List.all_eq_true.2 hdigits) fun hhead => ?_).symm
    match digits, hhead with
    | [_], _ => rfl
    | c :: d :: rest, hhead =>
      obtain rfl : c = '0' := Option.some.inj hhead
      exact absurd rfl (hzero d rest)

theorem arrayIndex?_text_eq_some_iff :
    (text name).arrayIndex? = some i ↔ Numeral name.toList i ∧ i < indexLimit := by
  rw [arrayIndex?, indexOfDigits?_eq_some_iff, numeral_iff]

/-- A text is no index if it is empty, has something else than digits in it, has a zero in front of
other digits, or is the numeral of a number that is too great. -/
theorem arrayIndex?_text_eq_none_iff :
    (text name).arrayIndex? = none ↔
      name.toList = [] ∨ (∃ c ∈ name.toList, c.isDigit = false) ∨
        (∃ c rest, name.toList = '0' :: c :: rest) ∨
          ∃ n, Numeral name.toList n ∧ indexLimit ≤ n := by
  have hnone : (text name).arrayIndex? = none ↔ ∀ n, Numeral name.toList n → indexLimit ≤ n := by
    simp only [Option.eq_none_iff_forall_ne_some, Ne, arrayIndex?_text_eq_some_iff, not_and,
      Nat.not_lt]
  rw [hnone]
  constructor
  · intro h
    by_cases hnumeral : ∃ n, Numeral name.toList n
    · -- A numeral that is not read is that of a number beyond the limit.
      obtain ⟨n, hn⟩ := hnumeral
      exact .inr (.inr (.inr ⟨n, hn, h n hn⟩))
    · rw [exists_numeral_iff] at hnumeral
      -- A text that is no numeral fails one of the conditions for one.
      by_contra hother
      simp only [not_or, not_exists, not_and, Bool.not_eq_false] at hother
      exact hnumeral ⟨hother.1, hother.2.1, hother.2.2.1⟩
  · intro h n hn
    obtain ⟨hne, hdigits, hzero⟩ := exists_numeral_iff.1 ⟨n, hn⟩
    rcases h with hnil | ⟨c, hc, hother⟩ | ⟨c, rest, hlead⟩ | ⟨m, hm, hle⟩
    · exact absurd hnil hne
    · rw [hdigits c hc] at hother
      cases hother
    · exact absurd hlead (hzero c rest)
    · -- Two numbers with one numeral are the same.
      have hsame : m = n := by
        rw [← Nat.ofDigitChars_ten_toDigits (n := m), ← hm.eq_toDigits, hn.eq_toDigits,
          Nat.ofDigitChars_ten_toDigits]
      omega

/-! ## Reading in a word -/

/-- Reads digits behind a number in a word of 32 bits, as far as the word holds what they add up
to. -/
def readWord? (word : UInt32) : List Char → Option UInt32
  | [] => some word
  | c :: rest =>
      let next := 10 * word.toNat + (c.toNat - '0'.toNat)
      if h : next < UInt32.size then readWord? (.ofNatLT next h) rest else none

/-- The index that digits stand for, read in a word. -/
def wordIndex? (digits : List Char) : Option Nat :=
  if digits = [] ∨ digits.all Char.isDigit = false then none
  else if 1 < digits.length ∧ digits.head? = some '0' then none
  else ((readWord? 0 digits).filter (· < 4294967295)).map UInt32.toNat

theorem le_ofDigitChars (digits : List Char) (n : Nat) : n ≤ Nat.ofDigitChars 10 digits n := by
  induction digits generalizing n with
  | nil => exact Nat.le_refl n
  | cons c rest ih =>
    rw [Nat.ofDigitChars_cons]
    exact Nat.le_trans (by omega) (ih _)

/-- Once a word is too small it stays so, because more digits only make the number greater. -/
theorem readWord?_eq_some_iff {word result : UInt32} :
    readWord? word digits = some result ↔ Nat.ofDigitChars 10 digits word.toNat = result.toNat := by
  induction digits generalizing word with
  | nil => rw [readWord?, Option.some.injEq, Nat.ofDigitChars_nil, UInt32.toNat_inj]
  | cons c rest ih =>
    rw [readWord?, Nat.ofDigitChars_cons]
    split
    · rw [ih, UInt32.toNat_ofNatLT]
    · next hsize =>
      -- The value of all digits is beyond the word, since it already is here.
      have hgreater := le_ofDigitChars rest (10 * word.toNat + (c.toNat - '0'.toNat))
      have hresult := result.toNat_lt_size
      simp only [reduceCtorEq, false_iff]
      omega

/-- The greatest word is left out, so the words that are left are the indices. -/
theorem filter_readWord?_eq_some_iff :
    ((readWord? 0 digits).filter (· < 4294967295)).map UInt32.toNat = some i ↔
      Nat.ofDigitChars 10 digits 0 = i ∧ i < indexLimit := by
  simp only [Option.map_eq_some_iff, Option.filter_eq_some_iff, readWord?_eq_some_iff,
    decide_eq_true_eq, UInt32.lt_iff_toNat_lt]
  constructor
  · rintro ⟨word, ⟨hvalue, hlt⟩, rfl⟩
    exact ⟨hvalue, hlt⟩
  · rintro ⟨rfl, hlt⟩
    have hsize : Nat.ofDigitChars 10 digits 0 < UInt32.size := Nat.lt_trans hlt (by decide)
    exact ⟨.ofNatLT _ hsize, ⟨rfl, hlt⟩, rfl⟩

theorem indexOfDigits?_eq_wordIndex? (digits : List Char) :
    indexOfDigits? digits = wordIndex? digits := by
  -- The two readers refuse the same texts by tests in another order.
  unfold wordIndex?
  split
  · next hdigits =>
    refine if_neg ?_
    rintro ⟨hne, hall, -⟩
    rcases hdigits with hnil | hother
    · exact hne hnil
    · rw [hall] at hother
      cases hother
  · next hdigits =>
    simp only [not_or, Bool.not_eq_false] at hdigits
    obtain ⟨hne, hall⟩ := hdigits
    split
    · next hzero =>
      refine if_neg ?_
      rintro ⟨-, -, hlength, -⟩
      have := hlength hzero.2
      omega
    · next hzero =>
      -- No zero stands in front of others, so the digits are those of their value.
      have hlead : digits.head? = some '0' → digits.length = 1 := by
        intro hhead
        have hsome := List.length_pos_of_ne_nil hne
        have hshort : ¬ 1 < digits.length := fun hlong => hzero ⟨hlong, hhead⟩
        omega
      ext i
      rw [filter_readWord?_eq_some_iff, indexOfDigits?_eq_some_iff]
      constructor
      · rintro ⟨rfl, hlt⟩
        exact ⟨Nat.ofDigitChars_ten_toDigits, hlt⟩
      · rintro ⟨rfl, hlt⟩
        exact ⟨(toDigits_ofDigitChars hne hall hlead).symm, hlt⟩

/-! ## Keys and indices -/

/-- Reading an index from a key undoes writing it as one, and nothing else is read. The texts that
are read are the numerals of the numbers below the limit. Any other text is empty, or has something
else than digits in it, or a zero in front of other digits, or it is the numeral of a number that is
too great. The index can be read in a word of 32 bits. -/
theorem arrayIndex?_inverts_ofIndex (key : PropertyKey) (name : String) (i : Nat) :
    (key.arrayIndex? = some i ↔ key.isSymbol = false ∧ i < 4294967295 ∧ key = .ofIndex i) ∧
      ((text name).arrayIndex? = some i ↔ Numeral name.toList i ∧ i < 4294967295) ∧
      ((text name).arrayIndex? = none ↔
        name.toList = [] ∨ (∃ c ∈ name.toList, c.isDigit = false) ∨
          (∃ c rest, name.toList = '0' :: c :: rest) ∨
            ∃ n, Numeral name.toList n ∧ 4294967295 ≤ n) ∧
      (text name).arrayIndex? = wordIndex? name.toList := by
  refine ⟨?_, arrayIndex?_text_eq_some_iff, arrayIndex?_text_eq_none_iff,
    indexOfDigits?_eq_wordIndex? _⟩
  rw [arrayIndex?_eq_some_iff]
  constructor
  · rintro ⟨rfl, hlt⟩
    exact ⟨rfl, hlt, rfl⟩
  · rintro ⟨-, hlt, rfl⟩
    exact ⟨rfl, hlt⟩

-- The greatest index, the limit, a number that no word holds, and texts that other readers of
-- numbers take.
example :
    (["4294967294", "4294967295", "4294967296", "007", "+7", "٧", ""].map fun name =>
      (text name).arrayIndex?) = [some 4294967294, none, none, none, none, none, none] := by
  decide

end PropertyKey

end Narrowing
