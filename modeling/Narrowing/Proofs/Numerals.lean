-- SUMMARY: Displayed numbers read back to the decimal and to the number.
import Narrowing.Binary64.Layout
import Narrowing.Json.Reader
import Narrowing.Proofs.Indices
import Narrowing.Proofs.ShortestDecimals
import Narrowing.Proofs.StrictEquality

/-!
# Displayed numbers read back

A displayed number is a numeral behind a sign, in positional notation or with an exponent. Whatever
the notation, the digits, the point and the exponent say which decimal was written
(`Decimal.read?_decimalText`), and that decimal says which number (`Binary64.eq_of_roundsTo`). So
two numbers are displayed alike if and only if they are equal or neither of them is a number
(`Binary64.displayText_eq_iff`).
-/

namespace Narrowing

/-! ## Parts of numerals -/

namespace Json

variable {digits rest : List Char}

theorem isDigit_of_mem_toDigits {n : ℕ} {c : Char} (hc : c ∈ Nat.toDigits 10 n) :
    c.isDigit = true :=
  Nat.isDigit_of_mem_toDigits (by decide) (by decide) hc

theorem readDigits_append (hne : digits ≠ []) (hdigits : ∀ c ∈ digits, c.isDigit = true)
    (hrest : ∀ c ∈ rest.head?, c.isDigit = false) :
    readDigits (digits ++ rest) = some (digits, rest) := by
  have htake : rest.takeWhile Char.isDigit = [] := by
    cases rest with
    | nil => rfl
    | cons c cs => simp [hrest c rfl]
  have hdrop : rest.dropWhile Char.isDigit = rest := by
    cases rest with
    | nil => rfl
    | cons c cs => simp [hrest c rfl]
  unfold readDigits
  rw [List.takeWhile_append_of_pos hdigits, List.dropWhile_append_of_pos hdigits, htake, hdrop,
    List.append_nil]
  cases digits with
  | nil => exact absurd rfl hne
  | cons c cs => rfl

theorem readDigits_toDigits (n : ℕ) :
    readDigits (Nat.toDigits 10 n) = some (Nat.toDigits 10 n, []) := by
  have h : readDigits (Nat.toDigits 10 n ++ []) = _ :=
    readDigits_append Nat.toDigits_ne_nil (fun _ => isDigit_of_mem_toDigits) (by simp)
  simpa using h

theorem readExponent_signed (i : ℤ) :
    readExponent ('e' :: ((if i < 0 then ['-'] else ['+']) ++ Nat.toDigits 10 i.natAbs)) =
      some (some i, []) := by
  split
  · next hneg =>
    have hi : -(i.natAbs : ℤ) = i := by omega
    simp only [readExponent, List.singleton_append, readSignedDigits, readDigits_toDigits,
      Option.map_some, Nat.ofDigitChars_ten_toDigits, hi]
  · next hpos =>
    have hi : (i.natAbs : ℤ) = i := by omega
    simp only [readExponent, List.singleton_append, readSignedDigits, readDigits_toDigits,
      Option.map_some, Nat.ofDigitChars_ten_toDigits, hi]

end Json

namespace Decimal

/-- The decimal that a numeral writes. -/
def read? (text : List Char) : Option Decimal := do
  let (whole, rest) ← Json.readDigits text
  let (fraction, rest) ← Json.readFraction rest
  let (exponent, _) ← Json.readExponent rest
  return ⟨Nat.ofDigitChars 10 (whole ++ fraction) 0, exponent.getD 0 - fraction.length⟩

variable {whole fraction tail : List Char} {exponent : Option ℤ}

theorem read?_append (hne : whole ≠ []) (hwhole : ∀ c ∈ whole, c.isDigit = true)
    (hfraction : ∀ c ∈ fraction, c.isDigit = true) (htail : ∀ c ∈ tail.head?, c = 'e')
    (hexponent : Json.readExponent tail = some (exponent, [])) :
    read? (whole ++ ((if fraction.isEmpty then [] else '.' :: fraction) ++ tail)) =
      some ⟨Nat.ofDigitChars 10 (whole ++ fraction) 0, exponent.getD 0 - fraction.length⟩ := by
  -- Digits end where the exponent begins, and where the point is written.
  have htail' : ∀ c ∈ tail.head?, c.isDigit = false := by
    intro c hc
    rw [htail c hc]
    rfl
  have hrest : Json.readFraction ((if fraction.isEmpty then [] else '.' :: fraction) ++ tail) =
      some (fraction, tail) := by
    cases fraction with
    | nil =>
      cases tail with
      | nil => rfl
      | cons c cs =>
        obtain rfl : c = 'e' := htail c rfl
        rfl
    | cons c cs => exact Json.readDigits_append (List.cons_ne_nil c cs) hfraction htail'
  have hpoint : ∀ c ∈ ((if fraction.isEmpty then [] else '.' :: fraction) ++ tail).head?,
      c.isDigit = false := by
    cases fraction with
    | nil => exact htail'
    | cons c cs => simp
  simp only [read?, Json.readDigits_append hne hwhole hpoint, hrest, hexponent, Option.bind_eq_bind,
    Option.bind_some]
  rfl

theorem read?_whole (hne : whole ≠ []) (hwhole : ∀ c ∈ whole, c.isDigit = true) :
    read? whole = some ⟨Nat.ofDigitChars 10 whole 0, 0⟩ := by
  have h := @read?_append whole [] [] none hne hwhole (by simp) (by simp) rfl
  simpa using h

theorem read?_point (hne : whole ≠ []) (hwhole : ∀ c ∈ whole, c.isDigit = true)
    (hne' : fraction ≠ []) (hfraction : ∀ c ∈ fraction, c.isDigit = true) :
    read? (whole ++ '.' :: fraction) =
      some ⟨Nat.ofDigitChars 10 (whole ++ fraction) 0, -fraction.length⟩ := by
  have h := @read?_append whole fraction [] none hne hwhole hfraction (by simp) rfl
  simpa [hne'] using h

/-! ## Notations -/

section

variable {digits : List Char}

theorem read?_exponentText (hne : digits ≠ []) (hdigits : ∀ c ∈ digits, c.isDigit = true)
    (i : ℤ) :
    read? (NumberLayout.display.exponentText digits i) =
      some ⟨Nat.ofDigitChars 10 digits 0, i - (digits.length - 1)⟩ := by
  have hlength : 0 < digits.length := List.length_pos_of_ne_nil hne
  have hplaces : ((digits.drop 1).length : ℤ) = digits.length - 1 := by
    rw [List.length_drop]
    omega
  -- The first digit stands before the point, the others behind it.
  have h := @read?_append (digits.take 1) (digits.drop 1) _ (some i) (by simpa using hne)
    (fun c hc => hdigits c (List.mem_of_mem_take hc))
    (fun c hc => hdigits c (List.mem_of_mem_drop hc)) (by simp) (Json.readExponent_signed i)
  rw [List.take_append_drop, hplaces, ← List.append_assoc] at h
  exact h

theorem read?_positionalText (hne : digits ≠ []) (hdigits : ∀ c ∈ digits, c.isDigit = true)
    (point : ℤ) :
    ∃ d, read? (NumberLayout.display.positionalText digits point) = some d ∧
      d.value = Nat.ofDigitChars 10 digits 0 * 10 ^ (point - digits.length) := by
  have hzeros {k : ℕ} : ∀ c ∈ List.replicate k '0', c.isDigit = true := by
    intro c hc
    rw [List.eq_of_mem_replicate hc]
    rfl
  unfold NumberLayout.positionalText
  split
  · next hpoint =>
    -- Zeros in front of the digits are further places.
    let fraction := List.replicate (-point).toNat '0' ++ digits
    have hread : read? (['0'] ++ '.' :: fraction) = _ :=
      read?_point (by simp) (by simp) (by simp [fraction, hne])
        (List.forall_mem_append.2 ⟨hzeros, hdigits⟩)
    refine ⟨_, hread, ?_⟩
    have hvalue : Nat.ofDigitChars 10 (['0'] ++ fraction) 0 = Nat.ofDigitChars 10 digits 0 := by
      simp [fraction, Nat.ofDigitChars_cons, Nat.ofDigitChars_append,
        Nat.ofDigitChars_replicate_zero]
    have hplaces : (-fraction.length : ℤ) = point - digits.length := by
      simp only [fraction, List.length_append, List.length_replicate]
      omega
    simp only [value, hvalue, hplaces]
  split
  · next hpoint hlength =>
    -- Zeros behind the digits are factors of ten.
    let whole := digits ++ List.replicate (point.toNat - digits.length) '0'
    have hread : read? whole = _ :=
      read?_whole (by simp [whole, hne]) (List.forall_mem_append.2 ⟨hdigits, hzeros⟩)
    have hmark : NumberLayout.display.wholeMark = [] := rfl
    rw [hmark, List.append_nil]
    refine ⟨_, hread, ?_⟩
    have hvalue : Nat.ofDigitChars 10 whole 0 =
        10 ^ (point.toNat - digits.length) * Nat.ofDigitChars 10 digits 0 := by
      simp [whole, Nat.ofDigitChars_append, Nat.ofDigitChars_replicate_zero]
    have hplaces : point - digits.length = (point.toNat - digits.length : ℕ) := by omega
    rw [value, hvalue, hplaces, zpow_natCast]
    simp [mul_comm]
  · next hpoint hlength =>
    -- The point stands among the digits and splits them.
    have hread := @read?_point (digits.take point.toNat) (digits.drop point.toNat)
      (by simp [hne]; omega) (fun c hc => hdigits c (List.mem_of_mem_take hc)) (by simp; omega)
      (fun c hc => hdigits c (List.mem_of_mem_drop hc))
    refine ⟨_, hread, ?_⟩
    have hplaces : (-(digits.drop point.toNat).length : ℤ) = point - digits.length := by
      rw [List.length_drop]
      omega
    simp only [value, List.take_append_drop, hplaces]

end

/-- A displayed decimal is read back, if perhaps with zeros moved from the digits to the power. -/
theorem read?_decimalText (d : Decimal) :
    ∃ e, read? (NumberLayout.display.decimalText d) = some e ∧ e.value = d.value := by
  have hdigits : ∀ c ∈ Nat.toDigits 10 d.digits, c.isDigit = true :=
    fun _ => Json.isDigit_of_mem_toDigits
  simp only [NumberLayout.decimalText, NumberLayout.display]
  split
  · obtain ⟨e, hread, hvalue⟩ := read?_positionalText Nat.toDigits_ne_nil hdigits
      (d.exponent + (Nat.toDigits 10 d.digits).length - 1 + 1)
    refine ⟨e, hread, ?_⟩
    rw [hvalue, value, Nat.ofDigitChars_ten_toDigits]
    congr 2
    omega
  · refine ⟨_, read?_exponentText Nat.toDigits_ne_nil hdigits _, ?_⟩
    rw [value, value, Nat.ofDigitChars_ten_toDigits]
    congr 2
    simp only
    omega

/-- A numeral starts with a digit. -/
theorem exists_digit_of_read? {text : List Char} (h : (read? text).isSome = true) :
    ∃ c rest, text = c :: rest ∧ c.isDigit = true := by
  cases text with
  | nil => cases h
  | cons c rest =>
    refine ⟨c, rest, rfl, ?_⟩
    by_contra hc
    simp [read?, Json.readDigits, hc] at h

section

variable {c : Char} {digits : List Char}

theorem not_mem_positionalText (hc : c ∉ digits) (hmarks : c ∉ ['0', '.']) (point : ℤ) :
    c ∉ NumberLayout.display.positionalText digits point := by
  have htake (k : ℕ) : c ∉ digits.take k := fun hmem => hc (List.mem_of_mem_take hmem)
  have hdrop (k : ℕ) : c ∉ digits.drop k := fun hmem => hc (List.mem_of_mem_drop hmem)
  have hmark : NumberLayout.display.wholeMark = [] := rfl
  simp only [List.mem_cons, List.not_mem_nil, or_false, not_or] at hmarks
  unfold NumberLayout.positionalText
  split
  · simp [hmarks, hc]
  split
  · simp [hmarks, hc, hmark]
  · simp [hmarks, htake, hdrop]

theorem not_mem_exponentText (hc : ∀ n, c ∉ Nat.toDigits 10 n) (hmarks : c ∉ ['.', 'e', '+', '-'])
    (n : ℕ) (i : ℤ) : c ∉ NumberLayout.display.exponentText (Nat.toDigits 10 n) i := by
  have htake : c ∉ (Nat.toDigits 10 n).take 1 := fun hmem => hc n (List.mem_of_mem_take hmem)
  have hdrop : c ∉ (Nat.toDigits 10 n).drop 1 := fun hmem => hc n (List.mem_of_mem_drop hmem)
  have hpoint : c ∉ if ((Nat.toDigits 10 n).drop 1).isEmpty then []
      else '.' :: (Nat.toDigits 10 n).drop 1 := by
    split <;> simp_all
  have hsign : c ∉ if i < 0 then ['-'] else ['+'] := by
    split <;> simp_all
  have he : c ≠ 'e' := by
    rintro rfl
    simp at hmarks
  simp only [NumberLayout.exponentText, NumberLayout.display, List.mem_append, List.mem_cons, not_or]
  exact ⟨⟨htake, hpoint⟩, he, hsign, hc _⟩

/-- The characters of a displayed decimal are digits and these marks. -/
theorem not_mem_decimalText (hdigit : c.isDigit = false) (hmarks : c ∉ ['.', 'e', '+', '-'])
    (d : Decimal) : c ∉ NumberLayout.display.decimalText d := by
  have hdigits (n : ℕ) : c ∉ Nat.toDigits 10 n := by
    intro hmem
    rw [Json.isDigit_of_mem_toDigits hmem] at hdigit
    cases hdigit
  simp only [NumberLayout.decimalText, NumberLayout.display]
  split
  · refine not_mem_positionalText (hdigits _) ?_ _
    rw [List.mem_cons, not_or]
    refine ⟨?_, fun hmem => hmarks (List.mem_of_mem_take (i := 1) hmem)⟩
    rintro rfl
    cases hdigit
  · exact not_mem_exponentText hdigits hmarks _ _

end

end Decimal

/-! ## Signs -/

theorem NumberLayout.head?_toDigits_ne (n : ℕ) : (Nat.toDigits 10 n).head? ≠ some '-' := by
  intro h
  have hdigit := Json.isDigit_of_mem_toDigits (List.mem_of_mem_head? h)
  revert hdigit
  decide

/-- Behind a sign there is no second one, so the sign is told from the rest. -/
theorem NumberLayout.signText_append_inj {s t : Bool} {cs ds : List Char}
    (hcs : cs.head? ≠ some '-') (hds : ds.head? ≠ some '-') :
    signText s ++ cs = signText t ++ ds ↔ s = t ∧ cs = ds := by
  cases s <;> cases t <;> simp only [signText, if_true, if_false, Bool.false_eq_true,
    List.nil_append, List.singleton_append, true_and, false_and, iff_false, reduceCtorEq]
  · rintro rfl
    exact hcs rfl
  · rintro rfl
    exact hds rfl
  · exact List.cons_inj_right '-'

namespace Binary64

variable {x y : Binary64} {e f : Fin 2047} {a b : Fin 4503599627370496}

/-- Whether a number is displayed with a sign. -/
def showsSign : Binary64 → Bool
  | .nan _ _ => false
  | .infinite negative => negative
  | .finite negative exponent fraction => negative && significand exponent fraction != 0

/-- The numeral of a displayed finite number. -/
def magnitudeText (exponent : Fin 2047) (fraction : Fin 4503599627370496) : List Char :=
  if significand exponent fraction = 0 then ['0']
  else NumberLayout.display.decimalText (shortestDecimal true exponent fraction)

/-- The text of a displayed number behind its sign. -/
def unsignedText : Binary64 → List Char
  | .nan _ _ => "NaN".toList
  | .infinite _ => "Infinity".toList
  | .finite _ exponent fraction => magnitudeText exponent fraction

theorem chars_display (x : Binary64) :
    NumberLayout.display.chars x = NumberLayout.signText x.showsSign ++ x.unsignedText := by
  cases x with
  | nan negative payload => rfl
  | infinite negative => rfl
  | finite negative exponent fraction =>
    unfold NumberLayout.chars showsSign unsignedText magnitudeText
    dsimp only
    -- A zero is the one finite number that is shown without its sign.
    split
    · next hzero =>
      have hshows : (significand exponent fraction != 0) = false := by
        rw [hzero]
        rfl
      have hzeros : NumberLayout.display.signedZero = false := rfl
      rw [hshows, hzeros]
      cases negative <;> rfl
    · next hzero =>
      have hshows : (significand exponent fraction != 0) = true := bne_iff_ne.2 hzero
      rw [hshows, Bool.and_true]
      rfl

/-- The numeral of a finite number is read back as a magnitude that rounds to it. -/
theorem exists_read?_magnitudeText (e : Fin 2047) (a : Fin 4503599627370496) :
    ∃ d, Decimal.read? (magnitudeText e a) = some d ∧ RoundsTo e a d.value := by
  unfold magnitudeText
  split
  · next hzero =>
    have hvalue : (⟨0, 0⟩ : Decimal).value = 0 := by simp [Decimal.value]
    refine ⟨⟨0, 0⟩, rfl, ?_⟩
    rw [hvalue]
    exact roundsTo_zero hzero
  · next hzero =>
    obtain ⟨d, hread, hvalue⟩ := Decimal.read?_decimalText (shortestDecimal true e a)
    exact ⟨d, hread, hvalue ▸ roundsTo_shortestDecimal hzero true⟩

/-- A finite number is told by its numeral. -/
theorem eq_of_magnitudeText (h : magnitudeText e a = magnitudeText f b) : e = f ∧ a = b := by
  -- One decimal is read from the text, and it rounds to one number only.
  obtain ⟨d, hread, hrounds⟩ := exists_read?_magnitudeText e a
  obtain ⟨d', hread', hrounds'⟩ := exists_read?_magnitudeText f b
  rw [h, hread'] at hread
  cases hread
  exact eq_of_roundsTo hrounds hrounds'

theorem isSome_read?_unsignedText_iff :
    (Decimal.read? x.unsignedText).isSome = true ↔ ∃ n e a, x = finite n e a := by
  cases x with
  | nan negative payload => exact iff_of_false Bool.false_ne_true (by simp)
  | infinite negative => exact iff_of_false Bool.false_ne_true (by simp)
  | finite negative exponent fraction =>
    obtain ⟨d, hread, -⟩ := exists_read?_magnitudeText exponent fraction
    exact iff_of_true (Option.isSome_of_eq_some hread) ⟨_, _, _, rfl⟩

/-- The first character behind the sign. -/
theorem exists_head_unsignedText (x : Binary64) :
    ∃ c rest, x.unsignedText = c :: rest ∧ (c.isDigit = true ∨ c = 'N' ∨ c = 'I') := by
  cases x with
  | nan negative payload => exact ⟨'N', _, rfl, .inr (.inl rfl)⟩
  | infinite negative => exact ⟨'I', _, rfl, .inr (.inr rfl)⟩
  | finite negative exponent fraction =>
    obtain ⟨c, rest, htext, hc⟩ :=
      Decimal.exists_digit_of_read? (isSome_read?_unsignedText_iff.2 ⟨_, _, _, rfl⟩)
    exact ⟨c, rest, htext, .inl hc⟩

theorem head?_unsignedText_ne (x : Binary64) : x.unsignedText.head? ≠ some '-' := by
  obtain ⟨c, rest, htext, hc⟩ := exists_head_unsignedText x
  rw [htext, List.head?_cons, ne_eq, Option.some.injEq]
  rintro rfl
  revert hc
  decide

/-- The text of a displayed number tells its sign. -/
theorem chars_display_eq_iff : NumberLayout.display.chars x = NumberLayout.display.chars y ↔
    x.showsSign = y.showsSign ∧ x.unsignedText = y.unsignedText := by
  rw [chars_display, chars_display]
  exact NumberLayout.signText_append_inj (head?_unsignedText_ne x) (head?_unsignedText_ne y)

/-- Finite numbers with one text have one place on the line. -/
theorem rank_eq_of_chars {n m : Bool}
    (h : NumberLayout.display.chars (finite n e a) = NumberLayout.display.chars (finite m f b)) :
    (finite n e a).rank = (finite m f b).rank := by
  obtain ⟨hsign, htext⟩ := chars_display_eq_iff.1 h
  obtain ⟨rfl, rfl⟩ := eq_of_magnitudeText htext
  simp only [showsSign] at hsign
  by_cases hzero : significand e a = 0
  · -- Only zeros leave their sign out.
    have hfields : e.val * fractionCount + a.val = 0 := by
      simp only [significand, fractionCount] at *
      split at hzero <;> omega
    have hmagnitude : (e.val * fractionCount + a.val : ℤ) = 0 := by exact_mod_cast hfields
    simp only [rank, hmagnitude, neg_zero, ite_self]
  · rw [bne_iff_ne.2 hzero, Bool.and_true, Bool.and_true] at hsign
    rw [hsign]

/-- Two numbers are displayed alike if and only if they are equal or neither is a number. -/
theorem displayText_eq_iff : x.displayText = y.displayText ↔
    x.sameNumber y = true ∨ x.isNaN = true ∧ y.isNaN = true := by
  constructor
  · intro h
    have hchars : NumberLayout.display.chars x = NumberLayout.display.chars y :=
      String.ofList_injective h
    obtain ⟨hsign, htext⟩ := chars_display_eq_iff.1 hchars
    -- Only finite numbers are displayed as numerals.
    have hfinite : (∃ n e a, x = finite n e a) ↔ ∃ n e a, y = finite n e a := by
      rw [← isSome_read?_unsignedText_iff, htext, isSome_read?_unsignedText_iff]
    have hspecial : "NaN".toList ≠ "Infinity".toList := by decide
    cases x with
    | nan n payload =>
      cases y with
      | nan m payload' => exact .inr ⟨rfl, rfl⟩
      | infinite m => exact absurd htext hspecial
      | finite m f b => simp at hfinite
    | infinite n =>
      cases y with
      | nan m payload => exact absurd htext.symm hspecial
      | infinite m =>
        obtain rfl : n = m := hsign
        exact .inl (sameNumber_iff.2 ⟨_, rfl, rfl⟩)
      | finite m f b => simp at hfinite
    | finite n e a =>
      cases y with
      | nan m payload => simp at hfinite
      | infinite m => simp at hfinite
      | finite m f b => exact .inl (sameNumber_iff.2 ⟨_, rfl, (rank_eq_of_chars hchars).symm⟩)
  · rintro (h | ⟨hx, hy⟩)
    · -- Equal numbers are the same, or two zeros, which are displayed alike.
      rcases eq_or_zeros_of_sameNumber h with rfl | ⟨n, m, rfl, rfl⟩
      · rfl
      · rw [displayText_signedZero, displayText_signedZero]
    · cases x with
      | nan n payload =>
        cases y with
        | nan m payload' => rfl
        | _ => cases hy
      | _ => cases hx

end Binary64

end Narrowing
