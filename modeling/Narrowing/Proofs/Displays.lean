-- SUMMARY: Injectivity of displayed literals, by reading escapes and numerals back.
import Mathlib.Data.List.Lemmas
import Narrowing.Value.Text
import Narrowing.Proofs.Numerals

/-!
# Displayed values are told apart

The displayed text of a primitive value other than a symbol says which value it is
(`Value.displays_apart`). Its first and last characters give the kind away (`Text.typeName`), and
within a kind nothing is lost: numerals are read back, and an escape between quotation marks starts
with a backslash, which no other character does.
-/

namespace Narrowing

/-! ## Quoted texts -/

namespace Text

variable {c d : Char} {s t : List Char}

theorem exists_digit_of_mem_hexadecimal {n : ℕ} (hc : c ∈ Nat.toDigits 16 n) :
    ∃ digit < 16, c = Nat.digitChar digit := by
  induction n using Nat.strongRecOn with
  | ind n ih =>
    rw [Nat.toDigits_eq_if (by decide)] at hc
    split at hc
    · next hn => exact ⟨n, hn, by simpa using hc⟩
    · next hn =>
      -- The digit is the last one, or one of the quotient.
      rcases List.mem_append.1 hc with hc | hc
      · exact ih (n / 16) (by omega) hc
      · exact ⟨n % 16, by omega, by simpa using hc⟩

theorem digitChar_injective {m n : Fin 16} (h : Nat.digitChar m = Nat.digitChar n) : m = n := by
  revert m n
  decide

theorem hexadecimal_injective {m n : ℕ} (h : Nat.toDigits 16 m = Nat.toDigits 16 n) : m = n := by
  induction m using Nat.strongRecOn generalizing n with
  | ind m ih =>
    have hm := @Nat.toDigits_eq_if 16 m (by decide)
    have hn := @Nat.toDigits_eq_if 16 n (by decide)
    rw [hm, hn] at h
    -- One digit is told from several by the length, and several by the last and the others.
    split at h <;> split at h
    · next hm hn =>
      have hdigit := @digitChar_injective ⟨m, hm⟩ ⟨n, hn⟩ (List.cons.inj h).1
      exact Fin.mk.inj hdigit
    · exact absurd (List.append_eq_singleton_iff.1 h.symm) (by simp [Nat.toDigits_ne_nil])
    · exact absurd (List.append_eq_singleton_iff.1 h) (by simp [Nat.toDigits_ne_nil])
    · next hm hn =>
      obtain ⟨hrest, hlast⟩ := List.append_singleton_inj.1 h
      have hdigit := @digitChar_injective ⟨m % 16, by omega⟩ ⟨n % 16, by omega⟩ hlast
      have hquotient := ih (m / 16) (by omega) hrest
      have hremainder := Fin.mk.inj hdigit
      omega

/-- The character that a letter behind a backslash stands for. -/
def named : Char → Char
  | 'n' => '\n'
  | 'r' => '\r'
  | 't' => '\t'
  | '0' => Char.ofNat 0
  | letter => letter

/-- A character is written as itself, by a letter behind a backslash, or by its code point. -/
inductive Escape (c : Char) : List Char → Prop
  | plain (hc : c ≠ '\\') : Escape c [c]
  | letter {l : Char} (hl : l ≠ 'u') (hc : named l = c) : Escape c ['\\', l]
  | codePoint : Escape c (codePointEscape c)

theorem escape_escapes (c : Char) : Escape c (escape c) := by
  -- The cases are the tests of the definition, in their order.
  unfold escape
  split
  · next hc =>
    rcases hc with rfl | rfl
    · exact .letter (by decide) rfl
    · exact .letter (by decide) rfl
  next hc =>
  split
  · next h =>
    subst h
    exact .letter (by decide) rfl
  split
  · next h =>
    subst h
    exact .letter (by decide) rfl
  split
  · next h =>
    subst h
    exact .letter (by decide) rfl
  split
  · next h => exact .letter (by decide) (Char.toNat_inj.1 h.symm)
  split
  · exact .codePoint
  · exact .plain fun h => hc (.inr h)

theorem brace_ne_of_mem_hexadecimal {n : ℕ} (hc : c ∈ Nat.toDigits 16 n) : c ≠ '\x7d' := by
  obtain ⟨digit, hlt, rfl⟩ := exists_digit_of_mem_hexadecimal hc
  have hnone : ∀ digit : Fin 16, Nat.digitChar digit ≠ '\x7d' := by decide
  exact hnone ⟨digit, hlt⟩

theorem codePointEscape_append_inj (h : codePointEscape c ++ s = codePointEscape d ++ t) :
    c = d := by
  -- The digits are what comes before the brace.
  have htake (c : Char) (s : List Char) :
      (Nat.toDigits 16 c.toNat ++ '\x7d' :: s).takeWhile (· != '\x7d') =
        Nat.toDigits 16 c.toNat := by
    have hdigits : ∀ e ∈ Nat.toDigits 16 c.toNat, (e != '\x7d') = true :=
      fun e he => bne_iff_ne.2 (brace_ne_of_mem_hexadecimal he)
    simp [List.takeWhile_append_of_pos hdigits]
  have hrest : Nat.toDigits 16 c.toNat ++ '\x7d' :: s = Nat.toDigits 16 d.toNat ++ '\x7d' :: t := by
    simpa [codePointEscape] using h
  have hdigits := congrArg (List.takeWhile (· != '\x7d')) hrest
  rw [htake, htake] at hdigits
  exact Char.toNat_inj.1 (hexadecimal_injective hdigits)

/-- What a character is written as is told from what follows. -/
theorem escape_append_inj (h : escape c ++ s = escape d ++ t) : c = d ∧ s = t := by
  -- Two escapes are compared form by form: the first character tells whether there is a backslash,
  -- and the second one whether a letter or a code point follows it.
  have hchar : c = d := by
    have hc := escape_escapes c
    have hd := escape_escapes d
    generalize escape c = cs at h hc
    generalize escape d = ds at h hd
    cases hc with
    | plain hc =>
      cases hd with
      | plain hd => exact (List.cons.inj h).1
      | letter hl hd => exact absurd (List.cons.inj h).1 hc
      | codePoint => exact absurd (List.cons.inj h).1 hc
    | @letter l hl hc =>
      cases hd with
      | plain hd => exact absurd (List.cons.inj h).1.symm hd
      | @letter l' hl' hd =>
        obtain rfl : l = l' := (List.cons.inj (List.cons.inj h).2).1
        exact hc.symm.trans hd
      | codePoint => exact absurd (List.cons.inj (List.cons.inj h).2).1 hl
    | codePoint =>
      cases hd with
      | plain hd => exact absurd (List.cons.inj h).1.symm hd
      | letter hl hd => exact absurd (List.cons.inj (List.cons.inj h).2).1.symm hl
      | codePoint => exact codePointEscape_append_inj h
  subst hchar
  exact ⟨rfl, List.append_cancel_left h⟩

theorem escape_ne_nil (c : Char) : escape c ≠ [] := by
  have hc := escape_escapes c
  generalize escape c = cs at hc
  cases hc <;> exact List.cons_ne_nil _ _

theorem flatMap_escape_injective (h : s.flatMap escape = t.flatMap escape) : s = t := by
  induction s generalizing t with
  | nil =>
    cases t with
    | nil => rfl
    | cons d t => exact absurd (List.append_eq_nil_iff.1 h.symm).1 (escape_ne_nil d)
  | cons c s ih =>
    cases t with
    | nil => exact absurd (List.append_eq_nil_iff.1 h).1 (escape_ne_nil c)
    | cons d t =>
      -- The first escapes are equal, so are their characters, and what follows is shorter.
      obtain ⟨rfl, hrest⟩ := escape_append_inj h
      rw [ih hrest]

theorem quoted_injective : Function.Injective quoted := by
  intro s t h
  have hchars : quotedChars s.toList = quotedChars t.toList := String.ofList_injective h
  have hescaped := List.append_cancel_right (List.cons.inj hchars).2
  exact String.toList_inj.1 (flatMap_escape_injective hescaped)

end Text

/-! ## Big integers -/

theorem toList_toString_int (i : ℤ) :
    (toString i).toList = NumberLayout.signText (decide (i < 0)) ++ Nat.toDigits 10 i.natAbs := by
  rw [Int.toString_eq_repr, Int.repr_eq_if]
  split
  · next hi =>
    rw [decide_eq_false (by omega), Nat.toList_repr]
    congr 2
    omega
  · next hi =>
    rw [decide_eq_true (by omega), String.toList_append, Nat.toList_repr]
    congr 2
    omega

theorem toString_int_injective : Function.Injective (fun i : ℤ => toString i) := by
  intro i j h
  have hchars := congrArg String.toList h
  simp only [toList_toString_int] at hchars
  -- The sign comes apart from the digits, since no digit is a sign.
  obtain ⟨hsign, hdigits⟩ := (NumberLayout.signText_append_inj
    (NumberLayout.head?_toDigits_ne _) (NumberLayout.head?_toDigits_ne _)).1 hchars
  have habs : i.natAbs = j.natAbs :=
    PropertyKey.ofIndex_injective (by rw [PropertyKey.ofIndex, hdigits, PropertyKey.ofIndex])
  rw [decide_eq_decide] at hsign
  omega

/-! ## Kinds -/

/-- The type of the primitive value that a text displays. -/
def Text.typeName (text : List Char) : String :=
  match text with
  | 'u' :: _ => "undefined"
  | 'n' :: _ => "object"
  | 't' :: _ | 'f' :: _ => "boolean"
  | '"' :: _ => "string"
  | _ => if text.getLast? = some 'n' then "bigint" else "number"

theorem Text.typeName_numeral {c : Char} {rest : List Char}
    (h : c.isDigit = true ∨ c ∈ ['-', 'N', 'I']) :
    typeName (c :: rest) =
      if (c :: rest).getLast? = some 'n' then "bigint" else "number" := by
  unfold typeName
  split
  -- None of the letters that tell a type can stand first.
  case h_6 => rfl
  all_goals
    next heq =>
      cases heq
      exact absurd h (by decide)

/-- A sign in front of a numeral makes no difference to its type. -/
theorem Text.typeName_signText_append {s : Bool} {c : Char} {rest : List Char}
    (h : c.isDigit = true ∨ c ∈ ['-', 'N', 'I']) :
    typeName (NumberLayout.signText s ++ c :: rest) =
      if (c :: rest).getLast? = some 'n' then "bigint" else "number" := by
  cases s with
  | false => exact typeName_numeral h
  | true =>
    have hlast : ('-' :: c :: rest).getLast? = (c :: rest).getLast? := List.getLast?_cons_cons
    have htype := @typeName_numeral '-' (c :: rest) (.inr List.mem_cons_self)
    rw [hlast] at htype
    exact htype

theorem Binary64.getLast?_unsignedText_ne (x : Binary64) :
    x.unsignedText.getLast? ≠ some 'n' := by
  cases x with
  | nan negative payload => exact (by decide : "NaN".toList.getLast? ≠ some 'n')
  | infinite negative => exact (by decide : "Infinity".toList.getLast? ≠ some 'n')
  | finite negative exponent fraction =>
    intro hlast
    have hmem : 'n' ∈ magnitudeText exponent fraction := List.mem_of_getLast? hlast
    unfold magnitudeText at hmem
    split at hmem
    · exact absurd hmem (by decide)
    · exact Decimal.not_mem_decimalText (by decide) (by decide) _ hmem

theorem Binary64.typeName_chars (x : Binary64) :
    Text.typeName (NumberLayout.display.chars x) = "number" := by
  obtain ⟨c, rest, htext, hc⟩ := exists_head_unsignedText x
  have hlast := getLast?_unsignedText_ne x
  rw [htext] at hlast
  rw [chars_display, htext, Text.typeName_signText_append (hc.imp_right (by simp +contextual)),
    if_neg hlast]

namespace Value

/-- The values that are displayed in full. -/
inductive Literal : Value → Prop
  | undefined : Literal .undefined
  | null : Literal .null
  | boolean (b : Bool) : Literal (.boolean b)
  | number (n : Binary64) : Literal (.number n)
  | bigint (i : ℤ) : Literal (.bigint i)
  | string (s : String) : Literal (.string s)

variable {x y : Value}

theorem toList_display_bigint (i : ℤ) :
    (bigint i).display.toList =
      NumberLayout.signText (decide (i < 0)) ++ (Nat.toDigits 10 i.natAbs ++ ['n']) := by
  have hsuffix : "n".toList = ['n'] := rfl
  simp only [display, Scalar.display, String.toList_append, toList_toString_int, hsuffix,
    List.append_assoc]

/-- The text of a literal gives its type away. -/
theorem Literal.typeName_display (hx : x.Literal) :
    Text.typeName x.display.toList = x.typeName := by
  cases hx with
  | undefined => rfl
  | null => rfl
  | boolean b => cases b <;> rfl
  | number n =>
    have htext : (Value.number n).display.toList = NumberLayout.display.chars n :=
      String.toList_ofList
    rw [htext]
    exact n.typeName_chars
  | bigint i =>
    obtain ⟨c, rest, hdigits⟩ := List.exists_cons_of_ne_nil (@Nat.toDigits_ne_nil i.natAbs 10)
    have hc : c.isDigit = true := Json.isDigit_of_mem_toDigits (hdigits ▸ List.mem_cons_self)
    -- The letter at the end tells the text from that of a number.
    have hlast : (c :: (rest ++ ['n'])).getLast? = some 'n' := by
      rw [← List.cons_append]
      exact List.getLast?_concat
    rw [toList_display_bigint, hdigits, List.cons_append,
      Text.typeName_signText_append (.inl hc), if_pos hlast]
    rfl
  | string s =>
    have htext : (Value.string s).display.toList = Text.quotedChars s.toList :=
      String.toList_ofList
    rw [htext]
    rfl

/-- Literals with one text are equal, or neither of them is a number. -/
theorem Literal.equal_of_display (hx : x.Literal) (hy : y.Literal) (h : x.display = y.display) :
    x.strictEq y = true ∨
      ∃ n m, x = .number n ∧ y = .number m ∧ n.isNaN = true ∧ m.isNaN = true := by
  -- Texts of two types differ, so only values of one type are left.
  have htype : x.typeName = y.typeName := by
    rw [← hx.typeName_display, ← hy.typeName_display, h]
  cases hx with
  | undefined =>
    cases hy with
    | undefined => exact .inl rfl
    | _ => simp [typeName] at htype
  | null =>
    cases hy with
    | null => exact .inl rfl
    | _ => simp [typeName] at htype
  | boolean b =>
    cases hy with
    | boolean c =>
      obtain rfl : b = c := by
        revert h
        cases b <;> cases c <;> decide
      exact .inl (strictEq_self_iff.2 (by simp))
    | _ => simp [typeName] at htype
  | number n =>
    cases hy with
    | number m =>
      -- Numbers share a text if they are equal, zeros included, or neither is a number.
      rcases Binary64.displayText_eq_iff.1 h with h | ⟨hn, hm⟩
      · exact .inl h
      · exact .inr ⟨n, m, rfl, rfl, hn, hm⟩
    | _ => simp [typeName] at htype
  | bigint i =>
    cases hy with
    | bigint j =>
      obtain rfl : i = j := toString_int_injective (String.append_left_inj "n" |>.1 h)
      exact .inl (strictEq_self_iff.2 (by simp))
    | _ => simp [typeName] at htype
  | string s =>
    cases hy with
    | string t =>
      obtain rfl : s = t := Text.quoted_injective h
      exact .inl (strictEq_self_iff.2 (by simp))
    | _ => simp [typeName] at htype

theorem Literal.display_eq (hx : x.Literal) (h : x.strictEq y = true) : x.display = y.display := by
  rcases strictEq_cases h with rfl | ⟨s, t, rfl, rfl⟩ | ⟨o, p, rfl, -, -⟩
  · rfl
  · exact (Binary64.displayText_signedZero s).trans (Binary64.displayText_signedZero t).symm
  · cases hx

/-- Two literals are displayed alike if and only if they are equal or neither of them is a number.
So two numbers name one property if and only if they are equal or neither of them is a number. -/
theorem displays_apart :
    (∀ x y : Value, x.Literal → y.Literal →
      (x.display = y.display ↔ x.strictEq y = true ∨
        ∃ n m, x = .number n ∧ y = .number m ∧ n.isNaN = true ∧ m.isNaN = true)) ∧
    ∀ n m : Binary64, PropertyKey.ofNumber n = PropertyKey.ofNumber m ↔
      n.sameNumber m = true ∨ n.isNaN = true ∧ m.isNaN = true := by
  constructor
  · intro x y hx hy
    constructor
    · exact hx.equal_of_display hy
    · rintro (h | ⟨n, m, rfl, rfl, hn, hm⟩)
      · exact hx.display_eq h
      · exact Binary64.displayText_eq_iff.2 (.inr ⟨hn, hm⟩)
  · intro n m
    rw [← Binary64.displayText_eq_iff, PropertyKey.ofNumber, PropertyKey.ofNumber,
      PropertyKey.text.injEq]

/-- The number ten and the big integer ten are displayed apart. -/
theorem ten_displayed_apart : (number (.ofInt 10)).Literal ∧ (bigint 10).Literal ∧
    (number (.ofInt 10)).display ≠ (bigint 10).display := by
  have hnumber : (number (.ofInt 10)).Literal := .number _
  have hbigint : (bigint 10).Literal := .bigint 10
  refine ⟨hnumber, hbigint, fun h => ?_⟩
  rcases (displays_apart.1 _ _ hnumber hbigint).1 h with h | ⟨n, m, -, hm, -⟩
  · cases h
  · cases hm

end Value

end Narrowing
