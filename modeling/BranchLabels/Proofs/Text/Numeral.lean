import BranchLabels.Text.Blank
import BranchLabels.Text.Numeral
import Mathlib.Algebra.Group.Nat.Defs
import Mathlib.Data.Nat.Digits.Defs

/-!
# Digits as characters

Hexadecimal digits lie in three ranges of code points, away from the blanks and
from the characters that divide a line.

Main results:

- Theorem `isHexDigit_iff_toNat`: the ranges of the hexadecimal digits.
- Theorem `isHexDigit_of_mem_hexDigits`: a written number has digits only.
- Theorem `digitsValue?_hexDigits`: a written number is read back, as far as its
  width reaches.
- Theorems `readHex?_eq_some_iff` and `readDecimal?_eq_some_iff`: exactly the numerals
  are read, and the digits of a numeral count by their places.
- Theorem `readDecimal?_eq_none_of_head`: what does not start with a digit is no
  numeral.
- Theorem `readDecimal?_decimal`: a number that is written in decimal is read back.
-/

namespace BranchLabels

namespace Text

/-- The order of characters is the order of their code points. -/
theorem char_le_iff_toNat {c d : Char} : c ≤ d ↔ c.toNat ≤ d.toNat := by
  rw [Char.le_def, UInt32.le_iff_toNat_le]
  rfl

/-- The hexadecimal digits lie in three ranges of code points. -/
theorem isHexDigit_iff_toNat {c : Char} :
    isHexDigit c = true ↔ (48 ≤ c.toNat ∧ c.toNat ≤ 57) ∨ (97 ≤ c.toNat ∧ c.toNat ≤ 102) ∨
      (65 ≤ c.toNat ∧ c.toNat ≤ 70) := by
  have hranges : isHexDigit c = true ↔
      ('0' ≤ c ∧ c ≤ '9') ∨ ('a' ≤ c ∧ c ≤ 'f') ∨ ('A' ≤ c ∧ c ≤ 'F') := by
    unfold isHexDigit hexDigit?
    split
    · simp_all
    · split
      · simp_all
      · split <;> simp_all
  rw [hranges]
  simp only [char_le_iff_toNat]
  rfl

/-- A hexadecimal digit is not blank. -/
theorem isBlank_eq_false_of_isHexDigit {c : Char} (h : isHexDigit c = true) :
    isBlank c = false := by
  have hranges := isHexDigit_iff_toNat.1 h
  rw [Bool.eq_false_iff]
  intro hblank
  simp only [isBlank, blankRanges, List.any_cons, List.any_nil, Bool.or_false, Bool.or_eq_true,
    Bool.and_eq_true, decide_eq_true_eq] at hblank
  omega

/-- A digit of a number is a hexadecimal digit. -/
theorem isHexDigit_digitChar {n : Nat} (h : n < 16) : isHexDigit (Nat.digitChar n) = true := by
  have hall : ∀ m < 16, isHexDigit (Nat.digitChar m) = true := by decide
  exact hall n h

/-- A written number has the sixteen digits only. -/
theorem exists_digitChar_of_mem_hexDigits {width n : Nat} {c : Char}
    (hc : c ∈ hexDigits width n) : ∃ d < 16, c = Nat.digitChar d := by
  induction width generalizing n with
  | zero => simp [hexDigits] at hc
  | succ width ih =>
      rw [hexDigits, List.mem_append, List.mem_singleton] at hc
      rcases hc with hc | hc
      · exact ih hc
      · exact ⟨n % 16, Nat.mod_lt n (by decide), hc⟩

/-- A written number has hexadecimal digits only. -/
theorem isHexDigit_of_mem_hexDigits {width n : Nat} {c : Char} (hc : c ∈ hexDigits width n) :
    isHexDigit c = true := by
  obtain ⟨d, hd, rfl⟩ := exists_digitChar_of_mem_hexDigits hc
  exact isHexDigit_digitChar hd

/-- The digits of a text are worth what the first part is worth, carried on into the
second. -/
theorem digitsValue?_append (base : Nat) (digit? : Char → Option Nat) (n : Nat) (s t : Text) :
    digitsValue? base digit? n (s ++ t) =
      (digitsValue? base digit? n s).bind fun m => digitsValue? base digit? m t := by
  induction s generalizing n with
  | nil => rfl
  | cons c s ih =>
      rw [List.cons_append, digitsValue?, digitsValue?]
      cases digit? c with
      | none => rfl
      | some d => exact ih _

/-- A digit of a number is worth that digit. -/
theorem hexDigit?_digitChar {n : Nat} (h : n < 16) : hexDigit? (Nat.digitChar n) = some n := by
  have hall : ∀ m < 16, hexDigit? (Nat.digitChar m) = some m := by decide
  exact hall n h

/-- A written number is read back, as far as its width reaches. -/
theorem digitsValue?_hexDigits (width n : Nat) :
    digitsValue? 16 hexDigit? 0 (hexDigits width n) = some (n % 16 ^ width) := by
  induction width generalizing n with
  | zero => simp [hexDigits, digitsValue?, Nat.mod_one]
  | succ width ih =>
      have hdigit := hexDigit?_digitChar (Nat.mod_lt n (show 0 < 16 by decide))
      have hmod : n % 16 ^ (width + 1) = 16 * (n / 16 % 16 ^ width) + n % 16 := by
        rw [Nat.pow_succ, Nat.mul_comm (16 ^ width) 16, Nat.mod_mul]
        omega
      rw [hexDigits, digitsValue?_append, ih]
      simp [digitsValue?, hdigit, hmod]

/-- Numbers that fit a width are told apart by their digits. -/
theorem hexDigits_inj {width m n : Nat} (hm : m < 16 ^ width) (hn : n < 16 ^ width) :
    hexDigits width m = hexDigits width n ↔ m = n := by
  constructor
  · intro h
    have hvalue := digitsValue?_hexDigits width m
    rw [h, digitsValue?_hexDigits, Nat.mod_eq_of_lt hm, Nat.mod_eq_of_lt hn] at hvalue
    exact (Option.some.inj hvalue).symm
  · rintro rfl
    rfl

/-- A number that fits a width is read back from its digits. -/
theorem readHex?_hexDigits {width n : Nat} (hwidth : 0 < width) (h : n < 16 ^ width) :
    readHex? (hexDigits width n) = some n := by
  have hvalue := digitsValue?_hexDigits width n
  have hne : hexDigits width n ≠ [] := by
    rw [← List.length_pos_iff, length_hexDigits]
    exact hwidth
  obtain ⟨c, t, hct⟩ := List.exists_cons_of_ne_nil hne
  rw [Nat.mod_eq_of_lt h, hct] at hvalue
  rw [hct]
  exact hvalue

/-- What does not start with a digit is no decimal numeral. -/
theorem readDecimal?_eq_none_of_head {c : Char} {t : Text} (h : isDecimalDigit c = false) :
    readDecimal? (c :: t) = none := by
  have hdigit : decimalDigit? c = none := by
    simpa [isDecimalDigit] using h
  simp [readDecimal?, digitsValue?, hdigit]

/-! ## Digits by their places -/

/-- The number that digits stand for when each counts by its place. -/
def placeValue (base : Nat) (digit? : Char → Option Nat) (t : Text) : Nat :=
  Nat.ofDigits base (t.reverse.filterMap digit?)

/-- A text is a numeral of a number: it has digits only, at least one of them, and
they stand for that number. -/
structure IsNumeral (base : Nat) (digit? : Char → Option Nat) (t : Text) (n : Nat) : Prop where
  ne_nil : t ≠ []
  digits : ∀ c ∈ t, (digit? c).isSome = true
  value : placeValue base digit? t = n

/-- A text is a hexadecimal numeral of a number. -/
abbrev IsHexNumeral : Text → Nat → Prop :=
  IsNumeral 16 hexDigit?

/-- A text is a decimal numeral of a number. -/
abbrev IsDecimalNumeral : Text → Nat → Prop :=
  IsNumeral 10 decimalDigit?

/-- Digits before others count for more, by as many places as there are others. -/
theorem placeValue_cons {base : Nat} {digit? : Char → Option Nat} {c : Char} {d : Nat}
    {t : Text} (hc : digit? c = some d) (ht : ∀ c ∈ t, (digit? c).isSome = true) :
    placeValue base digit? (c :: t) = d * base ^ t.length + placeValue base digit? t := by
  have hlength : (t.reverse.filterMap digit?).length = t.length := by
    rw [List.length_filterMap_eq_countP, List.countP_reverse]
    exact List.countP_eq_length.2 ht
  rw [placeValue, List.reverse_cons, List.filterMap_append, Nat.ofDigits_append, hlength,
    List.filterMap_cons_some hc, List.filterMap_nil, Nat.ofDigits_singleton, Nat.add_comm,
    Nat.mul_comm]
  rfl

/-- A run of digits is worth what its digits stand for by their places, after what
the digits before it are worth. -/
theorem digitsValue?_eq_some_iff {base : Nat} {digit? : Char → Option Nat} {n v : Nat}
    {t : Text} :
    digitsValue? base digit? n t = some v ↔ (∀ c ∈ t, (digit? c).isSome = true) ∧
      v = n * base ^ t.length + placeValue base digit? t := by
  induction t generalizing n with
  | nil =>
      rw [digitsValue?, Option.some.injEq]
      simpa [placeValue] using eq_comm
  | cons c t ih =>
      rw [digitsValue?]
      cases hc : digit? c with
      | none => simp [hc]
      | some d =>
          simp only [ih, List.forall_mem_cons, hc, Option.isSome_some, true_and]
          apply and_congr_right
          intro ht
          have hplaces : (base * n + d) * base ^ t.length + placeValue base digit? t =
              n * base ^ (c :: t).length + placeValue base digit? (c :: t) := by
            rw [placeValue_cons hc ht, List.length_cons, Nat.pow_succ, Nat.add_mul]
            rw [Nat.mul_comm base n, Nat.mul_assoc, Nat.mul_comm base, Nat.add_assoc]
          rw [hplaces]

/-- The numerals of a number are the digits that are worth it. -/
theorem isNumeral_iff_digitsValue? {base : Nat} {digit? : Char → Option Nat} {t : Text}
    {n : Nat} : IsNumeral base digit? t n ↔ t ≠ [] ∧ digitsValue? base digit? 0 t = some n := by
  rw [digitsValue?_eq_some_iff, Nat.zero_mul, Nat.zero_add]
  constructor
  · intro h
    exact ⟨h.ne_nil, h.digits, h.value.symm⟩
  · rintro ⟨hne, hdigits, hvalue⟩
    exact ⟨hne, hdigits, hvalue.symm⟩

/-- Exactly the hexadecimal numerals are read, each as its number. -/
theorem readHex?_eq_some_iff {t : Text} {n : Nat} : readHex? t = some n ↔ IsHexNumeral t n := by
  rw [IsHexNumeral, isNumeral_iff_digitsValue?]
  cases t with
  | nil => simp [readHex?]
  | cons c t => simp [readHex?]

/-- Written digits are a numeral of a number that fits them. -/
theorem isHexNumeral_hexDigits {width n : Nat} (hwidth : 0 < width) (h : n < 16 ^ width) :
    IsHexNumeral (hexDigits width n) n :=
  readHex?_eq_some_iff.1 (readHex?_hexDigits hwidth h)

/-- Exactly the decimal numerals are read, each as its number. -/
theorem readDecimal?_eq_some_iff {t : Text} {n : Nat} :
    readDecimal? t = some n ↔ IsDecimalNumeral t n := by
  rw [IsDecimalNumeral, isNumeral_iff_digitsValue?]
  cases t with
  | nil => simp [readDecimal?]
  | cons c t => simp [readDecimal?]

/-! ## Decimal numerals -/

/-- A decimal digit is worth the distance of its code point from that of zero. -/
theorem decimalDigit?_of_isDecimalDigit {c : Char} (h : isDecimalDigit c = true) :
    decimalDigit? c = some (c.toNat - '0'.toNat) := by
  unfold isDecimalDigit decimalDigit? at h
  unfold decimalDigit?
  split
  · rfl
  · next hrange => simp [hrange] at h

/-- A number that is written in decimal has decimal digits only. -/
theorem isDecimalDigit_of_mem_decimal {n : Nat} {c : Char} (hc : c ∈ decimal n) :
    isDecimalDigit c = true := by
  have hdigit : c.isDigit = true := Nat.isDigit_of_mem_toDigits (by decide) (by decide) hc
  have hrange : '0' ≤ c ∧ c ≤ '9' := by
    simpa [Char.isDigit, Char.le_def] using hdigit
  rw [isDecimalDigit, decimalDigit?, if_pos hrange]
  rfl

theorem decimal_ne_nil (n : Nat) : decimal n ≠ [] :=
  Nat.toDigits_ne_nil

/-- Decimal digits are worth what they are worth in the numerals of the library. -/
theorem digitsValue?_of_isDecimalDigit {t : Text} (h : ∀ c ∈ t, isDecimalDigit c = true)
    (n : Nat) : digitsValue? 10 decimalDigit? n t = some (Nat.ofDigitChars 10 t n) := by
  induction t generalizing n with
  | nil => simp [digitsValue?]
  | cons c t ih =>
      have hhead : isDecimalDigit c = true := h c List.mem_cons_self
      have htail : ∀ d ∈ t, isDecimalDigit d = true := fun d hd => h d (List.mem_cons_of_mem c hd)
      rw [digitsValue?, decimalDigit?_of_isDecimalDigit hhead]
      dsimp only
      rw [ih htail, Nat.ofDigitChars_cons]

/-- A number that is written in decimal is read back. -/
theorem readDecimal?_decimal (n : Nat) : readDecimal? (decimal n) = some n := by
  have hvalue : digitsValue? 10 decimalDigit? 0 (decimal n) = some n := by
    rw [digitsValue?_of_isDecimalDigit fun c => isDecimalDigit_of_mem_decimal, decimal,
      Nat.ofDigitChars_ten_toDigits]
  obtain ⟨c, t, hct⟩ := List.exists_cons_of_ne_nil (decimal_ne_nil n)
  rw [hct] at hvalue ⊢
  exact hvalue

/-- A positive number does not start with a zero. -/
theorem head?_decimal_ne_zero {n : Nat} (h : 0 < n) : (decimal n).head? ≠ some '0' := by
  induction n using Nat.strongRecOn with
  | _ n ih =>
    by_cases hn : n < 10
    · have hall : ∀ m < 10, 0 < m → Nat.digitChar m ≠ '0' := by decide
      rw [decimal, Nat.toDigits_of_lt_base hn]
      simpa using hall n hn h
    · have hdecimal : decimal n = decimal (n / 10) ++ [Nat.digitChar (n % 10)] :=
        Nat.toDigits_of_base_le (by decide) (Nat.le_of_not_lt hn)
      obtain ⟨c, t, hct⟩ := List.exists_cons_of_ne_nil (decimal_ne_nil (n / 10))
      have hhead : (decimal (n / 10)).head? ≠ some '0' := ih (n / 10) (by omega) (by omega)
      rw [hct] at hdecimal hhead
      rw [hdecimal]
      exact hhead

/-- Only zero starts with a zero, and nothing follows there. -/
theorem eq_nil_of_decimal_eq_cons {n : Nat} {t : Text} (h : decimal n = '0' :: t) : t = [] := by
  by_cases hn : n = 0
  · subst hn
    exact (List.cons.inj h).2.symm
  · refine absurd ?_ (head?_decimal_ne_zero (Nat.pos_of_ne_zero hn))
    rw [h]
    rfl

end Text

end BranchLabels
