import BranchLabels.Proofs.ExactTarget

/-!
# The language of numeric operands

A numeric operand has one of four forms: a hexadecimal address, a decimal distance
forward, and a distance backward in decimal or in hexadecimal.  The reader tells them
apart by how they start.  No decimal numeral starts with a sign or has a letter in it,
so the forms exclude each other and the order in which they are tried does not matter.

Main results:

- Theorem `exactMagnitude?_eq_some_iff`: what a magnitude is.
- Theorem `ofText?_eq_some_iff_denotes`: a token is read as the literal that it denotes.
- Theorem `literals_are_read_exactly`: all other tokens are no literals, and written
  distances and addresses are read back.
-/

namespace BranchLabels

open Text

/-- A decimal numeral has decimal digits only. -/
theorem Text.IsNumeral.not_mem {t : Text} {n : Nat} (h : IsDecimalNumeral t n) {c : Char}
    (hc : decimalDigit? c = none) : c ∉ t := by
  intro hmem
  have hdigit : (decimalDigit? c).isSome = true := h.digits c hmem
  rw [hc] at hdigit
  contradiction

namespace Literal

/-- What a token denotes as a numeric operand.  The digits are at least one, any number
of zeros may stand in front, and the magnitude is that of a signed 64-bit word. -/
inductive Denotes : Text → Literal → Prop
  | address {digits : Text} {n : Nat} (numeral : IsHexNumeral digits n) (fits : n < 2 ^ 63) :
      Denotes ("0x".toList ++ digits) ⟨.absolute, n⟩
  | forward {digits : Text} {n : Nat} (numeral : IsDecimalNumeral digits n) (fits : n < 2 ^ 63) :
      Denotes digits ⟨.relative, n⟩
  | backward {digits : Text} {n : Nat} (numeral : IsDecimalNumeral digits n)
      (fits : n < 2 ^ 63) : Denotes ("-".toList ++ digits) ⟨.relative, -n⟩
  | backwardHex {digits : Text} {n : Nat} (numeral : IsHexNumeral digits n)
      (fits : n < 2 ^ 63) : Denotes ("-0x".toList ++ digits) ⟨.relative, -n⟩

/-! ## Magnitudes -/

/-- A magnitude is hexadecimal after `0x`, and else decimal. -/
theorem exactMagnitude?_eq_some_iff {t : Text} {n : Nat} :
    exactMagnitude? t = some n ↔
      (∃ digits, t = '0' :: 'x' :: digits ∧ IsHexNumeral digits n) ∨ IsDecimalNumeral t n := by
  fun_cases exactMagnitude? t with
  | case1 digits =>
      have hletter : ¬ IsDecimalNumeral ('0' :: 'x' :: digits) n := by
        intro h
        exact h.not_mem (c := 'x') (by decide) (by simp)
      simp [readHex?_eq_some_iff, hletter]
  | case2 _ hdecimal =>
      have hform : ¬ ∃ digits, t = '0' :: 'x' :: digits ∧ IsHexNumeral digits n := by
        rintro ⟨digits, ht, -⟩
        exact hdecimal digits ht
      simp [readDecimal?_eq_some_iff, hform]

/-- Decimal digits are a distance. -/
theorem exactOfText?_of_isDecimalNumeral {t : Text} {n : Nat} (h : IsDecimalNumeral t n) :
    exactOfText? t = some ⟨.relative, n⟩ := by
  have hmagnitude : exactMagnitude? t = some n := exactMagnitude?_eq_some_iff.2 (.inr h)
  fun_cases exactOfText? t with
  | case1 digits => exact absurd (by simp) (h.not_mem (c := 'x') (by decide))
  | case2 numeral => exact absurd (by simp) (h.not_mem (c := '-') (by decide))
  | case3 _ _ _ =>
      rw [hmagnitude]
      rfl

/-- A magnitude after a sign is a distance backward. -/
theorem exactOfText?_minus {t : Text} {n : Nat} (h : exactMagnitude? t = some n) :
    exactOfText? ('-' :: t) = some ⟨.relative, -n⟩ := by
  rw [exactOfText?, h]
  rfl

/-! ## Literals -/

/-- What a token denotes is what it is read as, without a limit. -/
theorem Denotes.exactOfText? {t : Text} {l : Literal} (h : Denotes t l) :
    Literal.exactOfText? t = some l := by
  cases h with
  | @address digits n numeral fits =>
      have hread : readHex? digits = some n := readHex?_eq_some_iff.2 numeral
      show (readHex? digits).map (fun n : Nat => (⟨.absolute, n⟩ : Literal)) = _
      rw [hread]
      rfl
  | forward numeral fits => exact exactOfText?_of_isDecimalNumeral numeral
  | backward numeral fits =>
      exact exactOfText?_minus (exactMagnitude?_eq_some_iff.2 (.inr numeral))
  | backwardHex numeral fits =>
      exact exactOfText?_minus (exactMagnitude?_eq_some_iff.2 (.inl ⟨_, rfl, numeral⟩))

/-- The magnitude of what a token denotes fits. -/
theorem Denotes.natAbs_lt {t : Text} {l : Literal} (h : Denotes t l) :
    l.value.natAbs < 2 ^ 63 := by
  cases h with
  | address numeral fits => simpa using fits
  | forward numeral fits => simpa using fits
  | backward numeral fits => simpa using fits
  | backwardHex numeral fits => simpa using fits

/-- What is read without a limit is denoted when its magnitude fits. -/
theorem denotes_of_exactOfText? {t : Text} {l : Literal} (hfits : l.value.natAbs < 2 ^ 63) :
    exactOfText? t = some l → Denotes t l := by
  fun_cases exactOfText? t with
  | case1 digits =>
      intro h
      obtain ⟨n, hn, rfl⟩ := Option.map_eq_some_iff.1 h
      exact .address (readHex?_eq_some_iff.1 hn) (by simpa using hfits)
  | case2 numeral =>
      intro h
      obtain ⟨n, hn, rfl⟩ := Option.map_eq_some_iff.1 h
      have hn' : n < 2 ^ 63 := by simpa using hfits
      rcases exactMagnitude?_eq_some_iff.1 hn with ⟨digits, rfl, hhex⟩ | hdecimal
      · exact .backwardHex hhex hn'
      · exact .backward hdecimal hn'
  | case3 _ hhex _ =>
      intro h
      obtain ⟨n, hn, rfl⟩ := Option.map_eq_some_iff.1 h
      rcases exactMagnitude?_eq_some_iff.1 hn with ⟨digits, rfl, -⟩ | hdecimal
      · exact absurd rfl (hhex digits)
      · exact .forward hdecimal (by simpa using hfits)

/-- A token is read as the literal that it denotes. -/
theorem ofText?_eq_some_iff_denotes {t : Text} {l : Literal} :
    ofText? t = some l ↔ Denotes t l := by
  have hlimit : l.value.natAbs ≤ maxWord ↔ l.value.natAbs < 2 ^ 63 := by
    unfold maxWord
    omega
  rw [ofText?_eq_some_iff, hlimit]
  constructor
  · rintro ⟨h, hfits⟩
    exact denotes_of_exactOfText? hfits h
  · intro h
    exact ⟨h.exactOfText?, h.natAbs_lt⟩

/-- The decimal text of a distance denotes it. -/
theorem denotes_signedDecimal {v : Int} (h : v.natAbs < 2 ^ 63) :
    Denotes (signedDecimal v) ⟨.relative, v⟩ := by
  have hnumeral : ∀ n, IsDecimalNumeral (decimal n) n :=
    fun n => readDecimal?_eq_some_iff.1 (readDecimal?_decimal n)
  cases v with
  | ofNat n => exact .forward (hnumeral n) h
  | negSucc n => exact .backward (hnumeral (n + 1)) h

/-- Exactly the tokens that denote a literal are read, each as that literal.  So the
decimal text of each word but the lowest is read as that distance, and the eight digits
of each address as that address. -/
theorem literals_are_read_exactly :
    (∀ (token : Text) (l : Literal), ofText? token = some l ↔ Denotes token l) ∧
    (∀ token : Text, ofText? token = none ↔ ¬ ∃ l, Denotes token l) ∧
    (∀ v : Int, -2 ^ 63 < v → v < 2 ^ 63 →
      ofText? (signedDecimal v) = some ⟨.relative, v⟩) ∧
    (∀ a : Address, ofText? ("0x".toList ++ hexDigits 8 a.toNat) =
      some ⟨.absolute, a.toNat⟩) := by
  refine ⟨fun token l => ofText?_eq_some_iff_denotes, ?_, ?_, ?_⟩
  · intro token
    simp only [← ofText?_eq_some_iff_denotes, Option.eq_none_iff_forall_ne_some, not_exists]
  · intro v hlow hhigh
    exact ofText?_eq_some_iff_denotes.2 (denotes_signedDecimal (by omega))
  · intro a
    have hlt : a.toNat < 2 ^ 32 := a.toNat_lt
    have hnumeral : IsHexNumeral (hexDigits 8 a.toNat) a.toNat :=
      isHexNumeral_hexDigits (by decide) a.toNat_lt
    exact ofText?_eq_some_iff_denotes.2 (.address hnumeral (by omega))

/-- The lowest word but one is read; the lowest one is not, nor is a number with another
sign than `-`. -/
theorem literals_are_read_exactly_sample :
    ofText? "-9223372036854775807".toList = some ⟨.relative, -2 ^ 63 + 1⟩ ∧
      (¬ ∃ l, Denotes "-9223372036854775808".toList l) ∧
      (¬ ∃ l, Denotes "+4".toList l) := by
  obtain ⟨-, hnone, hdistance, -⟩ := literals_are_read_exactly
  refine ⟨?_, ?_, ?_⟩
  · have hread := hdistance (-2 ^ 63 + 1) (by decide) (by decide)
    have htext : signedDecimal (-2 ^ 63 + 1) = "-9223372036854775807".toList := by
      decide +kernel
    rwa [htext] at hread
  · exact (hnone _).1 (by decide +kernel)
  · exact (hnone _).1 (by decide +kernel)

end Literal

end BranchLabels
