import BranchLabels.Text.Basic

/-!
# Numerals

Reading and writing numbers as digits.  Only the ASCII digits count, a numeral
has at least one of them, and any number of zeros may stand in front.

Main results:

- Theorem `length_hexDigits`: a number written to a width has that many digits.
-/

namespace BranchLabels

namespace Text

/-! ## Reading -/

/-- The value of a decimal digit. -/
def decimalDigit? (c : Char) : Option Nat :=
  if '0' ≤ c ∧ c ≤ '9' then some (c.toNat - '0'.toNat) else none

/-- The value of a hexadecimal digit, in either case. -/
def hexDigit? (c : Char) : Option Nat :=
  if '0' ≤ c ∧ c ≤ '9' then some (c.toNat - '0'.toNat)
  else if 'a' ≤ c ∧ c ≤ 'f' then some (c.toNat - 'a'.toNat + 10)
  else if 'A' ≤ c ∧ c ≤ 'F' then some (c.toNat - 'A'.toNat + 10)
  else none

/-- Whether a character is a decimal digit. -/
def isDecimalDigit (c : Char) : Bool :=
  (decimalDigit? c).isSome

/-- Whether a character is a hexadecimal digit. -/
def isHexDigit (c : Char) : Bool :=
  (hexDigit? c).isSome

/-- The value of a run of digits, most significant first, added to what the
digits before it are worth. -/
def digitsValue? (base : Nat) (digit? : Char → Option Nat) : Nat → Text → Option Nat
  | n, [] => some n
  | n, c :: t =>
      match digit? c with
      | none => none
      | some d => digitsValue? base digit? (base * n + d) t

/-- The number that a decimal numeral stands for. -/
def readDecimal? : Text → Option Nat
  | [] => none
  | t => digitsValue? 10 decimalDigit? 0 t

/-- The number that a hexadecimal numeral stands for. -/
def readHex? : Text → Option Nat
  | [] => none
  | t => digitsValue? 16 hexDigit? 0 t

/-! ## Writing -/

/-- The decimal numeral of a number, without leading zeros. -/
def decimal (n : Nat) : Text :=
  Nat.toDigits 10 n

/-- The decimal numeral of an integer, with `-` before a negative one. -/
def signedDecimal : Int → Text
  | .ofNat n => decimal n
  | .negSucc n => '-' :: decimal (n + 1)

/-- The last `width` hexadecimal digits of a number, in lower case. -/
def hexDigits : (width : Nat) → Nat → Text
  | 0, _ => []
  | width + 1, n => hexDigits width (n / 16) ++ [Nat.digitChar (n % 16)]

/-- A number written to a width has that many digits. -/
@[simp] theorem length_hexDigits (width n : Nat) :
    (hexDigits width n).length = width := by
  induction width generalizing n with
  | zero => rfl
  | succ width ih => simp [hexDigits, ih]

example : hexDigits 8 0xDEADBEEF = "deadbeef".toList := by decide

example : readHex? "00fF".toList = some 255 := by decide

example : signedDecimal (-16) = "-16".toList := by decide

end Text

end BranchLabels
