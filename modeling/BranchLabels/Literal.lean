import BranchLabels.Address

/-!
# Numeric operands

A numeric operand is an absolute address or a signed distance.  `0x` with
hexadecimal digits is absolute; decimal digits, or either form after one `-`,
are a distance.  Magnitudes beyond a signed 64-bit word are no literals.
-/

namespace BranchLabels

/-- How a numeric operand names a place. -/
inductive Addressing where
  /-- The operand is the address. -/
  | absolute
  /-- The operand is the distance from the instruction. -/
  | relative
  deriving DecidableEq

namespace Addressing

/-- The written name of an addressing mode. -/
def name : Addressing → Text
  | .absolute => "Absolute".toList
  | .relative => "Relative".toList

end Addressing

/-- A numeric operand. -/
structure Literal where
  mode : Addressing
  value : Int
  deriving DecidableEq

namespace Literal

/-- A magnitude that fits a signed 64-bit word. -/
def fit? (n : Nat) : Option Nat :=
  if n ≤ maxWord then some n else none

/-- The magnitude of a numeral: hexadecimal after `0x`, else decimal. -/
def magnitude? : Text → Option Nat
  | '0' :: 'x' :: digits => (Text.readHex? digits).bind fit?
  | digits => (Text.readDecimal? digits).bind fit?

/-- Read a numeric operand. -/
def ofText? : Text → Option Literal
  | '0' :: 'x' :: digits =>
      ((Text.readHex? digits).bind fit?).map fun n => ⟨.absolute, n⟩
  | '-' :: numeral => (magnitude? numeral).map fun n => ⟨.relative, -n⟩
  | numeral => (magnitude? numeral).map fun n => ⟨.relative, n⟩

example : ofText? "0x10".toList = some ⟨.absolute, 16⟩ := by decide

example : ofText? "-0x10".toList = some ⟨.relative, -16⟩ := by decide

example : ofText? "0X10".toList = none := by decide

end Literal

end BranchLabels
