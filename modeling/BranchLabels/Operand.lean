import BranchLabels.Text.Blank

/-!
# The last operand

Operands are divided by commas, and the last one is where a control transfer
names its target.

Main results:

- Theorem `toText_of_lastOperand?`: the cut around the last operand loses
  nothing.
-/

namespace BranchLabels

/-- Operand text cut around one of its operands. -/
structure OperandCut where
  /-- All text before the operand. -/
  before : Text
  /-- The operand without the blanks around it. -/
  token : Text
  /-- The blanks after the operand. -/
  after : Text
  deriving DecidableEq

namespace OperandCut

/-- The operand text that was cut. -/
def toText (cut : OperandCut) : Text :=
  cut.before ++ cut.token ++ cut.after

/-- The byte at which the operand starts. -/
def startByte (cut : OperandCut) : Nat :=
  Text.byteLength cut.before

/-- The byte at which the operand ends. -/
def endByte (cut : OperandCut) : Nat :=
  Text.byteLength (cut.before ++ cut.token)

end OperandCut

/-- Cut operand text around its last operand: what follows the last comma, less
the blanks around it.  Empty text has no operand; a last part that is blank
throughout gives an empty operand at the very end. -/
def lastOperand? (operands : Text) : Option OperandCut :=
  if operands = [] then none
  else
    let part := Text.afterLast ',' operands
    some {
      before := Text.uptoLast ',' operands ++ part.takeWhile Text.isBlank
      token := Text.trim part
      after := Text.blankEnd (Text.trimStart part) }

/-- The cut around the last operand loses nothing. -/
theorem toText_of_lastOperand? {operands : Text} {cut : OperandCut}
    (h : lastOperand? operands = some cut) : cut.toText = operands := by
  unfold lastOperand? at h
  split at h
  · simp at h
  · obtain rfl := Option.some.inj h
    simp only [OperandCut.toText, List.append_assoc, Text.takeWhile_append_trim,
      Text.uptoLast_append_afterLast]

end BranchLabels
