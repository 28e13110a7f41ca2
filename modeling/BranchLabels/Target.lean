import BranchLabels.Flow
import BranchLabels.Instruction
import BranchLabels.Literal
import BranchLabels.Operand

/-!
# Targets

Where a control transfer goes, when its last operand is a number.
-/

namespace BranchLabels

/-- Where a control transfer goes. -/
structure Target where
  kind : FlowKind
  mode : Addressing
  /-- The place, which need not be an address. -/
  address : Int
  deriving DecidableEq

namespace Instruction

/-- The place that a literal names when it stands in an instruction.  A distance
counts from the instruction; there is no place when the sum leaves the signed
64-bit range. -/
def place? (i : Instruction) (l : Literal) : Option Int :=
  match l.mode with
  | .absolute => some l.value
  | .relative =>
      let sum := (i.address.toNat : Int) + l.value
      if IsWord sum then some sum else none

/-- The last operand of an instruction as a number. -/
def literal? (i : Instruction) : Option Literal :=
  (lastOperand? i.operands).bind fun cut => Literal.ofText? cut.token

/-- The target of an instruction, if it transfers control to a place that its
last operand names. -/
def target? (isa : Isa) (i : Instruction) : Option Target :=
  match isa.flowKind? i.mnemonic, i.literal? with
  | some kind, some l => (i.place? l).map fun address => ⟨kind, l.mode, address⟩
  | _, _ => none

/-- The target of an instruction when it lies in the 32-bit range. -/
def targetAddress? (isa : Isa) (i : Instruction) : Option Address :=
  (i.target? isa).bind fun t => Address.ofInt? t.address

end Instruction

end BranchLabels
