import BranchLabels.Flow

/-!
# The control flow of RV32

Mnemonics of RV32I and of its compressed forms, with the pseudo-instructions
that disassemblers print for them.
-/

namespace BranchLabels

namespace Isa

/-- The jumps of RV32. -/
def rv32Jumps : List String :=
  ["j", "jr", "tail", "c.j", "c.jr"]

/-- The calls of RV32. -/
def rv32Calls : List String :=
  ["jal", "jalr", "call", "c.jal", "c.jalr"]

/-- The returns of RV32. -/
def rv32Returns : List String :=
  ["ret"]

/-- The branches of RV32. -/
def rv32Branches : List String :=
  ["beq", "bne", "blt", "bge", "bltu", "bgeu", "bgt", "ble", "bgtu", "bleu",
    "beqz", "bnez", "blez", "bgez", "bltz", "bgtz", "c.beqz", "c.bnez"]

/-- The table of an instruction set whose mnemonics are grouped by kind. -/
def tableOf (kind : FlowKind) (mnemonics : List String) : List (Text × FlowKind) :=
  mnemonics.map fun m => (m.toList, kind)

/-- RISC-V with 32-bit registers and the compressed extension. -/
def rv32 : Isa :=
  ofTable (tableOf .jump rv32Jumps ++ tableOf .call rv32Calls ++
    tableOf .ret rv32Returns ++ tableOf .branch rv32Branches)

/-- No mnemonic is listed twice. -/
example : (rv32Jumps ++ rv32Calls ++ rv32Returns ++ rv32Branches).Nodup := by
  decide

end Isa

end BranchLabels
