import BranchLabels.Text.Basic

/-!
# Control flow

What a mnemonic does to the flow of control.  An instruction set says which
mnemonics transfer control and how; all others are no control flow.
-/

namespace BranchLabels

/-- The ways to transfer control, in the order in which they are listed. -/
inductive FlowKind where
  /-- An unconditional jump. -/
  | jump
  /-- A conditional branch. -/
  | branch
  /-- A call, which remembers where it came from. -/
  | call
  /-- A return through a register. -/
  | ret
  deriving DecidableEq

namespace FlowKind

/-- All kinds in order. -/
def all : List FlowKind :=
  [.jump, .branch, .call, .ret]

/-- The written name of a kind. -/
def name : FlowKind → Text
  | .jump => "Jump".toList
  | .branch => "Branch".toList
  | .call => "Call".toList
  | .ret => "Return".toList

/-- The kind with a written name; the spelling is exact. -/
def ofName? (t : Text) : Option FlowKind :=
  all.find? fun k => k.name = t

/-- The place of a kind in the order. -/
def rank : FlowKind → Nat
  | .jump => 0
  | .branch => 1
  | .call => 2
  | .ret => 3

/-- The kinds of a list in order. -/
def sort (ks : List FlowKind) : List FlowKind :=
  ks.mergeSort fun a b => decide (a.rank ≤ b.rank)

/-- Every kind is listed. -/
theorem mem_all (k : FlowKind) : k ∈ all := by
  cases k <;> decide

/-- A name leads back to its kind. -/
@[simp] theorem ofName?_name (k : FlowKind) : ofName? k.name = some k := by
  cases k <;> decide

end FlowKind

/-- An instruction set, as far as the flow of control goes. -/
structure Isa where
  /-- What a mnemonic does to the flow of control, if anything. -/
  flowKind? : Text → Option FlowKind

namespace Isa

/-- Whether a mnemonic transfers control. -/
def isControlFlow (isa : Isa) (mnemonic : Text) : Bool :=
  (isa.flowKind? mnemonic).isSome

/-- The instruction set of a table, in which the first entry of a mnemonic
counts. -/
def ofTable (table : List (Text × FlowKind)) : Isa where
  flowKind? mnemonic := table.lookup mnemonic

end Isa

end BranchLabels
