import BranchLabels.SortedMap
import BranchLabels.Target

/-!
# Label tables

Each address that is the target of some instruction and the address of some
instruction has a label.  Its name is the prefix and the eight hexadecimal
digits of the address.
-/

namespace BranchLabels

/-- The name of the label at an address. -/
def labelName (stem : Text) (address : Address) : Text :=
  stem ++ Text.hexDigits 8 address.toNat

/-- Labels by address. -/
abbrev LabelTable := SortedMap Address Text

namespace LabelTable

/-- Whether some instruction of a list has an address. -/
def HasAddress (is : List Instruction) (a : Address) : Prop :=
  ∃ i ∈ is, i.address = a

instance (is : List Instruction) (a : Address) : Decidable (HasAddress is a) :=
  inferInstanceAs (Decidable (∃ i ∈ is, i.address = a))

/-- The target of an instruction when it is the address of an instruction of the
list. -/
def alignedTarget? (isa : Isa) (is : List Instruction) (i : Instruction) : Option Address :=
  match i.targetAddress? isa with
  | some a => if HasAddress is a then some a else none
  | none => none

/-- The table with the labels of some addresses. -/
def ofAddresses (stem : Text) (addresses : List Address) : LabelTable :=
  SortedMap.ofList (addresses.map fun a => (a, labelName stem a))

/-- The label table of a list of instructions. -/
def build (isa : Isa) (is : List Instruction) (stem : Text) : LabelTable :=
  ofAddresses stem (is.filterMap (alignedTarget? isa is))

/-- The instructions whose target is the address of no instruction, in order,
each with its target. -/
def strayTargets (isa : Isa) (is : List Instruction) : List (Instruction × Target) :=
  is.filterMap fun i =>
    match i.target? isa, alignedTarget? isa is i with
    | some t, none => some (i, t)
    | _, _ => none

end LabelTable

end BranchLabels
