import BranchLabels.Config
import BranchLabels.LabelTable
import BranchLabels.Listing

/-!
# The labelled text

A listing is written with its header, a banner that tells how many labels there
are, the instructions with the label of each address before its first
instruction, and the trailer.  In each instruction whose target has a label, the
last operand is replaced by the label and all else stays.
-/

namespace BranchLabels

/-! ## One line -/

/-- The label at the target of an instruction. -/
def Instruction.label? (isa : Isa) (labels : LabelTable) (i : Instruction) : Option Text :=
  (i.targetAddress? isa).bind labels.get?

/-- The line of an instruction with a name in place of an operand.  There is
none when the operand does not lie in the line. -/
def Instruction.splice? (i : Instruction) (cut : OperandCut) (name : Text) : Option Text :=
  match Text.cutAtByte? cut.startByte i.tail, Text.cutAtByte? cut.endByte i.tail with
  | some (before, _), some (_, after) => some (i.lead ++ before ++ name ++ after)
  | _, _ => none

/-- The written line of an instruction. -/
structure WrittenLine where
  text : Text
  /-- Whether a label was put in. -/
  labelled : Bool
  deriving DecidableEq

/-- The line of an instruction, with a label for its last operand when its
target has one. -/
def Instruction.write (isa : Isa) (labels : LabelTable) (i : Instruction) :
    Except ListingError WrittenLine :=
  match i.label? isa labels, lastOperand? i.operands with
  | some name, some cut =>
      match i.splice? cut name with
      | some text => .ok ⟨text, true⟩
      | none => .error (.misplacedOperand i.line)
  | _, _ => .ok ⟨i.toText, false⟩

/-! ## The whole listing -/

/-- The line that starts the labelled view. -/
def banner : Text :=
  "; ===== Pretty View =====".toList

/-- The lines between the header and the instructions. -/
def bannerLines (labelCount : Nat) : List Text :=
  [[], banner, "; labels=".toList ++ Text.decimal labelCount, []]

/-- The lines that declare a label. -/
def declaration (config : Config) (name : Text) : List Text :=
  if config.labelSpacing then [[], name ++ [':']] else [name ++ [':']]

/-- The declaration before an instruction, unless an instruction before it has
the same address. -/
def declarationAt (config : Config) (labels : LabelTable) (earlier : List Address)
    (a : Address) : List Text :=
  match labels.get? a with
  | some name => if a ∈ earlier then [] else declaration config name
  | none => []

/-- The lines of the instructions, after instructions with given addresses. -/
def codeLines (isa : Isa) (labels : LabelTable) (config : Config) :
    List Address → List Instruction → Except ListingError (List Text)
  | _, [] => .ok []
  | earlier, i :: is =>
      match i.write isa labels with
      | .error e => .error e
      | .ok line =>
          match codeLines isa labels config (i.address :: earlier) is with
          | .error e => .error e
          | .ok rest =>
              .ok (declarationAt config labels earlier i.address ++ line.text :: rest)

/-- The lines of a labelled listing. -/
def Listing.labelledLines (isa : Isa) (labels : LabelTable) (config : Config) (l : Listing) :
    Except ListingError (List Text) :=
  (codeLines isa labels config [] l.instructions).map fun code =>
    l.header ++ bannerLines labels.size ++ code ++ l.trailer

/-- The text of a labelled listing. -/
def Listing.labelledText (isa : Isa) (labels : LabelTable) (config : Config) (l : Listing) :
    Except ListingError Text :=
  (l.labelledLines isa labels config).map Text.unlines

end BranchLabels
