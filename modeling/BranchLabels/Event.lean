import BranchLabels.Text.Numeral

/-!
# Events

What a run has to tell besides its result.
-/

namespace BranchLabels

/-- A thing worth telling. -/
inductive Event where
  /-- A listing was read, with these numbers of lines. -/
  | listingRead (header instructions trailer : Nat)
  /-- The listing declares another number of instructions than it has. -/
  | countDiffers (declared : Text) (parsed : Nat)
  /-- The target of an instruction is the address of no instruction. -/
  | strayTarget (line : Nat) (target : Int)
  /-- The listing was labelled. -/
  | listingLabelled (instructions labels : Nat)
  deriving DecidableEq

namespace Event

/-- A named number in the wording of an event. -/
def field (name : String) (n : Nat) : Text :=
  name.toList ++ '=' :: Text.decimal n

/-- The wording of an event, with its level in front. -/
def message : Event → Text
  | .listingRead header instructions trailer =>
      "DEBUG parsed listing".toList ++ field " header" header ++
        field " instructions" instructions ++ field " trailer" trailer
  | .countDiffers declared parsed =>
      "WARN instruction count differs from listing metadata declared=".toList ++ declared ++
        field " parsed" parsed
  | .strayTarget line target =>
      "DEBUG target is out of range or not instruction-aligned".toList ++ field " line" line ++
        " target=".toList ++ Text.signedDecimal target
  | .listingLabelled instructions labels =>
      "INFO listing rewritten".toList ++ field " instructions" instructions ++
        field " labels" labels

end Event

end BranchLabels
