import BranchLabels.Text.Numeral

/-!
# What can be wrong with a listing

The causes for which a listing is refused, and their wording.
-/

namespace BranchLabels

/-- A reason to refuse a listing or the way it is to be labelled. -/
inductive ListingError where
  /-- A line has the shape of an instruction, but its head `token` is no 32-bit
  address. -/
  | badAddress (line : Nat) (token : Text)
  /-- Label names cannot start like this. -/
  | badPrefix (stem : Text)
  /-- The operands of an instruction do not lie in its line, so that there is no
  place in the line for a label. -/
  | misplacedOperand (line : Nat)
  deriving DecidableEq

/-- The wording of an error. -/
def ListingError.message : ListingError → Text
  | .badAddress line token =>
      "line ".toList ++ Text.decimal line ++ ": cannot parse `".toList ++ token ++
        "` as a 32-bit hexadecimal address".toList
  | .badPrefix stem => "invalid label prefix `".toList ++ stem ++ "`".toList
  | .misplacedOperand line =>
      "line ".toList ++ Text.decimal line ++ ": the operands do not lie in the line".toList

end BranchLabels
