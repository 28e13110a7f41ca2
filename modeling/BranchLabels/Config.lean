import BranchLabels.Error
import BranchLabels.Text.Blank
import BranchLabels.Text.Numeral

/-!
# Configuration

How labels are named and set off.  A label prefix has to survive a second
reading of the listing: it may hold no blank and none of the characters that
divide operands, addresses and comments, and it may not start like a number.
-/

namespace BranchLabels

/-- How labels are named and set off. -/
structure Config where
  /-- What all label names start with. -/
  labelPrefix : Text := "loc_".toList
  /-- Whether an empty line stands before each label. -/
  labelSpacing : Bool := true
  deriving DecidableEq

namespace Config

/-- The configuration that holds unless another one is given. -/
def standard : Config := {}

/-- Whether a character may not occur in a label prefix. -/
def isDelimiter (c : Char) : Bool :=
  Text.isBlank c || c == ',' || c == ':' || c == ';'

/-- Whether a text that starts with a character could be a number. -/
def startsNumber (c : Char) : Bool :=
  Text.isDecimalDigit c || c == '-' || c == '+'

/-- Whether label names may start with a text. -/
def ValidPrefix (stem : Text) : Prop :=
  stem ≠ [] ∧ (∀ c ∈ stem.head?, startsNumber c = false) ∧
    ∀ c ∈ stem, isDelimiter c = false

-- The instances are named so that only the characters of the text are looked at,
-- also where all characters can be enumerated.
instance (stem : Text) : Decidable (ValidPrefix stem) :=
  haveI : Decidable (∀ c ∈ stem.head?, startsNumber c = false) := Option.decidableForallMem _
  haveI : Decidable (∀ c ∈ stem, isDelimiter c = false) := List.decidableBAll _ stem
  inferInstanceAs (Decidable (_ ∧ _))

/-- Refuse a configuration whose label prefix would not survive. -/
def validate (c : Config) : Except ListingError Unit :=
  if ValidPrefix c.labelPrefix then .ok () else .error (.badPrefix c.labelPrefix)

end Config

end BranchLabels
