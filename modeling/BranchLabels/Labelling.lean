import BranchLabels.Event
import BranchLabels.Layout

/-!
# Labelling a listing

From the text of a listing to the text with labels: the configuration is
checked, the listing read, its label table built and the listing written.
-/

namespace BranchLabels

/-- A labelled listing and what there is to tell about it. -/
structure Labelling where
  listing : Listing
  labels : LabelTable
  text : Text
  events : List Event
  deriving DecidableEq

namespace Labelling

/-- The number that a listing declares: decimal digits after at most one `+`,
of a value that fits 64 bits. -/
def declaredCount? (declared : Text) : Option Nat :=
  let numeral :=
    match declared with
    | '+' :: rest => rest
    | _ => declared
  (Text.readDecimal? numeral).filter (· < UInt64.size)

/-- The event of having read a listing. -/
def readEvent (l : Listing) : Event :=
  .listingRead l.header.length l.instructions.length l.trailer.length

/-- The warning that a listing declares another number of instructions than it
has. -/
def countWarning (l : Listing) : List Event :=
  match l.metadata.get? "instructions".toList with
  | some declared =>
      if declaredCount? declared = some l.instructions.length then []
      else [.countDiffers declared l.instructions.length]
  | none => []

/-- One event for each target that gets no label. -/
def strayEvents (isa : Isa) (l : Listing) : List Event :=
  (LabelTable.strayTargets isa l.instructions).map fun (i, t) =>
    .strayTarget i.line t.address

/-- Label the listing of a text. -/
def ofText (isa : Isa) (config : Config) (text : Text) : Except ListingError Labelling := do
  config.validate
  let listing ← Listing.ofText text
  let labels := LabelTable.build isa listing.instructions config.labelPrefix
  let written ← listing.labelledText isa labels config
  return {
    listing
    labels
    text := written
    events := readEvent listing :: countWarning listing ++ strayEvents isa listing ++
      [.listingLabelled listing.instructions.length labels.size] }

end Labelling

end BranchLabels
