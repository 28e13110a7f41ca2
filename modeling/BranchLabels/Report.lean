import BranchLabels.Export
import BranchLabels.Labelling

/-!
# Reports

The numbers of a labelling.
-/

namespace BranchLabels

/-- The numbers of a labelling. -/
structure Report where
  instructions : Nat
  headerLines : Nat
  trailerLines : Nat
  /-- How many instructions have a target, by kind, for the kinds that occur. -/
  targets : List (FlowKind × Nat)
  /-- How many operands a label replaced. -/
  labelled : Nat
  labels : List LabelEntry
  deriving DecidableEq

namespace Report

/-- How often each kind occurs in a list, for the kinds that do, in order. -/
def tally (kinds : List FlowKind) : List (FlowKind × Nat) :=
  (FlowKind.all.map fun k => (k, kinds.count k)).filter (·.2 ≠ 0)

/-- Whether the target of an instruction has a label. -/
def isLabelled (isa : Isa) (labels : LabelTable) (i : Instruction) : Bool :=
  match i.targetAddress? isa with
  | some a => labels.contains a
  | none => false

/-- The report on a labelling. -/
def ofLabelling (isa : Isa) (l : Labelling) : Report where
  instructions := l.listing.instructions.length
  headerLines := l.listing.header.length
  trailerLines := l.listing.trailer.length
  targets := tally (l.listing.instructions.filterMap fun i => (i.target? isa).map (·.kind))
  labelled := l.listing.instructions.countP (isLabelled isa l.labels)
  labels := LabelEntry.ofTable l.labels

/-- The JSON of a report. -/
def toJson (r : Report) : Json :=
  .record [("instructions", .ofNat r.instructions), ("header_lines", .ofNat r.headerLines),
    ("trailer_lines", .ofNat r.trailerLines),
    ("targets", .object (r.targets.map fun (k, n) => (some k.name, .ofNat n))),
    ("rewritten", .ofNat r.labelled), ("labels", LabelEntry.listToJson r.labels)]

end Report

end BranchLabels
