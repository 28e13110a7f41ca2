import BranchLabels.Config
import BranchLabels.Json.Reader
import BranchLabels.Json.Writer
import BranchLabels.LabelTable

/-!
# Labels and configurations as JSON

How labels, configurations and flow kinds are written as JSON and read back.
-/

namespace BranchLabels

/-! ## Configurations -/

namespace Config

/-- The JSON of a configuration. -/
def toJson (c : Config) : Json :=
  .record [("label_prefix", .ofText c.labelPrefix), ("label_spacing", .bool c.labelSpacing)]

/-- The value of a field that may be absent, when a standard value stands in for
it then. -/
def fieldOr {α : Type} (read? : Json → Option α) (standard : α) : Option Json → Option α
  | some v => read? v
  | none => some standard

/-- The configuration of a JSON value; absent fields have their standard
values. -/
def ofJson? (v : Json) : Option Config :=
  match v.fields? ["label_prefix", "label_spacing"] with
  | some [stem, spacing] =>
      match fieldOr Json.text? standard.labelPrefix stem,
          fieldOr Json.bool? standard.labelSpacing spacing with
      | some labelPrefix, some labelSpacing => some ⟨labelPrefix, labelSpacing⟩
      | _, _ => none
  | _ => none

/-- The configuration of a JSON text. -/
def ofJsonText? (t : Text) : Option Config :=
  (Json.read? t).bind ofJson?

end Config

/-! ## Flow kinds -/

namespace FlowKind

/-- The JSON of a flow kind. -/
def toJson (k : FlowKind) : Json :=
  .ofText k.name

/-- The flow kind of a JSON value: its name, or an object whose only member has
that name and is null. -/
def ofJson? : Json → Option FlowKind
  | .string (some t) => ofName? t
  | .object [(some t, .null)] => ofName? t
  | _ => none

/-- The flow kind of a JSON text. -/
def ofJsonText? (t : Text) : Option FlowKind :=
  (Json.read? t).bind ofJson?

end FlowKind

/-! ## Labels -/

/-- A label with its address. -/
structure LabelEntry where
  addr : Address
  name : Text
  deriving DecidableEq

namespace LabelEntry

/-- The labels of a table in the order of their addresses. -/
def ofTable (labels : LabelTable) : List LabelEntry :=
  labels.entries.map fun (addr, name) => ⟨addr, name⟩

/-- The JSON of a label. -/
def toJson (e : LabelEntry) : Json :=
  .record [("addr", .ofNat e.addr.toNat), ("name", .ofText e.name)]

/-- The label of a JSON value. -/
def ofJson? (v : Json) : Option LabelEntry :=
  match v.fields? ["addr", "name"] with
  | some [some addr, some name] =>
      match addr.nat?.bind Address.ofNat?, name.text? with
      | some addr, some name => some ⟨addr, name⟩
      | _, _ => none
  | _ => none

/-- The JSON of a list of labels. -/
def listToJson (es : List LabelEntry) : Json :=
  .array (es.map toJson)

/-- The list of labels of a JSON value. -/
def listOfJson? : Json → Option (List LabelEntry)
  | .array items => items.mapM ofJson?
  | _ => none

/-- The list of labels of a JSON text. -/
def listOfJsonText? (t : Text) : Option (List LabelEntry) :=
  (Json.read? t).bind listOfJson?

end LabelEntry

end BranchLabels
