import BranchLabels.Proofs.Json
import BranchLabels.Report

/-!
# Exports that are read back

Labels, configurations and reports are exported as values whose strings are texts and
whose numbers are natural numbers.  Such a value is read back from its text, and from the
value its fields are read back one by one, so nothing of a list of labels or of a
configuration is lost.

Main results:

- Theorems `LabelEntry.listOfJson?_listToJson` and `Config.ofJson?_toJson`: labels and
  configurations are read back from their values.
- Theorem `Report.read?_toJson`: a report is read back as the value that was written.
- Theorem `Json.exports_read_back`: labels and configurations are read back from their
  texts.
-/

namespace BranchLabels

namespace Json

/-- The members of a record have names, so their values decide. -/
theorem plain_record {members : List (String × Json)} (h : ∀ m ∈ members, m.2.Plain) :
    (record members).Plain := by
  refine .object ?_ ?_
  · intro m hm
    obtain ⟨⟨name, v⟩, -, rfl⟩ := List.mem_map.1 hm
    rfl
  · intro m hm
    obtain ⟨⟨name, v⟩, hv, rfl⟩ := List.mem_map.1 hm
    exact h _ hv

theorem nat?_ofNat (n : Nat) : (ofNat n).nat? = some n :=
  Text.readDecimal?_decimal n

theorem read?_indented {v : Json} (hv : v.Plain) : read? v.indented = some v :=
  read?_write Style.spaced_indented hv

theorem read?_compact {v : Json} (hv : v.Plain) : read? v.compact = some v :=
  read?_write Style.spaced_compact hv

end Json

/-! ## Configurations -/

namespace Config

theorem plain_toJson (c : Config) : c.toJson.Plain := by
  refine Json.plain_record ?_
  intro m hm
  simp only [List.mem_cons, List.not_mem_nil, or_false] at hm
  rcases hm with rfl | rfl
  · exact .ofText c.labelPrefix
  · exact .bool c.labelSpacing

/-- A configuration is read back from its value. -/
theorem ofJson?_toJson (c : Config) : ofJson? c.toJson = some c := rfl

end Config

/-! ## Labels -/

namespace LabelEntry

theorem plain_toJson (e : LabelEntry) : e.toJson.Plain := by
  refine Json.plain_record ?_
  intro m hm
  simp only [List.mem_cons, List.not_mem_nil, or_false] at hm
  rcases hm with rfl | rfl
  · exact .ofNat e.addr.toNat
  · exact .ofText e.name

theorem plain_listToJson (es : List LabelEntry) : (listToJson es).Plain := by
  refine .array ?_
  intro v hv
  obtain ⟨e, -, rfl⟩ := List.mem_map.1 hv
  exact e.plain_toJson

/-- A label is read back from its value. -/
theorem ofJson?_toJson (e : LabelEntry) : ofJson? e.toJson = some e := by
  have hfields : e.toJson.fields? ["addr", "name"] =
      some [some (.ofNat e.addr.toNat), some (.ofText e.name)] := rfl
  have haddr : (Json.ofNat e.addr.toNat).nat?.bind Address.ofNat? = some e.addr := by
    rw [Json.nat?_ofNat]
    exact Address.ofNat?_eq_some_iff.2 rfl
  have hname : (Json.ofText e.name).text? = some e.name := rfl
  simp only [ofJson?, hfields, haddr, hname]

/-- A list of labels is read back from its value. -/
theorem listOfJson?_listToJson (es : List LabelEntry) : listOfJson? (listToJson es) = some es := by
  rw [listToJson, listOfJson?]
  induction es with
  | nil => rfl
  | cons e es ih => simp [ofJson?_toJson, ih]

/-- A list of labels is read back from its text. -/
theorem listOfJsonText?_indented (es : List LabelEntry) :
    listOfJsonText? (listToJson es).indented = some es := by
  rw [listOfJsonText?, Json.read?_indented (plain_listToJson es), Option.bind_some,
    listOfJson?_listToJson]

end LabelEntry

/-! ## Reports -/

namespace Report

theorem plain_toJson (r : Report) : r.toJson.Plain := by
  refine Json.plain_record ?_
  intro m hm
  simp only [List.mem_cons, List.not_mem_nil, or_false] at hm
  rcases hm with rfl | rfl | rfl | rfl | rfl | rfl
  · exact .ofNat r.instructions
  · exact .ofNat r.headerLines
  · exact .ofNat r.trailerLines
  · refine .object ?_ ?_
    · intro m hm
      obtain ⟨⟨k, n⟩, -, rfl⟩ := List.mem_map.1 hm
      rfl
    · intro m hm
      obtain ⟨⟨k, n⟩, -, rfl⟩ := List.mem_map.1 hm
      exact .ofNat n
  · exact .ofNat r.labelled
  · exact LabelEntry.plain_listToJson r.labels

/-- A report is read back as the value that was written. -/
theorem read?_toJson (r : Report) : Json.read? r.toJson.indented = some r.toJson :=
  Json.read?_indented r.plain_toJson

end Report

/-- Labels and configurations are read back from the texts they are exported as. -/
theorem Json.exports_read_back :
    (∀ es : List LabelEntry,
      LabelEntry.listOfJsonText? (LabelEntry.listToJson es).indented = some es) ∧
    ∀ c : Config, Config.ofJsonText? c.toJson.compact = some c := by
  refine ⟨LabelEntry.listOfJsonText?_indented, ?_⟩
  intro c
  rw [Config.ofJsonText?, Json.read?_compact c.plain_toJson, Option.bind_some,
    Config.ofJson?_toJson]

end BranchLabels
