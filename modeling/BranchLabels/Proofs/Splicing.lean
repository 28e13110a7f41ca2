import BranchLabels.Proofs.LabelTable
import BranchLabels.Proofs.Rewriting
import BranchLabels.Rv32

/-!
# The last operand and nothing else

The line of an instruction is kept when the other fields are overwritten, and so
are the operands and the place at which they start.  So a label goes to the same
bytes of the line whatever the instruction is said to be and wherever it is said
to stand: those of the last operand.

Main results:

- Theorem `Placed.lastOperandIn_toText`: the bytes at which the last operand
  starts and ends cut the line around it.
- Theorem `write_replaces_exactly_last_operand`: what is written for an
  instruction that was read, also after its other fields were overwritten.
-/

namespace BranchLabels

open Text

/-- The last operand is what follows the last comma, less the blanks around
it. -/
theorem exists_part_of_lastOperand? {operands : Text} {cut : OperandCut}
    (h : lastOperand? operands = some cut) :
    ∃ upto part, operands = upto ++ part ∧ (∀ c ∈ upto.getLast?, c = ',') ∧ ',' ∉ part ∧
      cut.token = trim part :=
  ⟨uptoLast ',' operands, afterLast ',' operands,
    (uptoLast_append_afterLast ',' operands).symm,
    fun _ hc => eq_of_mem_getLast?_uptoLast hc, not_mem_afterLast ',' operands,
    token_of_lastOperand? h⟩

namespace Instruction

/-! ## Overwritten fields -/

/-- An instruction with all fields overwritten that are no part of its line. -/
def recast (i : Instruction) (number : Nat) (address : Address) (rawBytes mnemonic : Text) :
    Instruction :=
  { i with line := number, address := address, rawBytes := rawBytes, mnemonic := mnemonic }

@[simp] theorem toText_recast (i : Instruction) (number : Nat) (address : Address)
    (rawBytes mnemonic : Text) :
    (i.recast number address rawBytes mnemonic).toText = i.toText := rfl

/-- The operands stay in the line when the other fields are overwritten. -/
theorem Placed.recast {i : Instruction} (h : i.Placed) (number : Nat) (address : Address)
    (rawBytes mnemonic : Text) : (i.recast number address rawBytes mnemonic).Placed := h

/-! ## The place of the last operand -/

/-- A line is cut around the last operand of an instruction. -/
structure LastOperandIn (i : Instruction) (line before token after : Text) : Prop where
  line_eq : line = before ++ token ++ after
  /-- The operand stands in the line at the bytes at which it stands in the
  operands, counted from where these start.  A text has no cut beyond its end
  and none inside a character. -/
  cuts : ∃ cut, lastOperand? i.operands = some cut ∧
    cutAtByte? (i.operandOffset + cut.startByte) line = some (before, token ++ after) ∧
      cutAtByte? (i.operandOffset + cut.endByte) line = some (before ++ token, after)
  /-- The operand is what follows the last comma of the operands, trimmed. -/
  token_eq : ∃ upto part, i.operands = upto ++ part ∧ (∀ c ∈ upto.getLast?, c = ',') ∧
    ',' ∉ part ∧ token = trim part
  after_blank : AllBlank after

/-- When the operands lie in the line, the bytes of the last operand cut the line
around it. -/
theorem Placed.lastOperandIn_toText {i : Instruction} (h : i.Placed) {cut : OperandCut}
    (hcut : lastOperand? i.operands = some cut) :
    LastOperandIn i i.toText (i.lead ++ cut.before) cut.token
      (cut.after ++ i.tail.drop i.operands.length) := by
  have hline : i.toText = i.lead ++ cut.before ++ cut.token ++
      (cut.after ++ i.tail.drop i.operands.length) := by
    rw [← h.relabelled_token hcut, relabelled]
  have hstart : i.operandOffset + cut.startByte = byteLength (i.lead ++ cut.before) := by
    rw [operandOffset, OperandCut.startByte, byteLength_append]
  have hend : i.operandOffset + cut.endByte =
      byteLength (i.lead ++ cut.before ++ cut.token) := by
    rw [operandOffset, OperandCut.endByte, List.append_assoc, byteLength_append i.lead]
  refine ⟨hline, ⟨cut, hcut, ?_, ?_⟩, exists_part_of_lastOperand? hcut, ?_⟩
  · rw [hstart, hline, List.append_assoc _ cut.token]
    exact cutAtByte?_append _ _
  · rw [hend, hline]
    exact cutAtByte?_append _ _
  · obtain ⟨rest, hrest, htail⟩ := h
    rw [htail, List.drop_left]
    exact (proper_of_lastOperand? hcut).after_blank.append hrest

/-! ## What is written -/

/-- The target of an instruction is an address with a name in a table. -/
def TargetNamed (isa : Isa) (labels : LabelTable) (i : Instruction) (name : Text) : Prop :=
  ∃ t a, i.target? isa = some t ∧ t.address = a.toNat ∧ labels.get? a = some name

/-- The label of an instruction is the name of its target. -/
theorem label?_eq_some_iff {isa : Isa} {labels : LabelTable} {i : Instruction} {name : Text} :
    i.label? isa labels = some name ↔ i.TargetNamed isa labels name := by
  rw [label?, Option.bind_eq_some_iff]
  constructor
  · rintro ⟨a, ha, hname⟩
    obtain ⟨t, ht, htarget⟩ := targetAddress?_eq_some_iff.1 ha
    exact ⟨t, a, ht, htarget, hname⟩
  · rintro ⟨t, a, ht, htarget, hname⟩
    exact ⟨a, targetAddress?_eq_some_iff.2 ⟨t, ht, htarget⟩, hname⟩

/-- A table without entries names no target. -/
theorem not_targetNamed_empty (isa : Isa) (i : Instruction) (name : Text) :
    ¬ i.TargetNamed isa ∅ name := by
  rintro ⟨t, a, -, -, hname⟩
  have hnone : (∅ : LabelTable).get? a = none := SortedMap.get?_empty a
  rw [hnone] at hname
  contradiction

/-- A label is written in the place of the last operand of the line. -/
theorem Placed.write_of_targetNamed {i : Instruction} (h : i.Placed) {isa : Isa}
    {labels : LabelTable} {name : Text} (hname : i.TargetNamed isa labels name) :
    ∃ before token after, LastOperandIn i i.toText before token after ∧
      i.write isa labels = .ok ⟨before ++ name ++ after, true⟩ := by
  have hlabel : i.label? isa labels = some name := label?_eq_some_iff.2 hname
  obtain ⟨-, cut, -, -, hcut⟩ := exists_cut_of_label? hlabel
  refine ⟨_, _, _, h.lastOperandIn_toText hcut, ?_⟩
  rw [write_eq_ok h, written_of_label? hlabel hcut, relabelled]

/-- Without a label the line is written as it is. -/
theorem Placed.write_of_not_targetNamed {i : Instruction} (h : i.Placed) {isa : Isa}
    {labels : LabelTable} (hname : ∀ name, ¬ i.TargetNamed isa labels name) :
    i.write isa labels = .ok ⟨i.toText, false⟩ := by
  have hlabel : i.label? isa labels = none := by
    rw [Option.eq_none_iff_forall_ne_some]
    intro name hsome
    exact hname name (label?_eq_some_iff.1 hsome)
  rw [write_eq_ok h, written_of_label?_eq_none hlabel]

/-- An instruction that was read is written with the name of its target in the
place of its last operand, and with all else of its line as it was, whatever the
fields besides its line and its operands were overwritten with.  Without such a
name its own line is written. -/
theorem write_replaces_exactly_last_operand {line : Nat} {text : Text} {i : Instruction}
    (h : read line text = .ok (some i)) (number : Nat) (address : Address)
    (rawBytes mnemonic : Text) (isa : Isa) (labels : LabelTable) :
    let j := i.recast number address rawBytes mnemonic
    (∀ name, j.TargetNamed isa labels name →
      ∃ before token after, LastOperandIn j text before token after ∧
        j.write isa labels = .ok ⟨before ++ name ++ after, true⟩) ∧
    ((∀ name, ¬ j.TargetNamed isa labels name) → j.write isa labels = .ok ⟨text, false⟩) := by
  intro j
  have hplaced : j.Placed := (placed_of_read h).recast number address rawBytes mnemonic
  have htext : j.toText = text := (toText_recast ..).trans (toText_of_read h)
  rw [← htext]
  exact ⟨fun name hname => hplaced.write_of_targetNamed hname,
    fun hname => hplaced.write_of_not_targetNamed hname⟩

/-- A line with blanks and letters of several bytes around its operands. -/
def wideLine : Text :=
  "0x10:\t63940500\tbné\u00a0α,\u2003β , \u3000-16\u2003 ".toList

/-- The label goes between the wide blanks once the mnemonic is a known one, and
to the distance from the address that is written over the old one. -/
theorem write_replaces_exactly_last_operand_sample :
    ∃ i, read 7 wideLine = .ok (some i) ∧
      let j := i.recast 3 0x20 [] "bne".toList
      let labels := LabelTable.ofAddresses "loc_".toList [0x10]
      (∃ before token after, LastOperandIn j wideLine before token after ∧
        j.write .rv32 labels = .ok ⟨before ++ "loc_00000010".toList ++ after, true⟩) ∧
      j.write .rv32 ∅ = .ok ⟨wideLine, false⟩ := by
  have hread : read 7 wideLine = .ok (some ⟨7, 0x10, "63940500".toList, "bné".toList,
      "α,\u2003β , \u3000-16".toList, "0x10:\t63940500\tbné\u00a0".toList,
      "α,\u2003β , \u3000-16\u2003 ".toList⟩) := by
    decide +kernel
  refine ⟨_, hread, ?_, ?_⟩
  · apply (write_replaces_exactly_last_operand hread 3 0x20 [] _ .rv32 _).1
    exact ⟨⟨.branch, .relative, 16⟩, 0x10, by decide +kernel, rfl, by decide +kernel⟩
  · apply (write_replaces_exactly_last_operand hread 3 0x20 [] _ .rv32 ∅).2
    exact not_targetNamed_empty .rv32 _

end Instruction

end BranchLabels
