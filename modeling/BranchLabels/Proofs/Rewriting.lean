import BranchLabels.Layout
import BranchLabels.Proofs.Instruction
import BranchLabels.Proofs.LabelName
import BranchLabels.Proofs.Operand
import Mathlib.Tactic.NthRewrite
import Mathlib.Tactic.Tauto

/-!
# Instructions that are written and read again

Writing an instruction puts a label in the place of its last operand, or leaves
the line alone.  The written line is again an instruction: the fields before the
operands are as they were, and the operands end with the label or are as they
were.

Main results:

- Theorem `write_eq_ok`: an instruction whose operands lie in its line can always
  be written, and how.
- Theorems `read_relabelled_eq` and `read_relabelled`: a line with a label in the
  place of the last operand reads as the same instruction with that operand.
- Theorem `exists_restores`: what a written line reads as.
-/

namespace BranchLabels

open Text

/-- All names of a table may stand in a listing. -/
def LabelTable.Valid (labels : LabelTable) : Prop :=
  ∀ a name, labels.get? a = some name → Config.ValidPrefix name

namespace Instruction

/-! ## Where the operands lie -/

/-- The operands of an instruction lie in its line, with blanks after them. -/
def Placed (i : Instruction) : Prop :=
  ∃ rest, AllBlank rest ∧ i.tail = i.operands ++ rest

/-- An instruction that was read has its operands in its line. -/
theorem placed_of_read {line : Nat} {text : Text} {i : Instruction}
    (h : read line text = .ok (some i)) : i.Placed := by
  obtain ⟨s, a, -, -, rfl⟩ := read_eq_ok_some_iff.1 h
  exact ⟨blankEnd s.tail, allBlank_blankEnd s.tail, (trimEnd_append_blankEnd s.tail).symm⟩

/-- The line of an instruction with a name in the place of an operand. -/
def relabelled (i : Instruction) (cut : OperandCut) (name : Text) : Text :=
  i.lead ++ cut.before ++ name ++ (cut.after ++ i.tail.drop i.operands.length)

/-- When the operands lie in the line, so does the last of them. -/
theorem Placed.tail_eq {i : Instruction} (h : i.Placed) {cut : OperandCut}
    (hcut : lastOperand? i.operands = some cut) :
    i.tail = cut.before ++ cut.token ++ (cut.after ++ i.tail.drop i.operands.length) := by
  obtain ⟨rest, -, htail⟩ := h
  have hdrop : i.tail.drop i.operands.length = rest := by
    rw [htail, List.drop_left]
  have hoperands : cut.before ++ cut.token ++ cut.after = i.operands :=
    toText_of_lastOperand? hcut
  rw [hdrop, ← List.append_assoc, hoperands]
  exact htail

/-- The operand itself in its place gives the line. -/
theorem Placed.relabelled_token {i : Instruction} (h : i.Placed) {cut : OperandCut}
    (hcut : lastOperand? i.operands = some cut) : i.relabelled cut cut.token = i.toText := by
  rw [toText, h.tail_eq hcut, relabelled]
  simp

/-- Different names in the same place give different lines. -/
theorem relabelled_inj {i : Instruction} {cut : OperandCut} {name other : Text} :
    i.relabelled cut name = i.relabelled cut other ↔ name = other := by
  simp [relabelled]

/-- When the operands lie in the line, there is a place for a label. -/
theorem splice?_eq_some {i : Instruction} (h : i.Placed) {cut : OperandCut}
    (hcut : lastOperand? i.operands = some cut) (name : Text) :
    i.splice? cut name = some (i.relabelled cut name) := by
  have hend := h.tail_eq hcut
  have hstart := hend
  rw [List.append_assoc] at hstart
  have hcutStart : cutAtByte? cut.startByte i.tail =
      some (cut.before, cut.token ++ (cut.after ++ i.tail.drop i.operands.length)) := by
    nth_rewrite 1 [hstart]
    exact cutAtByte?_append _ _
  have hcutEnd : cutAtByte? cut.endByte i.tail =
      some (cut.before ++ cut.token, cut.after ++ i.tail.drop i.operands.length) := by
    nth_rewrite 1 [hend]
    exact cutAtByte?_append _ _
  simp only [splice?, hcutStart, hcutEnd, relabelled]

/-- A line with a label has no characters but its own and those of the label. -/
theorem mem_relabelled {i : Instruction} (h : i.Placed) {cut : OperandCut}
    (hcut : lastOperand? i.operands = some cut) {name : Text} {c : Char}
    (hc : c ∈ i.relabelled cut name) : c ∈ i.toText ∨ c ∈ name := by
  rw [toText, h.tail_eq hcut]
  simp only [relabelled, List.mem_append] at hc ⊢
  tauto

/-! ## The written line -/

/-- The line that is written for an instruction whose operands lie in its
line. -/
def written (isa : Isa) (labels : LabelTable) (i : Instruction) : WrittenLine :=
  match i.label? isa labels, lastOperand? i.operands with
  | some name, some cut => ⟨i.relabelled cut name, true⟩
  | _, _ => ⟨i.toText, false⟩

/-- An instruction whose operands lie in its line can always be written. -/
theorem write_eq_ok {i : Instruction} (h : i.Placed) (isa : Isa) (labels : LabelTable) :
    i.write isa labels = .ok (i.written isa labels) := by
  cases hname : i.label? isa labels with
  | none => simp only [write, written, hname]
  | some name =>
      cases hcut : lastOperand? i.operands with
      | none => simp only [write, written, hname, hcut]
      | some cut => simp only [write, written, hname, hcut, splice?_eq_some h hcut]

/-- Only an instruction with a last operand has a label at its target. -/
theorem exists_cut_of_label? {isa : Isa} {labels : LabelTable} {i : Instruction} {name : Text}
    (h : i.label? isa labels = some name) :
    ∃ a cut, i.targetAddress? isa = some a ∧ labels.get? a = some name ∧
      lastOperand? i.operands = some cut := by
  obtain ⟨a, ha, hname⟩ := Option.bind_eq_some_iff.1 h
  obtain ⟨t, ht, -⟩ := Option.bind_eq_some_iff.1 ha
  obtain ⟨-, cut, -, -, -, hcut, -⟩ := target?_eq_some_iff.1 ht
  exact ⟨a, cut, ha, hname, hcut⟩

theorem written_of_label? {isa : Isa} {labels : LabelTable} {i : Instruction} {name : Text}
    {cut : OperandCut} (hname : i.label? isa labels = some name)
    (hcut : lastOperand? i.operands = some cut) :
    i.written isa labels = ⟨i.relabelled cut name, true⟩ := by
  simp only [written, hname, hcut]

theorem written_of_label?_eq_none {isa : Isa} {labels : LabelTable} {i : Instruction}
    (h : i.label? isa labels = none) : i.written isa labels = ⟨i.toText, false⟩ := by
  simp only [written, h]

/-- A written line has no line feed when its own line and all names have none. -/
theorem lineFeed_not_mem_written {isa : Isa} {labels : LabelTable} (hlabels : labels.Valid)
    {i : Instruction} (hplaced : i.Placed) (h : '\n' ∉ i.toText) :
    '\n' ∉ (i.written isa labels).text := by
  cases hname : i.label? isa labels with
  | none =>
      rw [written_of_label?_eq_none hname]
      exact h
  | some name =>
      obtain ⟨a, cut, -, hget, hcut⟩ := exists_cut_of_label? hname
      rw [written_of_label? hname hcut]
      intro hmem
      rcases mem_relabelled hplaced hcut hmem with hmem | hmem
      · exact h hmem
      · exact (hlabels a name hget).lineFeed_not_mem hmem

/-! ## Reading a written line -/

/-- The instruction of a line with a name in the place of an operand. -/
def relabel (i : Instruction) (number : Nat) (cut : OperandCut) (name : Text) : Instruction :=
  { i with
    line := number
    operands := cut.before ++ name
    tail := cut.before ++ name ++ (cut.after ++ i.tail.drop i.operands.length) }

/-- A line with a name in the place of the last operand starts as it did, and is read
with the name at the end of its operands. -/
theorem read_relabelled_eq {line : Nat} {text name : Text} {i : Instruction} {cut : OperandCut}
    (h : read line text = .ok (some i)) (hcut : lastOperand? i.operands = some cut)
    (hname : Config.ValidPrefix name) (number : Nat) :
    read number (i.relabelled cut name) = .ok (some (i.relabel number cut name)) := by
  obtain ⟨s, a, hs, ha, rfl⟩ := read_eq_ok_some_iff.1 h
  obtain ⟨-, hapart, -⟩ := LineShape.ofText?_eq_some_iff.1 hs
  have hne : s.tail ≠ [] := by
    intro hnil
    have hoperands : trimEnd s.tail ≠ [] := (lastOperand?_eq_some_iff.1 hcut).1
    exact hoperands (by rw [hnil]; rfl)
  have hoperands : StartsInField (trimEnd s.tail) := startsInField_trimEnd hapart.tail_starts
  have hafter : AllBlank (cut.after ++ blankEnd s.tail) :=
    (proper_of_lastOperand? hcut).after_blank.append (allBlank_blankEnd s.tail)
  have hends : EndsInField (cut.before ++ name) :=
    hname.noBlank.endsInField.append_of_ne_nil hname.ne_nil
  have hstarts : StartsInField (cut.before ++ name ++ (cut.after ++ blankEnd s.tail)) := by
    apply (startsInField_before_append hcut hoperands hname.noBlank).append
    intro hnil
    exact absurd (List.append_eq_nil_iff.1 hnil).2 hname.ne_nil
  have hline : relabelled (ofShape line s a) cut name =
      s.lead ++ (cut.before ++ name ++ (cut.after ++ blankEnd s.tail)) := by
    simp [relabelled, ofShape, drop_length_trimEnd]
  rw [hline]
  refine read_eq_ok_some_iff.2 ⟨_, a, LineShape.ofText?_withTail hs hne hstarts, ha, ?_⟩
  simp only [relabel, ofShape, drop_length_trimEnd, trimEnd_append hends hafter]
  rfl

/-- A line with a label in the place of the last operand reads as the same
instruction with that operand. -/
theorem read_relabelled {line : Nat} {text name : Text} {i : Instruction} {cut : OperandCut}
    (h : read line text = .ok (some i)) (hcut : lastOperand? i.operands = some cut)
    (hname : Config.ValidPrefix name) (number : Nat) :
    ∃ j, read number (i.relabelled cut name) = .ok (some j) ∧ j.address = i.address ∧
      j.rawBytes = i.rawBytes ∧ j.mnemonic = i.mnemonic ∧ j.operands = cut.before ++ name :=
  ⟨_, read_relabelled_eq h hcut hname number, rfl, rfl, rfl, rfl⟩

/-- What a written instruction is read as: the same instruction on the written
line, less one carriage return, with the label as its last operand when one was
put in. -/
structure Restores (isa : Isa) (labels : LabelTable) (i j : Instruction) : Prop where
  address_eq : j.address = i.address
  rawBytes_eq : j.rawBytes = i.rawBytes
  mnemonic_eq : j.mnemonic = i.mnemonic
  toText_eq : j.toText = dropCarriageReturn (i.written isa labels).text
  operands_eq : i.label? isa labels = none → j.operands = i.operands
  lastOperand_eq : ∀ name cut, i.label? isa labels = some name →
    lastOperand? i.operands = some cut → lastOperand? j.operands = some ⟨cut.before, name, []⟩

/-- A written line is read as the instruction it was written for. -/
theorem exists_restores {line : Nat} {text : Text} {i : Instruction} {labels : LabelTable}
    (h : read line text = .ok (some i)) (hlabels : labels.Valid) (isa : Isa) (number : Nat) :
    ∃ j, read number (dropCarriageReturn (i.written isa labels).text) = .ok (some j) ∧
      Restores isa labels i j := by
  cases hname : i.label? isa labels with
  | none =>
      rw [written_of_label?_eq_none hname, toText_of_read h]
      obtain ⟨j, hj, hsame⟩ := read_dropCarriageReturn h number
      refine ⟨j, hj, hsame.address_eq, hsame.rawBytes_eq, hsame.mnemonic_eq, ?_, ?_, ?_⟩
      · rw [toText_of_read hj, written_of_label?_eq_none hname, toText_of_read h]
      · intro _
        exact hsame.operands_eq
      · intro name cut hsome
        rw [hname] at hsome
        contradiction
  | some name =>
      obtain ⟨a, cut, -, hget, hcut⟩ := exists_cut_of_label? hname
      have hvalid : Config.ValidPrefix name := hlabels a name hget
      rw [written_of_label? hname hcut]
      obtain ⟨k, hk, haddress, hraw, hmnemonic, hoperands⟩ :=
        read_relabelled h hcut hvalid number
      obtain ⟨j, hj, hsame⟩ := read_dropCarriageReturn hk number
      refine ⟨j, hj, hsame.address_eq.trans haddress, hsame.rawBytes_eq.trans hraw,
        hsame.mnemonic_eq.trans hmnemonic, ?_, ?_, ?_⟩
      · rw [toText_of_read hj, written_of_label? hname hcut]
      · intro hnone
        rw [hname] at hnone
        contradiction
      · intro name' cut' hname' hcut'
        rw [hname] at hname'
        rw [hcut] at hcut'
        obtain rfl := Option.some.inj hname'
        obtain rfl := Option.some.inj hcut'
        rw [hsame.operands_eq, hoperands]
        exact lastOperand?_before_append hcut hvalid.ne_nil hvalid.noBlank hvalid.comma_not_mem

/-- Without a label, an instruction is read again with its target. -/
theorem Restores.target?_eq {isa : Isa} {labels : LabelTable} {i j : Instruction}
    (h : Restores isa labels i j) (hnone : i.label? isa labels = none) :
    j.target? isa = i.target? isa :=
  target?_congr isa h.address_eq h.mnemonic_eq (h.operands_eq hnone)

/-- With a label, an instruction is read again without a target. -/
theorem Restores.target?_eq_none {isa : Isa} {labels : LabelTable} {i j : Instruction}
    (h : Restores isa labels i j) (hlabels : labels.Valid) {name : Text}
    (hname : i.label? isa labels = some name) : j.target? isa = none := by
  obtain ⟨a, cut, -, hget, hcut⟩ := exists_cut_of_label? hname
  exact target?_eq_none_of_token isa (h.lastOperand_eq name cut hname hcut)
    (hlabels a name hget).literal_eq_none

end Instruction

end BranchLabels
