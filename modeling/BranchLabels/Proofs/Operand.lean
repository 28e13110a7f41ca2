import BranchLabels.Operand
import BranchLabels.Proofs.Text.Runs

/-!
# The last operand, by its surroundings

The cut around the last operand is the only one that has a comma or nothing and
then blanks before the operand, no comma in it, and blanks after it.  So another
word in the place of the operand is the last operand of the changed text.

Main results:

- Theorem `lastOperand?_eq_some_iff`: the cut around the last operand is the one
  with these surroundings.
- Theorem `lastOperand?_before_append`: a word in the place of the last operand
  is the last operand.
-/

namespace BranchLabels

open Text

/-- The surroundings of a last operand. -/
structure OperandCut.Proper (cut : OperandCut) : Prop where
  /-- Before the operand stand blanks, and before these a comma or nothing. -/
  before_ends : ∃ upto gap, cut.before = upto ++ gap ∧ (∀ c ∈ upto.getLast?, c = ',') ∧
    AllBlank gap
  comma_not_mem : ',' ∉ cut.token
  token_starts : StartsInField cut.token
  token_ends : EndsInField cut.token
  after_blank : AllBlank cut.after
  /-- An empty operand stands at the very end. -/
  after_eq_nil : cut.token = [] → cut.after = []

/-- A comma is not blank. -/
theorem comma_not_mem_of_allBlank {t : Text} (h : AllBlank t) : ',' ∉ t := by
  intro hmem
  have hblank : isBlank ',' = true := h ',' hmem
  exact absurd hblank (by decide)

/-- The cut around the last operand has its surroundings. -/
theorem proper_of_lastOperand? {operands : Text} {cut : OperandCut}
    (h : lastOperand? operands = some cut) : cut.Proper := by
  unfold lastOperand? at h
  split at h
  · contradiction
  · obtain rfl := Option.some.inj h
    refine ⟨?_, ?_, ?_, ?_, ?_, ?_⟩
    · exact ⟨uptoLast ',' operands, _, rfl, fun c hc => eq_of_mem_getLast?_uptoLast hc,
        allBlank_takeWhile _⟩
    · intro hmem
      apply not_mem_afterLast ',' operands
      rw [← takeWhile_append_trim (afterLast ',' operands)]
      exact List.mem_append_right _ (List.mem_append_left _ hmem)
    · exact startsInField_trimEnd (startsInField_trimStart _)
    · exact endsInField_trimEnd _
    · exact allBlank_blankEnd _
    · intro hnil
      have hall : AllBlank (trimStart (afterLast ',' operands)) := by
        have hsplit := trimEnd_append_blankEnd (trimStart (afterLast ',' operands))
        rw [show trimEnd (trimStart (afterLast ',' operands)) = [] from hnil,
          List.nil_append] at hsplit
        rw [← hsplit]
        exact allBlank_blankEnd _
      show blankEnd (trimStart (afterLast ',' operands)) = []
      rw [eq_nil_of_allBlank hall (startsInField_trimStart _)]
      rfl

/-- The last operand is the trimmed text after the last comma. -/
theorem token_of_lastOperand? {operands : Text} {cut : OperandCut}
    (h : lastOperand? operands = some cut) : cut.token = trim (afterLast ',' operands) := by
  unfold lastOperand? at h
  split at h
  · contradiction
  · obtain rfl := Option.some.inj h
    rfl

/-- A text with the surroundings of a last operand is cut there. -/
theorem OperandCut.Proper.lastOperand?_toText {cut : OperandCut} (h : cut.Proper)
    (hne : cut.toText ≠ []) : lastOperand? cut.toText = some cut := by
  obtain ⟨before, token, after⟩ := cut
  obtain ⟨⟨upto, gap, rfl, hupto, hgap⟩, hcomma, hstarts, hends, hafter, hnil⟩ := h
  have hpart : ',' ∉ gap ++ (token ++ after) := by
    simp only [List.mem_append, not_or]
    exact ⟨comma_not_mem_of_allBlank hgap, hcomma, comma_not_mem_of_allBlank hafter⟩
  have hrest : StartsInField (token ++ after) := by
    apply hstarts.append
    intro htoken
    rw [show after = [] from hnil htoken]
    simp [StartsInField]
  have htext : OperandCut.toText ⟨upto ++ gap, token, after⟩ =
      upto ++ (gap ++ (token ++ after)) := by
    simp [OperandCut.toText]
  rw [htext] at hne ⊢
  rw [lastOperand?, if_neg hne]
  simp only [uptoLast_append hupto hpart, afterLast_append hupto hpart, trim,
    takeWhile_append_stop hgap hrest, trimStart_append hgap hrest,
    trimEnd_append hends hafter, blankEnd_append hends hafter]

/-- The cut around the last operand is the one with the surroundings of a last
operand. -/
theorem lastOperand?_eq_some_iff {operands : Text} {cut : OperandCut} :
    lastOperand? operands = some cut ↔ operands ≠ [] ∧ cut.toText = operands ∧ cut.Proper := by
  constructor
  · intro h
    refine ⟨?_, toText_of_lastOperand? h, proper_of_lastOperand? h⟩
    rintro rfl
    simp [lastOperand?] at h
  · rintro ⟨hne, rfl, hproper⟩
    exact hproper.lastOperand?_toText hne

/-- A word in the place of the last operand is the last operand. -/
theorem lastOperand?_before_append {operands name : Text} {cut : OperandCut}
    (h : lastOperand? operands = some cut) (hne : name ≠ []) (hblank : NoBlank name)
    (hcomma : ',' ∉ name) :
    lastOperand? (cut.before ++ name) = some ⟨cut.before, name, []⟩ := by
  have hproper : OperandCut.Proper ⟨cut.before, name, []⟩ :=
    { before_ends := (proper_of_lastOperand? h).before_ends
      comma_not_mem := hcomma
      token_starts := hblank.startsInField
      token_ends := hblank.endsInField
      after_blank := by simp [AllBlank]
      after_eq_nil := fun _ => rfl }
  refine lastOperand?_eq_some_iff.2 ⟨?_, ?_, hproper⟩
  · simp [hne]
  · simp [OperandCut.toText]

/-- With a word in the place of its last operand, operand text starts as it
did. -/
theorem startsInField_before_append {operands name : Text} {cut : OperandCut}
    (h : lastOperand? operands = some cut) (hstarts : StartsInField operands)
    (hblank : NoBlank name) : StartsInField (cut.before ++ name) := by
  have hbefore : StartsInField cut.before := by
    intro c hc
    apply hstarts c
    rw [← toText_of_lastOperand? h, OperandCut.toText, List.append_assoc, List.head?_append, hc]
    rfl
  exact hbefore.append fun _ => hblank.startsInField

end BranchLabels
