import BranchLabels.Proofs.Operand

/-!
# The bytes of the last operand

The last comma of operand text and the blanks on both sides of what follows it
divide the text into four parts.  There is one such division only, and the bytes at
which the last operand starts and ends are places of it: also when blanks and
letters take several bytes, when the text ends with a comma, and when nothing but
blanks follows the last comma.

Main results:

- Theorem `Divides.unique`: operand text is divided in one way only.
- Theorem `Divides.cutsOut`: the bytes of the last operand are places of the
  division.
- Theorem `bytes_cut_out_last_operand`: every text has a last operand, except the
  empty one, and its bytes cut out exactly that operand.
-/

namespace BranchLabels

open Text

/-- Operand text in four parts. -/
@[ext] structure OperandParts where
  /-- All text up to the last comma, with the comma. -/
  upto : Text
  /-- The blanks before the last operand. -/
  gap : Text
  /-- The last operand. -/
  token : Text
  /-- The blanks after the last operand. -/
  after : Text

namespace OperandParts

/-- The cut around the last operand. -/
def toCut (p : OperandParts) : OperandCut :=
  ⟨p.upto ++ p.gap, p.token, p.after⟩

/-! ## The division of operand text -/

/-- Operand text is divided around its last operand. -/
structure Divides (p : OperandParts) (operands : Text) : Prop where
  append_eq : p.upto ++ p.gap ++ p.token ++ p.after = operands
  /-- The first part is empty or ends with a comma. -/
  upto_ends : ∀ c ∈ p.upto.getLast?, c = ','
  gap_blank : AllBlank p.gap
  comma_not_mem : ',' ∉ p.token
  token_starts : StartsInField p.token
  token_ends : EndsInField p.token
  after_blank : AllBlank p.after
  /-- An empty operand stands at the very end. -/
  after_eq_nil : p.token = [] → p.after = []

/-- The last operand of divided text has its surroundings. -/
theorem Divides.proper {p : OperandParts} {operands : Text} (h : p.Divides operands) :
    p.toCut.Proper where
  before_ends := ⟨p.upto, p.gap, rfl, h.upto_ends, h.gap_blank⟩
  comma_not_mem := h.comma_not_mem
  token_starts := h.token_starts
  token_ends := h.token_ends
  after_blank := h.after_blank
  after_eq_nil := h.after_eq_nil

/-- Divided text is cut around its last operand. -/
theorem Divides.lastOperand?_eq {p : OperandParts} {operands : Text} (h : p.Divides operands)
    (hne : operands ≠ []) : lastOperand? operands = some p.toCut :=
  lastOperand?_eq_some_iff.2 ⟨hne, h.append_eq, h.proper⟩

/-- Where a text is cut around its last operand, it is divided. -/
theorem exists_divides_of_lastOperand? {operands : Text} {cut : OperandCut}
    (h : lastOperand? operands = some cut) :
    ∃ p : OperandParts, p.toCut = cut ∧ p.Divides operands := by
  obtain ⟨-, happend, hproper⟩ := lastOperand?_eq_some_iff.1 h
  obtain ⟨before, token, after⟩ := cut
  obtain ⟨⟨upto, gap, rfl, hupto, hgap⟩, hcomma, hstarts, hends, hafter, hnil⟩ := hproper
  exact ⟨⟨upto, gap, token, after⟩, rfl, happend, hupto, hgap, hcomma, hstarts, hends, hafter,
    hnil⟩

/-- The text before the last operand shows where its comma is. -/
theorem Divides.uptoLast_before {p : OperandParts} {operands : Text} (h : p.Divides operands) :
    uptoLast ',' p.toCut.before = p.upto :=
  uptoLast_append h.upto_ends (comma_not_mem_of_allBlank h.gap_blank)

/-- Operand text is divided in one way only. -/
theorem Divides.unique {p q : OperandParts} {operands : Text} (hp : p.Divides operands)
    (hq : q.Divides operands) (hne : operands ≠ []) : p = q := by
  have hcut : p.toCut = q.toCut := by
    apply Option.some.inj
    rw [← hp.lastOperand?_eq hne, hq.lastOperand?_eq hne]
  have hupto : p.upto = q.upto := by
    rw [← hp.uptoLast_before, hcut, hq.uptoLast_before]
  have hgap : p.gap = q.gap := by
    have hbefore : p.upto ++ p.gap = q.upto ++ q.gap := congrArg OperandCut.before hcut
    rw [hupto] at hbefore
    exact List.append_cancel_left hbefore
  exact OperandParts.ext hupto hgap (congrArg OperandCut.token hcut)
    (congrArg OperandCut.after hcut)

/-! ## The places of the division -/

/-- Two bytes of operand text are places of it, and the last operand stands between
them. -/
structure CutsOut (p : OperandParts) (operands : Text) (start stop : Nat) : Prop where
  start_le_stop : start ≤ stop
  stop_le_length : stop ≤ byteLength operands
  start_boundary : IsBoundary operands start
  stop_boundary : IsBoundary operands stop
  /-- The text before the first byte ends where the operand starts, and the text
  before the second byte has the operand in addition. -/
  cut_start : cutAtByte? start operands = some (p.upto ++ p.gap, p.token ++ p.after)
  cut_stop : cutAtByte? stop operands = some (p.upto ++ p.gap ++ p.token, p.after)

/-- The bytes of the last operand are places of the division. -/
theorem Divides.cutsOut {p : OperandParts} {operands : Text} (h : p.Divides operands) :
    p.CutsOut operands p.toCut.startByte p.toCut.endByte := by
  have hstart : cutAtByte? p.toCut.startByte operands =
      some (p.upto ++ p.gap, p.token ++ p.after) := by
    rw [← h.append_eq, List.append_assoc _ p.token]
    exact cutAtByte?_append _ _
  have hstop : cutAtByte? p.toCut.endByte operands =
      some (p.upto ++ p.gap ++ p.token, p.after) := by
    rw [← h.append_eq]
    exact cutAtByte?_append _ _
  have hboundary : IsBoundary operands p.toCut.endByte :=
    exists_cutAtByte?_iff.1 ⟨_, hstop⟩
  refine ⟨?_, hboundary.le_byteLength, exists_cutAtByte?_iff.1 ⟨_, hstart⟩, hboundary, hstart,
    hstop⟩
  rw [OperandCut.startByte, OperandCut.endByte, byteLength_append]
  exact Nat.le_add_right _ _

/-- Empty text has no operand.  In all other text the bytes of the last operand are
places of the text, they cut it around the last operand of its only division, and
this operand is the last of the pieces between commas, trimmed. -/
theorem bytes_cut_out_last_operand :
    lastOperand? [] = none ∧
    ∀ operands : Text, operands ≠ [] →
      ∃ (cut : OperandCut) (p : OperandParts), lastOperand? operands = some cut ∧
        p.CutsOut operands cut.startByte cut.endByte ∧ cut.token = p.token ∧
        p.Divides operands ∧ (∀ q : OperandParts, q.Divides operands → q = p) ∧
        (operands.splitOn ',').getLast?.map trim = some p.token := by
  refine ⟨rfl, ?_⟩
  intro operands hne
  obtain ⟨cut, hcut⟩ : ∃ cut, lastOperand? operands = some cut := by
    rw [lastOperand?, if_neg hne]
    exact ⟨_, rfl⟩
  obtain ⟨p, rfl, hp⟩ := exists_divides_of_lastOperand? hcut
  refine ⟨p.toCut, p, hcut, hp.cutsOut, rfl, hp, fun q hq => hq.unique hp hne, ?_⟩
  rw [getLast?_splitOn, Option.map_some, ← token_of_lastOperand? hcut]
  rfl

/-- Operands with blanks and letters of several bytes, and blanks at the end. -/
def wideOperands : Text :=
  "α,\u2003β , \u3000-16\u2003 ".toList

/-- The division of these operands. -/
def wideParts : OperandParts where
  upto := "α,\u2003β ,".toList
  gap := " \u3000".toList
  token := "-16".toList
  after := "\u2003 ".toList

theorem divides_wideParts : wideParts.Divides wideOperands where
  append_eq := rfl
  upto_ends := by simp [wideParts]
  gap_blank := List.all_eq_true.1 (by decide)
  comma_not_mem := by decide
  token_starts := by simp [wideParts, StartsInField]; decide
  token_ends := by simp [wideParts, EndsInField]; decide
  after_blank := List.all_eq_true.1 (by decide)
  after_eq_nil := by decide

/-- The last operand stands between the wide blanks, from byte 14 up to byte 17. -/
theorem bytes_cut_out_last_operand_sample :
    wideOperands ≠ [] ∧ wideParts.CutsOut wideOperands 14 17 ∧
      (∀ q : OperandParts, q.Divides wideOperands → q = wideParts) ∧
      (wideOperands.splitOn ',').getLast?.map trim = some wideParts.token := by
  have hne : wideOperands ≠ [] := by decide
  obtain ⟨cut, p, hcut, hspan, -, -, hunique, hlast⟩ :=
    bytes_cut_out_last_operand.2 wideOperands hne
  obtain rfl : wideParts = p := hunique wideParts divides_wideParts
  obtain rfl : wideParts.toCut = cut := by
    apply Option.some.inj
    rw [← hcut, divides_wideParts.lastOperand?_eq hne]
  exact ⟨hne, hspan, hunique, hlast⟩

/-- Where only blanks follow the last comma, an empty operand stands at the end. -/
example : (lastOperand? "a0,\u3000".toList).map (fun cut => (cut.startByte, cut.endByte)) =
    some (6, 6) := by
  decide

end OperandParts

end BranchLabels
