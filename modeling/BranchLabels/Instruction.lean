import BranchLabels.Address
import BranchLabels.Error
import BranchLabels.Text.Blank

/-!
# Instruction lines

A line of a listing is an instruction when it reads

    0x<digits>: <bytes> <mnemonic> <operands>

with any blanks between the fields.  A line is first cut into its fields without
loss; only a line whose fields all fit has its address read, and a bad address
there is an error and not a line of another kind.

Main results:

- Theorem `LineShape.toText_of_ofText?`: the fields of a line make up the line.
- Theorem `Instruction.toText_of_read`: an instruction remembers its line.
-/

namespace BranchLabels

/-- A line cut into the fields of an instruction and the blanks between them. -/
structure LineShape where
  /-- The two characters in front of the address. -/
  marker : Text
  /-- The address, up to the colon. -/
  digits : Text
  gapBytes : Text
  /-- The encoding of the instruction. -/
  rawBytes : Text
  gapMnemonic : Text
  mnemonic : Text
  gapOperands : Text
  /-- The operands and the blanks after them. -/
  tail : Text
  deriving DecidableEq

namespace LineShape

/-- The line up to where the operands start. -/
def lead (s : LineShape) : Text :=
  s.marker ++ s.digits ++ ':' :: (s.gapBytes ++ s.rawBytes ++ s.gapMnemonic ++ s.mnemonic ++
    s.gapOperands)

/-- The line that was cut. -/
def toText (s : LineShape) : Text :=
  s.lead ++ s.tail

/-- The fields are those of an instruction: `0x` or `0X` and more characters
without blanks before the colon, the bytes as hexadecimal digits, blanks, and a
mnemonic. -/
def Fits (s : LineShape) : Prop :=
  (s.marker = ['0', 'x'] ∨ s.marker = ['0', 'X']) ∧
    s.digits ≠ [] ∧ (∀ c ∈ s.digits, Text.isBlank c = false) ∧
    s.rawBytes ≠ [] ∧ (∀ c ∈ s.rawBytes, Text.isHexDigit c = true) ∧
    s.gapMnemonic ≠ [] ∧ s.mnemonic ≠ []

-- The instances are named so that only the characters of the fields are looked
-- at, also where all characters can be enumerated.
instance (s : LineShape) : Decidable s.Fits :=
  haveI : Decidable (∀ c ∈ s.digits, Text.isBlank c = false) := List.decidableBAll _ s.digits
  haveI : Decidable (∀ c ∈ s.rawBytes, Text.isHexDigit c = true) :=
    List.decidableBAll _ s.rawBytes
  inferInstanceAs (Decidable (_ ∧ _))

/-- Whether a character belongs to a field. -/
def inField (c : Char) : Bool :=
  !Text.isBlank c

/-- Cut what stands before and after the first colon of a line into fields. -/
def cut (head rest : Text) : LineShape :=
  let atBytes := rest.dropWhile Text.isBlank
  let atGap := atBytes.dropWhile inField
  let atMnemonic := atGap.dropWhile Text.isBlank
  let atOperands := atMnemonic.dropWhile inField
  { marker := head.take 2
    digits := head.drop 2
    gapBytes := rest.takeWhile Text.isBlank
    rawBytes := atBytes.takeWhile inField
    gapMnemonic := atGap.takeWhile Text.isBlank
    mnemonic := atMnemonic.takeWhile inField
    gapOperands := atOperands.takeWhile Text.isBlank
    tail := atOperands.dropWhile Text.isBlank }

/-- The fields of a line that has the shape of an instruction. -/
def ofText? (line : Text) : Option LineShape :=
  match Text.cutAtFirst? ':' line with
  | none => none
  | some (head, rest) =>
      if (cut head rest).Fits then some (cut head rest) else none

/-- Cutting loses nothing. -/
theorem toText_cut (head rest : Text) : (cut head rest).toText = head ++ ':' :: rest := by
  simp only [toText, lead, cut, List.append_assoc, List.cons_append,
    List.takeWhile_append_dropWhile]
  rw [← List.append_assoc, List.take_append_drop]

/-- The fields of a line make up the line. -/
theorem toText_of_ofText? {line : Text} {s : LineShape} (h : ofText? line = some s) :
    s.toText = line := by
  unfold ofText? at h
  split at h
  · simp at h
  · next head rest hcut =>
    split at h
    · obtain rfl := Option.some.inj h
      rw [toText_cut, Text.append_of_cutAtFirst? hcut]
    · simp at h

end LineShape

/-- An instruction of a listing.  Its line is kept in two parts, cut where the
operands start, so that there always is a place from which operands are
counted; the other fields may be changed independently of the line. -/
structure Instruction where
  /-- The number of the line, counted from one. -/
  line : Nat
  address : Address
  rawBytes : Text
  mnemonic : Text
  /-- The operands without the blanks around them. -/
  operands : Text
  /-- The line up to where the operands start. -/
  lead : Text
  /-- The line from where the operands start. -/
  tail : Text
  deriving DecidableEq

namespace Instruction

/-- The line of an instruction. -/
def toText (i : Instruction) : Text :=
  i.lead ++ i.tail

/-- The byte of the line at which the operands start. -/
def operandOffset (i : Instruction) : Nat :=
  Text.byteLength i.lead

/-- The instruction of a line with given fields and address. -/
def ofShape (line : Nat) (s : LineShape) (address : Address) : Instruction where
  line := line
  address := address
  rawBytes := s.rawBytes
  mnemonic := s.mnemonic
  operands := Text.trimEnd s.tail
  lead := s.lead
  tail := s.tail

/-- Read a line as an instruction.  A line of another shape is none; a line of
this shape whose address is not a 32-bit number is an error. -/
def read (line : Nat) (text : Text) : Except ListingError (Option Instruction) :=
  match LineShape.ofText? text with
  | none => .ok none
  | some s =>
      match Address.ofHex? s.digits with
      | some address => .ok (some (ofShape line s address))
      | none => .error (.badAddress line (s.marker ++ s.digits))

/-- An instruction remembers its line. -/
theorem toText_of_read {line : Nat} {text : Text} {i : Instruction}
    (h : read line text = .ok (some i)) : i.toText = text := by
  unfold read at h
  split at h
  · simp at h
  · next s hs =>
    split at h
    · simp only [Except.ok.injEq, Option.some.injEq] at h
      subst h
      exact LineShape.toText_of_ofText? hs
    · simp at h

end Instruction

end BranchLabels
