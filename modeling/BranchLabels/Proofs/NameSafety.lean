import BranchLabels.Proofs.Metadata
import BranchLabels.Proofs.Splicing

/-!
# Names that are taken for nothing else

The words of a listing are looked at for the start of an instruction, for the commas
between its operands, for a number as the last of them, and for the pairs by which a
listing describes itself.  A name with a validated prefix is none of these.  So its
declaration is a line without meaning, and in the place of an operand it is that
operand and changes nothing before it.

Main results:

- Theorem `Listing.metadata_withoutLine`: a line without a pair does not count for what
  a listing says about itself.
- Theorem `Instruction.renames_relabel`: what a name in the place of the last operand
  leaves as it was.
- Theorem `Config.validated_names_are_safe`: a validated prefix gives names that are taken
  for nothing else.
-/

namespace BranchLabels

open Text

/-! ## Declarations outside of the instructions -/

namespace Listing

/-- A listing without the copies of a line before and after its instructions. -/
def withoutLine (line : Text) (l : Listing) : Listing :=
  { l with
    header := l.header.filter (· ≠ line)
    trailer := l.trailer.filter (· ≠ line) }

/-- A line without a pair does not count for what a listing says about itself. -/
theorem metadata_withoutLine {line : Text} (h : metadataPair? line = none) (l : Listing) :
    (l.withoutLine line).metadata = l.metadata := by
  have hpairs : ((l.header ++ l.trailer).filter (· ≠ line)).filterMap metadataPair? =
      (l.header ++ l.trailer).filterMap metadataPair? := by
    rw [List.filterMap_filter]
    apply List.filterMap_congr
    intro t _
    by_cases ht : t = line
    · simp [ht, h]
    · simp [ht]
  rw [metadata, metadata, withoutLine, ← List.filter_append, hpairs]

end Listing

/-! ## Names as operands -/

namespace Instruction

/-- An instruction is another one with a name as its last operand, and has no target for
it. -/
structure Renames (name : Text) (i j : Instruction) : Prop where
  address_eq : j.address = i.address
  rawBytes_eq : j.rawBytes = i.rawBytes
  mnemonic_eq : j.mnemonic = i.mnemonic
  operandOffset_eq : j.operandOffset = i.operandOffset
  token_eq : ∃ cut, lastOperand? j.operands = some cut ∧ cut.token = name
  target?_eq_none : ∀ isa, j.target? isa = none

/-- A name in the place of the last operand is the last operand, and leaves all before it
as it was. -/
theorem renames_relabel {i : Instruction} {cut : OperandCut} {name : Text}
    (hcut : lastOperand? i.operands = some cut) (hname : Config.ValidPrefix name)
    (number : Nat) : Renames name i (i.relabel number cut name) := by
  have hlast : lastOperand? (i.relabel number cut name).operands =
      some ⟨cut.before, name, []⟩ :=
    lastOperand?_before_append hcut hname.ne_nil hname.noBlank hname.comma_not_mem
  exact
    { address_eq := rfl
      rawBytes_eq := rfl
      mnemonic_eq := rfl
      operandOffset_eq := rfl
      token_eq := ⟨_, hlast, rfl⟩
      target?_eq_none := fun isa => target?_eq_none_of_token isa hlast hname.literal_eq_none }

end Instruction

/-! ## Validated prefixes -/

namespace Config

/-- The names of a validated prefix are taken for nothing else in a listing: such a name
is no number; its declaration is no instruction and not refused as one, and describes
nothing, wherever it stands; and a line with the name in the place of the last operand of
its instruction is read as that instruction with the name as its last operand, which
leads nowhere. -/
theorem validated_names_are_safe {config : Config} (h : config.validate = .ok ())
    (a : Address) :
    let name := labelName config.labelPrefix a
    Literal.ofText? name = none ∧
      (∀ number, Instruction.read number (name ++ [':']) = .ok none) ∧
      Listing.metadataPair? (name ++ [':']) = none ∧
      (∀ l : Listing, (l.withoutLine (name ++ [':'])).metadata = l.metadata) ∧
      ∀ line text i cut, Instruction.read line text = .ok (some i) →
        lastOperand? i.operands = some cut →
        ∃ before after, i.LastOperandIn text before cut.token after ∧
          ∀ number, ∃ j, Instruction.read number (before ++ name ++ after) = .ok (some j) ∧
            Instruction.Renames name i j := by
  intro name
  have hname : ValidPrefix name := (validate_eq_ok_iff.1 h).labelName a
  have hpair : Listing.metadataPair? (name ++ [':']) = none :=
    Listing.metadataPair?_declaration hname
  refine ⟨hname.literal_eq_none, ?_, hpair, Listing.metadata_withoutLine hpair, ?_⟩
  · intro number
    exact Instruction.read_eq_ok_none_iff.2 hname.shape_declaration
  · intro line text i cut hread hcut
    have hplace := (Instruction.placed_of_read hread).lastOperandIn_toText hcut
    rw [Instruction.toText_of_read hread] at hplace
    refine ⟨_, _, hplace, fun number => ?_⟩
    exact ⟨_, Instruction.read_relabelled_eq hread hcut hname number,
      Instruction.renames_relabel hcut hname number⟩

/-- A branch with wide blanks around its last operand. -/
def spacedLine : Text :=
  "0X10:63\tbnez a0 ,\u3000-0x10\u2003".toList

/-- A prefix may hold the marks of a pair, of a sign and of an address. -/
theorem validated_names_are_safe_sample :
    let config : Config := ⟨"=é-0x".toList, false⟩
    config.validate = .ok () ∧ labelName config.labelPrefix 0x1F = "=é-0x0000001f".toList ∧
      (∀ number, Instruction.read number "=é-0x0000001f:".toList = .ok none) ∧
      ∃ i before after, Instruction.read 1 spacedLine = .ok (some i) ∧
        i.LastOperandIn spacedLine before "-0x10".toList after ∧
        ∃ j, Instruction.read 2 (before ++ "=é-0x0000001f".toList ++ after) = .ok (some j) ∧
          Instruction.Renames "=é-0x0000001f".toList i j := by
  intro config
  have hvalid : config.validate = .ok () := by decide
  have hname : labelName config.labelPrefix 0x1F = "=é-0x0000001f".toList := by decide
  have hread : Instruction.read 1 spacedLine = .ok (some ⟨1, 0x10, "63".toList, "bnez".toList,
      "a0 ,\u3000-0x10".toList, "0X10:63\tbnez ".toList, "a0 ,\u3000-0x10\u2003".toList⟩) := by
    decide +kernel
  have hsafe := validated_names_are_safe hvalid 0x1F
  rw [hname] at hsafe
  obtain ⟨-, hdeclaration, -, -, hoperand⟩ := hsafe
  obtain ⟨before, after, hplace, hreplaced⟩ :=
    hoperand 1 spacedLine _ ⟨"a0 ,\u3000".toList, "-0x10".toList, []⟩ hread (by decide +kernel)
  exact ⟨hvalid, hname, hdeclaration, _, before, after, hread, hplace, hreplaced 2⟩

end Config

end BranchLabels
