import BranchLabels.Proofs.LineShape
import BranchLabels.Proofs.Text.Lines
import BranchLabels.Target

/-!
# Reading instructions

When a line is read as an instruction, as another line, or refused, and what of
an instruction does not depend on the exact line it was read from.

Main results:

- Theorems `read_eq_ok_some_iff` and `read_eq_ok_none_iff`: what a line is read
  as.
- Theorem `read_dropCarriageReturn`: a carriage return at the end of a line does
  not matter for its instruction.
- Theorem `target?_congr`: a target depends on the address, the mnemonic and the
  operands alone.
-/

namespace BranchLabels

open Text

/-! ## Carriage returns at the end of a line -/

/-- A carriage return is blank. -/
theorem isBlank_carriageReturn : isBlank '\r' = true := by decide

namespace LineShape

@[simp] theorem digits_addBlank (c : Char) (s : LineShape) :
    (s.addBlank c).digits = s.digits := by
  unfold addBlank
  split <;> rfl

@[simp] theorem rawBytes_addBlank (c : Char) (s : LineShape) :
    (s.addBlank c).rawBytes = s.rawBytes := by
  unfold addBlank
  split <;> rfl

@[simp] theorem mnemonic_addBlank (c : Char) (s : LineShape) :
    (s.addBlank c).mnemonic = s.mnemonic := by
  unfold addBlank
  split <;> rfl

theorem trimEnd_tail_addBlank {c : Char} (hc : isBlank c = true) (s : LineShape) :
    trimEnd (s.addBlank c).tail = trimEnd s.tail := by
  unfold addBlank
  split
  · rfl
  · exact trimEnd_append_allBlank s.tail (by simpa [AllBlank] using hc)

/-- A carriage return at the end makes no line an instruction. -/
theorem ofText?_dropCarriageReturn_eq_none {line : Text} (h : ofText? line = none) :
    ofText? (dropCarriageReturn line) = none := by
  rcases eq_dropCarriageReturn_or line with hline | hline
  · rw [← hline]
    exact h
  · rw [hline, ofText?_append_blank isBlank_carriageReturn] at h
    exact Option.map_eq_none_iff.1 h

/-- A carriage return at the end of a line leaves the fields of the instruction
alone. -/
theorem exists_ofText?_dropCarriageReturn {line : Text} {s : LineShape}
    (h : ofText? line = some s) :
    ∃ r, ofText? (dropCarriageReturn line) = some r ∧ r.digits = s.digits ∧
      r.rawBytes = s.rawBytes ∧ r.mnemonic = s.mnemonic ∧ trimEnd r.tail = trimEnd s.tail := by
  rcases eq_dropCarriageReturn_or line with hline | hline
  · rw [← hline]
    exact ⟨s, h, rfl, rfl, rfl, rfl⟩
  · rw [hline, ofText?_append_blank isBlank_carriageReturn] at h
    obtain ⟨r, hr, rfl⟩ := Option.map_eq_some_iff.1 h
    refine ⟨r, hr, ?_, ?_, ?_, ?_⟩
    · exact (digits_addBlank _ r).symm
    · exact (rawBytes_addBlank _ r).symm
    · exact (mnemonic_addBlank _ r).symm
    · exact (trimEnd_tail_addBlank isBlank_carriageReturn r).symm

end LineShape

namespace Instruction

/-! ## What a line is read as -/

/-- A line is read as an instruction exactly when it has the shape of one and a
32-bit address. -/
theorem read_eq_ok_some_iff {line : Nat} {text : Text} {i : Instruction} :
    read line text = .ok (some i) ↔
      ∃ s a, LineShape.ofText? text = some s ∧ Address.ofHex? s.digits = some a ∧
        i = ofShape line s a := by
  unfold read
  split
  · next hnone => simp [hnone]
  · next s hs =>
    split
    · next a ha =>
      simp only [Except.ok.injEq, Option.some.injEq, hs]
      constructor
      · rintro rfl
        exact ⟨s, a, rfl, ha, rfl⟩
      · rintro ⟨s', a', hs', ha', rfl⟩
        subst hs'
        rw [ha] at ha'
        rw [Option.some.inj ha']
    · next ha =>
      simp only [reduceCtorEq, false_iff, hs, Option.some.injEq]
      rintro ⟨s', a', rfl, ha', -⟩
      rw [ha] at ha'
      contradiction

/-- A line is read as no instruction exactly when it has not the shape of one. -/
theorem read_eq_ok_none_iff {line : Nat} {text : Text} :
    read line text = .ok none ↔ LineShape.ofText? text = none := by
  unfold read
  split
  · next hnone => simp [hnone]
  · next s hs =>
    rw [hs]
    split <;> simp

/-! ## The same instruction on another line -/

/-- Two instructions are the same but for where they stand and how their lines
are spaced. -/
structure Same (i j : Instruction) : Prop where
  address_eq : j.address = i.address
  rawBytes_eq : j.rawBytes = i.rawBytes
  mnemonic_eq : j.mnemonic = i.mnemonic
  operands_eq : j.operands = i.operands

/-- A carriage return at the end of a line does not matter for its
instruction. -/
theorem read_dropCarriageReturn {line : Nat} {text : Text} {i : Instruction}
    (h : read line text = .ok (some i)) (number : Nat) :
    ∃ j, read number (dropCarriageReturn text) = .ok (some j) ∧ Same i j := by
  obtain ⟨s, a, hs, ha, rfl⟩ := read_eq_ok_some_iff.1 h
  obtain ⟨r, hr, hdigits, hraw, hmnemonic, htail⟩ :=
    LineShape.exists_ofText?_dropCarriageReturn hs
  refine ⟨ofShape number r a, ?_, ⟨rfl, hraw, hmnemonic, htail⟩⟩
  exact read_eq_ok_some_iff.2 ⟨r, a, hr, hdigits ▸ ha, rfl⟩

/-! ## Targets -/

/-- An instruction has a target exactly when its mnemonic transfers control, its
last operand is a number, and this number names a place. -/
theorem target?_eq_some_iff {isa : Isa} {i : Instruction} {t : Target} :
    i.target? isa = some t ↔
      ∃ kind cut l address, isa.flowKind? i.mnemonic = some kind ∧
        lastOperand? i.operands = some cut ∧ Literal.ofText? cut.token = some l ∧
          i.place? l = some address ∧ t = ⟨kind, l.mode, address⟩ := by
  constructor
  · intro h
    unfold target? at h
    split at h
    · next kind l hkind hliteral =>
      obtain ⟨cut, hcut, hl⟩ := Option.bind_eq_some_iff.1 hliteral
      obtain ⟨address, hplace, rfl⟩ := Option.map_eq_some_iff.1 h
      exact ⟨kind, cut, l, address, hkind, hcut, hl, hplace, rfl⟩
    · contradiction
  · rintro ⟨kind, cut, l, address, hkind, hcut, hl, hplace, rfl⟩
    have hliteral : i.literal? = some l := by
      rw [literal?, hcut]
      exact hl
    simp [target?, hkind, hliteral, hplace]

/-- A target depends on the address, the mnemonic and the operands alone. -/
theorem target?_congr {i j : Instruction} (isa : Isa) (haddress : j.address = i.address)
    (hmnemonic : j.mnemonic = i.mnemonic) (hoperands : j.operands = i.operands) :
    j.target? isa = i.target? isa := by
  have hplace : ∀ l, j.place? l = i.place? l := by
    intro l
    rw [place?, place?, haddress]
  simp only [target?, literal?, hplace, hmnemonic, hoperands]

/-- An instruction whose last operand is no number has no target. -/
theorem target?_eq_none_of_token {i : Instruction} {cut : OperandCut} (isa : Isa)
    (hcut : lastOperand? i.operands = some cut) (htoken : Literal.ofText? cut.token = none) :
    i.target? isa = none := by
  cases htarget : i.target? isa with
  | none => rfl
  | some t =>
      obtain ⟨kind, cut', l, address, -, hcut', hl, -⟩ := target?_eq_some_iff.1 htarget
      rw [hcut] at hcut'
      obtain rfl := Option.some.inj hcut'
      rw [htoken] at hl
      contradiction

end Instruction

end BranchLabels
