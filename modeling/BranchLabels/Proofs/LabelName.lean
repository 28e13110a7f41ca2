import BranchLabels.Config
import BranchLabels.LabelTable
import BranchLabels.Proofs.LineShape

/-!
# Label names in a listing

A label name keeps all that is asked of its prefix: it has no blanks and none of
the characters that divide a line, and it does not start like a number.  So it
stands in a listing as one word that is neither a number nor an instruction.

Main results:

- Theorem `labelName_inj`: a label name tells its prefix and its address.
- Theorem `Config.ValidPrefix.labelName`: a label name is as good as its prefix.
- Theorem `Config.ValidPrefix.literal_eq_none`: a label name is no number.
- Theorem `Config.ValidPrefix.shape_declaration`: the declaration of a label is no
  instruction.
-/

namespace BranchLabels

/-- A label name tells its prefix and its address. -/
theorem labelName_inj {stem stem' : Text} {a b : Address} :
    labelName stem a = labelName stem' b ↔ stem = stem' ∧ a = b := by
  have hfits : ∀ c : Address, c.toNat < 16 ^ 8 := fun c => c.toNat_lt
  constructor
  · intro h
    obtain ⟨hstem, hdigits⟩ := List.append_inj' h (by simp)
    exact ⟨hstem, UInt32.toNat_inj.1 ((Text.hexDigits_inj (hfits a) (hfits b)).1 hdigits)⟩
  · rintro ⟨rfl, rfl⟩
    rfl

namespace Config

open Text

variable {name : Text}

/-- A configuration is accepted exactly when label names may start with its
prefix. -/
theorem validate_eq_ok_iff {config : Config} :
    config.validate = .ok () ↔ ValidPrefix config.labelPrefix := by
  unfold validate
  split <;> simp_all

/-! ## Characters of a name -/

theorem ValidPrefix.ne_nil (h : ValidPrefix name) : name ≠ [] :=
  h.1

theorem ValidPrefix.noBlank (h : ValidPrefix name) : NoBlank name := by
  intro c hc
  have hdelimiter := h.2.2 c hc
  simp only [isDelimiter, Bool.or_eq_false_iff] at hdelimiter
  exact hdelimiter.1.1.1

/-- A name has none of the characters that divide a line. -/
theorem ValidPrefix.not_mem (h : ValidPrefix name) {c : Char} (hc : isDelimiter c = true) :
    c ∉ name := by
  intro hmem
  have hnot : isDelimiter c = false := h.2.2 c hmem
  rw [hc] at hnot
  contradiction

theorem ValidPrefix.comma_not_mem (h : ValidPrefix name) : ',' ∉ name :=
  h.not_mem (by decide)

theorem ValidPrefix.colon_not_mem (h : ValidPrefix name) : ':' ∉ name :=
  h.not_mem (by decide)

theorem ValidPrefix.lineFeed_not_mem (h : ValidPrefix name) : '\n' ∉ name :=
  h.not_mem (by decide)

/-- A hexadecimal digit divides nothing. -/
theorem isDelimiter_eq_false_of_isHexDigit {c : Char} (h : isHexDigit c = true) :
    isDelimiter c = false := by
  have hranges := isHexDigit_iff_toNat.1 h
  have hblank : isBlank c = false := isBlank_eq_false_of_isHexDigit h
  have hcomma : c ≠ ',' := by
    rintro rfl
    exact absurd hranges (by decide)
  have hcolon : c ≠ ':' := by
    rintro rfl
    exact absurd hranges (by decide)
  have hsemicolon : c ≠ ';' := by
    rintro rfl
    exact absurd hranges (by decide)
  simp [isDelimiter, hblank, hcomma, hcolon, hsemicolon]

/-- A label name is as good as its prefix. -/
theorem ValidPrefix.labelName {stem : Text} (h : ValidPrefix stem) (a : Address) :
    ValidPrefix (labelName stem a) := by
  obtain ⟨hne, hhead, hall⟩ := h
  obtain ⟨d, rest, rfl⟩ := List.exists_cons_of_ne_nil hne
  refine ⟨by simp [BranchLabels.labelName], ?_, ?_⟩
  · intro c hc
    exact hhead c hc
  · intro c hc
    rcases List.mem_append.1 hc with hc | hc
    · exact hall c hc
    · exact isDelimiter_eq_false_of_isHexDigit (isHexDigit_of_mem_hexDigits hc)

/-! ## Names as operands and as lines -/

/-- A name is no number. -/
theorem ValidPrefix.literal_eq_none (h : ValidPrefix name) : Literal.ofText? name = none := by
  obtain ⟨c, t, rfl⟩ := List.exists_cons_of_ne_nil h.ne_nil
  have hstart : startsNumber c = false := h.2.1 c rfl
  simp only [startsNumber, Bool.or_eq_false_iff] at hstart
  obtain ⟨⟨hdigit, hminus⟩, -⟩ := hstart
  have hzero : c ≠ '0' := by
    rintro rfl
    exact absurd hdigit (by decide)
  have hsign : c ≠ '-' := by
    rintro rfl
    exact absurd hminus (by decide)
  unfold Literal.ofText?
  split
  · next heq => exact absurd (List.cons.inj heq).1 hzero
  · next heq => exact absurd (List.cons.inj heq).1 hsign
  · unfold Literal.magnitude?
    split
    · next heq => exact absurd (List.cons.inj heq).1 hzero
    · rw [readDecimal?_eq_none_of_head hdigit]
      rfl

/-- The declaration of a label is no instruction. -/
theorem ValidPrefix.shape_declaration (h : ValidPrefix name) :
    LineShape.ofText? (name ++ [':']) = none :=
  LineShape.ofText?_append_colon h.colon_not_mem

end Config

end BranchLabels
