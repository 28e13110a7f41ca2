import BranchLabels.Proofs.Refusal

/-!
# Exactly the lines of the grammar

An instruction line is made up of seven parts: two characters that mark an
address, its digits, and after a colon the bytes and the mnemonic with blanks
before each, and all that follows.  The parts are given here by what they look
like and not by how a line is cut, and a line has them in one way only.  A line
is read as an instruction exactly when it has such parts with a 32-bit address,
it is refused exactly when it has such parts with another address, and it is
other text in all other cases.

Main results:

- Theorem `LineParts.ofText?_eq_some_iff_parts`: the reader finds the parts of a
  line that has them.
- Theorem `Instruction.ext_toText`: an instruction is fixed by its fields, its line
  and the byte at which its operands start.
- Theorem `Instruction.read_accepts_exactly_grammar`: what each line is read as.
-/

namespace BranchLabels

open Text

/-- The parts of an instruction line, in order. -/
structure LineParts where
  marker : Text
  digits : Text
  gapBytes : Text
  rawBytes : Text
  gapMnemonic : Text
  mnemonic : Text
  /-- All that follows the mnemonic. -/
  rest : Text

namespace LineParts

/-- The line up to the end of the mnemonic. -/
def front (p : LineParts) : Text :=
  p.marker ++ p.digits ++ ':' :: (p.gapBytes ++ p.rawBytes ++ p.gapMnemonic ++ p.mnemonic)

/-- The line with these parts. -/
def toText (p : LineParts) : Text :=
  p.front ++ p.rest

/-- The rules for all parts but the digits of the address. -/
structure Grammatical (p : LineParts) : Prop where
  marker_eq : p.marker = "0x".toList ∨ p.marker = "0X".toList
  gapBytes_blank : AllBlank p.gapBytes
  rawBytes_ne_nil : p.rawBytes ≠ []
  rawBytes_hex : ∀ c ∈ p.rawBytes, isHexDigit c = true
  gapMnemonic_ne_nil : p.gapMnemonic ≠ []
  gapMnemonic_blank : AllBlank p.gapMnemonic
  mnemonic_ne_nil : p.mnemonic ≠ []
  mnemonic_noBlank : NoBlank p.mnemonic
  /-- What follows the mnemonic is nothing or starts with a blank. -/
  rest_starts : ∀ c ∈ p.rest.head?, isBlank c = true

/-- The parts are a way to read a line. -/
def Spells (p : LineParts) (line : Text) : Prop :=
  p.Grammatical ∧ p.toText = line

/-- The digits are the hexadecimal numeral of a 32-bit number. -/
def HasAddress (p : LineParts) : Prop :=
  ∃ v < 2 ^ 32, IsHexNumeral p.digits v

/-- There are digits, and they neither end before the colon nor go beyond it. -/
def Delimited (p : LineParts) : Prop :=
  p.digits ≠ [] ∧ ∀ c ∈ p.digits, c ≠ ':' ∧ isBlank c = false

/-- An instruction is what parts of the line with a number say. -/
structure Describes (p : LineParts) (number : Nat) (i : Instruction) : Prop where
  address_eq : IsHexNumeral p.digits i.address.toNat
  rawBytes_eq : i.rawBytes = p.rawBytes
  mnemonic_eq : i.mnemonic = p.mnemonic
  operands_eq : i.operands = trim p.rest
  toText_eq : i.toText = p.toText
  line_eq : i.line = number
  /-- The operands start after the blanks behind the mnemonic. -/
  operandOffset_eq : i.operandOffset = byteLength (p.front ++ p.rest.takeWhile isBlank)

/-- A hexadecimal numeral is delimited by the colon after it. -/
theorem HasAddress.delimited {p : LineParts} (h : p.HasAddress) : p.Delimited := by
  obtain ⟨v, -, hnumeral⟩ := h
  refine ⟨hnumeral.ne_nil, ?_⟩
  intro c hc
  have hdigit : isHexDigit c = true := hnumeral.digits c hc
  refine ⟨?_, isBlank_eq_false_of_isHexDigit hdigit⟩
  rintro rfl
  exact absurd hdigit (by decide)

/-! ## Parts and fields -/

/-- The fields of a line with these parts. -/
def toShape (p : LineParts) : LineShape where
  marker := p.marker
  digits := p.digits
  gapBytes := p.gapBytes
  rawBytes := p.rawBytes
  gapMnemonic := p.gapMnemonic
  mnemonic := p.mnemonic
  gapOperands := p.rest.takeWhile isBlank
  tail := trimStart p.rest

/-- The parts of a line with these fields. -/
def ofShape (s : LineShape) : LineParts where
  marker := s.marker
  digits := s.digits
  gapBytes := s.gapBytes
  rawBytes := s.rawBytes
  gapMnemonic := s.gapMnemonic
  mnemonic := s.mnemonic
  rest := s.gapOperands ++ s.tail

theorem lead_toShape (p : LineParts) : p.toShape.lead = p.front ++ p.rest.takeWhile isBlank := by
  simp [toShape, LineShape.lead, front]

theorem toText_toShape (p : LineParts) : p.toShape.toText = p.toText := by
  rw [LineShape.toText, lead_toShape, List.append_assoc]
  simp only [toShape, toText, trimStart, List.takeWhile_append_dropWhile]

theorem toText_ofShape (s : LineShape) : (ofShape s).toText = s.toText := by
  simp [ofShape, toText, front, LineShape.toText, LineShape.lead]

theorem ofShape_toShape (p : LineParts) : ofShape p.toShape = p := by
  simp only [ofShape, toShape, trimStart, List.takeWhile_append_dropWhile]

/-- The gap before the operands ends where the operands start. -/
theorem toShape_ofShape {s : LineShape} (h : s.Apart) : (ofShape s).toShape = s := by
  simp only [toShape, ofShape, takeWhile_append_stop h.gapOperands_blank h.tail_starts,
    trimStart_append h.gapOperands_blank h.tail_starts]

/-- Parts that follow the rules are fields that fit. -/
theorem Grammatical.fits_toShape {p : LineParts} (h : p.Grammatical) (hdigits : p.Delimited) :
    p.toShape.Fits :=
  ⟨h.marker_eq, hdigits.1, fun c hc => (hdigits.2 c hc).2, h.rawBytes_ne_nil, h.rawBytes_hex,
    h.gapMnemonic_ne_nil, h.mnemonic_ne_nil⟩

/-- Parts that follow the rules are fields that lie apart. -/
theorem Grammatical.apart_toShape {p : LineParts} (h : p.Grammatical) (hdigits : p.Delimited) :
    p.toShape.Apart where
  colon_not_mem := by
    have hmarker : ':' ∉ p.marker := by
      rcases h.marker_eq with hmarker | hmarker <;> rw [hmarker] <;> decide
    intro hmem
    rcases List.mem_append.1 hmem with hmem | hmem
    · exact hmarker hmem
    · exact (hdigits.2 ':' hmem).1 rfl
  gapBytes_blank := h.gapBytes_blank
  gapMnemonic_blank := h.gapMnemonic_blank
  mnemonic_noBlank := h.mnemonic_noBlank
  gapOperands_blank := allBlank_takeWhile p.rest
  tail_starts := startsInField_trimStart p.rest
  tail_eq_nil := by
    intro hgap
    cases hrest : p.rest with
    | nil => simp [toShape, hrest, trimStart]
    | cons c t =>
        have hblank : isBlank c = true := h.rest_starts c (by simp [hrest])
        simp [toShape, hrest, hblank] at hgap

/-- Fields that fit and lie apart are parts that follow the rules. -/
theorem grammatical_ofShape {s : LineShape} (hfits : s.Fits) (hapart : s.Apart) :
    (ofShape s).Grammatical where
  marker_eq := hfits.1
  gapBytes_blank := hapart.gapBytes_blank
  rawBytes_ne_nil := hfits.rawBytes_ne_nil
  rawBytes_hex := hfits.2.2.2.2.1
  gapMnemonic_ne_nil := hfits.gapMnemonic_ne_nil
  gapMnemonic_blank := hapart.gapMnemonic_blank
  mnemonic_ne_nil := hfits.mnemonic_ne_nil
  mnemonic_noBlank := hapart.mnemonic_noBlank
  rest_starts := by
    intro c hc
    have hstop := LineShape.inField_eq_false_of_gap hapart.gapOperands_blank hapart.tail_eq_nil
    simpa [LineShape.inField] using hstop c hc

theorem delimited_ofShape {s : LineShape} (hfits : s.Fits) (hapart : s.Apart) :
    (ofShape s).Delimited := by
  refine ⟨hfits.2.1, ?_⟩
  intro c hc
  refine ⟨?_, hfits.2.2.1 c hc⟩
  rintro rfl
  exact hapart.colon_not_mem (List.mem_append_right _ hc)

/-- The reader finds the parts of a line that has them, and no others. -/
theorem ofText?_eq_some_iff_parts {line : Text} {s : LineShape} :
    LineShape.ofText? line = some s ↔
      ∃ p : LineParts, p.Spells line ∧ p.Delimited ∧ s = p.toShape := by
  rw [LineShape.ofText?_eq_some_iff]
  constructor
  · rintro ⟨hfits, hapart, rfl⟩
    exact ⟨ofShape s, ⟨grammatical_ofShape hfits hapart, toText_ofShape s⟩,
      delimited_ofShape hfits hapart, (toShape_ofShape hapart).symm⟩
  · rintro ⟨p, ⟨hrules, rfl⟩, hdigits, rfl⟩
    exact ⟨hrules.fits_toShape hdigits, hrules.apart_toShape hdigits, toText_toShape p⟩

/-- A line has its parts in one way only. -/
theorem Spells.unique {p q : LineParts} {line : Text} (hp : p.Spells line)
    (hpdigits : p.Delimited) (hq : q.Spells line) (hqdigits : q.Delimited) : p = q := by
  have hpshape : LineShape.ofText? line = some p.toShape :=
    ofText?_eq_some_iff_parts.2 ⟨p, hp, hpdigits, rfl⟩
  have hqshape : LineShape.ofText? line = some q.toShape :=
    ofText?_eq_some_iff_parts.2 ⟨q, hq, hqdigits, rfl⟩
  rw [hpshape] at hqshape
  rw [← ofShape_toShape p, Option.some.inj hqshape, ofShape_toShape]

end LineParts

/-! ## Addresses and instructions of parts -/

/-- Exactly the numerals of 32-bit numbers are addresses. -/
theorem Address.ofHex?_eq_some_iff {digits : Text} {a : Address} :
    ofHex? digits = some a ↔ IsHexNumeral digits a.toNat := by
  rw [ofHex?, Option.bind_eq_some_iff, ← readHex?_eq_some_iff]
  constructor
  · rintro ⟨n, hn, ha⟩
    rwa [Address.ofNat?_eq_some_iff.1 ha]
  · intro hread
    exact ⟨a.toNat, hread, Address.ofNat?_eq_some_iff.2 rfl⟩

/-- Parts without an address have digits that cannot be read as one. -/
theorem LineParts.ofHex?_eq_none_iff {p : LineParts} :
    Address.ofHex? p.digits = none ↔ ¬ p.HasAddress := by
  simp only [Address.ofHex?_eq_none_iff, HasAddress, readHex?_eq_some_iff]

/-- Two ways to cut a text after the same number of bytes are the same. -/
theorem Text.append_inj_of_byteLength {s s' t t' : Text} (h : s ++ t = s' ++ t')
    (hlength : byteLength s = byteLength s') : s = s' ∧ t = t' := by
  have hcut := cutAtByte?_append s t
  rw [h, hlength, cutAtByte?_append] at hcut
  obtain ⟨rfl, rfl⟩ := Prod.mk.inj (Option.some.inj hcut)
  exact ⟨rfl, rfl⟩

namespace Instruction

/-- An instruction is fixed by its fields, its line and the byte at which its
operands start. -/
theorem ext_toText {i j : Instruction} (hline : i.line = j.line)
    (haddress : i.address = j.address) (hraw : i.rawBytes = j.rawBytes)
    (hmnemonic : i.mnemonic = j.mnemonic) (hoperands : i.operands = j.operands)
    (htext : i.toText = j.toText) (hoffset : i.operandOffset = j.operandOffset) : i = j := by
  obtain ⟨hlead, htail⟩ := append_inj_of_byteLength htext hoffset
  cases i
  cases j
  simp_all

/-- The instruction that is made from parts is described by them. -/
theorem describes_ofShape {p : LineParts} {a : Address} (h : IsHexNumeral p.digits a.toNat)
    (number : Nat) : p.Describes number (ofShape number p.toShape a) where
  address_eq := h
  rawBytes_eq := rfl
  mnemonic_eq := rfl
  operands_eq := rfl
  toText_eq := p.toText_toShape
  line_eq := rfl
  operandOffset_eq := congrArg byteLength p.lead_toShape

/-- Parts describe one instruction only. -/
theorem eq_of_describes {p : LineParts} {number : Nat} {i j : Instruction}
    (hi : p.Describes number i) (hj : p.Describes number j) : i = j := by
  have haddress : i.address = j.address :=
    UInt32.toNat_inj.1 (hi.address_eq.value.symm.trans hj.address_eq.value)
  exact ext_toText (hi.line_eq.trans hj.line_eq.symm) haddress
    (hi.rawBytes_eq.trans hj.rawBytes_eq.symm) (hi.mnemonic_eq.trans hj.mnemonic_eq.symm)
    (hi.operands_eq.trans hj.operands_eq.symm) (hi.toText_eq.trans hj.toText_eq.symm)
    (hi.operandOffset_eq.trans hj.operandOffset_eq.symm)

/-! ## What each line is read as -/

/-- A line with parts that have an address is read as the instruction that they
describe. -/
theorem exists_read_of_spells {p : LineParts} {text : Text} (h : p.Spells text)
    (haddress : p.HasAddress) (number : Nat) :
    ∃ i, read number text = .ok (some i) ∧ p.Describes number i := by
  obtain ⟨v, hv, hnumeral⟩ := haddress
  have htoNat : (UInt32.ofNatLT v hv).toNat = v := UInt32.toNat_ofNatLT
  have hshape : LineShape.ofText? text = some p.toShape :=
    LineParts.ofText?_eq_some_iff_parts.2
      ⟨p, h, LineParts.HasAddress.delimited ⟨v, hv, hnumeral⟩, rfl⟩
  rw [← htoNat] at hnumeral
  refine ⟨ofShape number p.toShape (UInt32.ofNatLT v hv), ?_, describes_ofShape hnumeral number⟩
  exact read_eq_ok_some_iff.2 ⟨p.toShape, _, hshape, Address.ofHex?_eq_some_iff.2 hnumeral, rfl⟩

/-- An instruction was read from a line whose parts have its address. -/
theorem exists_spells_of_read {number : Nat} {text : Text} {i : Instruction}
    (h : read number text = .ok (some i)) : ∃ p : LineParts, p.Spells text ∧ p.HasAddress := by
  obtain ⟨s, a, hs, ha, -⟩ := read_eq_ok_some_iff.1 h
  obtain ⟨p, hp, -, rfl⟩ := LineParts.ofText?_eq_some_iff_parts.1 hs
  exact ⟨p, hp, a.toNat, a.toNat_lt, Address.ofHex?_eq_some_iff.1 ha⟩

/-- A line is refused exactly when it has parts without an address. -/
theorem read_eq_error_iff_parts {number : Nat} {text : Text} {e : ListingError} :
    read number text = .error e ↔ ∃ p : LineParts, p.Spells text ∧ p.Delimited ∧
      ¬ p.HasAddress ∧ e = .badAddress number (p.marker ++ p.digits) := by
  rw [read_eq_error_iff, badAddress_iff]
  constructor
  · rintro ⟨⟨s, hs, hdigits⟩, rfl⟩
    have htoken := LineShape.takeWhile_ne_colon hs
    obtain ⟨p, hp, hdelimited, rfl⟩ := LineParts.ofText?_eq_some_iff_parts.1 hs
    exact ⟨p, hp, hdelimited, LineParts.ofHex?_eq_none_iff.1 hdigits, by rw [htoken]; rfl⟩
  · rintro ⟨p, hp, hdelimited, hdigits, rfl⟩
    have hs : LineShape.ofText? text = some p.toShape :=
      LineParts.ofText?_eq_some_iff_parts.2 ⟨p, hp, hdelimited, rfl⟩
    refine ⟨⟨p.toShape, hs, LineParts.ofHex?_eq_none_iff.2 hdigits⟩, ?_⟩
    rw [LineShape.takeWhile_ne_colon hs]
    rfl

/-- A line is other text exactly when it has no parts. -/
theorem read_eq_ok_none_iff_parts {number : Nat} {text : Text} :
    read number text = .ok none ↔ ¬ ∃ p : LineParts, p.Spells text ∧ p.Delimited := by
  rw [read_eq_ok_none_iff, Option.eq_none_iff_forall_ne_some]
  constructor
  · rintro h ⟨p, hp, hdelimited⟩
    exact h p.toShape (LineParts.ofText?_eq_some_iff_parts.2 ⟨p, hp, hdelimited, rfl⟩)
  · intro h s hs
    obtain ⟨p, hp, hdelimited, -⟩ := LineParts.ofText?_eq_some_iff_parts.1 hs
    exact h ⟨p, hp, hdelimited⟩

/-- A line is read as an instruction exactly when it has parts with a 32-bit address,
which it has in one way only, and then as the instruction that they describe.  It is
refused, with the text before the colon, exactly when it has parts with other digits,
and it is other text in all remaining cases. -/
theorem read_accepts_exactly_grammar (number : Nat) (text : Text) :
    ((∃ i, read number text = .ok (some i)) ↔
      ∃ p : LineParts, p.Spells text ∧ p.HasAddress) ∧
    (∀ p q : LineParts, p.Spells text → p.Delimited → q.Spells text → q.Delimited → p = q) ∧
    (∀ (p : LineParts) (i : Instruction), p.Spells text → p.HasAddress →
      (read number text = .ok (some i) ↔ p.Describes number i)) ∧
    (∀ e, read number text = .error e ↔
      ∃ p : LineParts, p.Spells text ∧ p.Delimited ∧ ¬ p.HasAddress ∧
        e = .badAddress number (p.marker ++ p.digits)) ∧
    (read number text = .ok none ↔
      ¬ (∃ p : LineParts, p.Spells text ∧ p.HasAddress) ∧
        ¬ ∃ p : LineParts, p.Spells text ∧ p.Delimited ∧ ¬ p.HasAddress) := by
  refine ⟨⟨?_, ?_⟩, ?_, ?_, fun e => read_eq_error_iff_parts, ?_⟩
  · rintro ⟨i, hi⟩
    exact exists_spells_of_read hi
  · rintro ⟨p, hp, haddress⟩
    obtain ⟨i, hi, -⟩ := exists_read_of_spells hp haddress number
    exact ⟨i, hi⟩
  · exact fun p q hp hpdigits hq hqdigits => hp.unique hpdigits hq hqdigits
  · intro p i hp haddress
    obtain ⟨j, hj, hdescribes⟩ := exists_read_of_spells hp haddress number
    constructor
    · intro hi
      rw [hj] at hi
      obtain rfl := Option.some.inj (Except.ok.inj hi)
      exact hdescribes
    · intro hi
      rw [hj, eq_of_describes hi hdescribes]
  · rw [read_eq_ok_none_iff_parts]
    constructor
    · intro h
      exact ⟨fun ⟨p, hp, haddress⟩ => h ⟨p, hp, haddress.delimited⟩,
        fun ⟨p, hp, hdelimited, _⟩ => h ⟨p, hp, hdelimited⟩⟩
    · rintro ⟨hgood, hbad⟩ ⟨p, hp, hdelimited⟩
      by_cases haddress : p.HasAddress
      · exact hgood ⟨p, hp, haddress⟩
      · exact hbad ⟨p, hp, hdelimited, haddress⟩

/-- A line that tests each rule: more digits than an address needs, in both cases, no
blank after the colon, a colon in the mnemonic, and blanks of several bytes. -/
def oddLine : Text :=
  "0X0000000fF:13\u2003é:\u00a0\u3000a0, 4 ".toList

/-- The parts of the line. -/
def oddParts : LineParts where
  marker := "0X".toList
  digits := "0000000fF".toList
  gapBytes := []
  rawBytes := "13".toList
  gapMnemonic := "\u2003".toList
  mnemonic := "é:".toList
  rest := "\u00a0\u3000a0, 4 ".toList

theorem grammatical_oddParts : oddParts.Grammatical where
  marker_eq := .inr rfl
  gapBytes_blank := by simp [oddParts, AllBlank]
  rawBytes_ne_nil := by decide
  rawBytes_hex := List.all_eq_true.1 (by decide)
  gapMnemonic_ne_nil := by decide
  gapMnemonic_blank := List.all_eq_true.1 (by decide)
  mnemonic_ne_nil := by decide
  mnemonic_noBlank := by simp [oddParts, NoBlank]; decide
  rest_starts := by simp [oddParts]; decide

theorem read_accepts_exactly_grammar_sample :
    oddParts.Spells oddLine ∧ oddParts.HasAddress ∧
      ∃ i, read 7 oddLine = .ok (some i) ∧ oddParts.Describes 7 i ∧ i.address = 255 ∧
        i.operandOffset = 25 := by
  have hspells : oddParts.Spells oddLine := ⟨grammatical_oddParts, rfl⟩
  have haddress : oddParts.HasAddress := ⟨255, by decide, readHex?_eq_some_iff.1 (by decide)⟩
  obtain ⟨hexists, -, hdescribes, -⟩ := read_accepts_exactly_grammar 7 oddLine
  obtain ⟨i, hi⟩ := hexists.2 ⟨oddParts, hspells, haddress⟩
  have hparts : oddParts.Describes 7 i := (hdescribes oddParts i hspells haddress).1 hi
  refine ⟨hspells, haddress, i, hi, hparts, ?_, ?_⟩
  · apply UInt32.toNat_inj.1
    rw [← hparts.address_eq.value]
    decide
  · rw [hparts.operandOffset_eq]
    decide

end Instruction

end BranchLabels
