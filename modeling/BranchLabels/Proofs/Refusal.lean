import BranchLabels.Proofs.Rereading

/-!
# When a text is refused

A text is refused for a label prefix that would not survive, and otherwise for the
first line that has the shape of an instruction but no 32-bit address.  Nothing
else is refused: a line of another shape is kept as it is, and a listing that was
read can always be written.  So a refusal depends on the prefix and on the lines
up to the bad one alone.

Main results:

- Theorem `Instruction.read_eq_error_iff`: which lines are refused, and how.
- Theorem `Line.readAll_eq_error_iff`: the first refused line decides.
- Theorem `Labelling.ofText_eq_error_iff`: the two causes of a refusal.
- Theorem `Labelling.refused_exactly_for_first_problem`: which texts are refused,
  with which error, and what the error does not depend on.
-/

namespace BranchLabels

open Text

/-! ## Lines with a bad address -/

/-- A line has the shape of an instruction, but what stands for its address is no
hexadecimal numeral of a 32-bit number. -/
def BadAddress (line : Text) : Prop :=
  ∃ s : LineShape, s.Fits ∧ s.Apart ∧ s.toText = line ∧
    ¬ ∃ n < 2 ^ 32, readHex? s.digits = some n

/-- Exactly the numerals of 32-bit numbers stand for addresses. -/
theorem Address.ofHex?_eq_none_iff {digits : Text} :
    Address.ofHex? digits = none ↔ ¬ ∃ n < 2 ^ 32, readHex? digits = some n := by
  rw [Address.ofHex?]
  cases hread : readHex? digits with
  | none => simp
  | some n => simp [Address.ofNat?, UInt32.size]

/-- A line has a bad address exactly when it is cut into fields of which the
address cannot be read. -/
theorem badAddress_iff {line : Text} :
    BadAddress line ↔
      ∃ s, LineShape.ofText? line = some s ∧ Address.ofHex? s.digits = none := by
  constructor
  · rintro ⟨s, hfits, hapart, htext, hdigits⟩
    exact ⟨s, LineShape.ofText?_eq_some_iff.2 ⟨hfits, hapart, htext⟩,
      Address.ofHex?_eq_none_iff.2 hdigits⟩
  · rintro ⟨s, hs, hdigits⟩
    obtain ⟨hfits, hapart, htext⟩ := LineShape.ofText?_eq_some_iff.1 hs
    exact ⟨s, hfits, hapart, htext, Address.ofHex?_eq_none_iff.1 hdigits⟩

/-- The text before the first colon of an instruction line is its address with the
characters in front of it. -/
theorem LineShape.takeWhile_ne_colon {line : Text} {s : LineShape}
    (h : ofText? line = some s) : line.takeWhile (· ≠ ':') = s.marker ++ s.digits := by
  obtain ⟨-, hapart, rfl⟩ := ofText?_eq_some_iff.1 h
  have hrun : ∀ c ∈ s.marker ++ s.digits, decide (c ≠ ':') = true := by
    intro c hc
    exact decide_eq_true fun heq => hapart.colon_not_mem (heq ▸ hc)
  rw [toText, lead, List.append_assoc, List.cons_append]
  exact takeWhile_append_stop hrun (by simp)

/-- Exactly the lines with a bad address are refused, with the text before their
first colon. -/
theorem Instruction.read_eq_error_iff {number : Nat} {line : Text} {e : ListingError} :
    read number line = .error e ↔
      BadAddress line ∧ e = .badAddress number (line.takeWhile (· ≠ ':')) := by
  rw [badAddress_iff, read]
  cases hshape : LineShape.ofText? line with
  | none => simp
  | some s =>
      cases haddress : Address.ofHex? s.digits with
      | none =>
          rw [LineShape.takeWhile_ne_colon hshape]
          simp [haddress, eq_comm]
      | some a => simp [haddress]

/-! ## The first bad line -/

/-- The first line with a bad address, among lines of which the first has a given
number, has the number `k`, and `token` is the text before its first colon. -/
def FirstBad (number : Nat) (texts : List Text) (k : Nat) (token : Text) : Prop :=
  ∃ ahead line behind, texts = ahead ++ line :: behind ∧ (∀ t ∈ ahead, ¬ BadAddress t) ∧
    BadAddress line ∧ k = number + ahead.length ∧ token = line.takeWhile (· ≠ ':')

theorem not_firstBad_nil {number k : Nat} {token : Text} : ¬ FirstBad number [] k token := by
  rintro ⟨ahead, line, behind, hsplit, -⟩
  simp at hsplit

/-- The first bad line is the first line or the first bad one after it. -/
theorem firstBad_cons_iff {number k : Nat} {text token : Text} {texts : List Text} :
    FirstBad number (text :: texts) k token ↔
      (BadAddress text ∧ k = number ∧ token = text.takeWhile (· ≠ ':')) ∨
        (¬ BadAddress text ∧ FirstBad (number + 1) texts k token) := by
  constructor
  · rintro ⟨ahead, line, behind, hsplit, hahead, hbad, hk, htoken⟩
    cases ahead with
    | nil =>
        obtain ⟨rfl, rfl⟩ := List.cons.inj hsplit
        exact .inl ⟨hbad, hk, htoken⟩
    | cons first ahead =>
        obtain ⟨rfl, rfl⟩ := List.cons.inj hsplit
        refine .inr ⟨hahead _ List.mem_cons_self, ahead, line, behind, rfl, ?_, hbad, ?_, htoken⟩
        · exact fun t ht => hahead t (List.mem_cons_of_mem _ ht)
        · rw [hk, List.length_cons]
          omega
  · rintro (⟨hbad, rfl, rfl⟩ | ⟨hgood, ahead, line, behind, rfl, hahead, hbad, rfl, rfl⟩)
    · exact ⟨[], text, texts, rfl, by simp, hbad, rfl, rfl⟩
    · refine ⟨text :: ahead, line, behind, rfl, ?_, hbad, ?_, rfl⟩
      · simpa using ⟨hgood, hahead⟩
      · rw [List.length_cons]
        omega

/-- Lines of which one is bad have a first bad line. -/
theorem exists_firstBad_iff {number : Nat} {texts : List Text} :
    (∃ k token, FirstBad number texts k token) ↔ ∃ t ∈ texts, BadAddress t := by
  induction texts generalizing number with
  | nil => simp [not_firstBad_nil]
  | cons text texts ih =>
      by_cases hbad : BadAddress text
      · simp [firstBad_cons_iff, hbad]
      · simp [firstBad_cons_iff, hbad, ih]

/-- Lines after the first bad one do not matter for which line that is. -/
theorem FirstBad.congr_take {k : Nat} {token : Text} {texts texts' : List Text}
    (h : FirstBad 1 texts k token) (htake : texts'.take k = texts.take k) :
    FirstBad 1 texts' k token := by
  obtain ⟨ahead, line, behind, rfl, hahead, hbad, rfl, rfl⟩ := h
  have hkept : texts'.take (1 + ahead.length) = ahead ++ [line] := by
    rw [htake, Nat.add_comm, List.take_length_add_append]
    rfl
  refine ⟨ahead, line, texts'.drop (1 + ahead.length), ?_, hahead, hbad, rfl, rfl⟩
  calc texts'
      = texts'.take (1 + ahead.length) ++ texts'.drop (1 + ahead.length) :=
        (List.take_append_drop _ _).symm
    _ = ahead ++ line :: texts'.drop (1 + ahead.length) := by
        rw [hkept, List.append_assoc, List.singleton_append]

/-! ## Reading lines -/

namespace Line

/-- Exactly the lines with a bad address are refused. -/
theorem read_eq_error_iff {number : Nat} {text : Text} {e : ListingError} :
    read number text = .error e ↔
      BadAddress text ∧ e = .badAddress number (text.takeWhile (· ≠ ':')) := by
  rw [← Instruction.read_eq_error_iff, read]
  split
  · next i hi => simp [hi]
  · next hnone => simp [hnone]
  · next e' he => simp [he]

/-- Lines are refused when the first of them is, or when it is not and the others
are. -/
theorem readAll_cons_eq_error_iff {number : Nat} {text : Text} {texts : List Text}
    {e : ListingError} :
    readAll number (text :: texts) = .error e ↔
      read number text = .error e ∨
        (∃ line, read number text = .ok line) ∧ readAll (number + 1) texts = .error e := by
  rw [readAll]
  split
  · next e' he => simp [he]
  · next line hline =>
    split
    · next e' he => simp [hline, he]
    · next rest hrest => simp [hline, hrest]

/-- A line without a bad address can be read. -/
theorem exists_read_iff {number : Nat} {text : Text} :
    (∃ line, read number text = .ok line) ↔ ¬ BadAddress text := by
  cases hread : read number text with
  | error e => simp [(read_eq_error_iff.1 hread).1]
  | ok line =>
      simp only [Except.ok.injEq, exists_eq', true_iff]
      intro hbad
      rw [read_eq_error_iff.2 ⟨hbad, rfl⟩] at hread
      contradiction

/-- The first line with a bad address decides how lines are refused. -/
theorem readAll_eq_error_iff {number : Nat} {texts : List Text} {e : ListingError} :
    readAll number texts = .error e ↔
      ∃ k token, FirstBad number texts k token ∧ e = .badAddress k token := by
  induction texts generalizing number with
  | nil => simp [readAll, not_firstBad_nil]
  | cons text texts ih =>
      rw [readAll_cons_eq_error_iff, read_eq_error_iff, exists_read_iff, ih]
      by_cases hbad : BadAddress text
      · simp [firstBad_cons_iff, hbad]
      · simp [firstBad_cons_iff, hbad]

end Line

/-- The first line with a bad address decides how a listing is refused. -/
theorem Listing.ofText_eq_error_iff {text : Text} {e : ListingError} :
    ofText text = .error e ↔
      ∃ k token, FirstBad 1 (Text.lines text) k token ∧ e = .badAddress k token := by
  rw [← Line.readAll_eq_error_iff, ofText, ofLines]
  cases Line.readAll 1 (Text.lines text) <;> simp [Except.map]

/-! ## Labelling -/

namespace Labelling

variable {isa : Isa} {config : Config} {text : Text}

/-- A text is refused for its label prefix, or else for the first line with a bad
address. -/
theorem ofText_eq_error_iff {e : ListingError} :
    ofText isa config text = .error e ↔
      (¬ Config.ValidPrefix config.labelPrefix ∧ e = .badPrefix config.labelPrefix) ∨
        (Config.ValidPrefix config.labelPrefix ∧
          ∃ k token, FirstBad 1 (Text.lines text) k token ∧ e = .badAddress k token) := by
  rw [← Listing.ofText_eq_error_iff]
  by_cases hstem : Config.ValidPrefix config.labelPrefix
  · cases hlisting : Listing.ofText text with
    | error e' => simp [ofText, Config.validate, hstem, hlisting, bind, Except.bind]
    | ok l =>
        have hok : ofText isa config text = .ok (ofListing isa config l) :=
          ofText_eq_ok_iff.2 ⟨hstem, l, hlisting, rfl⟩
        simp [hok, hstem]
  · simp [ofText, Config.validate, hstem, bind, Except.bind, eq_comm]

/-- Exactly a text whose lines have no bad address is labelled. -/
theorem exists_ofText_iff (hstem : Config.ValidPrefix config.labelPrefix) :
    (∃ p, ofText isa config text = .ok p) ↔ ∀ t ∈ Text.lines text, ¬ BadAddress t := by
  have hrefused : (∃ e, ofText isa config text = .error e) ↔
      ∃ t ∈ Text.lines text, BadAddress t := by
    rw [← @exists_firstBad_iff 1]
    simp [ofText_eq_error_iff, hstem]
  cases hresult : ofText isa config text with
  | ok p =>
      have hnone := hrefused.not.1 (by simp [hresult])
      simpa using hnone
  | error e =>
      have hsome := hrefused.1 ⟨e, hresult⟩
      simpa using hsome

/-- A text is refused for its label prefix exactly when the configuration is, and
otherwise exactly when a line has the shape of an instruction but no 32-bit
address, with the number and the token of the first such line; in all other cases
it is labelled.  A refusal depends on the prefix and on the lines up to the bad one
alone. -/
theorem refused_exactly_for_first_problem (isa : Isa) (config : Config) (text : Text) :
    (∀ stem, ofText isa config text = .error (.badPrefix stem) ↔
      config.validate ≠ .ok () ∧ stem = config.labelPrefix) ∧
    (config.validate = .ok () →
      (∀ k token, ofText isa config text = .error (.badAddress k token) ↔
        FirstBad 1 (Text.lines text) k token) ∧
      ((∃ k token, ofText isa config text = .error (.badAddress k token)) ↔
        ∃ t ∈ Text.lines text, BadAddress t) ∧
      ((∃ p, ofText isa config text = .ok p) ↔ ∀ t ∈ Text.lines text, ¬ BadAddress t)) ∧
    (∀ e, ofText isa config text = .error e → ∀ isa' config',
      config'.labelPrefix = config.labelPrefix → ofText isa' config' text = .error e) ∧
    (∀ k token, ofText isa config text = .error (.badAddress k token) →
      ∀ isa' config' text', config'.labelPrefix = config.labelPrefix →
        (Text.lines text').take k = (Text.lines text).take k →
          ofText isa' config' text' = .error (.badAddress k token)) := by
  refine ⟨?_, ?_, ?_, ?_⟩
  · intro stem
    simp [ofText_eq_error_iff, Config.validate_eq_ok_iff]
  · intro hvalid
    have hstem : Config.ValidPrefix config.labelPrefix := Config.validate_eq_ok_iff.1 hvalid
    have hbad : ∀ k token, ofText isa config text = .error (.badAddress k token) ↔
        FirstBad 1 (Text.lines text) k token := by
      intro k token
      simp [ofText_eq_error_iff, hstem]
    refine ⟨hbad, ?_, exists_ofText_iff hstem⟩
    simp only [hbad, exists_firstBad_iff]
  · intro e herror isa' config' hsame
    rw [ofText_eq_error_iff] at herror ⊢
    rwa [hsame]
  · intro k token herror isa' config' text' hsame htake
    rw [ofText_eq_error_iff] at herror ⊢
    obtain ⟨-, hne⟩ | ⟨hstem, k', token', hfirst, heq⟩ := herror
    · contradiction
    · obtain ⟨rfl, rfl⟩ := ListingError.badAddress.inj heq
      exact .inr ⟨hsame ▸ hstem, k, token, hfirst.congr_take htake, rfl⟩

/-- With two bad lines the first one is named, also when the second one is mended. -/
theorem refused_exactly_for_first_problem_sample :
    FirstBad 1 (Text.lines "note\n0xg: 13 nop\n0x100000000: 13 nop".toList) 2 "0xg".toList ∧
      ofText .rv32 ⟨"L".toList, false⟩ "note\n0xg: 13 nop\n0x10000000: 13 nop".toList =
        .error (.badAddress 2 "0xg".toList) := by
  have hrefused : ofText .rv32 ⟨"L".toList, true⟩
      "note\n0xg: 13 nop\n0x100000000: 13 nop".toList = .error (.badAddress 2 "0xg".toList) := rfl
  obtain ⟨-, hfirst, -, hchange⟩ := refused_exactly_for_first_problem .rv32 ⟨"L".toList, true⟩
    "note\n0xg: 13 nop\n0x100000000: 13 nop".toList
  exact ⟨((hfirst (by decide)).1 2 _).1 hrefused,
    hchange 2 _ hrefused .rv32 ⟨"L".toList, false⟩ _ rfl (by decide)⟩

end Labelling

end BranchLabels
