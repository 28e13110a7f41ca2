import BranchLabels.Json.Reader
import BranchLabels.Json.Writer
import BranchLabels.Proofs.Text.Numeral
import BranchLabels.Proofs.Text.Runs

/-!
# JSON that is written and read

A value that is written with blanks only between its parts is read back, whatever
follows it.  Each reader is met with the text that one writer makes: blanks that may be
skipped, that text, and a rest that cannot be taken for a part of it.  Readers have a
bound on their steps; twice the length of the text is enough.

Main results:

- Theorem `escape_cases`: the three ways in which a character of a string is written.
- Theorem `readString?_flatMap_escape`: a written string is read back.
- Theorem `ReadsSequence.read_intercalate`: items with commas between them are read one
  after another.
- Theorem `reads_write`: a written value is read back, whatever follows.
- Theorem `read?_write`: so the text of a value is read as that value.
-/

namespace BranchLabels

namespace Json

open Text

/-! ## What stands around a value -/

/-- All characters of a text may stand between the parts of a value. -/
def AllSpace (t : Text) : Prop :=
  ∀ c ∈ t, isSpace c = true

/-- Whether a character ends a value before it: it is skipped, or it divides or closes
what the value is part of. -/
def isStop (c : Char) : Bool :=
  isSpace c || c == ',' || c == ']' || c == '\x7d'

/-- A text ends a value before it. -/
def Stops (t : Text) : Prop :=
  ∀ c ∈ t.head?, isStop c = true

/-- A text starts like a value. -/
def Begins (t : Text) : Prop :=
  ∃ c r, t = c :: r ∧ isStop c = false

theorem allSpace_nil : AllSpace [] := by
  simp [AllSpace]

theorem stops_nil : Stops [] := by
  simp [Stops]

theorem stops_cons {c : Char} (hc : isStop c = true) (t : Text) : Stops (c :: t) := by
  simpa [Stops] using hc

theorem isStop_of_isSpace {c : Char} (hc : isSpace c = true) : isStop c = true := by
  simp [isStop, hc]

theorem isSpace_eq_false_of_isStop {c : Char} (hc : isStop c = false) : isSpace c = false := by
  simp only [isStop, Bool.or_eq_false_iff] at hc
  exact hc.1.1.1

/-- Blanks before what ends a value end it as well. -/
theorem AllSpace.stops_append {gap rest : Text} (hgap : AllSpace gap) (hrest : Stops rest) :
    Stops (gap ++ rest) := by
  cases gap with
  | nil => exact hrest
  | cons c gap => exact stops_cons (isStop_of_isSpace (hgap c List.mem_cons_self)) _

/-- Blanks are skipped up to the next part. -/
theorem skipSpace_append {gap : Text} (hgap : AllSpace gap) {c : Char} (hc : isSpace c = false)
    (t : Text) : skipSpace (gap ++ c :: t) = c :: t := by
  refine dropWhile_append_stop hgap ?_
  intro d hd
  obtain rfl := Option.some.inj hd
  exact hc

theorem skipSpace_cons {c : Char} (hc : isSpace c = false) (t : Text) :
    skipSpace (c :: t) = c :: t :=
  skipSpace_append allSpace_nil hc t

/-! ## Numbers -/

/-- What ends a value is no part of a number. -/
theorem not_numeral_of_isStop {c : Char} (hc : isStop c = true) :
    isDecimalDigit c = false ∧ c ≠ '.' ∧ c ≠ 'e' ∧ c ≠ 'E' := by
  simp only [isStop, isSpace, Bool.or_eq_true, beq_iff_eq] at hc
  rcases hc with (((((rfl | rfl) | rfl) | rfl) | rfl) | rfl) | rfl
  all_goals exact ⟨by decide, by decide, by decide, by decide⟩

theorem isStop_eq_false_of_isDecimalDigit {c : Char} (hc : isDecimalDigit c = true) :
    isStop c = false := by
  rw [Bool.eq_false_iff]
  intro hstop
  rw [(not_numeral_of_isStop hstop).1] at hc
  contradiction

/-- The digits of a written number are read up to its end. -/
theorem readWhole?_decimal (n : Nat) {rest : Text} (h : Stops rest) :
    readWhole? (decimal n ++ rest) = some (decimal n, rest) := by
  have hrun : ∀ c ∈ decimal n, isDecimalDigit c = true := fun c => isDecimalDigit_of_mem_decimal
  have hstop : ∀ c ∈ rest.head?, isDecimalDigit c = false :=
    fun c hc => (not_numeral_of_isStop (h c hc)).1
  have hdigits : readDigits? (decimal n ++ rest) = some (decimal n, rest) := by
    rw [readDigits?, takeWhile_append_stop hrun hstop, dropWhile_append_stop hrun hstop]
    split
    · next hnil => exact absurd hnil (decimal_ne_nil n)
    · rfl
  rw [readWhole?, hdigits]
  split
  · next heq =>
    have hdecimal := (Prod.mk.inj (Option.some.inj heq)).1
    exact absurd (eq_nil_of_decimal_eq_cons hdecimal) (List.cons_ne_nil _ _)
  · rfl

/-- A written number has neither a fraction nor an exponent. -/
theorem readUnsigned?_decimal (n : Nat) {rest : Text} (h : Stops rest) :
    readUnsigned? (decimal n ++ rest) = some (decimal n, rest) := by
  have hfraction : readFraction? rest = some ([], rest) := by
    unfold readFraction?
    split
    · exact absurd rfl (not_numeral_of_isStop (h _ rfl)).2.1
    · rfl
  have hexponent : readExponent? rest = some ([], rest) := by
    unfold readExponent?
    split
    · rfl
    · obtain ⟨-, -, he, hE⟩ := not_numeral_of_isStop (h _ rfl)
      rw [if_neg (not_or.2 ⟨he, hE⟩)]
  simp [readUnsigned?, readWhole?_decimal n h, hfraction, hexponent]

/-- A digit differs from all other characters. -/
theorem ne_of_isDecimalDigit {c d : Char} (hc : isDecimalDigit c = true)
    (hd : isDecimalDigit d = false) : c ≠ d := by
  rintro rfl
  rw [hc] at hd
  contradiction

/-- The digits of a number, with the first one apart. -/
theorem exists_decimal_eq_cons (n : Nat) :
    ∃ c t, decimal n = c :: t ∧ isDecimalDigit c = true := by
  obtain ⟨c, t, hct⟩ := List.exists_cons_of_ne_nil (decimal_ne_nil n)
  exact ⟨c, t, hct, isDecimalDigit_of_mem_decimal (hct ▸ List.mem_cons_self)⟩

/-- A written number is read up to its end. -/
theorem readNumber?_decimal (n : Nat) {rest : Text} (h : Stops rest) :
    readNumber? (decimal n ++ rest) = some (decimal n, rest) := by
  obtain ⟨c, t, hct, hc⟩ := exists_decimal_eq_cons n
  have hunsigned := readUnsigned?_decimal n h
  unfold readNumber?
  split
  · next heq =>
    rw [hct] at heq
    exact absurd (List.cons.inj heq).1 (ne_of_isDecimalDigit hc (by decide))
  · exact hunsigned

/-! ## Strings -/

/-- The three ways in which a character of a string is written: a backslash and a letter,
a backslash and four digits, or as it is. -/
theorem escape_cases (c : Char) :
    (∃ letter, escape c = ['\\', letter] ∧ letter ≠ 'u' ∧ unescape? letter = some c) ∨
      (escape c = '\\' :: 'u' :: hexDigits 4 c.toNat ∧ c.toNat < 0x20) ∨
      (escape c = [c] ∧ c ≠ '"' ∧ c ≠ '\\' ∧ 0x20 ≤ c.toNat) := by
  by_cases hshort : c ∈ ['"', '\\', '\x08', '\t', '\n', '\x0c', '\r']
  · left
    simp only [List.mem_cons, List.not_mem_nil, or_false] at hshort
    rcases hshort with rfl | rfl | rfl | rfl | rfl | rfl | rfl
    all_goals exact ⟨_, rfl, by decide, rfl⟩
  · right
    simp only [List.mem_cons, List.not_mem_nil, or_false, not_or] at hshort
    obtain ⟨hquote, hbackslash, hbackspace, htab, hfeed, hform, hreturn⟩ := hshort
    rw [escape, if_neg hquote, if_neg hbackslash, if_neg hbackspace, if_neg htab, if_neg hfeed,
      if_neg hform, if_neg hreturn]
    by_cases hcontrol : c.toNat < 0x20
    · rw [if_pos hcontrol]
      exact .inl ⟨rfl, hcontrol⟩
    · rw [if_neg hcontrol]
      exact .inr ⟨rfl, hquote, hbackslash, Nat.le_of_not_lt hcontrol⟩

/-- A written character is one part of its string, and this part stands for it. -/
theorem exists_part_of_escape (c : Char) :
    ∃ part, (∀ t parts rest, readParts? t = some (parts, rest) →
        readParts? (escape c ++ t) = some (part :: parts, rest)) ∧
      ∀ parts u, joinParts? none parts = some u →
        joinParts? none (part :: parts) = some (c :: u) := by
  rcases escape_cases c with ⟨letter, hescape, hletter, hunescape⟩ | ⟨hescape, hcontrol⟩ |
    ⟨hescape, hquote, hbackslash, hplain⟩
  · refine ⟨.char c, ?_, ?_⟩
    · intro t parts rest ht
      rw [hescape]
      simp [readParts?, hletter, hunescape, ht]
    · intro parts u hu
      simp [joinParts?, hu]
  · refine ⟨.unit c.toNat, ?_, ?_⟩
    · intro t parts rest ht
      have hread : readHex? (hexDigits 4 c.toNat) = some c.toNat :=
        readHex?_hexDigits (by decide) (by omega)
      rw [hescape]
      simp only [hexDigits, List.nil_append, List.cons_append] at hread ⊢
      simp only [readParts?, hread, ht]
    · intro parts u hu
      -- a control character is no half of a surrogate pair
      have hhigh : isHighSurrogate c.toNat = false := by
        simp only [isHighSurrogate, Bool.and_eq_false_iff, decide_eq_false_iff_not]
        omega
      have hlow : isLowSurrogate c.toNat = false := by
        simp only [isLowSurrogate, Bool.and_eq_false_iff, decide_eq_false_iff_not]
        omega
      simp [joinParts?, hhigh, hlow, hu]
  · refine ⟨.char c, ?_, ?_⟩
    · intro t parts rest ht
      rw [hescape]
      simp [readParts?, hbackslash, ht, hplain]
    · intro parts u hu
      simp [joinParts?, hu]

/-- A written string is read back, whatever follows. -/
theorem readString?_flatMap_escape (t rest : Text) :
    readString? (t.flatMap escape ++ '"' :: rest) = some (some t, rest) := by
  have hparts : ∃ parts, readParts? (t.flatMap escape ++ '"' :: rest) = some (parts, rest) ∧
      joinParts? none parts = some t := by
    induction t with
    | nil => exact ⟨[], rfl, rfl⟩
    | cons c t ih =>
        obtain ⟨parts, hread, hjoin⟩ := ih
        obtain ⟨part, hpart, hchar⟩ := exists_part_of_escape c
        refine ⟨part :: parts, ?_, hchar _ _ hjoin⟩
        rw [List.flatMap_cons, List.append_assoc]
        exact hpart _ _ _ hread
  obtain ⟨parts, hread, hjoin⟩ := hparts
  simp [readString?, hread, hjoin]

theorem writeString_some (t : Text) :
    writeString (some t) = '"' :: (t.flatMap escape ++ ['"']) := rfl

/-! ## Sequences -/

section Sequences

variable {α : Type} {closing : Char} {one : Nat → Text → Option (α × Text)}
  {many : Nat → Text → Option (List α × Text)}

/-- A reader takes a text for a value, whatever blanks stand before it and whatever ends
it, in at most two steps for each character. -/
def Reads (one : Nat → Text → Option (α × Text)) (t : Text) (a : α) : Prop :=
  ∀ gap rest bound, AllSpace gap → Stops rest → 2 * t.length ≤ bound →
    one bound (gap ++ (t ++ rest)) = some (a, rest)

/-- A reader of items reads one item, then a comma and all other items, or the closing
character. -/
structure ReadsSequence (closing : Char) (one : Nat → Text → Option (α × Text))
    (many : Nat → Text → Option (List α × Text)) : Prop where
  isStop_closing : isStop closing = true
  isSpace_closing : isSpace closing = false
  last : ∀ {bound t u rest a}, one bound t = some (a, u) → skipSpace u = closing :: rest →
    many (bound + 1) t = some ([a], rest)
  more : ∀ {bound t u v rest a as}, one bound t = some (a, u) → skipSpace u = ',' :: v →
    many bound v = some (as, rest) → many (bound + 1) t = some (a :: as, rest)

/-- Items with commas between them are read one after another. -/
theorem ReadsSequence.read_intercalate (h : ReadsSequence closing one many) {write : α → Text}
    {a : α} {as : List α} (hitems : ∀ x ∈ a :: as, Reads one (write x) x)
    {gap between after : Text} (hgap : AllSpace gap) (hbetween : AllSpace between)
    (hafter : AllSpace after) (rest : Text) {bound : Nat}
    (hbound : 2 * (List.intercalate (',' :: between) ((a :: as).map write)).length < bound) :
    many bound (gap ++ (List.intercalate (',' :: between) ((a :: as).map write) ++
      (after ++ closing :: rest))) = some (a :: as, rest) := by
  -- one step goes to the first item, and the comma after it pays for that
  induction as generalizing gap a bound with
  | nil =>
      obtain ⟨steps, rfl⟩ : ∃ steps, bound = steps + 1 := ⟨bound - 1, by omega⟩
      rw [List.map_cons, List.map_nil, List.intercalate_singleton] at hbound ⊢
      have hstops : Stops (after ++ closing :: rest) :=
        hafter.stops_append (stops_cons h.isStop_closing rest)
      have hone := hitems a List.mem_cons_self gap _ steps hgap hstops (by omega)
      exact h.last hone (skipSpace_append hafter h.isSpace_closing rest)
  | cons b as ih =>
      obtain ⟨steps, rfl⟩ : ∃ steps, bound = steps + 1 := ⟨bound - 1, by omega⟩
      rw [List.map_cons, List.map_cons, List.intercalate_cons_cons, ← List.map_cons] at hbound ⊢
      simp only [List.length_append, List.length_cons] at hbound
      simp only [List.append_assoc, List.cons_append]
      have hcomma : isStop ',' = true := by decide
      have hothers : ∀ x ∈ b :: as, Reads one (write x) x :=
        fun x hx => hitems x (List.mem_cons_of_mem a hx)
      refine h.more ?_ (skipSpace_cons (by decide) _) (ih hothers hbetween (by omega))
      exact hitems a List.mem_cons_self gap _ steps hgap (stops_cons hcomma _) (by omega)

end Sequences

/-- A value between an opening and a closing character is a sequence of items, or has
none. -/
structure ReadsBetween {α : Type} (opening closing : Char)
    (one : Nat → Text → Option (α × Text)) (many : Nat → Text → Option (List α × Text))
    (wrap : List α → Json) : Prop extends ReadsSequence closing one many where
  isStop_opening : isStop opening = false
  empty : ∀ bound rest,
    readValue? (bound + 1) (opening :: closing :: rest) = some (wrap [], rest)
  items : ∀ {bound t c r}, skipSpace t = c :: r → c ≠ closing →
    readValue? (bound + 1) (opening :: t) =
      (many bound (c :: r)).map fun (as, rest) => (wrap as, rest)

theorem readsBetween_array : ReadsBetween '[' ']' readValue? readItems? array where
  isStop_closing := by decide
  isSpace_closing := by decide
  last hone hskip := by simp [readItems?, hone, hskip]
  more hone hskip hmany := by simp [readItems?, hone, hskip, hmany]
  isStop_opening := by decide
  empty _ _ := rfl
  items hskip hc := by
    simp only [readValue?, skipSpace_cons (show isSpace '[' = false by decide), hskip]
    split
    · next heq => exact absurd (List.cons.inj heq).1 hc
    · rfl

theorem readsBetween_object :
    ReadsBetween '\x7b' '\x7d' readMember? readMembers? object where
  isStop_closing := by decide
  isSpace_closing := by decide
  last hone hskip := by simp [readMembers?, hone, hskip]
  more hone hskip hmany := by simp [readMembers?, hone, hskip, hmany]
  isStop_opening := by decide
  empty _ _ := rfl
  items hskip hc := by
    simp only [readValue?, skipSpace_cons (show isSpace '\x7b' = false by decide), hskip]
    split
    · next heq => exact absurd (List.cons.inj heq).1 hc
    · rfl

/-! ## How values are written -/

/-- Only blanks stand between the parts of a value, and one colon after each name. -/
structure Style.Spaced (style : Style) : Prop where
  allSpace_lineBreak : ∀ level, AllSpace (style.lineBreak level)
  colon_eq : ∃ gap, style.colon = ':' :: gap ∧ AllSpace gap

theorem Style.spaced_compact : Style.compact.Spaced where
  allSpace_lineBreak _ := by simp [AllSpace, Style.compact]
  colon_eq := ⟨[], rfl, by simp [AllSpace]⟩

theorem Style.spaced_indented : Style.indented.Spaced where
  allSpace_lineBreak level := by
    intro c hc
    rcases List.mem_cons.1 hc with rfl | hc
    · rfl
    · rw [List.eq_of_mem_replicate hc]
      rfl
  colon_eq := ⟨[' '], rfl, by simp [AllSpace, isSpace]⟩

/-- Values whose strings are texts and whose numbers are natural numbers. -/
inductive Plain : Json → Prop where
  | null : Plain .null
  | bool (b : Bool) : Plain (.bool b)
  | ofNat (n : Nat) : Plain (.ofNat n)
  | ofText (t : Text) : Plain (.ofText t)
  | array {items : List Json} (h : ∀ v ∈ items, Plain v) : Plain (.array items)
  | object {members : List (Option Text × Json)} (hnames : ∀ m ∈ members, m.1.isSome = true)
      (h : ∀ m ∈ members, Plain m.2) : Plain (.object members)

/-- A member of an object as it is written. -/
def writeMember (style : Style) (level : Nat) (m : Option Text × Json) : Text :=
  writeString m.1 ++ style.colon ++ m.2.write style level

theorem writeItems_eq_map (style : Style) (level : Nat) (items : List Json) :
    writeItems style level items = items.map (write style level) := by
  induction items with
  | nil => rw [writeItems, List.map_nil]
  | cons v items ih => rw [writeItems, ih, List.map_cons]

theorem writeMembers_eq_map (style : Style) (level : Nat) (members : List (Option Text × Json)) :
    writeMembers style level members = members.map (writeMember style level) := by
  induction members with
  | nil => rw [writeMembers, List.map_nil]
  | cons m members ih =>
      obtain ⟨name, v⟩ := m
      rw [writeMembers, ih, List.map_cons, writeMember]

/-- A member of an object: its name, a colon and its value. -/
theorem writeMember_append {style : Style} {space : Text} (hcolon : style.colon = ':' :: space)
    (level : Nat) (name : Text) (v : Json) (rest : Text) :
    writeMember style level (some name, v) ++ rest =
      '"' :: (name.flatMap escape ++ '"' :: ':' :: (space ++ (v.write style level ++ rest))) := by
  simp only [writeMember, writeString_some, hcolon, List.append_assoc, List.cons_append,
    List.nil_append]

/-- The items between two brackets. -/
theorem enclose_cons (style : Style) (level : Nat) (opening closing : Char) (x : Text)
    (xs : List Text) :
    enclose style level opening closing (x :: xs) =
      opening :: (style.lineBreak (level + 1) ++
        (List.intercalate (',' :: style.lineBreak (level + 1)) (x :: xs) ++
          (style.lineBreak level ++ [closing]))) := by
  rw [enclose, List.append_assoc, List.append_assoc]
  exact List.cons_ne_nil x xs

theorem begins_enclose (style : Style) (level : Nat) {opening : Char}
    (hopening : isStop opening = false) (closing : Char) (items : List Text) :
    Begins (enclose style level opening closing items) := by
  cases items with
  | nil => exact ⟨opening, [closing], rfl, hopening⟩
  | cons x xs => exact ⟨opening, _, enclose_cons style level opening closing x xs, hopening⟩

/-- Items with something between them start like the first one. -/
theorem Begins.intercalate_append {x : Text} (hx : Begins x) (between : Text) (xs : List Text)
    (rest : Text) : Begins (List.intercalate between (x :: xs) ++ rest) := by
  obtain ⟨c, r, rfl, hc⟩ := hx
  cases xs with
  | nil =>
      rw [List.intercalate_singleton]
      exact ⟨c, r ++ rest, rfl, hc⟩
  | cons y ys =>
      rw [List.intercalate_cons_cons, List.append_assoc, List.append_assoc]
      exact ⟨c, _, rfl, hc⟩

/-- A written value starts like one. -/
theorem begins_write {v : Json} (hv : v.Plain) (style : Style) (level : Nat) :
    Begins (v.write style level) := by
  cases hv with
  | null =>
      rw [write]
      exact ⟨'n', _, rfl, by decide⟩
  | bool b =>
      cases b with
      | true =>
          rw [write]
          exact ⟨'t', _, rfl, by decide⟩
      | false =>
          rw [write]
          exact ⟨'f', _, rfl, by decide⟩
  | ofNat n =>
      obtain ⟨c, t, hct, hc⟩ := exists_decimal_eq_cons n
      rw [ofNat, write]
      exact ⟨c, t, hct, isStop_eq_false_of_isDecimalDigit hc⟩
  | ofText t =>
      rw [ofText, write]
      exact ⟨'"', _, rfl, by decide⟩
  | array h =>
      rw [write]
      exact begins_enclose style level (by decide) ']' _
  | object hnames h =>
      rw [write]
      exact begins_enclose style level (by decide) '\x7d' _

theorem begins_writeMember (style : Style) (level : Nat) (name : Text) (v : Json) :
    Begins (writeMember style level (some name, v)) :=
  ⟨'"', _, rfl, by decide⟩

/-! ## Reading what was written -/

/-- Blanks before a value are skipped. -/
theorem readValue?_append {gap : Text} (hgap : AllSpace gap) {c : Char} (hc : isSpace c = false)
    (bound : Nat) (t : Text) : readValue? bound (gap ++ c :: t) = readValue? bound (c :: t) := by
  cases bound with
  | zero => rfl
  | succ bound => rw [readValue?, readValue?, skipSpace_append hgap hc, skipSpace_cons hc]

/-- A digit starts a number. -/
theorem readValue?_number {c : Char} (hc : isDecimalDigit c = true) (bound : Nat) (t : Text) :
    readValue? (bound + 1) (c :: t) =
      (readNumber? (c :: t)).map fun (lexeme, rest) => (.number lexeme, rest) := by
  have hspace : isSpace c = false :=
    isSpace_eq_false_of_isStop (isStop_eq_false_of_isDecimalDigit hc)
  rw [readValue?, skipSpace_cons hspace]
  -- all other values start with a character that is no digit
  split
  case h_7 => rfl
  all_goals
    next heq => exact absurd (List.cons.inj heq).1 (ne_of_isDecimalDigit hc (by decide))

/-- A text that starts like a value is read with blanks before it when it is read without
them. -/
theorem Begins.reads {t : Text} (ht : Begins t) {v : Json}
    (h : ∀ steps rest, Stops rest → 2 * t.length ≤ steps + 1 →
      readValue? (steps + 1) (t ++ rest) = some (v, rest)) : Reads readValue? t v := by
  intro gap rest bound hgap hrest hbound
  obtain ⟨c, r, rfl, hc⟩ := ht
  obtain ⟨steps, rfl⟩ : ∃ steps, bound = steps + 1 :=
    ⟨bound - 1, by rw [List.length_cons] at hbound; omega⟩
  rw [List.cons_append, readValue?_append hgap (isSpace_eq_false_of_isStop hc)]
  exact h steps rest hrest hbound

/-- A written member is read back when its value is. -/
theorem reads_writeMember {style : Style} (hstyle : style.Spaced) {level : Nat}
    {name : Text} {v : Json} (h : Reads readValue? (v.write style level) v) :
    Reads readMember? (writeMember style level (some name, v)) (some name, v) := by
  intro gap rest bound hgap hrest hbound
  obtain ⟨space, hcolon, hspace⟩ := hstyle.colon_eq
  have hlength := congrArg List.length (writeMember_append hcolon level name v [])
  simp only [List.length_append, List.length_cons, List.length_nil] at hlength
  obtain ⟨steps, rfl⟩ : ∃ steps, bound = steps + 1 := ⟨bound - 1, by omega⟩
  have hvalue := h space rest steps hspace hrest (by omega)
  rw [writeMember_append hcolon, readMember?, skipSpace_append hgap (by decide)]
  simp [readString?_flatMap_escape, skipSpace_cons (show isSpace ':' = false by decide), hvalue]

/-- Written items between an opening and a closing character are read back when each of
them is. -/
theorem ReadsBetween.reads_enclose {α : Type} {opening closing : Char}
    {one : Nat → Text → Option (α × Text)} {many : Nat → Text → Option (List α × Text)}
    {wrap : List α → Json} (h : ReadsBetween opening closing one many wrap) {style : Style}
    (hstyle : style.Spaced) (level : Nat) {write : α → Text} {items : List α}
    (hbegins : ∀ a ∈ items, Begins (write a)) (hitems : ∀ a ∈ items, Reads one (write a) a) :
    Reads readValue? (enclose style level opening closing (items.map write)) (wrap items) := by
  refine (begins_enclose style level h.isStop_opening closing _).reads ?_
  intro steps rest hrest hbound
  cases items with
  | nil => exact h.empty steps rest
  | cons a as =>
      have hbreak := hstyle.allSpace_lineBreak
      rw [List.map_cons, enclose_cons, ← List.map_cons] at hbound ⊢
      simp only [List.length_cons, List.length_append] at hbound
      have hread := h.read_intercalate hitems allSpace_nil (hbreak (level + 1)) (hbreak level)
        rest (show 2 * _ < steps by omega)
      obtain ⟨c, r, hcr, hc⟩ :=
        (hbegins a List.mem_cons_self).intercalate_append (',' :: style.lineBreak (level + 1))
          (as.map write) (style.lineBreak level ++ closing :: rest)
      have hclosing : c ≠ closing := by
        rintro rfl
        rw [h.isStop_closing] at hc
        contradiction
      rw [List.nil_append, List.map_cons, hcr] at hread
      have hskip := skipSpace_append (hbreak (level + 1)) (isSpace_eq_false_of_isStop hc) r
      simp only [List.cons_append, List.append_assoc, List.nil_append, List.map_cons]
      rw [hcr, h.items hskip hclosing, hread]
      rfl

/-- A written value is read back, whatever blanks stand before it and whatever ends
it. -/
theorem reads_write {style : Style} (hstyle : style.Spaced) {v : Json} (hv : v.Plain)
    (level : Nat) : Reads readValue? (v.write style level) v := by
  induction hv generalizing level with
  | null =>
      refine (begins_write .null style level).reads ?_
      intro steps rest hrest hbound
      rw [write]
      rfl
  | bool b =>
      refine (begins_write (.bool b) style level).reads ?_
      intro steps rest hrest hbound
      cases b with
      | true =>
          rw [write]
          rfl
      | false =>
          rw [write]
          rfl
  | ofNat n =>
      refine (begins_write (.ofNat n) style level).reads ?_
      intro steps rest hrest hbound
      obtain ⟨c, t, hct, hc⟩ := exists_decimal_eq_cons n
      have hnumber := readNumber?_decimal n hrest
      rw [ofNat, write]
      rw [hct, List.cons_append] at hnumber ⊢
      rw [readValue?_number hc, hnumber]
      rfl
  | ofText t =>
      refine (begins_write (.ofText t) style level).reads ?_
      intro steps rest hrest hbound
      have hstring := readString?_flatMap_escape t rest
      rw [ofText, write, writeString_some, List.cons_append, List.append_assoc]
      exact congrArg (Option.map fun p => (Json.string p.1, p.2)) hstring
  | array h ih =>
      rw [write, writeItems_eq_map]
      exact readsBetween_array.reads_enclose hstyle level
        (fun v hv => begins_write (h v hv) style (level + 1)) (fun v hv => ih v hv (level + 1))
  | object hnames h ih =>
      rw [write, writeMembers_eq_map]
      refine readsBetween_object.reads_enclose hstyle level ?_ ?_
      · rintro ⟨name?, v⟩ hm
        obtain ⟨name, rfl⟩ := Option.isSome_iff_exists.1 (hnames _ hm)
        exact begins_writeMember style (level + 1) name v
      · rintro ⟨name?, v⟩ hm
        obtain ⟨name, rfl⟩ := Option.isSome_iff_exists.1 (hnames _ hm)
        exact reads_writeMember hstyle (ih _ hm (level + 1))

/-- The text of a value is read as that value. -/
theorem read?_write {style : Style} (hstyle : style.Spaced) {v : Json} (hv : v.Plain) :
    read? (v.write style 0) = some v := by
  have hread := reads_write hstyle hv 0 [] [] (3 * (v.write style 0).length + 3) allSpace_nil
    stops_nil (by omega)
  rw [List.nil_append, List.append_nil] at hread
  rw [read?, hread]
  rfl

end Json

end BranchLabels
