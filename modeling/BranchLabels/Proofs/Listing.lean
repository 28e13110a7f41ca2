import BranchLabels.Listing
import BranchLabels.Proofs.Instruction
import Mathlib.Data.List.Forall2

/-!
# Reading listings

A listing is read line by line, and each line is kept as an instruction or as
other text.  Nothing gets lost: the lines of the segments are those of the text,
and within the segments they stand in the order of the text.

Main results:

- Theorem `Line.map_toText_of_readAll`: the lines that were read make up the text.
- Theorem `Line.exists_readAll`: lines can be read when each of them can.
- Theorem `Listing.wellFormed_of_ofText`: what holds of each line of a listing
  that was read.
- Theorem `Listing.perm_lines`: a listing keeps all lines of its text.
- Theorem `Listing.filter_isCode_lines`: the instructions of a listing are the
  lines of its text that have the shape of one.
-/

namespace BranchLabels

open Text

namespace Line

/-- The text of a line. -/
def toText : Line → Text
  | .code i => i.toText
  | .prose t => t

/-- A line as it stands in a text: it has no line feed, and it is what its text
is read as. -/
def WellRead : Line → Prop
  | .code i => Instruction.read i.line i.toText = .ok (some i) ∧ '\n' ∉ i.toText
  | .prose t => LineShape.ofText? t = none ∧ '\n' ∉ t

@[simp] theorem filterMap_code?_cons_code (i : Instruction) (lines : List Line) :
    (code i :: lines).filterMap code? = i :: lines.filterMap code? := rfl

@[simp] theorem filterMap_code?_cons_prose (t : Text) (lines : List Line) :
    (prose t :: lines).filterMap code? = lines.filterMap code? := rfl

@[simp] theorem filterMap_prose?_cons_code (i : Instruction) (lines : List Line) :
    (code i :: lines).filterMap prose? = lines.filterMap prose? := rfl

@[simp] theorem filterMap_prose?_cons_prose (t : Text) (lines : List Line) :
    (prose t :: lines).filterMap prose? = t :: lines.filterMap prose? := rfl

/-! ## One line -/

/-- A line is read as an instruction exactly when its text is. -/
theorem read_eq_ok_code_iff {number : Nat} {text : Text} {i : Instruction} :
    read number text = .ok (.code i) ↔ Instruction.read number text = .ok (some i) := by
  unfold read
  split
  · next j hj => simp [hj]
  · next hnone => simp [hnone]
  · next e he => simp [he]

/-- A line is read as other text exactly when it has not the shape of an
instruction. -/
theorem read_eq_ok_prose_iff {number : Nat} {text t : Text} :
    read number text = .ok (.prose t) ↔ LineShape.ofText? text = none ∧ t = text := by
  rw [← @Instruction.read_eq_ok_none_iff number]
  unfold read
  split
  · next i hi => simp [hi]
  · next hnone => simp [hnone, eq_comm]
  · next e he => simp [he]

/-- A line remembers its text. -/
theorem toText_of_read {number : Nat} {text : Text} {line : Line}
    (h : read number text = .ok line) : line.toText = text := by
  cases line with
  | code i => exact Instruction.toText_of_read (read_eq_ok_code_iff.1 h)
  | prose t => exact (read_eq_ok_prose_iff.1 h).2

/-- A line that was read is what its text is read as. -/
theorem wellRead_of_read {number : Nat} {text : Text} {line : Line}
    (h : read number text = .ok line) (hfeed : '\n' ∉ text) : line.WellRead := by
  cases line with
  | code i =>
      have hi := read_eq_ok_code_iff.1 h
      have htext : i.toText = text := Instruction.toText_of_read hi
      obtain ⟨s, a, -, -, rfl⟩ := Instruction.read_eq_ok_some_iff.1 hi
      rw [WellRead, htext]
      exact ⟨hi, hfeed⟩
  | prose t =>
      obtain ⟨hnone, rfl⟩ := read_eq_ok_prose_iff.1 h
      exact ⟨hnone, hfeed⟩

/-! ## All lines -/

/-- Lines are read one after the other. -/
theorem readAll_cons_eq_ok_iff {number : Nat} {text : Text} {texts : List Text}
    {lines : List Line} :
    readAll number (text :: texts) = .ok lines ↔
      ∃ line rest, read number text = .ok line ∧ readAll (number + 1) texts = .ok rest ∧
        lines = line :: rest := by
  rw [readAll]
  split
  · next e he => simp [he]
  · next line hline =>
    split
    · next e he => simp [he]
    · next rest hrest =>
      simp only [hline, hrest, Except.ok.injEq]
      constructor
      · rintro rfl
        exact ⟨line, rest, rfl, rfl, rfl⟩
      · rintro ⟨line, rest, rfl, rfl, rfl⟩
        rfl

/-- The lines that were read make up the text. -/
theorem map_toText_of_readAll {number : Nat} {texts : List Text} {lines : List Line}
    (h : readAll number texts = .ok lines) : lines.map toText = texts := by
  induction texts generalizing number lines with
  | nil => cases h; rfl
  | cons text texts ih =>
      obtain ⟨line, rest, hline, hrest, rfl⟩ := readAll_cons_eq_ok_iff.1 h
      rw [List.map_cons, toText_of_read hline, ih hrest]

/-- Each line that was read is what its text is read as. -/
theorem wellRead_of_readAll {number : Nat} {texts : List Text} {lines : List Line}
    (h : readAll number texts = .ok lines) (hfeed : ∀ t ∈ texts, '\n' ∉ t) :
    ∀ line ∈ lines, line.WellRead := by
  induction texts generalizing number lines with
  | nil => cases h; simp
  | cons text texts ih =>
      obtain ⟨line, rest, hline, hrest, rfl⟩ := readAll_cons_eq_ok_iff.1 h
      intro l hl
      rcases List.mem_cons.1 hl with rfl | hl
      · exact wellRead_of_read hline (hfeed text List.mem_cons_self)
      · exact ih hrest (fun t ht => hfeed t (List.mem_cons_of_mem _ ht)) l hl

/-- Lines can be read when each of them can, whatever its number; what they are
read as then corresponds to them line by line. -/
theorem exists_readAll {write : Line → Text} {R : Line → Line → Prop} {lines : List Line}
    (h : ∀ line ∈ lines, ∀ number, ∃ line', read number (write line) = .ok line' ∧ R line line')
    (number : Nat) :
    ∃ lines', readAll number (lines.map write) = .ok lines' ∧ List.Forall₂ R lines lines' := by
  induction lines generalizing number with
  | nil => exact ⟨[], rfl, .nil⟩
  | cons line lines ih =>
      obtain ⟨line', hline, hR⟩ := h line List.mem_cons_self number
      obtain ⟨lines', hlines, hRs⟩ :=
        ih (fun l hl => h l (List.mem_cons_of_mem _ hl)) (number + 1)
      refine ⟨line' :: lines', ?_, .cons hR hRs⟩
      exact readAll_cons_eq_ok_iff.2 ⟨line', lines', hline, hlines, rfl⟩

end Line

namespace Listing

/-! ## Listings that were read -/

/-- What holds of each line of a listing that was read. -/
structure WellFormed (l : Listing) : Prop where
  header_prose : ∀ t ∈ l.header, (Line.prose t).WellRead
  instructions_read : ∀ i ∈ l.instructions, (Line.code i).WellRead
  trailer_prose : ∀ t ∈ l.trailer, (Line.prose t).WellRead
  /-- Without an instruction all lines are before the first one. -/
  trailer_eq_nil : l.instructions = [] → l.trailer = []

/-- Other text of some lines is one of them. -/
theorem mem_of_mem_filterMap_prose? {lines : List Line} {t : Text}
    (ht : t ∈ lines.filterMap Line.prose?) : Line.prose t ∈ lines := by
  obtain ⟨line, hline, hprose⟩ := List.mem_filterMap.1 ht
  cases line with
  | code i => contradiction
  | prose u =>
      obtain rfl := Option.some.inj hprose
      exact hline

/-- An instruction of some lines is one of them. -/
theorem mem_of_mem_filterMap_code? {lines : List Line} {i : Instruction}
    (hi : i ∈ lines.filterMap Line.code?) : Line.code i ∈ lines := by
  obtain ⟨line, hline, hcode⟩ := List.mem_filterMap.1 hi
  cases line with
  | code j =>
      obtain rfl := Option.some.inj hcode
      exact hline
  | prose t => contradiction

/-- Lines without instructions are all before the first instruction. -/
theorem dropWhile_isProse_eq_nil {lines : List Line} (h : lines.filterMap Line.code? = []) :
    lines.dropWhile Line.isProse = [] := by
  induction lines with
  | nil => rfl
  | cons line lines ih =>
      cases line with
      | code i => simp [Line.code?] at h
      | prose t =>
          have hrest : lines.filterMap Line.code? = [] := by simpa [Line.code?] using h
          simpa [Line.isProse] using ih hrest

theorem wellFormed_ofReadLines {lines : List Line} (h : ∀ line ∈ lines, line.WellRead) :
    (ofReadLines lines).WellFormed where
  header_prose t ht :=
    h _ ((List.takeWhile_subset _) (mem_of_mem_filterMap_prose? ht))
  instructions_read i hi := h _ (mem_of_mem_filterMap_code? hi)
  trailer_prose t ht :=
    h _ ((List.dropWhile_subset _) (mem_of_mem_filterMap_prose? ht))
  trailer_eq_nil hnil := by
    show (lines.dropWhile Line.isProse).filterMap Line.prose? = []
    rw [dropWhile_isProse_eq_nil hnil]
    rfl

/-- Lines make up a listing exactly when they can be read. -/
theorem ofLines_eq_ok_iff {texts : List Text} {l : Listing} :
    ofLines texts = .ok l ↔
      ∃ lines, Line.readAll 1 texts = .ok lines ∧ l = ofReadLines lines := by
  rw [ofLines]
  cases Line.readAll 1 texts with
  | error e => simp [Except.map]
  | ok lines => simp [Except.map, eq_comm]

/-- A text is read as a listing exactly when its lines can be read. -/
theorem ofText_eq_ok_iff {text : Text} {l : Listing} :
    ofText text = .ok l ↔
      ∃ lines, Line.readAll 1 (Text.lines text) = .ok lines ∧ l = ofReadLines lines :=
  ofLines_eq_ok_iff

/-- What holds of each line of a listing that was read. -/
theorem wellFormed_of_ofText {text : Text} {l : Listing} (h : ofText text = .ok l) :
    l.WellFormed := by
  obtain ⟨lines, hlines, rfl⟩ := ofText_eq_ok_iff.1 h
  exact wellFormed_ofReadLines
    (Line.wellRead_of_readAll hlines fun _ ht => lineFeed_not_mem_of_mem_lines ht)

/-! ## Nothing gets lost -/

/-- Other text and instructions together are all lines. -/
theorem perm_filterMap (lines : List Line) :
    (lines.filterMap Line.prose? ++ (lines.filterMap Line.code?).map Instruction.toText).Perm
      (lines.map Line.toText) := by
  induction lines with
  | nil => exact .nil
  | cons line lines ih =>
      cases line with
      | code i =>
          simp only [Line.prose?, Line.code?, List.filterMap_cons, List.map_cons]
          exact List.perm_middle.trans (ih.cons _)
      | prose t =>
          simp only [Line.prose?, Line.code?, List.filterMap_cons, List.map_cons,
            List.cons_append]
          exact ih.cons _

/-- All texts that are no instructions are in the header or in the trailer. -/
theorem header_append_trailer_ofReadLines (lines : List Line) :
    (ofReadLines lines).header ++ (ofReadLines lines).trailer = lines.filterMap Line.prose? := by
  rw [ofReadLines, ← List.filterMap_append, List.takeWhile_append_dropWhile]

/-- Sorting lines into segments keeps all of them. -/
theorem perm_ofReadLines (lines : List Line) :
    ((ofReadLines lines).header ++ (ofReadLines lines).instructions.map Instruction.toText ++
      (ofReadLines lines).trailer).Perm (lines.map Line.toText) := by
  have hswap := List.perm_append_comm_assoc (ofReadLines lines).header
    ((ofReadLines lines).instructions.map Instruction.toText) (ofReadLines lines).trailer
  rw [List.append_assoc]
  apply hswap.trans
  rw [header_append_trailer_ofReadLines]
  exact List.perm_append_comm.trans (perm_filterMap lines)

/-- A listing keeps all lines of its text. -/
theorem perm_lines {text : Text} {l : Listing} (h : ofText text = .ok l) :
    (l.header ++ l.instructions.map Instruction.toText ++ l.trailer).Perm (Text.lines text) := by
  obtain ⟨lines, hlines, rfl⟩ := ofText_eq_ok_iff.1 h
  rw [← Line.map_toText_of_readAll hlines]
  exact perm_ofReadLines lines

/-- Other text and instructions together are as many as the lines. -/
theorem length_filterMap (lines : List Line) :
    (lines.filterMap Line.prose?).length + (lines.filterMap Line.code?).length =
      lines.length := by
  simpa using (perm_filterMap lines).length_eq

/-- A listing has as many lines as its text. -/
theorem length_segments {text : Text} {l : Listing} (h : ofText text = .ok l) :
    l.instructions.length + l.header.length + l.trailer.length = (Text.lines text).length := by
  have hlength := (perm_lines h).length_eq
  simp only [List.length_append, List.length_map] at hlength
  omega

/-! ## Which lines are instructions -/

/-- Whether a line has the shape of an instruction. -/
def isCode (t : Text) : Bool :=
  (LineShape.ofText? t).isSome

/-- The text of an instruction has the shape of one. -/
theorem isCode_of_wellRead {i : Instruction} (h : (Line.code i).WellRead) :
    isCode i.toText = true := by
  obtain ⟨s, a, hs, -⟩ := Instruction.read_eq_ok_some_iff.1 h.1
  exact Option.isSome_iff_exists.2 ⟨s, hs⟩

/-- Other text has not the shape of an instruction. -/
theorem isCode_eq_false_of_wellRead {t : Text} (h : (Line.prose t).WellRead) :
    isCode t = false :=
  Option.isSome_eq_false_iff.2 (Option.isNone_iff_eq_none.2 h.1)

/-- Other text holds no instructions. -/
theorem filter_isCode_eq_nil {ts : List Text} (h : ∀ t ∈ ts, (Line.prose t).WellRead) :
    ts.filter isCode = [] := by
  rw [List.filter_eq_nil_iff]
  intro t ht
  rw [isCode_eq_false_of_wellRead (h t ht)]
  exact Bool.false_ne_true

/-- The instructions of some lines are the lines that have the shape of one. -/
theorem filter_isCode_map_toText {lines : List Line} (h : ∀ line ∈ lines, line.WellRead) :
    (lines.map Line.toText).filter isCode =
      (lines.filterMap Line.code?).map Instruction.toText := by
  induction lines with
  | nil => rfl
  | cons line lines ih =>
      have hline : line.WellRead := h line List.mem_cons_self
      have hlines := ih fun l hl => h l (List.mem_cons_of_mem _ hl)
      cases line with
      | code i =>
          rw [List.map_cons, Line.toText, List.filter_cons_of_pos (isCode_of_wellRead hline),
            hlines]
          rfl
      | prose t =>
          have hprose : ¬ isCode t = true := by simp [isCode_eq_false_of_wellRead hline]
          rw [List.map_cons, Line.toText, List.filter_cons_of_neg hprose, hlines]
          rfl

/-- The instructions of a listing are the lines of its text that have the shape of
one. -/
theorem filter_isCode_lines {text : Text} {l : Listing} (h : ofText text = .ok l) :
    (Text.lines text).filter isCode = l.instructions.map Instruction.toText := by
  obtain ⟨lines, hlines, rfl⟩ := ofText_eq_ok_iff.1 h
  rw [← Line.map_toText_of_readAll hlines]
  exact filter_isCode_map_toText
    (Line.wellRead_of_readAll hlines fun _ ht => lineFeed_not_mem_of_mem_lines ht)

end Listing

end BranchLabels
