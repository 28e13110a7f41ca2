import BranchLabels.Proofs.Listing

/-!
# The segments of a listing

Lines are sorted into a header, instructions and a trailer.  The header is the
longest run of lines at the start that are no instructions, and the trailer is
what remains.  A line that is no instruction moves away from its place when
instructions surround it, but the instructions keep the numbers of their lines, so
that the place of every line can be told from the listing.

Main results:

- Theorem `Line.numbered_of_readAll`: each instruction has the number of its line.
- Theorem `Line.Numbered.eq_of_filterMap_eq`: numbered lines are determined by
  their instructions and their other texts.
- Theorem `Listing.segmentation_exact_and_lossless`: which lines each segment has,
  and that a listing determines the lines it was made from.
-/

namespace BranchLabels

/-- The instruction that a line with its number is accepted as. -/
def Instruction.accept? (numbered : Text × Nat) : Option Instruction :=
  match read numbered.2 numbered.1 with
  | .ok found => found
  | .error _ => none

/-- An instruction has the number that its line was read with. -/
theorem Instruction.line_of_read {number : Nat} {text : Text} {i : Instruction}
    (h : read number text = .ok (some i)) : i.line = number := by
  obtain ⟨s, a, -, -, rfl⟩ := read_eq_ok_some_iff.1 h
  rfl

namespace Line

open Instruction (accept?)

/-- A line that can be read is accepted as its instruction, if it is one. -/
theorem accept?_of_read {number : Nat} {text : Text} {line : Line}
    (h : read number text = .ok line) : accept? (text, number) = line.code? := by
  cases line with
  | code i => simp [accept?, code?, read_eq_ok_code_iff.1 h]
  | prose t =>
      have hnone : Instruction.read number text = .ok none :=
        Instruction.read_eq_ok_none_iff.2 (read_eq_ok_prose_iff.1 h).1
      simp [accept?, code?, hnone]

/-! ## Numbers of lines -/

/-- Each instruction among some lines has the number of its line, when the first
line has a given one. -/
def Numbered : Nat → List Line → Prop
  | _, [] => True
  | number, .code i :: lines => i.line = number ∧ Numbered (number + 1) lines
  | number, .prose _ :: lines => Numbered (number + 1) lines

@[simp] theorem numbered_cons_code {number : Nat} {i : Instruction} {lines : List Line} :
    Numbered number (code i :: lines) ↔ i.line = number ∧ Numbered (number + 1) lines :=
  Iff.rfl

@[simp] theorem numbered_cons_prose {number : Nat} {t : Text} {lines : List Line} :
    Numbered number (prose t :: lines) ↔ Numbered (number + 1) lines :=
  Iff.rfl

/-- Reading gives each instruction the number of its line. -/
theorem numbered_of_readAll {number : Nat} {texts : List Text} {lines : List Line}
    (h : readAll number texts = .ok lines) : Numbered number lines := by
  induction texts generalizing number lines with
  | nil => cases h; trivial
  | cons text texts ih =>
      obtain ⟨line, rest, hline, hrest, rfl⟩ := readAll_cons_eq_ok_iff.1 h
      cases line with
      | code i =>
          exact numbered_cons_code.2
            ⟨Instruction.line_of_read (read_eq_ok_code_iff.1 hline), ih hrest⟩
      | prose t => exact numbered_cons_prose.2 (ih hrest)

/-- No instruction has a number below that of the first line. -/
theorem Numbered.le_line {number : Nat} {lines : List Line} (h : Numbered number lines)
    {i : Instruction} (hi : i ∈ lines.filterMap code?) : number ≤ i.line := by
  induction lines generalizing number with
  | nil => simp at hi
  | cons line lines ih =>
      cases line with
      | code j =>
          obtain ⟨hj, hlines⟩ := numbered_cons_code.1 h
          rcases List.mem_cons.1 hi with rfl | hi
          · exact hj.ge
          · have hle := ih hlines hi
            omega
      | prose t =>
          have hle := ih (numbered_cons_prose.1 h) hi
          omega

/-- The numbers of the instructions go up. -/
theorem Numbered.pairwise_line {number : Nat} {lines : List Line} (h : Numbered number lines) :
    ((lines.filterMap code?).map Instruction.line).Pairwise (· < ·) := by
  induction lines generalizing number with
  | nil => simp
  | cons line lines ih =>
      cases line with
      | code i =>
          obtain ⟨hi, hlines⟩ := numbered_cons_code.1 h
          refine List.pairwise_cons.2 ⟨?_, ih hlines⟩
          intro n hn
          obtain ⟨j, hj, rfl⟩ := List.mem_map.1 hn
          have hle := hlines.le_line hj
          omega
      | prose t => exact ih (numbered_cons_prose.1 h)

/-- An instruction on the first line stands on no later one. -/
theorem Numbered.filterMap_code?_ne_cons {number : Nat} {lines : List Line}
    (h : Numbered (number + 1) lines) {i : Instruction} (hi : i.line = number)
    (is : List Instruction) : lines.filterMap code? ≠ i :: is := by
  intro hcode
  have hle := h.le_line (hcode ▸ List.mem_cons_self)
  omega

/-- Numbered lines are determined by their instructions and their other texts. -/
theorem Numbered.eq_of_filterMap_eq {number : Nat} {lines lines' : List Line}
    (h : Numbered number lines) (h' : Numbered number lines')
    (hcode : lines.filterMap code? = lines'.filterMap code?)
    (hprose : lines.filterMap prose? = lines'.filterMap prose?) : lines = lines' := by
  induction lines generalizing number lines' with
  | nil =>
      rcases lines' with _ | ⟨_ | _, lines'⟩
      · rfl
      · simp at hcode
      · simp at hprose
  | cons line lines ih =>
      -- The number of the next instruction tells whether it stands on this line, so
      -- that the first lines are of the same kind.
      rcases line with i | t
      · obtain ⟨hi, hlines⟩ := numbered_cons_code.1 h
        rcases lines' with _ | ⟨j | u, lines'⟩
        · simp at hcode
        · obtain ⟨rfl, hrest⟩ := List.cons.inj hcode
          rw [ih hlines (numbered_cons_code.1 h').2 hrest hprose]
        · exact absurd hcode.symm ((numbered_cons_prose.1 h').filterMap_code?_ne_cons hi _)
      · have hlines := numbered_cons_prose.1 h
        rcases lines' with _ | ⟨j | u, lines'⟩
        · simp at hprose
        · obtain ⟨hj, -⟩ := numbered_cons_code.1 h'
          exact absurd hcode (hlines.filterMap_code?_ne_cons hj _)
        · obtain ⟨rfl, hrest⟩ := List.cons.inj hprose
          rw [ih hlines (numbered_cons_prose.1 h') hcode hrest]

/-! ## Where lines stand -/

/-- The line at a position is what the text there is read as. -/
theorem getElem?_of_readAll {number : Nat} {texts : List Text} {lines : List Line}
    (h : readAll number texts = .ok lines) {k : Nat} {line : Line}
    (hline : lines[k]? = some line) :
    texts[k]? = some line.toText ∧ read (number + k) line.toText = .ok line := by
  induction texts generalizing number lines k with
  | nil =>
      cases h
      simp at hline
  | cons text texts ih =>
      obtain ⟨first, rest, hfirst, hrest, rfl⟩ := readAll_cons_eq_ok_iff.1 h
      cases k with
      | zero =>
          obtain rfl : first = line := by simpa using hline
          rw [toText_of_read hfirst]
          exact ⟨rfl, hfirst⟩
      | succ k =>
          obtain ⟨htext, hread⟩ := ih hrest (by simpa using hline)
          refine ⟨by simpa using htext, ?_⟩
          rwa [Nat.add_assoc, Nat.add_comm 1 k] at hread

/-- What is left after some lines is read with the numbers that follow. -/
theorem readAll_drop {number : Nat} {texts : List Text} {lines : List Line}
    (h : readAll number texts = .ok lines) (k : Nat) :
    readAll (number + k) (texts.drop k) = .ok (lines.drop k) := by
  induction k generalizing number texts lines with
  | zero => simpa using h
  | succ k ih =>
      cases texts with
      | nil => cases h; rfl
      | cons text texts =>
          obtain ⟨line, rest, -, hrest, rfl⟩ := readAll_cons_eq_ok_iff.1 h
          have hdrop := ih hrest
          rwa [Nat.add_assoc, Nat.add_comm 1 k] at hdrop

/-- The accepted lines are the instructions. -/
theorem filterMap_accept?_of_readAll {number : Nat} {texts : List Text} {lines : List Line}
    (h : readAll number texts = .ok lines) :
    (texts.zipIdx number).filterMap accept? = lines.filterMap code? := by
  induction texts generalizing number lines with
  | nil => cases h; rfl
  | cons text texts ih =>
      obtain ⟨line, rest, hline, hrest, rfl⟩ := readAll_cons_eq_ok_iff.1 h
      rw [List.zipIdx_cons, List.filterMap_cons, List.filterMap_cons, accept?_of_read hline,
        ih hrest]

/-- The lines that are not accepted are the other texts. -/
theorem filter_accept?_of_readAll {number : Nat} {texts : List Text} {lines : List Line}
    (h : readAll number texts = .ok lines) :
    ((texts.zipIdx number).filter fun numbered => (accept? numbered).isNone).map (·.1) =
      lines.filterMap prose? := by
  induction texts generalizing number lines with
  | nil => cases h; rfl
  | cons text texts ih =>
      obtain ⟨line, rest, hline, hrest, rfl⟩ := readAll_cons_eq_ok_iff.1 h
      have haccept := accept?_of_read hline
      have htext := toText_of_read hline
      cases line with
      | code i => simp [haccept, code?, prose?, ih hrest]
      | prose t =>
          obtain rfl : t = text := htext
          simp [haccept, code?, prose?, ih hrest]

end Line

namespace Listing

open Instruction (accept?)

/-! ## The segments -/

/-- How the lines of a listing are sorted into its segments. -/
structure Segmented (texts : List Text) (l : Listing) : Prop where
  /-- The header is a run of lines at the start. -/
  header_initial : l.header <+: texts
  /-- No line of the header is accepted as an instruction. -/
  header_refused : ∀ k t, l.header[k]? = some t → Instruction.read (k + 1) t = .ok none
  /-- The run is the longest one: the line after it is accepted. -/
  header_longest : ∀ t, texts[l.header.length]? = some t →
    ∃ i, Instruction.read (l.header.length + 1) t = .ok (some i)
  /-- The instructions are what the accepted lines are read as, in order. -/
  instructions_eq : l.instructions = (texts.zipIdx 1).filterMap accept?
  /-- Each instruction remembers its line and the number of it. -/
  instruction_place : ∀ i ∈ l.instructions, 1 ≤ i.line ∧ texts[i.line - 1]? = some i.toText
  line_ascending : (l.instructions.map Instruction.line).Pairwise (· < ·)
  /-- The trailer is all lines after the header that are not accepted, in order. -/
  trailer_eq : l.trailer = (((texts.drop l.header.length).zipIdx (l.header.length + 1)).filter
    fun numbered => (accept? numbered).isNone).map (·.1)

/-- The header keeps the lines before the first instruction as they are. -/
theorem header_ofReadLines (lines : List Line) :
    (ofReadLines lines).header = (lines.takeWhile Line.isProse).map Line.toText := by
  show (lines.takeWhile Line.isProse).filterMap Line.prose? = _
  induction lines with
  | nil => rfl
  | cons line lines ih =>
      rcases line with i | t
      · rfl
      · have hprose : (Line.prose t).isProse = true := rfl
        rw [List.takeWhile_cons_of_pos hprose, List.map_cons, ← ih]
        rfl

/-- The lines from the first instruction on are those after the header. -/
theorem dropWhile_isProse_eq_drop (lines : List Line) :
    lines.dropWhile Line.isProse = lines.drop (ofReadLines lines).header.length := by
  have hdrop : (lines.takeWhile Line.isProse ++ lines.dropWhile Line.isProse).drop
      (lines.takeWhile Line.isProse).length = lines.dropWhile Line.isProse := List.drop_left
  rw [List.takeWhile_append_dropWhile] at hdrop
  rw [header_ofReadLines, List.length_map, hdrop]

section Read

variable {texts : List Text} {lines : List Line} (h : Line.readAll 1 texts = .ok lines)

include h

theorem header_isPrefix_of_readAll : (ofReadLines lines).header <+: texts := by
  rw [header_ofReadLines, ← Line.map_toText_of_readAll h]
  exact (List.takeWhile_prefix _).map Line.toText

/-- No line of the header is accepted as an instruction. -/
theorem read_eq_none_of_header {k : Nat} {t : Text}
    (ht : (ofReadLines lines).header[k]? = some t) : Instruction.read (k + 1) t = .ok none := by
  rw [header_ofReadLines, List.getElem?_map, Option.map_eq_some_iff] at ht
  obtain ⟨line, hline, rfl⟩ := ht
  have hprose : line.isProse = true := List.mem_takeWhile_imp (List.mem_of_getElem? hline)
  have hlines : lines[k]? = some line := by
    obtain ⟨hk, rfl⟩ := List.getElem?_eq_some_iff.1 hline
    exact List.prefix_iff_getElem?.1 (List.takeWhile_prefix _) k hk
  have hread := (Line.getElem?_of_readAll h hlines).2
  rcases line with i | t
  · contradiction
  · rw [Nat.add_comm]
    exact Instruction.read_eq_ok_none_iff.2 (Line.read_eq_ok_prose_iff.1 hread).1

/-- The line after the header is accepted as an instruction. -/
theorem exists_read_of_length_header {t : Text}
    (ht : texts[(ofReadLines lines).header.length]? = some t) :
    ∃ i, Instruction.read ((ofReadLines lines).header.length + 1) t = .ok (some i) := by
  rw [← Line.map_toText_of_readAll h, List.getElem?_map, Option.map_eq_some_iff] at ht
  obtain ⟨line, hline, rfl⟩ := ht
  have hread := (Line.getElem?_of_readAll h hline).2
  have hnot := List.head?_dropWhile_not Line.isProse lines
  rw [dropWhile_isProse_eq_drop, List.head?_drop, hline] at hnot
  rcases line with i | t
  · rw [Nat.add_comm]
    exact ⟨i, Line.read_eq_ok_code_iff.1 hread⟩
  · contradiction

/-- Each instruction has the number of the line it stands on. -/
theorem place_of_mem_instructions {i : Instruction} (hi : i ∈ (ofReadLines lines).instructions) :
    1 ≤ i.line ∧ texts[i.line - 1]? = some i.toText := by
  obtain ⟨k, hk⟩ := List.getElem?_of_mem (mem_of_mem_filterMap_code? hi)
  obtain ⟨htext, hread⟩ := Line.getElem?_of_readAll h hk
  have hline : i.line = 1 + k := Instruction.line_of_read (Line.read_eq_ok_code_iff.1 hread)
  rw [hline, Nat.add_sub_cancel_left]
  exact ⟨Nat.le_add_right 1 k, htext⟩

/-- The trailer is all lines after the header that are not accepted. -/
theorem trailer_of_readAll : (ofReadLines lines).trailer =
    (((texts.drop (ofReadLines lines).header.length).zipIdx
      ((ofReadLines lines).header.length + 1)).filter
        fun numbered => (accept? numbered).isNone).map (·.1) := by
  have hrest := Line.readAll_drop h (ofReadLines lines).header.length
  rw [Nat.add_comm, Line.filter_accept?_of_readAll hrest, ← dropWhile_isProse_eq_drop]
  rfl

/-- Lines that were read are sorted into the segments of a listing. -/
theorem segmented_of_readAll : Segmented texts (ofReadLines lines) where
  header_initial := header_isPrefix_of_readAll h
  header_refused _ _ := read_eq_none_of_header h
  header_longest _ := exists_read_of_length_header h
  instructions_eq := (Line.filterMap_accept?_of_readAll h).symm
  instruction_place _ := place_of_mem_instructions h
  line_ascending := (Line.numbered_of_readAll h).pairwise_line
  trailer_eq := trailer_of_readAll h

end Read

/-- The segments of a listing hold exactly its lines: the header is the longest run
at the start without an instruction, the instructions are the accepted lines with
their numbers, and the trailer is what remains.  No other lines give the same
listing. -/
theorem segmentation_exact_and_lossless {texts : List Text} {l : Listing}
    (h : ofLines texts = .ok l) :
    Segmented texts l ∧ ∀ texts', ofLines texts' = .ok l → texts' = texts := by
  obtain ⟨lines, hlines, rfl⟩ := ofLines_eq_ok_iff.1 h
  refine ⟨segmented_of_readAll hlines, ?_⟩
  intro texts' h'
  obtain ⟨lines', hlines', heq⟩ := ofLines_eq_ok_iff.1 h'
  have hprose : lines'.filterMap Line.prose? = lines.filterMap Line.prose? := by
    rw [← header_append_trailer_ofReadLines, ← header_append_trailer_ofReadLines, heq]
  have hcode : lines'.filterMap Line.code? = lines.filterMap Line.code? :=
    congrArg Listing.instructions heq.symm
  have hsame : lines' = lines :=
    (Line.numbered_of_readAll hlines').eq_of_filterMap_eq (Line.numbered_of_readAll hlines)
      hcode hprose
  rw [← Line.map_toText_of_readAll hlines', ← Line.map_toText_of_readAll hlines, hsame]

/-- Lines of which some stand between the instructions and after them. -/
def sampleLines : List Text :=
  ["; fw".toList, "0x8: 6f j -8".toList, "note".toList, "0x0: 13 nop".toList, [], "end".toList]

theorem segmentation_exact_and_lossless_sample :
    ∃ l, ofLines sampleLines = .ok l ∧ Segmented sampleLines l ∧
      (∀ texts', ofLines texts' = .ok l → texts' = sampleLines) ∧
      l.instructions.map Instruction.line = [2, 4] ∧
      l.trailer = ["note".toList, [], "end".toList] := by
  obtain ⟨l, hl⟩ : ∃ l, ofLines sampleLines = .ok l := ⟨_, rfl⟩
  obtain ⟨hsegmented, hlossless⟩ := segmentation_exact_and_lossless hl
  refine ⟨l, hl, hsegmented, hlossless, ?_⟩
  obtain rfl := Except.ok.inj hl
  decide +kernel

end Listing

end BranchLabels
