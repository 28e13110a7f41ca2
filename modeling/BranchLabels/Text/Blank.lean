import BranchLabels.Text.Basic

/-!
# Blank characters

Fields of a listing are divided by blank characters: those with the Unicode
property White_Space.  The property is a table of ranges of code points.

Main results:

- Theorem `isBlank_of_isWhitespace`: each of the usual four blanks is in the
  table.
- Theorem `takeWhile_append_trim`: trimming only takes blanks off the ends.
-/

namespace BranchLabels

namespace Text

/-- The ranges of code points with the property White_Space, in ascending order
and both ends included. -/
def blankRanges : List (Nat × Nat) :=
  [(0x9, 0xD), (0x20, 0x20), (0x85, 0x85), (0xA0, 0xA0), (0x1680, 0x1680),
    (0x2000, 0x200A), (0x2028, 0x2029), (0x202F, 0x202F), (0x205F, 0x205F),
    (0x3000, 0x3000)]

/-- Whether a character is blank. -/
def isBlank (c : Char) : Bool :=
  blankRanges.any fun range => range.1 ≤ c.toNat && c.toNat ≤ range.2

/-- The table has twenty-five characters. -/
example : (blankRanges.map fun range => range.2 + 1 - range.1).sum = 25 := by
  decide

/-- Each of the usual four blanks is in the table. -/
theorem isBlank_of_isWhitespace {c : Char} (h : c.isWhitespace = true) :
    isBlank c = true := by
  simp only [Char.isWhitespace, Bool.or_eq_true, decide_eq_true_eq] at h
  rcases h with ((rfl | rfl) | rfl) | rfl <;> decide

/-! ## Trimming -/

/-- A text less the blanks at its start. -/
def trimStart (t : Text) : Text :=
  t.dropWhile isBlank

/-- A text less the blanks at its end. -/
def trimEnd (t : Text) : Text :=
  (t.reverse.dropWhile isBlank).reverse

/-- The blanks at the end of a text. -/
def blankEnd (t : Text) : Text :=
  (t.reverse.takeWhile isBlank).reverse

/-- A text less the blanks at both ends. -/
def trim (t : Text) : Text :=
  trimEnd (trimStart t)

/-- Trimming the end takes off exactly the blanks there. -/
@[simp] theorem trimEnd_append_blankEnd (t : Text) :
    trimEnd t ++ blankEnd t = t := by
  rw [trimEnd, blankEnd, ← List.reverse_append, List.takeWhile_append_dropWhile,
    List.reverse_reverse]

/-- A text is the blanks at its start, the trimmed text and blanks again. -/
theorem takeWhile_append_trim (t : Text) :
    t.takeWhile isBlank ++ (trim t ++ blankEnd (trimStart t)) = t := by
  rw [trim, trimEnd_append_blankEnd, trimStart, List.takeWhile_append_dropWhile]

end Text

end BranchLabels
