import BranchLabels.Instruction
import BranchLabels.SortedMap

/-!
# Listings

A listing is what stands before its first instruction, its instructions, and
all other lines after the first instruction.  Lines of the form `; key=value`
outside of the instructions describe the listing.

Main results:

- Theorem `Line.length_readAll`: each line of the text is read as one line.
-/

namespace BranchLabels

/-! ## Lines -/

/-- A line of a listing: an instruction or any other text. -/
inductive Line where
  | code (i : Instruction)
  | prose (t : Text)
  deriving DecidableEq

namespace Line

/-- Whether a line is no instruction. -/
def isProse : Line → Bool
  | .code _ => false
  | .prose _ => true

/-- The instruction of a line. -/
def code? : Line → Option Instruction
  | .code i => some i
  | .prose _ => none

/-- The text of a line that is no instruction. -/
def prose? : Line → Option Text
  | .code _ => none
  | .prose t => some t

/-- Read the line with a given number. -/
def read (number : Nat) (text : Text) : Except ListingError Line :=
  match Instruction.read number text with
  | .ok (some i) => .ok (.code i)
  | .ok none => .ok (.prose text)
  | .error e => .error e

/-- Read lines, the first of which has a given number.  The first line that is
refused decides. -/
def readAll : Nat → List Text → Except ListingError (List Line)
  | _, [] => .ok []
  | number, text :: texts =>
      match read number text with
      | .error e => .error e
      | .ok line =>
          match readAll (number + 1) texts with
          | .error e => .error e
          | .ok lines => .ok (line :: lines)

/-- Each text is read as one line. -/
theorem length_readAll {number : Nat} {texts : List Text} {lines : List Line}
    (h : readAll number texts = .ok lines) : lines.length = texts.length := by
  induction texts generalizing number lines with
  | nil => cases h; rfl
  | cons text texts ih =>
      rw [readAll] at h
      split at h
      · cases h
      · split at h
        · cases h
        · next hrest => cases h; simp [ih hrest]

end Line

/-! ## Segments -/

/-- A listing in three segments. -/
structure Listing where
  /-- The lines before the first instruction. -/
  header : List Text := []
  instructions : List Instruction := []
  /-- The lines after the first instruction that are no instructions. -/
  trailer : List Text := []
  deriving DecidableEq

namespace Listing

/-- Sort lines into segments. -/
def ofReadLines (lines : List Line) : Listing where
  header := (lines.takeWhile Line.isProse).filterMap Line.prose?
  instructions := lines.filterMap Line.code?
  trailer := (lines.dropWhile Line.isProse).filterMap Line.prose?

/-- The listing of a list of lines, numbered from one. -/
def ofLines (texts : List Text) : Except ListingError Listing :=
  (Line.readAll 1 texts).map ofReadLines

/-- The listing of a text. -/
def ofText (text : Text) : Except ListingError Listing :=
  ofLines (Text.lines text)

/-! ## Metadata -/

/-- The pair in a line `; key=value`.  Blanks around the line, the key and the
value do not count; a key is not empty and has no blanks inside. -/
def metadataPair? (line : Text) : Option (Text × Text) :=
  match Text.trim line with
  | ';' :: body =>
      match Text.cutAtFirst? '=' body with
      | none => none
      | some (key, value) =>
          let key := Text.trim key
          if key = [] ∨ key.any Text.isBlank then none
          else some (key, Text.trim value)
  | _ => none

/-- What a listing says about itself, by key; of several values for a key the
last one counts. -/
def metadata (l : Listing) : SortedMap Text Text :=
  SortedMap.ofList ((l.header ++ l.trailer).filterMap metadataPair?)

end Listing

end BranchLabels
